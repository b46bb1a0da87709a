import NexusNode.Staking.Removal

/-!
# What a failed hook leaves behind

The hook loop drops the error of a hook, but not what the hook wrote before the error. Every
hook is undisturbed by its own failure in the states that `HookSettles` describes, and in no
others: either the SDK accepts all calls of the hook, or it refuses the first call that would
have changed something. From this the whole loop follows: it does what the hooks that returned
nil do on their own exactly when every hook settles in the state it runs in.

An `unjail` with a target mints before it unjails, so a refused unjailing leaves the minted
coins behind. An `add_validator` whose `min_self_delegation` is not positive never stores the
validator, so the delegation behind the mint is refused every time.

## Main definitions

* `Grows s t`: accounts, validator records and coins of `s` are still there in `t`
* `UnjailStopsEarly`, `AddStopsEarly`: the first call that would change something is refused
* `HookSettles`: all calls are accepted, or the hook stops early

## Main results

* `SdkBase.effect_grows`: no call other than a burn takes anything back
* `undisturbed_performHook_iff`: a hook is undisturbed exactly when it settles
* `hookLoop_eq_performed_iff`: the loop and the hooks that returned nil
-/

namespace NexusNode

open Program Proc

/-! ## Nothing is taken back -/

/-- Accounts and validator records stay, and no coin is destroyed. -/
structure Grows (s t : AppState) : Prop where
  accounts : ∀ a, s.auth.hasAccount a → t.auth.hasAccount a
  validators : ∀ a, (s.staking.validators.lookup a).isSome →
    (t.staking.validators.lookup a).isSome
  supply : ∀ d, s.bank.supply d ≤ t.bank.supply d

theorem Grows.refl (s : AppState) : Grows s s := ⟨fun _ h => h, fun _ h => h, fun _ => le_rfl⟩

theorem Auth.hasAccount_ensureAccount {s : Auth} {b : AccAddress} (a : AccAddress)
    (h : s.hasAccount b) : (s.ensureAccount a).hasAccount b := by
  unfold ensureAccount
  split_ifs
  · exact h
  · exact isSome_lookup_insert _ _ h

theorem Auth.hasAccount_ensureAccount_self (s : Auth) (a : AccAddress) :
    (s.ensureAccount a).hasAccount a := by
  unfold ensureAccount
  split_ifs with h
  · exact h
  · simp [hasAccount, newAccount]

theorem Auth.ensureAccount_of_hasAccount {s : Auth} {a : AccAddress} (h : s.hasAccount a) :
    s.ensureAccount a = s := if_pos h

theorem Grows.ensureAccount (s : AppState) (a : AccAddress) :
    Grows s { s with auth := s.auth.ensureAccount a } where
  accounts _ h := Auth.hasAccount_ensureAccount a h
  validators _ h := h
  supply _ := le_rfl

/-- No call other than a burn takes an account, a record or a coin away. -/
theorem SdkBase.effect_grows (b : SdkBase) {c : SdkCall} (hc : c.isBurn = false) (s : AppState) :
    Grows s (b.effect c s) := by
  cases c with
  | burnCoins pool c => cases hc
  | mintCoins pool c =>
    refine ⟨fun _ h => h, fun _ h => h, ?_⟩
    intro d
    simp only [effect, Bank.mintCoins]
    split_ifs <;> omega
  | sendCoinsFromModuleToAccount pool dst c =>
    exact ⟨fun _ h => Auth.hasAccount_ensureAccount dst h, fun _ h => h, fun _ => le_rfl⟩
  | delegate d a c =>
    simp only [effect]
    split
    · exact .refl s
    · refine ⟨fun _ h => h, fun _ h => isSome_lookup_insert _ _ h, ?_⟩
      intro d'
      simp only [Bank.sendCoins_supply, b.distributionHooks_supply]
      exact le_rfl
  | setValidator v => exact ⟨fun _ h => h, fun _ h => isSome_lookup_insert _ _ h, fun _ => le_rfl⟩
  | setValidatorByConsAddr v =>
    simp only [effect]
    split
    · exact ⟨fun _ h => h, fun _ h => h, fun _ => le_rfl⟩
    · exact .refl s
  | unjail a =>
    simp only [effect]
    split
    · exact .refl s
    · exact ⟨fun _ h => h, fun _ h => isSome_lookup_insert _ _ h, fun _ => le_rfl⟩
  | _ => exact ⟨fun _ h => h, fun _ h => h, fun _ => le_rfl⟩

theorem Performs.grows {sdk : Sdk} {c : Step AppState String}
    (h : Performs sdk (·.isBurn = false) c) (t : AppState) : Grows t (c.effect t) := by
  rcases h t with hsame | ⟨a, hsame⟩ | ⟨call, hcall, hsame⟩ <;> rw [hsame]
  · exact .refl t
  · exact .ensureAccount t a
  · exact sdk.effect_grows hcall t

/-! ## Unjailing -/

section Lasting

variable {sdk : Sdk} {ctx : BlockContext} {s : AppState} {cs : List (Step AppState String)}

/-- A mint lasts: the supply stays above what it was. -/
theorem lasting_mint {pool text : String} {c : Coin} (hc : 0 < c.amount) (f : String → String)
    (hcs : ∀ d ∈ cs, Performs sdk (·.isBurn = false) d) :
    Lasting ((sdk.step ctx text (.mintCoins pool c)).wrap f :: cs) s := by
  -- the fact that lasts: there are more coins than at the start
  refine .inr ⟨fun t => s.bank.supply c.denom < t.bank.supply c.denom, lt_irrefl _, ?_, ?_⟩
  · simp only [Step.wrap_effect, Sdk.step, SdkBase.effect, Bank.mintCoins, if_pos]
    omega
  · intro d hd t ht
    exact ht.trans_le (((hcs d hd).grows t).supply c.denom)

theorem additionalTokens_pos {v : Validator} {target : ℤ} (h : v.tokens.getD 0 < target) :
    0 < (additionalTokens v target).amount := by
  simp only [additionalTokens]
  omega

/-- A top-up lasts, whatever calls other than a burn come behind it. -/
theorem lasting_topUpSteps (valAddr : ValAddress) (v : Validator) (target : ℤ)
    (f : String → String) (hcs : ∀ d ∈ cs, Performs sdk (·.isBurn = false) d) (hl : Lasting cs s) :
    Lasting ((topUpSteps sdk ctx valAddr v target).map (Step.wrap f) ++ cs) s := by
  have hperforms := performs_topUpSteps sdk ctx valAddr v target f
  unfold topUpSteps at hperforms ⊢
  split_ifs at hperforms ⊢ with hdue
  · -- the first call of a top-up that is due is its mint
    apply lasting_mint (additionalTokens_pos hdue)
    intro d hd
    rcases List.mem_append.mp hd with hd | hd
    · exact (hperforms d (List.mem_cons_of_mem _ hd)).mono fun call hcall =>
        SdkCall.isBurn_of_isPlain call (SdkCall.isPlain_of_isTopUp hcall)
    · exact hcs d hd
  · exact hl

end Lasting

variable (sdk : Sdk) (ctx : BlockContext)

/-- Clearing the jail time touches the slashing state only. -/
theorem clearJailStep_effect (consAddr : ConsAddress) (s : AppState) :
    (clearJailStep sdk ctx consAddr).effect s =
      { s with slashing := ((clearJailStep sdk ctx consAddr).effect s).slashing } := by
  unfold clearJailStep Step.reading
  simp only
  split <;> rfl

theorem effect_unjail_slashing (valAddr : ValAddress) (s : AppState) :
    (sdk.effect (.unjail valAddr) s).slashing = s.slashing := by
  simp only [SdkBase.effect]
  split <;> rfl

theorem lasting_releaseSteps (valAddr : ValAddress) (v : Validator) (s : AppState) :
    Lasting (releaseSteps sdk ctx valAddr v) s := by
  unfold releaseSteps
  split
  next consAddr _ =>
    by_cases h : (clearJailStep sdk ctx consAddr).effect s = s
    · exact .inl ⟨h, lasting_singleton _ s⟩
    · -- the new signing info lasts: unjailing does not touch the slashing state
      refine .inr ⟨fun t => t.slashing ≠ s.slashing, fun hs => hs rfl, ?_, ?_⟩
      · intro hs
        apply h
        rw [clearJailStep_effect, hs]
      · intro d hd t ht
        obtain rfl := List.mem_singleton.mp hd
        rwa [Sdk.step, effect_unjail_slashing]
  · exact lasting_singleton _ s

theorem lasting_unjailSteps (valAddr : ValAddress) (v : Validator) (target : Option ℤ)
    (s : AppState) : Lasting (unjailSteps sdk ctx valAddr v target) s := by
  have hrelease := lasting_releaseSteps sdk ctx valAddr v s
  cases target with
  | none => exact hrelease
  | some target =>
    refine lasting_topUpSteps valAddr v target _ ?_ hrelease
    intro d hd
    exact (performs_unjailSteps sdk ctx valAddr v none d hd).mono SdkCall.isBurn_of_isPlain

/-- The first call behind the top-up that would change something is refused. Where the jail
time is as the hook would set it, the update of the signing info changes nothing, and that call
is the unjailing itself. -/
def ReleaseStopsEarly (valAddr : ValAddress) (v : Validator) (s : AppState) : Prop :=
  match sdk.getConsAddr v with
  | .error _ => True
  | .ok consAddr =>
    match sdk.getValidatorSigningInfo ctx consAddr s with
    | .error _ => True
    | .ok info =>
      (sdk.refuse ctx (.setValidatorSigningInfo consAddr (clearedInfo ctx info)) s).isSome ∨
        clearedInfo ctx info = info ∧ (sdk.refuse ctx (.unjail valAddr) s).isSome

/-- The first call of an unjailing that would change something is refused: the mint, when a
top-up is due. -/
def UnjailStopsEarly (valAddr : ValAddress) (v : Validator) (target : Option ℤ)
    (s : AppState) : Prop :=
  match target.filter (v.tokens.getD 0 < ·) with
  | some target =>
    (sdk.refuse ctx (.mintCoins bondedPoolName (additionalTokens v target)) s).isSome
  | none => ReleaseStopsEarly sdk ctx valAddr v s

/-- Writing a signing info changes nothing exactly when it is already stored. -/
theorem effect_setSigningInfo_eq_self_iff {c : ConsAddress} {s : AppState}
    {info new : ValidatorSigningInfo} (h : s.slashing.signingInfos.lookup c = some info) :
    sdk.effect (.setValidatorSigningInfo c new) s = s ↔ new = info := by
  constructor
  · intro heq
    have hlookup := congrArg (fun t => t.slashing.signingInfos.lookup c) heq
    simp only [SdkBase.effect, Finmap.lookup_insert, h] at hlookup
    exact Option.some.inj hlookup
  · rintro rfl
    simp only [SdkBase.effect, insert_of_lookup h]

theorem traceless_releaseSteps_iff (valAddr : ValAddress) (v : Validator) (s : AppState) :
    Traceless (releaseSteps sdk ctx valAddr v) s ↔ ReleaseStopsEarly sdk ctx valAddr v s := by
  unfold releaseSteps ReleaseStopsEarly
  cases sdk.getConsAddr v with
  | error e => simp [Traceless, Step.refusal]
  | ok consAddr =>
    cases hread : sdk.getValidatorSigningInfo ctx consAddr s with
    | error e => simp [Traceless, clearJailStep, Step.reading, hread, Except.mapError]
    | ok info =>
      -- with the info at hand the step is one call, which changes nothing on a cleared info
      have heffect : (clearJailStep sdk ctx consAddr).effect s =
          sdk.effect (.setValidatorSigningInfo consAddr (clearedInfo ctx info)) s := by
        simp [clearJailStep, Step.reading, hread, Except.mapError, Sdk.step]
      have hrefuse : (clearJailStep sdk ctx consAddr).refuse s = (sdk.refuse ctx
          (.setValidatorSigningInfo consAddr (clearedInfo ctx info)) s).map
            ("failed to update signing info: " ++ ·) := by
        simp [clearJailStep, Step.reading, hread, Except.mapError, Sdk.step]
      have hlookup := (Sdk.getValidatorSigningInfo_eq_ok_iff.mp hread).2
      simp only [Traceless, hrefuse, heffect, effect_setSigningInfo_eq_self_iff sdk hlookup]
      simp [Sdk.step, hread, Option.isSome_iff_ne_none]

/-- A top-up that is due is traceless only where its mint is refused. -/
theorem traceless_topUpSteps_iff {v : Validator} {target : ℤ} (hdue : v.tokens.getD 0 < target)
    (valAddr : ValAddress) (f : String → String) (cs : List (Step AppState String))
    (s : AppState) :
    Traceless ((topUpSteps sdk ctx valAddr v target).map (Step.wrap f) ++ cs) s ↔
      (sdk.refuse ctx (.mintCoins bondedPoolName (additionalTokens v target)) s).isSome := by
  have hne : sdk.effect (.mintCoins bondedPoolName (additionalTokens v target)) s ≠ s := by
    intro h
    have hsupply := congrArg (fun t => t.bank.supply defaultBondDenom) h
    have hpos := additionalTokens_pos hdue
    simp only [SdkBase.effect, Bank.mintCoins, additionalTokens, if_pos] at hsupply hpos
    omega
  unfold topUpSteps
  rw [if_pos hdue, List.map_cons, List.cons_append, traceless_cons_iff_of_ne hne]
  simp [Sdk.step, Option.isSome_iff_ne_none]

theorem traceless_unjailSteps_iff (valAddr : ValAddress) (v : Validator) (target : Option ℤ)
    (s : AppState) : Traceless (unjailSteps sdk ctx valAddr v target) s ↔
      UnjailStopsEarly sdk ctx valAddr v target s := by
  unfold unjailSteps UnjailStopsEarly
  cases target with
  | none => exact traceless_releaseSteps_iff sdk ctx valAddr v s
  | some target =>
    by_cases hdue : v.tokens.getD 0 < target
    · simp only [restoreSteps, traceless_topUpSteps_iff sdk ctx hdue, Option.filter, hdue,
        decide_true, if_true]
    · simp only [restoreSteps, topUpSteps, Option.filter, hdue, decide_false]
      exact traceless_releaseSteps_iff sdk ctx valAddr v s

/-- An unjailing is undisturbed exactly when all its calls are accepted or it stops early. -/
theorem undisturbed_executeUnjailing_iff {valAddr : ValAddress} {v : Validator} {s : AppState}
    (h : s.staking.validators.lookup valAddr = some v) (target : Option ℤ) :
    Undisturbed (executeUnjailing sdk ctx valAddr target) s ↔
      Accepts (unjailSteps sdk ctx valAddr v target) s ∨
        UnjailStopsEarly sdk ctx valAddr v target s := by
  rw [← traceless_unjailSteps_iff, ← runSteps_undisturbed_iff (lasting_unjailSteps ..)]
  unfold Undisturbed
  rw [executeUnjailing_eq sdk ctx h]

/-! ## Adding a validator -/

/-- The first call of `createValidator` that would change something is refused. That takes an
operator with an account. It is the call that stores the record, or, where
`min_self_delegation` is not positive, the mint. -/
def AddStopsEarly (valAddr : ValAddress) (pubKey : PubKey) (initialTokens : ℤ)
    (minSelfDelegation : Option ℤ) (s : AppState) : Prop :=
  s.auth.hasAccount valAddr ∧ ((∃ e, sdk.newAnyWithValue pubKey = .error e) ∨
    match minSelfDelegation.filter (0 < ·) with
    | some n => (sdk.refuse ctx (.setValidator (storedValidator valAddr pubKey n)) s).isSome
    | none => (sdk.refuse ctx (.mintCoins bondedPoolName
        (additionalTokens (newValidator valAddr pubKey) initialTokens)) s).isSome)

theorem performs_createSteps_isBurn (valAddr : ValAddress) (pubKey : PubKey) (initialTokens : ℤ)
    (n : Option ℤ) : ∀ c ∈ createSteps sdk ctx valAddr pubKey initialTokens n,
      Performs sdk (·.isBurn = false) c := by
  intro c hc
  refine (performs_createSteps sdk ctx valAddr pubKey initialTokens n c hc).mono ?_
  rintro call (hplain | ⟨m, rfl⟩)
  · exact SdkCall.isBurn_of_isPlain call hplain
  · rfl

theorem effect_accountStep_of_hasAccount {valAddr : ValAddress} {s : AppState}
    (h : s.auth.hasAccount valAddr) : (accountStep valAddr).effect s = s := by
  simp only [accountStep, Auth.ensureAccount_of_hasAccount h]

theorem isSome_lookup_setValidator (v : Validator) (s : AppState) :
    ((sdk.effect (.setValidator v) s).staking.validators.lookup v.operatorAddress).isSome := by
  simp [SdkBase.effect]

theorem lasting_createSteps {valAddr : ValAddress} {s : AppState}
    (h : s.staking.validators.lookup valAddr = none) (pubKey : PubKey) (initialTokens : ℤ)
    (n : Option ℤ) : Lasting (createSteps sdk ctx valAddr pubKey initialTokens n) s := by
  have hperforms := performs_createSteps_isBurn sdk ctx valAddr pubKey initialTokens n
  cases hacc : s.auth.hasAccount valAddr with
  | false =>
    refine .inr ⟨fun t => t.auth.hasAccount valAddr, by simp [hacc],
      Auth.hasAccount_ensureAccount_self _ _, ?_⟩
    intro d hd t ht
    exact ((hperforms d (List.mem_cons_of_mem _ hd)).grows t).accounts valAddr ht
  | true =>
    refine .inl ⟨effect_accountStep_of_hasAccount hacc, .inl ⟨Step.check_effect _ s, ?_⟩⟩
    rcases persistSteps_cases sdk ctx valAddr pubKey n with ⟨-, hnil⟩ | ⟨m, cs, -, hcons, -⟩
    · rw [hnil, List.nil_append, ← List.append_nil (List.map _ _)]
      exact lasting_topUpSteps _ _ _ _ (by simp) trivial
    · -- the stored record lasts
      simp only [createSteps, hcons, List.cons_append, List.forall_mem_cons] at hperforms
      obtain ⟨-, -, -, hrest⟩ := hperforms
      rw [hcons]
      refine .inr ⟨fun t => (t.staking.validators.lookup valAddr).isSome, by simp [h],
        isSome_lookup_setValidator sdk (storedValidator valAddr pubKey m) s, ?_⟩
      intro d hd t ht
      exact ((hrest d hd).grows t).validators valAddr ht

theorem traceless_createSteps_iff {valAddr : ValAddress} {s : AppState}
    (h : s.staking.validators.lookup valAddr = none) {initialTokens : ℤ}
    (htokens : 0 < initialTokens) (pubKey : PubKey) (n : Option ℤ) :
    Traceless (createSteps sdk ctx valAddr pubKey initialTokens n) s ↔
      AddStopsEarly sdk ctx valAddr pubKey initialTokens n s := by
  unfold AddStopsEarly createSteps
  cases hacc : s.auth.hasAccount valAddr with
  | false =>
    have hne : (accountStep valAddr).effect s ≠ s := by
      intro heq
      have hauth : s.auth.ensureAccount valAddr = s.auth := congrArg AppState.auth heq
      have hself := Auth.hasAccount_ensureAccount_self s.auth valAddr
      rw [hauth, hacc] at hself
      cases hself
    rw [traceless_cons_iff_of_ne hne]
    simp [accountStep]
  | true =>
    have haccount := effect_accountStep_of_hasAccount hacc
    have hbuild : (buildStep sdk pubKey).refuse s ≠ none ↔
        ∃ e, sdk.newAnyWithValue pubKey = .error e := by
      unfold buildStep Step.check Step.reading
      cases sdk.newAnyWithValue pubKey <;> simp [Except.mapError]
    simp only [Traceless, haccount, true_and, Step.check_effect, buildStep] at hbuild ⊢
    rw [hbuild]
    simp only [accountStep, ne_eq, not_true_eq_false, false_or]
    refine or_congr_right ?_
    rcases persistSteps_cases sdk ctx valAddr pubKey n with
      ⟨hfilter, hnil⟩ | ⟨m, cs, hfilter, hcons, -⟩
    · rw [hfilter, hnil, List.nil_append, ← List.append_nil (List.map _ _)]
      exact traceless_topUpSteps_iff sdk ctx htokens valAddr _ [] s
    · have hne : sdk.effect (.setValidator (storedValidator valAddr pubKey m)) s ≠ s := by
        intro heq
        have hstored := isSome_lookup_setValidator sdk (storedValidator valAddr pubKey m) s
        rw [heq] at hstored
        change (s.staking.validators.lookup valAddr).isSome at hstored
        rw [h] at hstored
        cases hstored
      rw [hfilter, hcons, List.cons_append, traceless_cons_iff_of_ne hne]
      simp [Sdk.step, Option.isSome_iff_ne_none]

/-- Adding a missing validator is undisturbed exactly when all calls are accepted or it stops
early. -/
theorem undisturbed_executeAddValidator_iff {valAddr : ValAddress} {s : AppState}
    (h : s.staking.validators.lookup valAddr = none) {opts : Option AddValidatorOptions}
    {pubKey : PubKey} {n : ℤ} (hopts : usableOptions opts = some (pubKey, n)) :
    Undisturbed (executeAddValidator sdk ctx valAddr opts) s ↔
      Accepts (createSteps sdk ctx valAddr pubKey n (opts.bind (·.minSelfDelegation))) s ∨
        AddStopsEarly sdk ctx valAddr pubKey n (opts.bind (·.minSelfDelegation)) s := by
  rw [← traceless_createSteps_iff sdk ctx h (usableOptions_pos hopts),
    ← runSteps_undisturbed_iff (lasting_createSteps sdk ctx h ..)]
  unfold Undisturbed
  rw [executeAddValidator_eq sdk ctx h hopts]

/-! ## Hooks -/

/-- **When a hook settles.** All its calls are accepted, or it stops before it changed
anything. A removal panics on a refused call, and a reconciliation drops its errors, so both
settle always. -/
def HookSettles (hook : BlockHook) (s : AppState) : Prop :=
  match hook.action, hook.params with
  | .unjail, .unjail validator targetTokens =>
    ∀ a, sdk.valAddressFromBech32 validator = .ok a → ∀ v,
      s.staking.validators.lookup a = some v →
      Accepts (unjailSteps sdk ctx a v (targetTokens.filter (0 < ·))) s ∨
        UnjailStopsEarly sdk ctx a v (targetTokens.filter (0 < ·)) s
  | .addValidator, .addValidator validator opts =>
    ∀ a, sdk.valAddressFromBech32 validator = .ok a → ∀ pubKey n,
      s.staking.validators.lookup a = none → usableOptions opts = some (pubKey, n) →
      Accepts (createSteps sdk ctx a pubKey n (opts.bind (·.minSelfDelegation))) s ∨
        AddStopsEarly sdk ctx a pubKey n (opts.bind (·.minSelfDelegation)) s
  | _, _ => True

theorem undisturbed_performUnjailHook_iff (validator : String) (target : Option ℤ)
    (s : AppState) :
    Undisturbed (performUnjailHook sdk ctx (.unjail validator target)) s ↔
      HookSettles sdk ctx ⟨0, .unjail, .unjail validator target⟩ s := by
  refine undisturbed_ask_bind_iff.trans ?_
  refine forall₂_congr fun a _ => ?_
  cases hv : s.staking.validators.lookup a with
  | none =>
    obtain ⟨e, he⟩ := executeUnjailing_of_missing sdk ctx hv (target.filter (0 < ·))
    simp [undisturbed_iff_of_error he]
  | some v => simp [undisturbed_executeUnjailing_iff sdk ctx hv]

theorem undisturbed_performAddValidatorHook_iff (validator : String)
    (opts : Option AddValidatorOptions) (s : AppState) :
    Undisturbed (performAddValidatorHook sdk ctx (.addValidator validator opts)) s ↔
      HookSettles sdk ctx ⟨0, .addValidator, .addValidator validator opts⟩ s := by
  refine undisturbed_ask_bind_iff.trans ?_
  refine forall₂_congr fun a _ => ?_
  cases hv : s.staking.validators.lookup a with
  | some v => simp [undisturbed_of_ok (executeAddValidator_of_lookup sdk ctx hv opts)]
  | none =>
    cases hopts : usableOptions opts with
    | none =>
      obtain ⟨e, he⟩ := executeAddValidator_of_unusable sdk ctx hv hopts
      simp [undisturbed_iff_of_error he]
    | some usable =>
      obtain ⟨pubKey, n⟩ := usable
      simp [undisturbed_executeAddValidator_iff sdk ctx hv hopts]

/-- **What a failed hook leaves behind.** An error of a hook changes nothing exactly where the
hook settles. -/
theorem undisturbed_performHook_iff (hook : BlockHook) (s : AppState) :
    Undisturbed (performHook sdk ctx hook) s ↔ HookSettles sdk ctx hook s := by
  obtain ⟨block, action, params⟩ := hook
  cases action with
  | unjail =>
    cases params with
    | unjail validator target => exact undisturbed_performUnjailHook_iff sdk ctx validator target s
    | _ => exact iff_of_true (undisturbed_fail _ s) trivial
  | addValidator =>
    cases params with
    | addValidator validator opts =>
      exact undisturbed_performAddValidatorHook_iff sdk ctx validator opts s
    | _ => exact iff_of_true (undisturbed_fail _ s) trivial
  | removeValidator =>
    cases params with
    | removeValidator validator opts =>
      refine iff_of_true (undisturbed_ask_bind_iff.mpr fun a _ => ?_) trivial
      exact undisturbed_of_neverFails (neverFails_executeRemoveValidator sdk ctx a opts) s
    | _ => exact iff_of_true (undisturbed_fail _ s) trivial
  | reconcileStakingPools =>
    cases params with
    | reconcileStakingPools =>
      exact iff_of_true
        (undisturbed_of_neverFails (neverFails_executeReconcileStakingPools sdk ctx) s) trivial
    | _ => exact iff_of_true (undisturbed_fail _ s) trivial
  | other name => exact iff_of_true (undisturbed_fail _ s) trivial

/-! ## The hook loop -/

theorem hookLoop_eq_tryEach (hooks : List BlockHook) :
    hookLoop sdk ctx hooks = tryEach (performHook sdk ctx) hooks := by
  induction hooks with
  | nil => rfl
  | cons hook hooks ih => rw [hookLoop, tryEach, ih]

/-- **The hook loop and the hooks that returned nil.** A hook loop that returns leaves, up to
every point, the state that the hooks among them that returned nil leave on their own, exactly
when each hook settles in the state it runs in; and that is when every hook that fails leaves
the state as it was. -/
theorem hookLoop_eq_performed_iff (hooks : List BlockHook) (s : AppState)
    (hret : (hookLoop sdk ctx hooks s).1 = .ok ()) :
    ((∀ n, (hookLoop sdk ctx (hooks.take n) s).2 =
        (hookLoop sdk ctx (succeeded (performHook sdk ctx) (hooks.take n) s) s).2) ↔
      ∀ n hook, hooks[n]? = some hook →
        HookSettles sdk ctx hook (hookLoop sdk ctx (hooks.take n) s).2) ∧
    ((∀ n hook, hooks[n]? = some hook → ∀ e t,
        performHook sdk ctx hook (hookLoop sdk ctx (hooks.take n) s).2 = (.error (.error e), t) →
          t = (hookLoop sdk ctx (hooks.take n) s).2) ↔
      ∀ n hook, hooks[n]? = some hook →
        HookSettles sdk ctx hook (hookLoop sdk ctx (hooks.take n) s).2) := by
  constructor
  · simp only [hookLoop_eq_tryEach] at hret ⊢
    rw [tryEach_eq_succeeded_iff hret]
    simp only [undisturbed_performHook_iff]
  · refine forall₃_congr fun n hook _ => ?_
    exact undisturbed_performHook_iff sdk ctx hook _

section Sample

/-- An unjailing of the second validator of the local network, which is not there. -/
def missingHook : BlockHook :=
  ⟨60, .unjail, .unjail "nexusvaloper17ze54jawc4etntrlz997wtkt8w3gwndvmehgex" none⟩

/-- An unjailing of the first validator. -/
def unjailHook : BlockHook :=
  ⟨60, .unjail, .unjail "nexusvaloper1m6jc29uar9n07mr0srspc7skjs7qvjkvw3h5kf" none⟩

theorem hookLoop_eq_performed_jailed :
    (hookLoop sampleSdk sampleBlock [missingHook, unjailHook] (sampleState true)).1 = .ok () ∧
    succeeded (performHook sampleSdk sampleBlock) [missingHook, unjailHook] (sampleState true) =
      [unjailHook] ∧
    (hookLoop sampleSdk sampleBlock [missingHook, unjailHook] (sampleState true)).2 =
      (hookLoop sampleSdk sampleBlock [unjailHook] (sampleState true)).2 := by
  have hret : (hookLoop sampleSdk sampleBlock [missingHook, unjailHook] (sampleState true)).1 =
      .ok () := by decide +kernel
  have hperformed : succeeded (performHook sampleSdk sampleBlock) [missingHook, unjailHook]
      (sampleState true) = [unjailHook] := by decide +kernel
  have hmissing : (sampleState true).staking.validators.lookup secondOperator = none := by
    decide +kernel
  refine ⟨hret, hperformed, ?_⟩
  rw [← hperformed]
  refine (hookLoop_eq_performed_iff sampleSdk sampleBlock [missingHook, unjailHook]
    (sampleState true) hret).1.mpr ?_ 2
  intro n hook hn
  match n with
  | 0 =>
    obtain rfl := Option.some.inj hn
    intro a ha v hv
    obtain rfl : secondOperator = a := Except.ok.inj ha
    exact nomatch hmissing.symm.trans hv
  | 1 =>
    obtain rfl := Option.some.inj hn
    intro a ha v hv
    obtain rfl : sampleOperator = a := Except.ok.inj ha
    obtain rfl : sampleValidator true = v := Option.some.inj hv
    exact .inl (by decide +kernel)

/-- An addition of the second validator with a `min_self_delegation` of zero. -/
def zeroSelfDelegationHook : BlockHook :=
  ⟨60, .addValidator, .addValidator "nexusvaloper17ze54jawc4etntrlz997wtkt8w3gwndvmehgex"
    (some ⟨some secondKey, some 1000000, some 0⟩)⟩

/-- The hook fails, and the million it minted stays. -/
theorem hookLoop_keeps_failed_mint :
    (hookLoop sampleSdk sampleBlock [zeroSelfDelegationHook] (sampleState false)).1 = .ok () ∧
    succeeded (performHook sampleSdk sampleBlock) [zeroSelfDelegationHook] (sampleState false) =
      [] ∧
    (hookLoop sampleSdk sampleBlock [] (sampleState false)).2.bank.supply "atnex" = 1000000 ∧
    (hookLoop sampleSdk sampleBlock [zeroSelfDelegationHook] (sampleState false)).2.bank.supply
      "atnex" = 2000000 := by
  decide +kernel

end Sample

end NexusNode
