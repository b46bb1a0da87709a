import NexusNode.Program.Run
import NexusNode.Staking.Failure

/-!
# Delegator shares along the hooks

A validator record counts the shares of all delegations to it. The counts agree with the
delegations as long as records and delegations move together, which they do in `Delegate`. Two
hooks write a record on their own: `add_validator` stores a new one with no shares, and
`remove_validator` sets the shares of a validator whose tokens it moved to zero, whatever
delegations there are. `shareGap` is the difference of the two counts. Every other call keeps
it, so what the hooks do to the accounting is what these two writes do.

## Main definitions

* `delegatedTo a s`, `shareGap s a`: the shares delegated to `a`, and the difference between
  its record and them
* `ShareAccounting s`: every record counts the shares delegated to it
* `StoresRecord`: when a hook stores a new record
* `KeepsShares`: a new record finds no delegated shares, and tokens are moved only off a record
  without shares
* `NonNegative s`: tokens and shares are not negative
* `hookStep`: the hooks that return, as steps of a run

## Main results

* `SdkBase.effect_shareGap`: what a call does to the difference
* `createSteps_shareGap`, `executeRemoveValidator_shareGap`: what the two hooks do to it that
  write a record
* `shareAccounting_performHook_iff`: when one hook keeps the accounting
* `run_shareAccounting_iff`: when the accounting survives a run of hooks
-/

namespace NexusNode

open Program Proc

/-! ## Shares and delegations -/

/-- The shares of all delegations to `a`. -/
def delegatedTo (a : ValAddress) (s : AppState) : ℤ :=
  total (fun k x => if k.2 = a then x else 0) s.staking.delegations

/-- The shares of the record of `a`, less those delegated to it. -/
def shareGap (s : AppState) (a : ValAddress) : Option ℤ :=
  (s.staking.validators.lookup a).map fun v => v.delegatorShares - delegatedTo a s

/-- Every validator counts exactly the shares of the delegations to it. -/
def ShareAccounting (s : AppState) : Prop :=
  ∀ a v, s.staking.validators.lookup a = some v → v.delegatorShares = delegatedTo a s

theorem shareAccounting_iff {s : AppState} :
    ShareAccounting s ↔ ∀ a g, shareGap s a = some g → g = 0 := by
  constructor
  · intro h a g hg
    obtain ⟨v, hv, rfl⟩ := Option.map_eq_some_iff.mp hg
    rw [h a v hv]
    omega
  · intro h a v hv
    have hgap := h a (v.delegatorShares - delegatedTo a s) (by simp [shareGap, hv])
    omega

theorem shareGap_of_lookup {s : AppState} {a : ValAddress} {v : Validator}
    (h : s.staking.validators.lookup a = some v) :
    shareGap s a = some (v.delegatorShares - delegatedTo a s) := by
  simp [shareGap, h]

/-- The differences depend on the records and the delegations only. -/
theorem shareGap_congr {s t : AppState} (hv : t.staking.validators = s.staking.validators)
    (hd : t.staking.delegations = s.staking.delegations) : shareGap t = shareGap s := by
  funext a
  unfold shareGap delegatedTo
  rw [hv, hd]

/-- Writing the shares of one delegation. -/
theorem total_delegation_insert (m : Records (AccAddress × ValAddress) ℤ) (d : AccAddress)
    (a a' : ValAddress) (x : ℤ) :
    total (fun k x => if k.2 = a' then x else 0)
        (m.insert (d, a) ((m.lookup (d, a)).getD 0 + x)) =
      total (fun k x => if k.2 = a' then x else 0) m + if a = a' then x else 0 := by
  rw [total_insert, countAt]
  by_cases h : a = a'
  · cases m.lookup (d, a) with
    | none => simp [h]
    | some y =>
      simp only [h, if_true, Option.elim_some, Option.getD_some]
      omega
  · cases m.lookup (d, a) <;> simp [h]

/-- `SetValidator` sets the difference of one validator. -/
theorem shareGap_setValidator (b : SdkBase) (v : Validator) (s : AppState) :
    shareGap (b.effect (.setValidator v) s) = Function.update (shareGap s) v.operatorAddress
      (some (v.delegatorShares - delegatedTo v.operatorAddress s)) := by
  funext a
  by_cases ha : a = v.operatorAddress
  · subst ha
    rw [Function.update_self]
    exact shareGap_of_lookup (Finmap.lookup_insert _)
  · rw [Function.update_of_ne ha]
    simp only [shareGap, SdkBase.effect, Staking.setValidator_validators,
      Finmap.lookup_insert_of_ne _ ha]
    rfl

/-- `Delegate` moves the record and the delegations together. -/
theorem shareGap_delegate (b : SdkBase) (d : AccAddress) (a : ValAddress) (c : Coin)
    (s : AppState) : shareGap (b.effect (.delegate d a c) s) = shareGap s := by
  simp only [SdkBase.effect]
  split
  · rfl
  next v hv =>
    obtain rfl := s.staking.keyed hv
    funext a'
    simp only [shareGap, delegatedTo, Staking.delegate_validators, Staking.delegate_delegations,
      total_delegation_insert]
    by_cases ha : a' = v.operatorAddress
    · -- both counts grow by the issued shares
      subst ha
      rw [Finmap.lookup_insert, hv]
      simp only [Option.map_some, if_true, Validator.addTokensFromDel]
      congr 1
      omega
    · rw [Finmap.lookup_insert_of_ne _ ha, if_neg (Ne.symm ha)]
      simp

/-- Unjailing keeps the shares of the record. -/
theorem shareGap_unjail (b : SdkBase) (a : ValAddress) (s : AppState) :
    shareGap (b.effect (.unjail a) s) = shareGap s := by
  simp only [SdkBase.effect]
  split
  · rfl
  next v hv =>
    obtain rfl := s.staking.keyed hv
    funext a'
    simp only [shareGap, delegatedTo, Staking.unjail_validators, Staking.unjail_delegations]
    by_cases ha : a' = v.operatorAddress
    · subst ha
      rw [Finmap.lookup_insert, hv]
      rfl
    · rw [Finmap.lookup_insert_of_ne _ ha]

/-- **What a call does to the accounting.** Every call other than `SetValidator` keeps the
differences. -/
theorem SdkBase.effect_shareGap (b : SdkBase) {c : SdkCall} (hc : ∀ v, c ≠ .setValidator v)
    (s : AppState) : shareGap (b.effect c s) = shareGap s := by
  cases c with
  | setValidator v => exact absurd rfl (hc v)
  | delegate d a c => exact shareGap_delegate b d a c s
  | unjail a => exact shareGap_unjail b a s
  | setValidatorByConsAddr v =>
    simp only [effect]
    split <;> rfl
  | _ => rfl

theorem SdkCall.ne_setValidator_of_isPlain {c : SdkCall} (h : c.isPlain) (v : Validator) :
    c ≠ .setValidator v := by
  rintro rfl
  cases h

theorem Performs.shareGap {sdk : Sdk} {c : Step AppState String} (h : Performs sdk (·.isPlain) c)
    (t : AppState) : shareGap (c.effect t) = NexusNode.shareGap t := by
  rcases h t with hsame | ⟨a, hsame⟩ | ⟨call, hcall, hsame⟩ <;> rw [hsame]
  · rfl
  · exact sdk.effect_shareGap (SdkCall.ne_setValidator_of_isPlain hcall) t

theorem runSteps_shareGap {sdk : Sdk} {cs : List (Step AppState String)}
    (h : ∀ c ∈ cs, Performs sdk (·.isPlain) c) (s : AppState) :
    shareGap (runSteps cs s).2 = shareGap s :=
  runSteps_keeps (P := fun t => shareGap t = shareGap s)
    (fun c hc t ht => ((h c hc).shareGap t).trans ht) rfl

variable (sdk : Sdk) (ctx : BlockContext)

/-! ## Unjailing and adding -/

theorem executeUnjailing_shareGap (valAddr : ValAddress) (target : Option ℤ) (s : AppState) :
    shareGap (executeUnjailing sdk ctx valAddr target s).2 = shareGap s :=
  executeUnjailing_induct sdk ctx (P := fun t => shareGap t = shareGap s) rfl fun v _ =>
    runSteps_shareGap (performs_unjailSteps sdk ctx valAddr v target) s

/-- The hook stores a new record: the key is packed, `min_self_delegation` is positive, and the
call that stores the record is accepted. -/
def StoresRecord (valAddr : ValAddress) (pubKey : PubKey) (minSelfDelegation : Option ℤ)
    (s : AppState) : Prop :=
  sdk.newAnyWithValue pubKey = .ok () ∧ ∃ n, minSelfDelegation.filter (0 < ·) = some n ∧
    sdk.refuse ctx (.setValidator (storedValidator valAddr pubKey n))
      { s with auth := s.auth.ensureAccount valAddr } = none

/-- The calls of `createValidator` set the difference of the new validator, if they store it,
and keep all others. -/
theorem createSteps_shareGap (valAddr : ValAddress) (pubKey : PubKey) (initialTokens : ℤ)
    (n : Option ℤ) (s : AppState) :
    (StoresRecord sdk ctx valAddr pubKey n s ∧
      shareGap (runSteps (createSteps sdk ctx valAddr pubKey initialTokens n) s).2 =
        Function.update (shareGap s) valAddr (some (0 - delegatedTo valAddr s))) ∨
    (¬ StoresRecord sdk ctx valAddr pubKey n s ∧
      shareGap (runSteps (createSteps sdk ctx valAddr pubKey initialTokens n) s).2 =
        shareGap s) := by
  have htopUp : ∀ c ∈ (topUpSteps sdk ctx valAddr (newValidator valAddr pubKey) initialTokens).map
      (Step.wrap ("failed to ensure validator balance: " ++ ·)), Performs sdk (·.isPlain) c :=
    fun c hc => (performs_topUpSteps sdk ctx valAddr _ initialTokens _ c hc).mono fun _ =>
      SdkCall.isPlain_of_isTopUp
  rw [createSteps, runSteps_cons_of_accepted (c := accountStep valAddr) rfl]
  cases hbuild : sdk.newAnyWithValue pubKey with
  | error e =>
    rw [runSteps_cons_of_refused (e := "failed to build validator: " ++ e)
      (by simp [buildStep, Step.check, Step.reading, hbuild, Except.mapError])]
    refine .inr ⟨?_, rfl⟩
    rintro ⟨hok, -⟩
    rw [hbuild] at hok
    cases hok
  | ok u =>
    rw [runSteps_cons_of_accepted
      (by simp [buildStep, Step.check, Step.reading, hbuild, Except.mapError]), buildStep,
      Step.check_effect]
    rcases persistSteps_cases sdk ctx valAddr pubKey n with
      ⟨hfilter, hnil⟩ | ⟨m, cs, hfilter, hcons, hcs⟩
    · rw [hnil, List.nil_append]
      refine .inr ⟨?_, runSteps_shareGap htopUp _⟩
      rintro ⟨-, m, hm, -⟩
      rw [hfilter] at hm
      cases hm
    · rw [hcons, List.cons_append]
      cases hstore : sdk.refuse ctx (.setValidator (storedValidator valAddr pubKey m))
          ((accountStep valAddr).effect s) with
      | some e =>
        rw [runSteps_cons_of_refused (e := "failed to persist validator: " ++ e)
          (by simp [Sdk.step, hstore])]
        refine .inr ⟨?_, rfl⟩
        rintro ⟨-, m', hm, haccept⟩
        obtain rfl := Option.some.inj (hfilter.symm.trans hm)
        rw [accountStep] at hstore
        rw [hstore] at haccept
        cases haccept
      | none =>
        rw [runSteps_cons_of_accepted (by simp [Sdk.step, hstore])]
        refine .inl ⟨⟨hbuild, m, hfilter, hstore⟩, ?_⟩
        have hrest : ∀ c ∈ cs ++ _, Performs sdk (·.isPlain) c :=
          List.forall_mem_append.mpr
            ⟨fun c hc => (hcs c hc).mono fun _ => SdkCall.isPlain_of_isRecord, htopUp⟩
        rw [runSteps_shareGap hrest]
        exact shareGap_setValidator sdk.toSdkBase (storedValidator valAddr pubKey m) _

/-! ## Removal -/

/-- Where a removal moves tokens it drops the shares of the record, and with them all that the
delegations count; otherwise it keeps the differences. -/
theorem executeRemoveValidator_shareGap {valAddr : ValAddress}
    {opts : Option RemoveValidatorOptions} {s t : AppState}
    (h : executeRemoveValidator sdk ctx valAddr opts s = (.ok (), t)) :
    ∃ v, s.staking.validators.lookup valAddr = some v ∧
      ((MovesTokens sdk v opts s ∧ shareGap t =
        Function.update (shareGap s) valAddr (some (0 - delegatedTo valAddr s))) ∨
      (¬ MovesTokens sdk v opts s ∧ shareGap t = shareGap s)) := by
  obtain ⟨v, moved, hv, hmoved, hvalidators, hdelegations⟩ :=
    executeRemoveValidator_records sdk ctx h
  obtain rfl := s.staking.keyed hv
  refine ⟨v, hv, ?_⟩
  have hset := shareGap_setValidator sdk.toSdkBase (removedRecord v moved) s
  rw [removedRecord_operatorAddress] at hset
  have hgap : shareGap t = shareGap (sdk.effect (.setValidator (removedRecord v moved)) s) := by
    apply shareGap_congr
    · rw [hvalidators, ← removedRecord_operatorAddress v moved]
      rfl
    · exact hdelegations
  cases moved with
  | true => exact .inl ⟨hmoved.mp rfl, hgap.trans hset⟩
  | false =>
    -- writing back a record with the same shares sets its difference to what it was
    refine .inr ⟨fun hm => (nomatch hmoved.mpr hm), (hgap.trans hset).trans ?_⟩
    change Function.update (shareGap s) v.operatorAddress
      (some (v.delegatorShares - delegatedTo v.operatorAddress s)) = shareGap s
    rw [← shareGap_of_lookup hv, Function.update_eq_self]

/-! ## Hooks -/

/-- **When a hook keeps the accounting.** A record is stored only for a validator without
delegated shares, and tokens are moved only off a record without shares. -/
def KeepsShares (hook : BlockHook) (s : AppState) : Prop :=
  match hook.action, hook.params with
  | .addValidator, .addValidator validator opts =>
    ∀ a, sdk.valAddressFromBech32 validator = .ok a → ∀ pubKey n,
      s.staking.validators.lookup a = none → usableOptions opts = some (pubKey, n) →
      StoresRecord sdk ctx a pubKey (opts.bind (·.minSelfDelegation)) s → delegatedTo a s = 0
  | .removeValidator, .removeValidator validator opts =>
    ∀ a, sdk.valAddressFromBech32 validator = .ok a → ∀ v,
      s.staking.validators.lookup a = some v → MovesTokens sdk v opts s → v.delegatorShares = 0
  | _, _ => True

/-- Dropping the shares of a record keeps the accounting exactly when nothing is delegated. -/
theorem shareAccounting_of_update {s t : AppState} {a : ValAddress} (hs : ShareAccounting s)
    (h : shareGap t = Function.update (shareGap s) a (some (0 - delegatedTo a s))) :
    ShareAccounting t ↔ delegatedTo a s = 0 := by
  rw [shareAccounting_iff] at hs ⊢
  rw [h]
  constructor
  · intro ht
    have hgap := ht a (0 - delegatedTo a s) (by simp)
    omega
  · intro hzero b g hg
    by_cases hb : b = a
    · subst hb
      rw [Function.update_self, hzero] at hg
      exact (Option.some.inj hg).symm
    · rw [Function.update_of_ne hb] at hg
      exact hs b g hg

theorem shareAccounting_of_shareGap_eq {s t : AppState} (h : shareGap t = shareGap s) :
    ShareAccounting t ↔ ShareAccounting s := by
  rw [shareAccounting_iff, shareAccounting_iff, h]

theorem performUnjailHook_shareGap (params : HookParams) (s : AppState) :
    shareGap (performUnjailHook sdk ctx params s).2 = shareGap s := by
  cases params with
  | unjail validator target =>
    rw [performUnjailHook, ofExcept_bind_apply]
    split
    · exact executeUnjailing_shareGap sdk ctx _ _ s
    · rfl
  | _ => rfl

/-- Adding a validator keeps the accounting exactly when the new record, if one is stored,
finds no delegated shares. -/
theorem shareAccounting_executeAddValidator_iff (a : ValAddress)
    (opts : Option AddValidatorOptions) {s : AppState} (hs : ShareAccounting s) :
    ShareAccounting (executeAddValidator sdk ctx a opts s).2 ↔
      ∀ pubKey n, s.staking.validators.lookup a = none → usableOptions opts = some (pubKey, n) →
        StoresRecord sdk ctx a pubKey (opts.bind (·.minSelfDelegation)) s →
          delegatedTo a s = 0 := by
  cases hv : s.staking.validators.lookup a with
  | some v =>
    rw [executeAddValidator_of_lookup sdk ctx hv]
    simpa using hs
  | none =>
    cases hopts : usableOptions opts with
    | none =>
      obtain ⟨e, he⟩ := executeAddValidator_of_unusable sdk ctx hv hopts
      rw [he]
      simpa using hs
    | some usable =>
      obtain ⟨pubKey, n⟩ := usable
      rw [executeAddValidator_eq sdk ctx hv hopts]
      rcases createSteps_shareGap sdk ctx a pubKey n (opts.bind (·.minSelfDelegation)) s with
        ⟨hstores, hgap⟩ | ⟨hstores, hgap⟩
      · rw [shareAccounting_of_update hs hgap]
        constructor
        · intro hzero _ _ _ _ _
          exact hzero
        · intro hall
          exact hall pubKey n rfl rfl hstores
      · rw [shareAccounting_of_shareGap_eq hgap]
        refine iff_of_true hs ?_
        intro pubKey' n' _ heq hstores'
        obtain ⟨rfl, rfl⟩ := Prod.mk.inj (Option.some.inj heq)
        exact absurd hstores' hstores

/-- A removal that returns keeps the accounting exactly when it moves no tokens, or the record
has no shares. -/
theorem shareAccounting_executeRemoveValidator_iff {a : ValAddress}
    {opts : Option RemoveValidatorOptions} {s t : AppState}
    (h : executeRemoveValidator sdk ctx a opts s = (.ok (), t)) (hs : ShareAccounting s) :
    ShareAccounting t ↔ ∀ v, s.staking.validators.lookup a = some v →
      MovesTokens sdk v opts s → v.delegatorShares = 0 := by
  obtain ⟨v, hv, ⟨hmoves, hgap⟩ | ⟨hmoves, hgap⟩⟩ := executeRemoveValidator_shareGap sdk ctx h
  · rw [shareAccounting_of_update hs hgap, ← hs a v hv]
    constructor
    · intro hzero w hw _
      rwa [← Option.some.inj (hv.symm.trans hw)]
    · intro hall
      exact hall v hv hmoves
  · rw [shareAccounting_of_shareGap_eq hgap]
    refine iff_of_true hs ?_
    intro w hw hmoves'
    obtain rfl := Option.some.inj (hv.symm.trans hw)
    exact absurd hmoves' hmoves

/-- **One hook.** From a state with the accounting, a hook that returns ends in one exactly
when it keeps the shares. -/
theorem shareAccounting_performHook_iff {hook : BlockHook} {s t : AppState}
    {r : Outcome String Unit} (h : performHook sdk ctx hook s = (r, t)) (hr : r.returned)
    (hs : ShareAccounting s) : ShareAccounting t ↔ KeepsShares sdk ctx hook s := by
  obtain ⟨block, action, params⟩ := hook
  obtain rfl : (performHook sdk ctx ⟨block, action, params⟩ s).2 = t := congrArg Prod.snd h
  cases action with
  | unjail =>
    have hgap := performUnjailHook_shareGap sdk ctx params s
    exact iff_of_true ((shareAccounting_of_shareGap_eq hgap).mpr hs) trivial
  | addValidator =>
    cases params with
    | addValidator validator opts =>
      change ShareAccounting
        (performAddValidatorHook sdk ctx (.addValidator validator opts) s).2 ↔ _
      rw [performAddValidatorHook, ofExcept_bind_apply]
      cases hv : sdk.valAddressFromBech32 validator with
      | ok a => simp [shareAccounting_executeAddValidator_iff sdk ctx a opts hs, KeepsShares, hv]
      | error e => simpa [KeepsShares, hv] using hs
    | _ => exact iff_of_true hs trivial
  | removeValidator =>
    cases params with
    | removeValidator validator opts =>
      change performRemoveValidatorHook sdk ctx (.removeValidator validator opts) s = _ at h
      rw [performRemoveValidatorHook, ofExcept_bind_apply] at h
      cases hv : sdk.valAddressFromBech32 validator with
      | ok a =>
        rw [hv] at h
        obtain rfl := eq_ok_of_neverFails (neverFails_executeRemoveValidator sdk ctx a opts) h hr
        simp [shareAccounting_executeRemoveValidator_iff sdk ctx h hs, KeepsShares, hv]
      | error e =>
        rw [hv] at h
        rw [← (Prod.mk.inj h).2]
        simpa [KeepsShares, hv] using hs
    | _ => exact iff_of_true hs trivial
  | reconcileStakingPools =>
    cases params with
    | reconcileStakingPools =>
      have hstaking := executeReconcileStakingPools_staking sdk ctx s
      have hgap := shareGap_congr (congrArg Staking.validators hstaking)
        (congrArg Staking.delegations hstaking)
      exact iff_of_true ((shareAccounting_of_shareGap_eq hgap).mpr hs) trivial
    | _ => exact iff_of_true hs trivial
  | other name => exact iff_of_true hs trivial

/-! ## Tokens and shares are not negative -/

/-- No validator has negative tokens or shares, and no delegation negative shares. -/
structure NonNegative (s : AppState) : Prop where
  validators : ∀ a v, s.staking.validators.lookup a = some v →
    0 ≤ v.tokens.getD 0 ∧ 0 ≤ v.delegatorShares
  delegations : ∀ k x, s.staking.delegations.lookup k = some x → 0 ≤ x

theorem Validator.issuedShares_nonneg {v : Validator} (ht : 0 ≤ v.tokens.getD 0)
    (hs : 0 ≤ v.delegatorShares) (n : ℕ) : 0 ≤ v.issuedShares n := by
  unfold issuedShares
  split_ifs
  · omega
  · exact Int.tdiv_nonneg (Int.mul_nonneg hs (Int.natCast_nonneg n)) ht

/-- Writing a record with no negative count keeps the counts. -/
theorem NonNegative.insert {s t : AppState} (hs : NonNegative s) {a : ValAddress} {v : Validator}
    (hv : 0 ≤ v.tokens.getD 0 ∧ 0 ≤ v.delegatorShares)
    (hvalidators : t.staking.validators = s.staking.validators.insert a v)
    (hdelegations : ∀ k x, t.staking.delegations.lookup k = some x → 0 ≤ x) : NonNegative t where
  validators b w hw := by
    rw [hvalidators] at hw
    by_cases hb : b = a
    · subst hb
      rw [Finmap.lookup_insert] at hw
      rwa [← Option.some.inj hw]
    · rw [Finmap.lookup_insert_of_ne _ hb] at hw
      exact hs.validators b w hw
  delegations := hdelegations

theorem NonNegative.delegate {s : AppState} (hs : NonNegative s) (b : SdkBase) (d : AccAddress)
    (a : ValAddress) (c : Coin) : NonNegative (b.effect (.delegate d a c) s) := by
  simp only [SdkBase.effect]
  split
  · exact hs
  next v hv =>
    obtain ⟨htokens, hshares⟩ := hs.validators a v hv
    have hissued := Validator.issuedShares_nonneg htokens hshares c.amount
    refine hs.insert (v := v.addTokensFromDel c.amount) ?_ rfl ?_
    · simp only [Validator.addTokensFromDel, Option.getD_some]
      omega
    · intro k x hx
      simp only [Staking.delegate_delegations] at hx
      by_cases hk : k = (d, v.operatorAddress)
      · subst hk
        rw [Finmap.lookup_insert] at hx
        obtain rfl := Option.some.inj hx
        cases hold : s.staking.delegations.lookup (d, v.operatorAddress) with
        | none => simpa using hissued
        | some y =>
          have hy := hs.delegations _ y hold
          simp only [Option.getD_some]
          omega
      · rw [Finmap.lookup_insert_of_ne _ hk] at hx
        exact hs.delegations k x hx

/-- Every call other than `SetValidator` keeps the counts from becoming negative. -/
theorem NonNegative.effect {s : AppState} (hs : NonNegative s) (b : SdkBase) {c : SdkCall}
    (hc : ∀ v, c ≠ .setValidator v) : NonNegative (b.effect c s) := by
  cases c with
  | setValidator v => exact absurd rfl (hc v)
  | delegate d a c => exact hs.delegate b d a c
  | unjail a =>
    simp only [SdkBase.effect]
    split
    · exact hs
    next v hv =>
      exact hs.insert (v := { v with jailed := false }) (hs.validators a v hv) rfl hs.delegations
  | setValidatorByConsAddr v =>
    simp only [SdkBase.effect]
    split
    · exact ⟨hs.validators, hs.delegations⟩
    · exact hs
  | _ => exact ⟨hs.validators, hs.delegations⟩

theorem Performs.nonNegative {sdk : Sdk} {c : Step AppState String}
    (h : Performs sdk (fun call => ∀ s, NonNegative s → NonNegative (sdk.effect call s)) c)
    (t : AppState) (ht : NonNegative t) : NonNegative (c.effect t) :=
  h.keeps (fun _ _ hs => ⟨hs.validators, hs.delegations⟩) (fun _ hcall => hcall) t ht

theorem nonNegative_executeUnjailing (valAddr : ValAddress) (target : Option ℤ) {s : AppState}
    (hs : NonNegative s) : NonNegative (executeUnjailing sdk ctx valAddr target s).2 := by
  refine executeUnjailing_induct sdk ctx hs fun v _ => runSteps_keeps ?_ hs
  intro c hc
  refine ((performs_unjailSteps sdk ctx valAddr v target c hc).mono ?_).nonNegative
  intro call hcall t ht
  exact ht.effect _ (SdkCall.ne_setValidator_of_isPlain hcall)

theorem nonNegative_executeAddValidator (valAddr : ValAddress) (opts : Option AddValidatorOptions)
    {s : AppState} (hs : NonNegative s) :
    NonNegative (executeAddValidator sdk ctx valAddr opts s).2 := by
  refine executeAddValidator_induct sdk ctx hs fun _ pubKey n _ => runSteps_keeps ?_ hs
  intro c hc
  refine ((performs_createSteps sdk ctx valAddr pubKey n _ c hc).mono ?_).nonNegative
  rintro call (hplain | ⟨m, rfl⟩) t ht
  · exact ht.effect _ (SdkCall.ne_setValidator_of_isPlain hplain)
  · -- the new record has neither tokens nor shares
    exact ht.insert (v := storedValidator valAddr pubKey m) ⟨le_rfl, le_rfl⟩ rfl ht.delegations

theorem nonNegative_executeRemoveValidator {valAddr : ValAddress}
    {opts : Option RemoveValidatorOptions} {s t : AppState}
    (h : executeRemoveValidator sdk ctx valAddr opts s = (.ok (), t)) (hs : NonNegative s) :
    NonNegative t := by
  obtain ⟨v, moved, hv, -, hvalidators, hdelegations⟩ := executeRemoveValidator_records sdk ctx h
  refine hs.insert ?_ hvalidators (by rw [hdelegations]; exact hs.delegations)
  cases moved with
  | true => exact ⟨le_rfl, le_rfl⟩
  | false => exact hs.validators valAddr v hv

/-- No hook that returns makes a count negative. -/
theorem nonNegative_performHook {hook : BlockHook} {s t : AppState} {r : Outcome String Unit}
    (h : performHook sdk ctx hook s = (r, t)) (hr : r.returned) (hs : NonNegative s) :
    NonNegative t := by
  refine performHook_keeps sdk ctx ?_ ?_ ?_ ?_ h hr hs
  · exact fun a target u hu => nonNegative_executeUnjailing sdk ctx a target hu
  · exact fun a opts u hu => nonNegative_executeAddValidator sdk ctx a opts hu
  · exact fun a opts u w hrun hu => nonNegative_executeRemoveValidator sdk ctx hrun hu
  · intro u hu
    have hstaking := executeReconcileStakingPools_staking sdk ctx u
    constructor
    · rw [hstaking]
      exact hu.validators
    · rw [hstaking]
      exact hu.delegations

/-- A delegation with shares is counted: its validator has shares. -/
theorem delegatorShares_pos {s : AppState} (hs : ShareAccounting s) (hn : NonNegative s)
    {d : AccAddress} {a : ValAddress} {x : ℤ} {v : Validator}
    (hx : s.staking.delegations.lookup (d, a) = some x) (hpos : 0 < x)
    (hv : s.staking.validators.lookup a = some v) : 0 < v.delegatorShares := by
  have hle : x ≤ delegatedTo a s := by
    have hcount := le_total (f := fun k x => if k.2 = a then x else 0) (k := (d, a)) ?_ hx
    · simpa [delegatedTo] using hcount
    · intro k y hy
      have := hn.delegations k y hy
      split_ifs <;> omega
  rw [hs a v hv]
  omega

/-! ## Runs of hooks -/

/-- A hook of some block that returns. -/
def hookStep (op : BlockContext × BlockHook) (s : AppState) (r : Outcome String Unit)
    (t : AppState) : Prop :=
  performHook sdk op.1 op.2 s = (r, t) ∧ r.returned

/-- **Delegator shares along the hooks.** A run of hooks that return, from a state with the
accounting, keeps it in every state it reaches exactly when every hook keeps the shares. In
that case no delegation with shares is left to a validator without. -/
theorem run_shareAccounting_iff {s₀ t : AppState}
    {cs : List (Call (BlockContext × BlockHook) (Outcome String Unit) AppState)}
    (hrun : Run (hookStep sdk) s₀ cs t) (h₀ : ShareAccounting s₀) :
    ((∀ c ∈ cs, ShareAccounting c.after) ↔
      ∀ c ∈ cs, KeepsShares sdk c.op.1 c.op.2 c.before) ∧
    ((∀ c ∈ cs, KeepsShares sdk c.op.1 c.op.2 c.before) → NonNegative s₀ →
      ∀ d a x v, t.staking.delegations.lookup (d, a) = some x → 0 < x →
        t.staking.validators.lookup a = some v → v.delegatorShares ≠ 0) := by
  have hiff : (∀ c ∈ cs, ShareAccounting c.after) ↔
      ∀ c ∈ cs, KeepsShares sdk c.op.1 c.op.2 c.before :=
    hrun.forall_after_iff h₀ fun c hc hs =>
      shareAccounting_performHook_iff sdk c.op.1 hc.1 hc.2 hs
  refine ⟨hiff, ?_⟩
  intro hkeeps hnonneg d a x v hx hpos hv
  have haccounting : ShareAccounting t := hrun.end_of_forall_after h₀ (hiff.mpr hkeeps)
  have hnonneg : NonNegative t :=
    hrun.invariant hnonneg fun op s r u hs hstep =>
      nonNegative_performHook sdk op.1 hstep.1 hstep.2 hs
  exact (delegatorShares_pos haccounting hnonneg hx hpos hv).ne'

section Sample

theorem sampleState_lookup {jailed : Bool} {a : ValAddress} {v : Validator}
    (h : (sampleState jailed).staking.validators.lookup a = some v) :
    a = sampleOperator ∧ v = sampleValidator jailed := by
  obtain rfl : a = sampleOperator :=
    (Finmap.mem_singleton a sampleOperator _).mp (Finmap.mem_of_lookup_eq_some h)
  exact ⟨rfl, (Option.some.inj h).symm⟩

theorem shareAccounting_sampleState (jailed : Bool) : ShareAccounting (sampleState jailed) := by
  intro a v hv
  obtain ⟨rfl, rfl⟩ := sampleState_lookup hv
  revert jailed
  decide +kernel

theorem nonNegative_sampleState (jailed : Bool) : NonNegative (sampleState jailed) where
  validators a v hv := by
    obtain ⟨rfl, rfl⟩ := sampleState_lookup hv
    revert jailed
    decide +kernel
  delegations k x hx := by
    obtain rfl : k = (sampleOperator, sampleOperator) :=
      (Finmap.mem_singleton k _ _).mp (Finmap.mem_of_lookup_eq_some hx)
    obtain rfl : 1000000 * 10 ^ 18 = x := Option.some.inj hx
    decide

/-- A removal of the first validator, with the given options. -/
def removeHook (opts : Option RemoveValidatorOptions) : BlockHook :=
  ⟨60, .removeValidator,
    .removeValidator "nexusvaloper1m6jc29uar9n07mr0srspc7skjs7qvjkvw3h5kf" opts⟩

/-- The local network with its jailed validator unjailed. -/
def unjailedState : AppState := (performHook sampleSdk sampleBlock unjailHook (sampleState true)).2

/-- The same, with the validator then removed and its tokens left alone. -/
def leftState : AppState := (performHook sampleSdk sampleBlock (removeHook none) unjailedState).2

/-- Unjailing the validator and then removing it. -/
def unjailRemoveCalls : List (Call (BlockContext × BlockHook) (Outcome String Unit) AppState) :=
  [⟨(sampleBlock, unjailHook), .ok (), sampleState true, unjailedState⟩,
    ⟨(sampleBlock, removeHook none), .ok (), unjailedState, leftState⟩]

theorem run_shareAccounting_unjail_remove :
    ShareAccounting unjailedState ∧ ShareAccounting leftState ∧
      ∀ v, leftState.staking.validators.lookup sampleOperator = some v → v.delegatorShares ≠ 0 := by
  have hunjail : performHook sampleSdk sampleBlock unjailHook (sampleState true) =
      (.ok (), unjailedState) := Prod.ext (by decide +kernel) rfl
  have hremove : performHook sampleSdk sampleBlock (removeHook none) unjailedState =
      (.ok (), leftState) := Prod.ext (by decide +kernel) rfl
  have hrun : Run (hookStep sampleSdk) (sampleState true) unjailRemoveCalls leftState :=
    .snoc (.snoc .nil ⟨hunjail, rfl⟩) ⟨hremove, rfl⟩
  obtain ⟨hiff, hshares⟩ :=
    run_shareAccounting_iff sampleSdk hrun (shareAccounting_sampleState true)
  have hkeeps : ∀ c ∈ unjailRemoveCalls, KeepsShares sampleSdk c.op.1 c.op.2 c.before := by
    simp only [unjailRemoveCalls, List.forall_mem_cons]
    refine ⟨trivial, ?_, by simp⟩
    rintro a - v - ⟨o, -, ho, -⟩
    cases ho
  have hafter := hiff.mpr hkeeps
  simp only [unjailRemoveCalls, List.forall_mem_cons] at hafter
  refine ⟨hafter.1, hafter.2.1, ?_⟩
  intro v hv
  exact hshares hkeeps (nonNegative_sampleState true) sampleOperator sampleOperator
    (1000000 * 10 ^ 18) v (by decide +kernel) (by decide) hv

/-- A removal that burns the tokens returns, and leaves the delegation of the operator with a
million shares to a validator without shares. -/
theorem removal_orphans_delegation :
    ShareAccounting (sampleState false) ∧
    (performHook sampleSdk sampleBlock (removeHook (some ⟨true, none⟩)) (sampleState false)).1 =
      .ok () ∧
    ((performHook sampleSdk sampleBlock (removeHook (some ⟨true, none⟩))
      (sampleState false)).2.staking.validators.lookup sampleOperator).map (·.delegatorShares) =
        some 0 ∧
    (performHook sampleSdk sampleBlock (removeHook (some ⟨true, none⟩))
      (sampleState false)).2.staking.delegations.lookup (sampleOperator, sampleOperator) =
        some (1000000 * 10 ^ 18) := by
  refine ⟨shareAccounting_sampleState false, ?_⟩
  decide +kernel

end Sample

end NexusNode
