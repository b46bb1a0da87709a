import NexusNode.Staking.Hooks

/-!
# The calls behind `unjail` and `add_validator`

Both actions are straight lines of keeper calls with an early return after each one. This
module writes the calls down as lists of steps and shows that the actions run exactly these
lists. What a failure leaves behind, and what every write keeps, is then read off the lists.

## Main definitions

* `Performs sdk Q c`: in every state the step does nothing, creates an account, or performs a
  call in `Q`
* `topUpSteps`, `unjailSteps`: the calls of `setValidatorBalance` and `executeUnjailing`
* `recordSteps`, `createSteps`: the calls that store a new validator, and all of them

## Main results

* `Performs.keeps`: what the calls in `Q` keep, the step keeps
* `executeUnjailing_eq`: unjailing a stored validator runs `unjailSteps`
* `executeAddValidator_eq`: adding a missing validator runs `createSteps`
-/

namespace NexusNode

open Program Proc

variable (sdk : Sdk) (ctx : BlockContext)

/-! ## Reading calls -/

theorem wrapError_of_ok {α : Type} {p : Hook α} {s t : AppState} {a : α} (h : p s = (.ok a, t))
    (text : String) : wrapError text p s = (.ok a, t) := onError_of_ok h _

theorem wrapError_of_error {α : Type} {p : Hook α} {s t : AppState} {e : String}
    (h : p s = (.error (.error e), t)) (text : String) :
    wrapError text p s = (.error (.error (text ++ e)), t) := onError_of_error h _

theorem wrapError_ask {α : Type} (text : String) (r : AppState → Except String α) :
    wrapError text (ask r) = ask fun s => (r s).mapError (text ++ ·) :=
  onError_ask (text ++ ·) r

theorem wrapError_ofExcept_ok {α : Type} (text : String) (a : α) :
    wrapError text (ofExcept (.ok a)) = pure a := rfl

/-- A stored validator is read. -/
theorem Sdk.getValidator_of_lookup {a : ValAddress} {s : AppState} {v : Validator}
    (h : s.staking.validators.lookup a = some v) : sdk.getValidator ctx a s = .ok v := by
  have hfinds : sdk.refuse ctx (.getValidator a) s = none := sdk.finds (by simp [h])
  simp [Sdk.getValidator, Sdk.answer, hfinds, h]

/-- Reading a missing validator is an error. -/
theorem Sdk.getValidator_of_missing {a : ValAddress} {s : AppState}
    (h : s.staking.validators.lookup a = none) : ∃ e, sdk.getValidator ctx a s = .error e := by
  cases hr : sdk.refuse ctx (.getValidator a) s with
  | none => exact ⟨"validator does not exist", by simp only [Sdk.getValidator, Sdk.answer, hr, h]⟩
  | some e => exact ⟨e, by simp only [Sdk.getValidator, Sdk.answer, hr]⟩

variable {sdk ctx} in
theorem Sdk.lookup_of_getValidator {a : ValAddress} {s : AppState} {v : Validator}
    (h : sdk.getValidator ctx a s = .ok v) : s.staking.validators.lookup a = some v := by
  cases hl : s.staking.validators.lookup a with
  | none =>
    obtain ⟨e, he⟩ := Sdk.getValidator_of_missing sdk ctx hl
    exact nomatch h.symm.trans he
  | some w => rw [Except.ok.inj (h.symm.trans (Sdk.getValidator_of_lookup sdk ctx hl))]

variable {sdk ctx} in
theorem Sdk.getValidatorSigningInfo_eq_ok_iff {c : ConsAddress} {s : AppState}
    {info : ValidatorSigningInfo} : sdk.getValidatorSigningInfo ctx c s = .ok info ↔
      sdk.refuse ctx (.getValidatorSigningInfo c) s = none ∧
        s.slashing.signingInfos.lookup c = some info := by
  unfold Sdk.getValidatorSigningInfo Sdk.answer
  cases sdk.refuse ctx (.getValidatorSigningInfo c) s with
  | some e => simp
  | none => cases h : s.slashing.signingInfos.lookup c <;> simp [h]

/-- A call that is accepted is none that the SDK documents as an error. -/
theorem Sdk.mustRefuse_of_accepted {ctx : BlockContext} {c : SdkCall} {s : AppState}
    (h : sdk.refuse ctx c s = none) : sdk.mustRefuse c s = false := by
  by_contra hmust
  have hsome := @Sdk.refuses sdk ctx c s (Bool.of_not_eq_false hmust)
  rw [h] at hsome
  cases hsome

theorem Sdk.mustRefuse_of_wrap {ctx : BlockContext} {text : String} {c : SdkCall}
    {f : String → String} {s : AppState} (h : ((sdk.step ctx text c).wrap f).refuse s = none) :
    sdk.mustRefuse c s = false := by
  have haccepted : sdk.refuse ctx c s = none := by simpa [Sdk.step] using h
  exact sdk.mustRefuse_of_accepted haccepted

/-! ## What a step can do -/

/-- Whether a call destroys coins. -/
def SdkCall.isBurn : SdkCall → Bool
  | .burnCoins .. => true
  | _ => false

/-- Whether a call neither burns coins nor writes a validator record as it is given. -/
def SdkCall.isPlain : SdkCall → Bool
  | .burnCoins .. => false
  | .setValidator .. => false
  | _ => true

/-- Whether a call only files a record: none of coins, of a validator or of a delegation. -/
def SdkCall.isRecord : SdkCall → Bool
  | .setValidatorByConsAddr .. | .setNewValidatorByPowerIndex .. | .setValidatorSigningInfo ..
  | .setValidatorHistoricalRewards .. | .setValidatorCurrentRewards ..
  | .setValidatorAccumulatedCommission .. | .setFeePool .. => true
  | _ => false

/-- Whether a call writes a validator record or an index entry as it is given. -/
def SdkCall.isIndexWrite : SdkCall → Bool
  | .setValidator .. | .setValidatorByConsAddr .. | .setNewValidatorByPowerIndex ..
  | .deleteValidatorByPowerIndex .. => true
  | _ => false

/-- Whether a call is one of a top-up: coins are minted, sent and delegated. -/
def SdkCall.isTopUp : SdkCall → Bool
  | .mintCoins .. | .sendCoinsFromModuleToAccount .. | .delegate .. => true
  | _ => false

theorem SdkCall.isPlain_of_isTopUp {call : SdkCall} (h : call.isTopUp) : call.isPlain := by
  cases call <;> first | rfl | cases h

theorem SdkCall.isPlain_of_isRecord {call : SdkCall} (h : call.isRecord) : call.isPlain := by
  cases call <;> first | rfl | cases h

theorem SdkBase.effect_of_isRecord (b : SdkBase) {call : SdkCall} (h : call.isRecord)
    (s : AppState) : (b.effect call s).bank = s.bank ∧
      (b.effect call s).staking.validators = s.staking.validators := by
  cases call with
  | setValidatorByConsAddr v =>
    simp only [effect]
    split <;> exact ⟨rfl, rfl⟩
  | _ => first | exact ⟨rfl, rfl⟩ | cases h

theorem SdkCall.isBurn_of_isPlain : ∀ call : SdkCall, call.isPlain → call.isBurn = false := by
  intro call h
  cases call <;> first | rfl | cases h

/-- In every state the step does nothing, creates an account, or performs a call in `Q`. -/
def Performs (Q : SdkCall → Prop) (c : Step AppState String) : Prop :=
  ∀ s, c.effect s = s ∨ (∃ a, c.effect s = { s with auth := s.auth.ensureAccount a }) ∨
    ∃ call, Q call ∧ c.effect s = sdk.effect call s

variable {sdk ctx} {Q : SdkCall → Prop}

theorem Performs.step {text : String} {call : SdkCall} (h : Q call) :
    Performs sdk Q (sdk.step ctx text call) := fun _ => .inr (.inr ⟨call, h, rfl⟩)

/-- What new accounts and the calls in `Q` keep, the step keeps. -/
theorem Performs.keeps {P : AppState → Prop} {c : Step AppState String} (h : Performs sdk Q c)
    (haccount : ∀ t a, P t → P { t with auth := t.auth.ensureAccount a })
    (hcall : ∀ call, Q call → ∀ t, P t → P (sdk.effect call t)) (t : AppState) (ht : P t) :
    P (c.effect t) := by
  rcases h t with hsame | ⟨a, hsame⟩ | ⟨call, hQ, hsame⟩ <;> rw [hsame]
  · exact ht
  · exact haccount t a ht
  · exact hcall call hQ t ht

theorem Performs.mono {Q' : SdkCall → Prop} {c : Step AppState String} (h : Performs sdk Q c)
    (hQ : ∀ call, Q call → Q' call) : Performs sdk Q' c := by
  intro s
  rcases h s with hsame | haccount | ⟨call, hcall, hsame⟩
  · exact .inl hsame
  · exact .inr (.inl haccount)
  · exact .inr (.inr ⟨call, hQ call hcall, hsame⟩)

theorem Performs.wrap {c : Step AppState String} (h : Performs sdk Q c) (f : String → String) :
    Performs sdk Q (c.wrap f) := h

theorem Performs.refusal (e : String) : Performs sdk Q (.refusal e) := fun _ => .inl rfl

theorem Performs.check {α : Type} (r : AppState → Except String α) :
    Performs sdk Q (.check r) := fun s => .inl (Step.check_effect r s)

theorem Performs.reading {α : Type} {c : α → Step AppState String}
    (h : ∀ a, Performs sdk Q (c a)) (r : AppState → Except String α) :
    Performs sdk Q (.reading r c) := by
  intro s
  cases hr : r s with
  | ok a => simpa only [Step.reading, hr] using h a s
  | error e => exact .inl (by simp only [Step.reading, hr])

theorem Performs.ifMissing {α : Type} {c : Step AppState String} (h : Performs sdk Q c)
    (r : AppState → Except String α) : Performs sdk Q (c.ifMissing r) := by
  intro s
  cases hr : r s with
  | ok a => exact .inl (by simp only [Step.ifMissing, hr])
  | error e => simpa only [Step.ifMissing, hr] using h s

variable (sdk ctx)

/-! ## Top-up -/

/-- The calls of `setValidatorBalance`. -/
def topUpSteps (valAddr : ValAddress) (validator : Validator) (target : ℤ) :
    List (Step AppState String) :=
  if validator.tokens.getD 0 < target then
    let coins := additionalTokens validator target
    [sdk.step ctx "failed to mint additional tokens: " (.mintCoins bondedPoolName coins),
      sdk.step ctx "failed to send minted tokens to validator account: "
        (.sendCoinsFromModuleToAccount bondedPoolName valAddr coins),
      sdk.step ctx "failed to delegate tokens to validator account: "
        (.delegate valAddr valAddr coins)]
  else []

theorem setValidatorBalance_eq (valAddr : ValAddress) (validator : Validator) (target : ℤ) :
    setValidatorBalance sdk ctx valAddr validator target =
      runSteps (topUpSteps sdk ctx valAddr validator target) := by
  unfold setValidatorBalance topUpSteps
  split_ifs
  · rw [runSteps, runSteps, runSteps_singleton]
  · rfl

theorem performs_topUpSteps (valAddr : ValAddress) (v : Validator) (target : ℤ)
    (f : String → String) :
    ∀ c ∈ (topUpSteps sdk ctx valAddr v target).map (Step.wrap f),
      Performs sdk (·.isTopUp) c := by
  unfold topUpSteps
  split_ifs
  · simp only [List.map_cons, List.map_nil, List.forall_mem_cons]
    refine ⟨.wrap (.step ?_) f, .wrap (.step ?_) f, .wrap (.step ?_) f, by simp⟩
    all_goals rfl
  · simp

/-! ## Unjailing -/

/-- The top-up of an unjailing, if one is asked for. -/
def restoreSteps (valAddr : ValAddress) (validator : Validator) :
    Option ℤ → List (Step AppState String)
  | some target => (topUpSteps sdk ctx valAddr validator target).map
      (Step.wrap ("failed to restore validator balance: " ++ ·))
  | none => []

theorem restoreBalance_eq (valAddr : ValAddress) (validator : Validator) (target : Option ℤ) :
    restoreBalance sdk ctx valAddr validator target =
      runSteps (restoreSteps sdk ctx valAddr validator target) := by
  cases target with
  | none => rfl
  | some target =>
    simp only [restoreBalance, restoreSteps, wrapError, setValidatorBalance_eq, runSteps_wrap]

/-- The signing info that lets a validator be unjailed at once. -/
def clearedInfo (info : ValidatorSigningInfo) : ValidatorSigningInfo :=
  { info with jailedUntil := ctx.time - second }

/-- Reading the signing info and writing it back with the jail time cleared. -/
def clearJailStep (consAddr : ConsAddress) : Step AppState String :=
  .reading
    (fun s => (sdk.getValidatorSigningInfo ctx consAddr s).mapError
      ("failed to get signing info: " ++ ·))
    fun info => sdk.step ctx "failed to update signing info: "
      (.setValidatorSigningInfo consAddr (clearedInfo ctx info))

/-- The calls of `executeUnjailing` behind the top-up. -/
def releaseSteps (valAddr : ValAddress) (validator : Validator) : List (Step AppState String) :=
  match sdk.getConsAddr validator with
  | .ok consAddr =>
    [clearJailStep sdk ctx consAddr, sdk.step ctx "failed to unjail validator: " (.unjail valAddr)]
  | .error e => [.refusal ("failed to get consensus address: " ++ e)]

/-- The calls of `executeUnjailing` on the stored record `validator`. -/
def unjailSteps (valAddr : ValAddress) (validator : Validator) (target : Option ℤ) :
    List (Step AppState String) :=
  restoreSteps sdk ctx valAddr validator target ++ releaseSteps sdk ctx valAddr validator

theorem performs_releaseSteps (valAddr : ValAddress) (v : Validator) :
    ∀ c ∈ releaseSteps sdk ctx valAddr v, Performs sdk (fun call =>
      call = .unjail valAddr ∨ ∃ a info, call = .setValidatorSigningInfo a info) c := by
  intro c hc
  unfold releaseSteps at hc
  split at hc
  · rcases List.mem_cons.mp hc with rfl | hc
    · exact .reading (fun info => .step (.inr ⟨_, _, rfl⟩)) _
    · obtain rfl := List.mem_singleton.mp hc
      exact .step (.inl rfl)
  · obtain rfl := List.mem_singleton.mp hc
    exact .refusal _

theorem performs_unjailSteps (valAddr : ValAddress) (v : Validator) (target : Option ℤ) :
    ∀ c ∈ unjailSteps sdk ctx valAddr v target, Performs sdk (·.isPlain) c := by
  intro c hc
  rcases List.mem_append.mp hc with hc | hc
  · cases target with
    | none => cases hc
    | some target =>
      exact (performs_topUpSteps sdk ctx valAddr v target _ c hc).mono fun _ =>
        SdkCall.isPlain_of_isTopUp
  · refine (performs_releaseSteps sdk ctx valAddr v c hc).mono ?_
    rintro call (rfl | ⟨a, info, rfl⟩) <;> rfl

/-- **Unjailing as a list of calls.** -/
theorem executeUnjailing_eq {valAddr : ValAddress} {s : AppState} {v : Validator}
    (h : s.staking.validators.lookup valAddr = some v) (target : Option ℤ) :
    executeUnjailing sdk ctx valAddr target s =
      runSteps (unjailSteps sdk ctx valAddr v target) s := by
  unfold executeUnjailing unjailSteps releaseSteps
  rw [bind_of_ok (wrapError_of_ok (ask_of_ok (Sdk.getValidator_of_lookup sdk ctx h)) _),
    restoreBalance_eq, runSteps_append]
  congr 2
  funext _
  cases hc : sdk.getConsAddr v with
  | ok consAddr =>
    rw [runSteps, runSteps_singleton, clearJailStep, ← Step.ask_bind_run, bind_assoc,
      ← wrapError_ask]
    rfl
  | error e =>
    rw [runSteps_singleton]
    rfl

/-- Unjailing a missing validator is refused at once. -/
theorem executeUnjailing_of_missing {valAddr : ValAddress} {s : AppState}
    (h : s.staking.validators.lookup valAddr = none) (target : Option ℤ) :
    ∃ e, executeUnjailing sdk ctx valAddr target s = (.error (.error e), s) := by
  obtain ⟨e, he⟩ := Sdk.getValidator_of_missing sdk ctx h
  exact ⟨_, bind_of_stop (wrapError_of_error (ask_of_error he) _) _⟩

/-- What holds before an unjailing and after its calls holds after it. -/
theorem executeUnjailing_induct {P : AppState → Prop} {valAddr : ValAddress} {target : Option ℤ}
    {s : AppState} (hs : P s) (h : ∀ v, s.staking.validators.lookup valAddr = some v →
      P (runSteps (unjailSteps sdk ctx valAddr v target) s).2) :
    P (executeUnjailing sdk ctx valAddr target s).2 := by
  cases hv : s.staking.validators.lookup valAddr with
  | none =>
    obtain ⟨e, he⟩ := executeUnjailing_of_missing sdk ctx hv target
    rwa [he]
  | some v =>
    rw [executeUnjailing_eq sdk ctx hv]
    exact h v hv

/-! ## Adding a validator -/

/-- Creating the account of the operator, unless it exists. -/
def accountStep (valAddr : ValAddress) : Step AppState String where
  refuse _ := none
  effect s := { s with auth := s.auth.ensureAccount valAddr }

/-- Packing the consensus key. -/
def buildStep (pubKey : PubKey) : Step AppState String :=
  .check fun _ => (sdk.newAnyWithValue pubKey).mapError ("failed to build validator: " ++ ·)

/-- The calls that store the record `validator` with the key `pubKey`. -/
def recordSteps (valAddr : ValAddress) (pubKey : PubKey) (validator : Validator) :
    List (Step AppState String) :=
  [sdk.step ctx "failed to persist validator: " (.setValidator validator),
    sdk.step ctx "failed to index validator by cons addr: " (.setValidatorByConsAddr validator),
    sdk.step ctx "failed to index validator by power: " (.setNewValidatorByPowerIndex validator),
    (sdk.step ctx "failed to set signing info: "
      (.setValidatorSigningInfo (sdk.pubKeyAddress pubKey) (newSigningInfo ctx))).ifMissing
        (sdk.getValidatorSigningInfo ctx (sdk.pubKeyAddress pubKey)),
    sdk.step ctx "failed to set validator historical rewards: "
      (.setValidatorHistoricalRewards valAddr 0 ⟨[], 1⟩),
    sdk.step ctx "failed to set validator current rewards: "
      (.setValidatorCurrentRewards valAddr ⟨[], 1⟩),
    sdk.step ctx "failed to set validator accumulated commission: "
      (.setValidatorAccumulatedCommission valAddr []),
    (sdk.step ctx "failed to initialize fee pool: " (.setFeePool [])).ifMissing
      (sdk.getFeePool ctx)]

theorem ensureSigningInfo_eq (consAddr : ConsAddress) :
    ensureSigningInfo sdk ctx consAddr = ((sdk.step ctx "failed to set signing info: "
      (.setValidatorSigningInfo consAddr (newSigningInfo ctx))).ifMissing
        (sdk.getValidatorSigningInfo ctx consAddr)).run :=
  Step.attempt_ask_bind_run (fun _ => rfl) fun _ => rfl

theorem ensureFeePool_eq :
    ensureFeePool sdk ctx = ((sdk.step ctx "failed to initialize fee pool: "
      (.setFeePool [])).ifMissing (sdk.getFeePool ctx)).run :=
  Step.attempt_ask_bind_run (fun _ => rfl) fun _ => rfl

theorem persistValidator_eq {valAddr : ValAddress} {pubKey : PubKey} {validator : Validator}
    (h : validator.consensusPubkey = some pubKey) :
    persistValidator sdk ctx valAddr validator =
      (runSteps (recordSteps sdk ctx valAddr pubKey validator) >>= fun _ =>
        wrapError "failed to load validator after creation: "
          (ask (sdk.getValidator ctx valAddr))) := by
  have hc : sdk.getConsAddr validator = .ok (sdk.pubKeyAddress pubKey) := by
    simp [SdkBase.getConsAddr, h]
  unfold persistValidator recordSteps
  simp only [runSteps, bind_assoc, pure_bind, hc, wrapError_ofExcept_ok, ensureSigningInfo_eq,
    ensureFeePool_eq]

/-- The record of a new validator with a positive `min_self_delegation`. -/
def storedValidator (valAddr : ValAddress) (pubKey : PubKey) (minSelfDelegation : ℤ) : Validator :=
  { newValidator valAddr pubKey with minSelfDelegation }

/-- The calls that store a new validator and read it back: none, unless
`min_self_delegation` is positive. -/
def persistSteps (valAddr : ValAddress) (pubKey : PubKey) : Option ℤ → List (Step AppState String)
  | some n =>
    if 0 < n then
      recordSteps sdk ctx valAddr pubKey (storedValidator valAddr pubKey n) ++
        [.check fun s => (sdk.getValidator ctx valAddr s).mapError
          ("failed to load validator after creation: " ++ ·)]
    else []
  | none => []

/-- The calls of `createValidator`. -/
def createSteps (valAddr : ValAddress) (pubKey : PubKey) (initialTokens : ℤ)
    (minSelfDelegation : Option ℤ) : List (Step AppState String) :=
  accountStep valAddr :: buildStep sdk pubKey ::
    (persistSteps sdk ctx valAddr pubKey minSelfDelegation ++
      (topUpSteps sdk ctx valAddr (newValidator valAddr pubKey) initialTokens).map
        (Step.wrap ("failed to ensure validator balance: " ++ ·)))

/-- The calls behind the first one only file records. -/
theorem performs_recordSteps (valAddr : ValAddress) (pubKey : PubKey) (v : Validator) :
    ∀ c ∈ (recordSteps sdk ctx valAddr pubKey v).tail, Performs sdk (·.isRecord) c := by
  simp only [recordSteps, List.tail_cons, List.forall_mem_cons]
  refine ⟨.step ?_, .step ?_, .ifMissing (.step ?_) _, .step ?_, .step ?_, .step ?_,
    .ifMissing (.step ?_) _, by simp⟩
  all_goals rfl

/-- The calls behind the three that write the validator and its two index entries. -/
theorem performs_recordSteps_drop (valAddr : ValAddress) (pubKey : PubKey) (v : Validator) :
    ∀ c ∈ (recordSteps sdk ctx valAddr pubKey v).drop 3,
      Performs sdk (fun call => call.isRecord ∧ call.isIndexWrite = false) c := by
  simp only [recordSteps, List.drop_succ_cons, List.drop_zero, List.forall_mem_cons]
  refine ⟨.ifMissing (.step ?_) _, .step ?_, .step ?_, .step ?_, .ifMissing (.step ?_) _, by simp⟩
  all_goals exact ⟨rfl, rfl⟩

theorem recordSteps_lookup {valAddr : ValAddress} {pubKey : PubKey} {v : Validator}
    {s t : AppState} (hv : v.operatorAddress = valAddr)
    (h : runSteps (recordSteps sdk ctx valAddr pubKey v) s = (.ok (), t)) :
    t.staking.validators.lookup valAddr = some v := by
  have hkeep := performs_recordSteps sdk ctx valAddr pubKey v
  obtain ⟨hacc, -⟩ := runSteps_eq_ok_iff.mp h
  rw [recordSteps, runSteps_cons_of_accepted hacc.1] at h
  obtain rfl : (runSteps _ _).2 = t := congrArg Prod.snd h
  refine runSteps_keeps (P := fun u : AppState => u.staking.validators.lookup valAddr = some v)
    ?_ ?_
  · intro c hc
    refine (hkeep c hc).keeps (fun _ _ hu => hu) ?_
    intro call hcall u hu
    rw [(sdk.effect_of_isRecord hcall u).2, hu]
  · subst hv
    exact Finmap.lookup_insert _

/-- Storing a new validator and reading it back yields the record that was stored. -/
theorem persistValidator_bind {α : Type} {valAddr : ValAddress} {pubKey : PubKey} {v : Validator}
    (hv : v.operatorAddress = valAddr) (hpk : v.consensusPubkey = some pubKey)
    (f : Validator → Hook α) :
    (persistValidator sdk ctx valAddr v >>= f) =
      (runSteps (recordSteps sdk ctx valAddr pubKey v ++
        [.check fun s => (sdk.getValidator ctx valAddr s).mapError
          ("failed to load validator after creation: " ++ ·)]) >>= fun _ => f v) := by
  rw [persistValidator_eq sdk ctx hpk, runSteps_append, runSteps_singleton, bind_assoc, bind_assoc]
  apply ext_apply
  intro s
  rcases hrun : runSteps (recordSteps sdk ctx valAddr pubKey v) s with ⟨r | ⟨⟩, t⟩
  · rw [bind_of_stop hrun, bind_of_stop hrun]
  · -- the record is still there when it is read back, so the reading succeeds
    have hread := Sdk.getValidator_of_lookup sdk ctx
      (recordSteps_lookup sdk ctx hv hrun)
    rw [bind_of_ok hrun, bind_of_ok hrun, bind_of_ok (wrapError_of_ok (ask_of_ok hread) _),
      bind_of_ok (Step.run_check_of_ok (a := v) (by rw [hread]; rfl))]

theorem persistWhenPositive_bind {α : Type} (valAddr : ValAddress) (pubKey : PubKey)
    (n : Option ℤ) (f : Validator → Hook α)
    (hf : ∀ m, f (storedValidator valAddr pubKey m) = f (newValidator valAddr pubKey)) :
    (persistWhenPositive sdk ctx valAddr (newValidator valAddr pubKey) n >>= f) =
      (runSteps (persistSteps sdk ctx valAddr pubKey n) >>= fun _ =>
        f (newValidator valAddr pubKey)) := by
  cases n with
  | none => rfl
  | some m =>
    by_cases hm : 0 < m
    · simp only [persistWhenPositive, persistSteps, if_pos hm]
      rw [← hf m]
      exact persistValidator_bind sdk ctx rfl rfl f
    · simp only [persistWhenPositive, persistSteps, if_neg hm]
      rfl

/-- A positive `min_self_delegation` stores the record and reads it back, any other skips the
block. -/
theorem persistSteps_eq (valAddr : ValAddress) (pubKey : PubKey) (n : Option ℤ) :
    persistSteps sdk ctx valAddr pubKey n = [] ∨
      ∃ m, n = some m ∧ 0 < m ∧ persistSteps sdk ctx valAddr pubKey n =
        recordSteps sdk ctx valAddr pubKey (storedValidator valAddr pubKey m) ++
          [.check fun s => (sdk.getValidator ctx valAddr s).mapError
            ("failed to load validator after creation: " ++ ·)] := by
  cases n with
  | none => exact .inl rfl
  | some m =>
    by_cases hm : 0 < m
    · exact .inr ⟨m, rfl, hm, by rw [persistSteps, if_pos hm]⟩
    · exact .inl (by rw [persistSteps, if_neg hm])

/-- A positive `min_self_delegation` starts with storing the record, any other skips the
block. -/
theorem persistSteps_cases (valAddr : ValAddress) (pubKey : PubKey) (n : Option ℤ) :
    n.filter (0 < ·) = none ∧ persistSteps sdk ctx valAddr pubKey n = [] ∨
      ∃ m cs, n.filter (0 < ·) = some m ∧ persistSteps sdk ctx valAddr pubKey n =
        sdk.step ctx "failed to persist validator: "
          (.setValidator (storedValidator valAddr pubKey m)) :: cs ∧
        ∀ c ∈ cs, Performs sdk (·.isRecord) c := by
  cases n with
  | none => exact .inl ⟨rfl, rfl⟩
  | some m =>
    by_cases hm : 0 < m
    · refine .inr ⟨m, _, by simp [Option.filter, hm], by rw [persistSteps, if_pos hm]; rfl, ?_⟩
      intro c hc
      rcases List.mem_append.mp hc with hc | hc
      · exact performs_recordSteps sdk ctx valAddr pubKey _ c hc
      · obtain rfl := List.mem_singleton.mp hc
        exact .check _
    · exact .inl ⟨by simp [Option.filter, hm], by rw [persistSteps, if_neg hm]⟩

/-- Creating a validator makes plain calls, and one that stores a new record. -/
theorem performs_createSteps (valAddr : ValAddress) (pubKey : PubKey) (initialTokens : ℤ)
    (n : Option ℤ) : ∀ c ∈ createSteps sdk ctx valAddr pubKey initialTokens n,
      Performs sdk (fun call => call.isPlain ∨
        ∃ m, call = .setValidator (storedValidator valAddr pubKey m)) c := by
  have htopUp := performs_topUpSteps sdk ctx valAddr (newValidator valAddr pubKey) initialTokens
    ("failed to ensure validator balance: " ++ ·)
  simp only [createSteps, List.forall_mem_cons, List.forall_mem_append]
  refine ⟨fun _ => .inr (.inl ⟨valAddr, rfl⟩), .check _, ?_, ?_⟩
  · intro c hc
    rcases persistSteps_cases sdk ctx valAddr pubKey n with ⟨-, hnil⟩ | ⟨m, cs, -, hcons, hcs⟩
    · rw [hnil] at hc
      cases hc
    · rw [hcons] at hc
      rcases List.mem_cons.mp hc with rfl | hc
      · exact .step (.inr ⟨m, rfl⟩)
      · exact (hcs c hc).mono fun _ hcall => .inl (SdkCall.isPlain_of_isRecord hcall)
  · intro c hc
    exact (htopUp c hc).mono fun _ hcall => .inl (SdkCall.isPlain_of_isTopUp hcall)

/-- The calls behind the checks of `executeAddValidator`. -/
theorem createValidator_eq (valAddr : ValAddress) (pubKey : PubKey) (initialTokens : ℤ)
    (minSelfDelegation : Option ℤ) :
    createValidator sdk ctx valAddr pubKey initialTokens minSelfDelegation =
      runSteps (createSteps sdk ctx valAddr pubKey initialTokens minSelfDelegation) := by
  unfold createValidator createSteps
  rw [persistWhenPositive_bind _ _ _ _ _ _ fun _ => rfl, runSteps, runSteps, runSteps_append,
    ← runSteps_wrap, ← setValidatorBalance_eq, buildStep, Step.run_check, ofExcept, wrapError_ask]
  rfl

/-- The key and the initial tokens, where the options pass the checks of
`executeAddValidator`. -/
def usableOptions (opts : Option AddValidatorOptions) : Option (PubKey × ℤ) :=
  match opts.bind (·.pubKey), opts.bind (·.initialTokens) with
  | some pubKey, some initialTokens =>
    if 0 < initialTokens then some (pubKey, initialTokens) else none
  | _, _ => none

theorem usableOptions_pos {opts : Option AddValidatorOptions} {pubKey : PubKey} {n : ℤ}
    (h : usableOptions opts = some (pubKey, n)) : 0 < n := by
  unfold usableOptions at h
  split at h
  · split_ifs at h with hn
    obtain ⟨-, rfl⟩ := Prod.mk.inj (Option.some.inj h)
    exact hn
  · cases h

theorem usableOptions_initialTokens {opts : Option AddValidatorOptions} {pubKey : PubKey} {n : ℤ}
    (h : usableOptions opts = some (pubKey, n)) : opts.bind (·.initialTokens) = some n := by
  unfold usableOptions at h
  split at h
  · split_ifs at h
    obtain ⟨-, rfl⟩ := Prod.mk.inj (Option.some.inj h)
    assumption
  · cases h

theorem usableOptions_pubKey {opts : Option AddValidatorOptions} {pubKey : PubKey} {n : ℤ}
    (h : usableOptions opts = some (pubKey, n)) : opts.bind (·.pubKey) = some pubKey := by
  unfold usableOptions at h
  split at h
  · split_ifs at h
    obtain ⟨rfl, -⟩ := Prod.mk.inj (Option.some.inj h)
    assumption
  · cases h

/-- A stored validator is left alone. -/
theorem executeAddValidator_of_lookup {valAddr : ValAddress} {s : AppState} {v : Validator}
    (h : s.staking.validators.lookup valAddr = some v) (opts : Option AddValidatorOptions) :
    executeAddValidator sdk ctx valAddr opts s = (.ok (), s) := by
  unfold executeAddValidator
  rw [bind_of_ok (attempt_of_ok (ask_of_ok (Sdk.getValidator_of_lookup sdk ctx h)))]
  rfl

/-- Options that do not pass the checks are refused at once. -/
theorem executeAddValidator_of_unusable {valAddr : ValAddress} {s : AppState}
    (h : s.staking.validators.lookup valAddr = none) {opts : Option AddValidatorOptions}
    (hopts : usableOptions opts = none) :
    ∃ e, executeAddValidator sdk ctx valAddr opts s = (.error (.error e), s) := by
  obtain ⟨e, he⟩ := Sdk.getValidator_of_missing sdk ctx h
  unfold executeAddValidator
  rw [bind_of_ok (attempt_of_error (ask_of_error he))]
  unfold usableOptions at hopts
  cases hk : opts.bind (·.pubKey) with
  | none => exact ⟨_, rfl⟩
  | some pubKey =>
    cases ht : opts.bind (·.initialTokens) with
    | none => exact ⟨_, rfl⟩
    | some n =>
      by_cases hn : 0 < n
      · simp [hk, ht, hn] at hopts
      · simp only [if_neg hn]
        exact ⟨_, rfl⟩

/-- **Adding a missing validator as a list of calls.** -/
theorem executeAddValidator_eq {valAddr : ValAddress} {s : AppState}
    (h : s.staking.validators.lookup valAddr = none) {opts : Option AddValidatorOptions}
    {pubKey : PubKey} {n : ℤ} (hopts : usableOptions opts = some (pubKey, n)) :
    executeAddValidator sdk ctx valAddr opts s =
      runSteps (createSteps sdk ctx valAddr pubKey n (opts.bind (·.minSelfDelegation))) s := by
  obtain ⟨e, he⟩ := Sdk.getValidator_of_missing sdk ctx h
  rw [← createValidator_eq]
  unfold executeAddValidator
  rw [bind_of_ok (attempt_of_error (ask_of_error he))]
  unfold usableOptions at hopts
  cases hk : opts.bind (·.pubKey) with
  | none => simp [hk] at hopts
  | some pk =>
    cases ht : opts.bind (·.initialTokens) with
    | none => simp [hk, ht] at hopts
    | some m =>
      by_cases hm : 0 < m
      · simp only [hk, ht, if_pos hm, Option.some.injEq, Prod.mk.injEq] at hopts
        obtain ⟨rfl, rfl⟩ := hopts
        simp only [if_pos hm]
      · simp [hk, ht, hm] at hopts

/-- What holds before a validator is added and after the calls that add it holds after the
action. -/
theorem executeAddValidator_induct {P : AppState → Prop} {valAddr : ValAddress}
    {opts : Option AddValidatorOptions} {s : AppState} (hs : P s)
    (h : s.staking.validators.lookup valAddr = none → ∀ pubKey n,
      usableOptions opts = some (pubKey, n) →
        P (runSteps (createSteps sdk ctx valAddr pubKey n (opts.bind (·.minSelfDelegation))) s).2) :
    P (executeAddValidator sdk ctx valAddr opts s).2 := by
  cases hv : s.staking.validators.lookup valAddr with
  | some v => rwa [executeAddValidator_of_lookup sdk ctx hv]
  | none =>
    cases hopts : usableOptions opts with
    | none =>
      obtain ⟨e, he⟩ := executeAddValidator_of_unusable sdk ctx hv hopts
      rwa [he]
    | some usable =>
      rw [executeAddValidator_eq sdk ctx hv hopts]
      exact h hv usable.1 usable.2 hopts

end NexusNode
