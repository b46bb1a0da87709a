import NexusNode.Staking.ActiveSet

/-!
# Preparing an export for height zero

`prepForZeroHeightGenesis` gets the state ready for a chain that starts over: it pays rewards
out, starts the distribution records anew, sets heights back and, given a list of allowed
operators, jails all validators that are not on it. It jails them by writing the record alone.
Then it has the staking module compute the validator set, which fails on a jailed validator that
it meets in the power index.

The functions follow the source statement by statement. Creation heights, redelegations and
slash events are not part of the state, and the calls that write only these are kept for their
errors.

## Main definitions

* `ExportSdk`: the SDK as the export meets it
* `resetValidator`: one validator is written back, jailed or not
* `prepBeforeUpdate`, `prepForZeroHeightGenesis`: up to the update of the validator set, and all
* `NoJailedIndexed`: no validator in the power index is jailed

## Main results

* `resetValidators_ok`: what the loop over the validators writes
* `prepBeforeUpdate_staking`: what the update of the validator set finds
* `prepBeforeUpdate_noJailed_iff`: when no validator in the index is jailed then
-/

namespace NexusNode

open Program Proc

/-! ## The order of the stores -/

/-- The key of an address in a store, where its length comes first. -/
def storeKey (a : Bytes) : ℕ ×ₗ List ℕ := toLex (a.length, a.map UInt8.toNat)

theorem storeKey_injective : Function.Injective storeKey := fun _ _ h =>
  map_toNat_injective (Prod.mk.inj (toLex_inj.mp h)).2

/-- The order of validator records. -/
abbrev ByStoreKey : ValAddress → ValAddress → Prop := Order.Preimage storeKey (· ≤ ·)

instance : Std.Antisymm ByStoreKey where
  antisymm _ _ hab hba := storeKey_injective (le_antisymm hab hba)

/-- The key of a delegation. -/
def delegationKey (k : AccAddress × ValAddress) : (ℕ ×ₗ List ℕ) ×ₗ (ℕ ×ₗ List ℕ) :=
  toLex (storeKey k.1, storeKey k.2)

/-- The order of delegations. -/
abbrev ByDelegationKey : AccAddress × ValAddress → AccAddress × ValAddress → Prop :=
  Order.Preimage delegationKey (· ≤ ·)

instance : Std.Antisymm ByDelegationKey where
  antisymm k l hkl hlk := by
    obtain ⟨hd, ha⟩ := Prod.mk.inj (toLex_inj.mp (le_antisymm hkl hlk))
    exact Prod.ext (storeKey_injective hd) (storeKey_injective ha)

/-! ## Calls -/

/-- What a call of the distribution module writes when it pays rewards out. -/
structure Payout where
  auth : Auth
  bank : Bank
  distribution : Distribution

def AppState.pay (s : AppState) (p : Payout) : AppState :=
  { s with auth := p.auth, bank := p.bank, distribution := p.distribution }

/-- The keeper calls that only the export makes and that can return an error. -/
inductive ExportCall where
  | iterateValidators
  | getAllDelegations
  | getValidatorOutstandingRewardsCoins (a : ValAddress)
  | afterValidatorCreated (a : ValAddress)
  | beforeDelegationCreated (d : AccAddress) (a : ValAddress)
  | afterDelegationModified (d : AccAddress) (a : ValAddress)
  /-- iterating over the redelegations and writing each of them back -/
  | resetRedelegations
  /-- iterating over the unbonding delegations and writing each of them back -/
  | resetUnbondingDelegations
  | closeIterator
  | iterateValidatorSigningInfos

/-- The SDK as the export meets it. -/
structure ExportSdk extends Sdk where
  refuseExport : BlockContext → ExportCall → AppState → Option String
  /-- the address codec of the validators -/
  bytesToString : ValAddress → Except String String
  /-- `DecCoins.Add` -/
  addDecCoins : DecCoins → DecCoins → DecCoins
  withdrawValidatorCommission : BlockContext → ValAddress → AppState → Payout
  withdrawDelegationRewards : BlockContext → AccAddress → ValAddress → AppState → Payout
  beforeDelegationCreated : BlockContext → AccAddress → ValAddress → AppState → Payout
  afterDelegationModified : BlockContext → AccAddress → ValAddress → AppState → Payout

variable (sdk : ExportSdk) (ctx : BlockContext)

/-- The effect of a call that is not refused: none, or what the distribution module writes. -/
def ExportSdk.exportEffect : ExportCall → AppState → AppState
  | .afterValidatorCreated a, s => { s with distribution := s.distribution.initializeValidator a }
  | .beforeDelegationCreated d a, s => s.pay (sdk.beforeDelegationCreated ctx d a s)
  | .afterDelegationModified d a, s => s.pay (sdk.afterDelegationModified ctx d a s)
  | _, s => s

/-- A call whose error is a panic with `text` in front of it. -/
def ExportSdk.must (text : String) (c : ExportCall) : Hook Unit :=
  orPanic text (Step.run ⟨sdk.refuseExport ctx c, sdk.exportEffect ctx c⟩)

/-! ## The preparation -/

/-- Every address on the list is decoded. -/
def checkAllowedAddrs (jailAllowedAddrs : List String) : Hook Unit :=
  jailAllowedAddrs.forM fun addr => do
    let _ ← orPanic "" (ofExcept (sdk.valAddressFromBech32 addr))

/-- The outstanding rewards of a validator go to the community pool, and its records start
anew. -/
def reinitializeValidator (valBz : ValAddress) : Hook Unit := do
  sdk.must ctx "" (.getValidatorOutstandingRewardsCoins valBz)
  let rewards := ((← get).distribution.outstandingRewards.lookup valBz).getD []
  let feePool ← orPanic "" (ask (sdk.getFeePool ctx))
  orPanic "" (sdk.step ctx "" (.setFeePool (sdk.addDecCoins feePool rewards))).run
  sdk.must ctx "" (.afterValidatorCreated valBz)

def reinitializeDelegation (del : AccAddress × ValAddress) : Hook Unit := do
  sdk.must ctx "error while incrementing period: " (.beforeDelegationCreated del.1 del.2)
  sdk.must ctx "error while creating a new delegation period record: "
    (.afterDelegationModified del.1 del.2)

/-- The fee distribution state: rewards are withdrawn, whether or not that fails, and then all
records start anew at height zero. -/
def handleFeeDistribution : Hook Unit := do
  sdk.must ctx "" .iterateValidators
  let validators := ranked ByStoreKey (← get).staking.validators.keys
  validators.forM fun valBz => modify fun s => s.pay (sdk.withdrawValidatorCommission ctx valBz s)
  sdk.must ctx "" .getAllDelegations
  let dels := ranked ByDelegationKey (← get).staking.delegations.keys
  dels.forM fun del => modify fun s => s.pay (sdk.withdrawDelegationRewards ctx del.1 del.2 s)
  modify fun s => { s with distribution.historicalRewards := ∅ }
  let ctx := { ctx with height := 0 }
  sdk.must ctx "" .iterateValidators
  validators.forM (reinitializeValidator sdk ctx)
  dels.forM (reinitializeDelegation sdk ctx)

/-- The record that is written back for a validator with the address `valAddr`. -/
def resetRecord (jailAllowedAddrs : List String) (valAddr : String) (validator : Validator) :
    Validator :=
  { validator with
    unbondingHeight := 0
    jailed :=
      if !jailAllowedAddrs.isEmpty && !jailAllowedAddrs.contains valAddr then true
      else validator.jailed }

/-- One round of the loop over the validators. -/
def resetValidator (jailAllowedAddrs : List String) (addr : ValAddress) : Hook Unit := do
  match ← attempt (ask (sdk.getValidator ctx addr)) with
  | .error _ => Proc.panic "expected validator, not found"
  | .ok validator =>
    let valAddr ← orPanic "" (ofExcept (sdk.bytesToString addr))
    orPanic ""
      (sdk.step ctx "" (.setValidator (resetRecord jailAllowedAddrs valAddr validator))).run

/-- The preparation up to the update of the validator set. Returns whether it goes on to it: an
error of closing the iterator is logged and ends it. -/
def prepBeforeUpdate (jailAllowedAddrs : List String) : Hook Bool := do
  checkAllowedAddrs sdk jailAllowedAddrs
  handleFeeDistribution sdk ctx
  sdk.must ctx "" .resetRedelegations
  sdk.must ctx "" .resetUnbondingDelegations
  -- the records are walked backwards
  let addrs := (ranked ByStoreKey (← get).staking.validators.keys).reverse
  addrs.forM (resetValidator sdk ctx jailAllowedAddrs)
  match ← attempt (Step.run ⟨sdk.refuseExport ctx .closeIterator, id⟩) with
  | .ok _ => pure true
  | .error _ => pure false

/-- `ApplyAndReturnValidatorSetUpdates` with an error taken for a panic. -/
def updateValidatorSet (maxValidators : ℕ) : Hook Unit := do
  let staking ← orPanic "" (ask fun s => applyAndReturnValidatorSetUpdates maxValidators s.staking)
  modify fun s => { s with staking }

/-- The start heights of all signing infos are set to zero. Errors of the writes are dropped. -/
def resetSigningInfos : Hook Unit := do
  sdk.must ctx "" .iterateValidatorSigningInfos
  (ranked ByStoreKey (← get).slashing.signingInfos.keys).forM fun addr => do
    match (← get).slashing.signingInfos.lookup addr with
    | none => pure ()
    | some info =>
      let _ ← attempt (sdk.step ctx "" (.setValidatorSigningInfo addr { info with
        startHeight := 0 })).run

/-- Prepare for a fresh start at height zero. -/
def prepForZeroHeightGenesis (maxValidators : ℕ) (jailAllowedAddrs : List String) :
    Hook Unit := do
  if ← prepBeforeUpdate sdk ctx jailAllowedAddrs then
    updateValidatorSet maxValidators
    resetSigningInfos sdk ctx
  else pure ()

/-! ## What the update finds -/

theorem within_must (text : String) (c : ExportCall) :
    Within (Order.Preimage AppState.staking Eq) (sdk.must ctx text c) := by
  refine .onError (Step.within_run fun s => ?_) _
  cases c <;> rfl

theorem within_pay (f : AppState → Payout) :
    Within (Order.Preimage AppState.staking Eq) (modify fun s => s.pay (f s) : Hook Unit) :=
  .modify fun _ => rfl

/-- The distribution module keeps to its own state. -/
theorem within_handleFeeDistribution :
    Within (Order.Preimage AppState.staking Eq) (handleFeeDistribution sdk ctx) := by
  refine .bind (within_must sdk _ _ _) fun _ => .bind .get fun s => ?_
  refine .bind (.forM (fun valBz => within_pay _) _) fun _ => ?_
  refine .bind (within_must sdk _ _ _) fun _ => .bind .get fun t => ?_
  refine .bind (.forM (fun del => within_pay _) _) fun _ => ?_
  refine .bind (.modify fun _ => rfl) fun _ => .bind (within_must sdk _ _ _) fun _ => ?_
  refine .bind (.forM (fun valBz => ?_) _) fun _ => .forM (fun del => ?_) _
  · refine .bind (within_must sdk _ _ _) fun _ => .bind .get fun _ => ?_
    refine .bind (.onError (.ask _) _) fun _ => ?_
    refine .bind (.onError (Step.within_run ?_) _) fun _ => within_must sdk _ _ _
    exact fun _ => rfl
  · exact .bind (within_must sdk _ _ _) fun _ => within_must sdk _ _ _

theorem within_checkAllowedAddrs (addrs : List String) :
    Within (Order.Preimage AppState.staking Eq) (checkAllowedAddrs sdk addrs) :=
  .forM (fun _ => .bind (.onError (.ask _) _) fun _ => .pure ()) addrs

variable {sdk ctx}

/-- Whether a validator is jailed, if there is one. -/
def Staking.jailedOf (s : Staking) (a : ValAddress) : Option Bool :=
  (s.validators.lookup a).map (·.jailed)

/-- Whether the list has the address of a validator. -/
def ExportSdk.isAllowed (sdk : ExportSdk) (addrs : List String) (a : ValAddress) : Bool :=
  match sdk.bytesToString a with
  | .ok valAddr => addrs.contains valAddr
  | .error _ => false

theorem resetValidator_ok {addrs : List String} {a : ValAddress} {s t : AppState}
    (h : resetValidator sdk ctx addrs a s = (.ok (), t)) :
    ∃ v valAddr, s.staking.validators.lookup a = some v ∧ sdk.bytesToString a = .ok valAddr ∧
      t.staking = s.staking.setValidator (resetRecord addrs valAddr v) := by
  obtain ⟨r, u, hread, hrest⟩ := bind_eq_ok_iff.mp h
  cases hget : sdk.getValidator ctx a s with
  | error e =>
    rw [attempt_of_error (ask_of_error hget)] at hread
    obtain ⟨hr, rfl⟩ := Prod.mk.inj hread
    obtain rfl := Except.ok.inj hr
    cases hrest
  | ok v =>
    rw [attempt_of_ok (ask_of_ok hget)] at hread
    obtain ⟨hr, rfl⟩ := Prod.mk.inj hread
    obtain rfl := Except.ok.inj hr
    obtain ⟨valAddr, u, hstring, hwrite⟩ := bind_eq_ok_iff.mp hrest
    obtain ⟨hencode, rfl⟩ := ask_eq_ok_iff.mp (onError_eq_ok_iff.mp hstring)
    obtain ⟨-, rfl⟩ := orPanic_step_ok sdk.toSdk ctx hwrite
    exact ⟨v, valAddr, Sdk.lookup_of_getValidator hget, hencode, rfl⟩

theorem jailedOf_resetRecord {addrs : List String} (hne : addrs ≠ []) {a : ValAddress}
    {valAddr : String} (hencode : sdk.bytesToString a = .ok valAddr) (v : Validator) :
    (resetRecord addrs valAddr v).jailed = (v.jailed || !sdk.isAllowed addrs a) := by
  have hnonempty : addrs.isEmpty = false := by simpa using hne
  simp only [resetRecord, ExportSdk.isAllowed, hencode, hnonempty]
  cases addrs.contains valAddr <;> cases v.jailed <;> rfl

/-- **The loop over the validators** jails those that are not on the list, and leaves the index
alone. -/
theorem resetValidators_ok {addrs : List String} (hne : addrs ≠ []) {as : List ValAddress}
    {s t : AppState} (h : as.forM (resetValidator sdk ctx addrs) s = (.ok (), t)) :
    t.staking.powerIndex = s.staking.powerIndex ∧ ∀ b, t.staking.jailedOf b =
      if b ∈ as then (s.staking.jailedOf b).map (· || !sdk.isAllowed addrs b)
      else s.staking.jailedOf b := by
  induction as generalizing s with
  | nil =>
    obtain rfl := (Prod.mk.inj h).2
    simp
  | cons a as ih =>
    obtain ⟨⟨⟩, u, hfirst, hrest⟩ := bind_eq_ok_iff.mp h
    obtain ⟨v, valAddr, hv, hencode, hstaking⟩ := resetValidator_ok hfirst
    obtain rfl := s.staking.keyed hv
    obtain ⟨hindex, hjailed⟩ := ih hrest
    have hone : ∀ b, u.staking.jailedOf b = if b = v.operatorAddress then
        (s.staking.jailedOf b).map (· || !sdk.isAllowed addrs b) else s.staking.jailedOf b := by
      intro b
      rw [Staking.jailedOf, hstaking, Staking.setValidator_validators]
      split_ifs with hb
      · subst hb
        have hlookup : (s.staking.validators.insert (resetRecord addrs valAddr v).operatorAddress
            (resetRecord addrs valAddr v)).lookup v.operatorAddress =
              some (resetRecord addrs valAddr v) := Finmap.lookup_insert _
        rw [hlookup, Staking.jailedOf, hv, Option.map_some, jailedOf_resetRecord hne hencode]
        rfl
      · have hb' : b ≠ (resetRecord addrs valAddr v).operatorAddress := hb
        rw [Finmap.lookup_insert_of_ne _ hb', Staking.jailedOf]
    refine ⟨by rw [hindex, hstaking]; rfl, fun b => ?_⟩
    rw [hjailed b, hone b]
    by_cases hb : b = v.operatorAddress
    · -- jailing once or twice is the same
      cases hold : s.staking.jailedOf b <;> simp [hb]
    · simp [hb]

/-- **What the update finds**: the index as it was, and the validators that are not on the list
jailed. -/
theorem prepBeforeUpdate_staking {addrs : List String} (hne : addrs ≠ []) {r : Bool}
    {s t : AppState} (h : prepBeforeUpdate sdk ctx addrs s = (.ok r, t)) :
    t.staking.powerIndex = s.staking.powerIndex ∧ ∀ b, t.staking.jailedOf b =
      (s.staking.jailedOf b).map (· || !sdk.isAllowed addrs b) := by
  obtain ⟨⟨⟩, s₁, hcheck, h⟩ := bind_eq_ok_iff.mp h
  obtain ⟨⟨⟩, s₂, hfees, h⟩ := bind_eq_ok_iff.mp h
  obtain ⟨⟨⟩, s₃, hredelegations, h⟩ := bind_eq_ok_iff.mp h
  obtain ⟨⟨⟩, s₄, hunbonding, h⟩ := bind_eq_ok_iff.mp h
  rw [bind_of_ok (get_apply s₄)] at h
  obtain ⟨⟨⟩, s₅, hloop, hclose⟩ := bind_eq_ok_iff.mp h
  have hbefore : s₄.staking = s.staking := by
    have h₁ := within_checkAllowedAddrs sdk addrs s
    have h₂ := within_handleFeeDistribution sdk ctx s₁
    have h₃ := within_must sdk ctx "" .resetRedelegations s₂
    have h₄ := within_must sdk ctx "" .resetUnbondingDelegations s₃
    rw [hcheck] at h₁
    rw [hfees] at h₂
    rw [hredelegations] at h₃
    rw [hunbonding] at h₄
    exact (h₁.trans (h₂.trans (h₃.trans h₄))).symm
  have hafter : t.staking = s₅.staking := by
    obtain ⟨r', s₆, hattempt, hpure⟩ := bind_eq_ok_iff.mp hclose
    have hstep : Within (Order.Preimage AppState.staking Eq) (attempt (Step.run
        ⟨sdk.refuseExport ctx .closeIterator, id⟩ : Hook Unit)) :=
      .attempt (Step.within_run fun _ => rfl)
    have h₅ := hstep s₅
    rw [hattempt] at h₅
    cases r' <;> (obtain rfl := (Prod.mk.inj hpure).2; exact h₅.symm)
  obtain ⟨hindex, hjailed⟩ := resetValidators_ok hne hloop
  rw [hafter]
  refine ⟨by rw [hindex, hbefore], fun b => ?_⟩
  rw [hjailed b, hbefore]
  split_ifs with hb
  · rfl
  · -- the loop goes over all validators
    have hnone : s.staking.validators.lookup b = none := by
      rw [List.mem_reverse, mem_ranked, Finmap.mem_keys] at hb
      exact Finmap.lookup_eq_none.mpr hb
    simp [Staking.jailedOf, hnone]

/-! ## Jailed validators in the index -/

/-- No validator in the power index is jailed. -/
def NoJailedIndexed (s : Staking) : Prop :=
  ∀ p a, (p, a) ∈ s.powerIndex → s.jailedOf a ≠ some true

theorem walkIndex_ne_jailed {s : Staking} {entries : List (ℤ × ValAddress)}
    (h : ∀ e ∈ entries, s.jailedOf e.2 ≠ some true) (n : ℕ) :
    walkIndex s n entries ≠ .error jailedInPowerStore := by
  induction entries generalizing n with
  | nil => simp [walkIndex_nil]
  | cons e entries ih =>
    obtain ⟨p, a⟩ := e
    obtain ⟨ha, hrest⟩ := List.forall_mem_cons.mp h
    cases n with
    | zero => simp [walkIndex]
    | succ n =>
      rw [walkIndex]
      cases hv : s.validators.lookup a with
      | none => simp [jailedInPowerStore]
      | some v =>
        have hjailed : v.jailed = false := by simpa [Staking.jailedOf, hv] using ha
        simp only [hjailed, Bool.false_eq_true, if_false]
        split_ifs
        · simp
        · cases hwalk : walkIndex s n entries with
          | ok taken => simp [Except.map]
          | error e =>
            have hne := ih hrest n
            rw [hwalk] at hne
            simpa [Except.map] using hne

theorem beginUnbonding_ne_jailed (as : List ValAddress) (s : Staking) :
    beginUnbonding as s ≠ .error jailedInPowerStore := by
  induction as generalizing s with
  | nil => simp [beginUnbonding]
  | cons a as ih =>
    rw [beginUnbonding]
    split
    · simp [jailedInPowerStore]
    · exact ih _
    · simp [jailedInPowerStore]

/-- What is assumed of an update of the validator set: it fails on a jailed validator only where
the index has one. -/
def FailsOnIndexed (update : ℕ → Staking → Except String Staking) : Prop :=
  ∀ max s, update max s = .error jailedInPowerStore → ¬ NoJailedIndexed s

theorem failsOnIndexed_update : FailsOnIndexed applyAndReturnValidatorSetUpdates := by
  intro max s hfails h
  refine absurd hfails ?_
  have hentries : ∀ e ∈ ranked ByPower s.powerIndex, s.jailedOf e.2 ≠ some true :=
    fun e he => h e.1 e.2 ((mem_ranked ByPower _).mp he)
  have hwalk := walkIndex_ne_jailed hentries max
  unfold applyAndReturnValidatorSetUpdates applyTaken
  simp only [bind, Except.bind, pure, Except.pure]
  split
  next e he =>
    rw [he] at hwalk
    simpa using hwalk
  next taken _ =>
    split
    next e he =>
      rw [← he]
      exact beginUnbonding_ne_jailed _ _
    next => simp

/-- **Jailing without the index.** Where the index holds exactly the validators that are not
jailed, the update finds no jailed validator in it, and so does not fail on one, exactly when all
validators that are not jailed are on the list. -/
theorem prepBeforeUpdate_noJailed_iff {update : ℕ → Staking → Except String Staking}
    (hupdate : FailsOnIndexed update) {addrs : List String} (hne : addrs ≠ []) {s t : AppState}
    (hindex : ∀ a, (∃ p, (p, a) ∈ s.staking.powerIndex) ↔ s.staking.jailedOf a = some false)
    (h : prepBeforeUpdate sdk ctx addrs s = (.ok true, t)) :
    (NoJailedIndexed t.staking ∧
      ∀ max, update max t.staking ≠ .error jailedInPowerStore) ↔
    ∀ a, s.staking.jailedOf a = some false → sdk.isAllowed addrs a = true := by
  obtain ⟨hsame, hjailed⟩ := prepBeforeUpdate_staking hne h
  have hiff : NoJailedIndexed t.staking ↔
      ∀ a, s.staking.jailedOf a = some false → sdk.isAllowed addrs a = true := by
    unfold NoJailedIndexed
    rw [hsame]
    constructor
    · intro hno a ha
      obtain ⟨p, hp⟩ := (hindex a).mpr ha
      have hnot := hno p a hp
      rw [hjailed a, ha] at hnot
      simpa using hnot
    · intro hall p a hp
      have ha := (hindex a).mp ⟨p, hp⟩
      rw [hjailed a, ha, hall a ha]
      simp
  rw [← hiff]
  exact ⟨And.left, fun hno => ⟨hno, fun max hfails => hupdate max _ hfails hno⟩⟩

section Sample

/-- An exact index holds exactly the validators that are not jailed. -/
theorem IndexExact.exists_mem_iff {s : AppState} (hs : IndexExact s) (a : ValAddress) :
    (∃ p, (p, a) ∈ s.staking.powerIndex) ↔ s.staking.jailedOf a = some false := by
  rw [Staking.jailedOf, Option.map_eq_some_iff]
  constructor
  · rintro ⟨p, hp⟩
    obtain ⟨v, hv, hjailed, -⟩ := (hs p a).mp hp
    exact ⟨v, hv, hjailed⟩
  · rintro ⟨v, hv, hjailed⟩
    obtain rfl := s.staking.keyed hv
    exact ⟨v.powerKey.1, (hs _ _).mpr ⟨v, hv, hjailed, rfl⟩⟩

/-- The local network, where nothing has been paid in fees. -/
def sampleExport : ExportSdk :=
  { sampleSdk with
    refuseExport := fun _ _ _ => none
    bytesToString := fun a =>
      if a = sampleOperator then .ok "nexusvaloper1m6jc29uar9n07mr0srspc7skjs7qvjkvw3h5kf"
      else if a = secondOperator then .ok "nexusvaloper17ze54jawc4etntrlz997wtkt8w3gwndvmehgex"
      else .error "address max length is 255"
    addDecCoins := fun c d => c ++ d
    withdrawValidatorCommission := fun _ _ s => ⟨s.auth, s.bank, s.distribution⟩
    withdrawDelegationRewards := fun _ _ _ s => ⟨s.auth, s.bank, s.distribution⟩
    beforeDelegationCreated := fun _ _ a s => ⟨s.auth, s.bank, s.distribution.startPeriod a⟩
    afterDelegationModified := fun _ _ _ s => ⟨s.auth, s.bank, s.distribution⟩ }

/-- The list with the first validator. -/
def firstAllowed : List String := ["nexusvaloper1m6jc29uar9n07mr0srspc7skjs7qvjkvw3h5kf"]

/-- Two validators, of which the second is jailed and out of the index: it has been removed. -/
def secondRemoved : AppState :=
  (executeRemoveValidator sampleSdk sampleBlock secondOperator none (grownState 2000000)).2

theorem indexExact_secondRemoved : IndexExact secondRemoved := by
  have hremove : executeRemoveValidator sampleSdk sampleBlock secondOperator none
      (grownState 2000000) = (.ok (), secondRemoved) := Prod.ext (by decide +kernel) rfl
  exact indexExact_executeRemoveValidator sampleBlock hremove (indexExact_grownState 2000000)

/-- The list with the first validator need not have the second one, which is jailed already. -/
theorem prepBeforeUpdate_noJailed_first :
    secondRemoved.staking.jailedOf sampleOperator = some false ∧
    secondRemoved.staking.jailedOf secondOperator = some true ∧
    NoJailedIndexed
        (prepBeforeUpdate sampleExport sampleBlock firstAllowed secondRemoved).2.staking ∧
      (prepForZeroHeightGenesis sampleExport sampleBlock 7 firstAllowed secondRemoved).1 =
        .ok () := by
  have hrun : prepBeforeUpdate sampleExport sampleBlock firstAllowed secondRemoved =
      (.ok true, _) := Prod.ext (by decide +kernel) rfl
  have hiff := prepBeforeUpdate_noJailed_iff failsOnIndexed_update (by decide)
    indexExact_secondRemoved.exists_mem_iff hrun
  refine ⟨by decide +kernel, by decide +kernel, (hiff.mpr fun a ha => ?_).1, by decide +kernel⟩
  obtain ⟨p, hp⟩ := (indexExact_secondRemoved.exists_mem_iff a).mpr ha
  have hindex : secondRemoved.staking.powerIndex = {(1, sampleOperator)} := by decide +kernel
  rw [hindex] at hp
  obtain ⟨-, rfl⟩ := Prod.mk.inj (Finset.mem_singleton.mp hp)
  decide +kernel

/-- With a second validator that is not on the list, the export panics. -/
theorem prepForZeroHeightGenesis_panics :
    (∀ a, (∃ p, (p, a) ∈ (grownState 2000000).staking.powerIndex) ↔
      (grownState 2000000).staking.jailedOf a = some false) ∧
    (firstAllowed.all fun addr => (sampleExport.valAddressFromBech32 addr).toOption.isSome) ∧
    (prepBeforeUpdate sampleExport sampleBlock firstAllowed (grownState 2000000)).1 = .ok true ∧
    (prepForZeroHeightGenesis sampleExport sampleBlock 7 firstAllowed (grownState 2000000)).1 =
      .error (.panic jailedInPowerStore) := by
  exact ⟨(indexExact_grownState 2000000).exists_mem_iff, by decide +kernel, by decide +kernel,
    by decide +kernel⟩

end Sample

end NexusNode
