import NexusNode.Staking.ActiveSet
import NexusNode.Staking.Reconcile

/-!
# The reports of the staking module

At the end of a block the staking module reports to the consensus engine what changed in the
validator set: the key and the power of every validator it takes with another power than last
time, and the key without power of every validator that dropped out. It moves the coins of the
validators that enter and leave the set from one pool to the other, the difference in a single
transfer. A failure anywhere stops the chain.

The engine has its own copy of the set and changes it by the reports alone. What else it does with
them is left to its laws (`ConsensusEngine.Laws`): it takes reports that name no key twice, have no
negative power and remove no key that it does not have, unless they leave it without a validator or
with more power than it can count. `Sound` says what the records have to look like, for the two
sets to agree and for no update to fail.

## Main definitions

* `stakingEndBlock`: the update of the validator set, with its reports and its transfer
* `EngineSet.update`, `EngineSet.WellFormed`: what reports make of a set, and their form
* `ConsensusEngine`, `ConsensusEngine.Laws`: the engine, and what is assumed of it
* `Registered`, `Sound`: the records, the engine's set and the pools fit together

## Main results

* `owed_updatedStaking`: what the update does to the pools before the transfer
* `Registered.updated`: the reports carry the engine's set to the new last set
* `Sound.stakingEndBlock`: from a sound state the update goes through, to a sound state
-/

namespace NexusNode

open Program Proc

/-! ## Reports -/

/-- `abci.ValidatorUpdate`: a key and its power, without power to remove it. -/
abbrev ValidatorUpdate := PubKey × ℤ

/-- `ABCIValidatorUpdate` and `ABCIValidatorUpdateZero`, for the given power. -/
def abciValidatorUpdate (v : Validator) (power : ℤ) : Except String ValidatorUpdate :=
  match v.consensusPubkey with
  | some key => .ok (key, power)
  | none => .error "expecting cryptotypes.PubKey: invalid type"

def abciValidatorUpdates : List (Validator × ℤ) → Except String (List ValidatorUpdate)
  | [] => .ok []
  | (v, power) :: rest => do
    let update ← abciValidatorUpdate v power
    let updates ← abciValidatorUpdates rest
    pure (update :: updates)

/-- The validators that an update reports, with their powers. -/
def reported (s : Staking) (taken : List Validator) : List (Validator × ℤ) :=
  (taken.filter fun v => s.lastValidatorPowers.lookup v.operatorAddress ≠ some v.powerKey.1).map
      (fun v => (v, v.powerKey.1)) ++
    (noLongerBonded s taken).filterMap fun a => (s.validators.lookup a).map fun v => (v, 0)

/-- The tokens that enter the bonded pool: those of the taken validators that were not bonded. -/
def enteringTokens (taken : List Validator) : ℤ :=
  (taken.map fun v => if v.status = .bonded then 0 else v.tokens.getD 0).sum

/-- The tokens that leave the bonded pool: those of the validators that dropped out. -/
def leavingTokens (s : Staking) (dropped : List ValAddress) : ℤ :=
  (dropped.map fun a => (s.validators.lookup a).elim 0 (·.tokens.getD 0)).sum

/-- One transfer between the pools, of the difference. -/
def transferBetweenPools (b : SdkBase) (ctx : BlockContext) (entering leaving : ℤ) :
    Hook Unit := do
  let denom := (← get).staking.bondDenom
  if leaving < entering then
    (b.documented.step ctx "" (.sendCoinsFromModuleToModule notBondedPoolName bondedPoolName
      ⟨denom, (entering - leaving).toNat⟩)).run
  else if entering < leaving then
    (b.documented.step ctx "" (.sendCoinsFromModuleToModule bondedPoolName notBondedPoolName
      ⟨denom, (leaving - entering).toNat⟩)).run
  else pure ()

instance : Std.Total ByPower := Order.Preimage.instTotal

/-- `EndBlocker` of the staking module: `ApplyAndReturnValidatorSetUpdates`, with what it reports
and moves. -/
def stakingEndBlock (b : SdkBase) (ctx : BlockContext) (max : ℕ) : Hook (List ValidatorUpdate) := do
  let before := (← get).staking
  let taken ← ofExcept (walkIndex before max (ranked ByPower before.powerIndex))
  let after ← ofExcept (applyTaken before taken)
  let updates ← ofExcept (abciValidatorUpdates (reported before taken))
  modify fun s => { s with staking := after }
  transferBetweenPools b ctx (enteringTokens taken)
    (leavingTokens before (noLongerBonded before taken))
  pure updates

/-- Where every validator has a key, the reports are their keys and powers. -/
theorem abciValidatorUpdates_ok {es : List (Validator × ℤ)}
    (h : ∀ e ∈ es, e.1.consensusPubkey.isSome) : ∃ us, abciValidatorUpdates es = .ok us ∧
      us.map (fun u => (some u.1, u.2)) = es.map fun e => (e.1.consensusPubkey, e.2) := by
  induction es with
  | nil => exact ⟨[], rfl, rfl⟩
  | cons e es ih =>
    obtain ⟨v, power⟩ := e
    obtain ⟨hv, hes⟩ := List.forall_mem_cons.mp h
    obtain ⟨key, hkey⟩ : ∃ key, v.consensusPubkey = some key := Option.isSome_iff_exists.mp hv
    obtain ⟨us, hus, hmap⟩ := ih hes
    refine ⟨(key, power) :: us, ?_, ?_⟩
    · simp only [abciValidatorUpdates, abciValidatorUpdate, hkey, hus]
      rfl
    · rw [List.map_cons, List.map_cons, hmap, hkey]

/-! ## The set of the consensus engine -/

/-- The validator set of the consensus engine: the power of every key. -/
abbrev EngineSet := Records PubKey ℤ

namespace EngineSet

/-- The change that one report makes. -/
def change (E : EngineSet) (u : ValidatorUpdate) : EngineSet :=
  if u.2 = 0 then E.erase u.1 else E.insert u.1 u.2

/-- The changes that the reports of a block make. -/
def update (E : EngineSet) (us : List ValidatorUpdate) : EngineSet := us.foldl change E

/-- Reports of the right form: no key twice, no negative power, and only known keys removed. -/
structure WellFormed (E : EngineSet) (us : List ValidatorUpdate) : Prop where
  distinct : (us.map Prod.fst).Nodup
  nonneg : ∀ u ∈ us, 0 ≤ u.2
  known : ∀ u ∈ us, u.2 = 0 → u.1 ∈ E

variable {E : EngineSet} {us : List ValidatorUpdate} {k : PubKey}

theorem lookup_change (u : ValidatorUpdate) :
    (E.change u).lookup k =
      if k = u.1 then (if u.2 = 0 then none else some u.2) else E.lookup k := by
  unfold change
  by_cases hk : k = u.1
  · rw [hk, if_pos rfl]
    split_ifs
    · exact Finmap.lookup_erase u.1 E
    · exact Finmap.lookup_insert E
  · rw [if_neg hk]
    split_ifs
    · exact Finmap.lookup_erase_ne hk
    · exact Finmap.lookup_insert_of_ne _ hk

/-- A key that no report names keeps its power. -/
theorem lookup_update_of_not_mem (h : k ∉ us.map Prod.fst) :
    (E.update us).lookup k = E.lookup k := by
  induction us generalizing E with
  | nil => rfl
  | cons u us ih =>
    obtain ⟨hne, hrest⟩ := not_or.mp (List.mem_cons.not.mp h)
    calc (E.update (u :: us)).lookup k
        = ((E.change u).update us).lookup k := rfl
      _ = (E.change u).lookup k := ih hrest
      _ = E.lookup k := by rw [lookup_change, if_neg hne]

/-- A key that one report names has its power. -/
theorem lookup_update_of_mem (hnodup : (us.map Prod.fst).Nodup) {p : ℤ} (h : (k, p) ∈ us) :
    (E.update us).lookup k = if p = 0 then none else some p := by
  induction us generalizing E with
  | nil => cases h
  | cons u us ih =>
    obtain ⟨hfresh, hnodup⟩ := List.nodup_cons.mp hnodup
    rcases List.mem_cons.mp h with rfl | hrest
    · calc (E.update ((k, p) :: us)).lookup k
          = ((E.change (k, p)).update us).lookup k := rfl
        _ = (E.change (k, p)).lookup k := lookup_update_of_not_mem hfresh
        _ = if p = 0 then none else some p := by rw [lookup_change, if_pos rfl]
    · exact ih hnodup hrest

end EngineSet

/-- The consensus engine, as far as its validator set goes: the powers that are read off its state,
and what it makes of reports. -/
structure ConsensusEngine where
  State : Type
  powers : State → EngineSet
  updateWithChangeSet : State → List ValidatorUpdate → Except String State
  maxTotalVotingPower : ℤ

/-- **What is assumed of the engine.** Reports that it takes change its set as they say. Reports of
the right form are taken, if they leave a validator and the old and the reported powers together
are not above the maximum. -/
structure ConsensusEngine.Laws (engine : ConsensusEngine) : Prop where
  applies : ∀ {E us E'}, engine.updateWithChangeSet E us = .ok E' →
    (engine.powers E).WellFormed us → engine.powers E' = (engine.powers E).update us
  takes : ∀ {E us}, (engine.powers E).WellFormed us → (engine.powers E).update us ≠ ∅ →
    total (fun _ p => p) (engine.powers E) + (us.map Prod.snd).sum ≤ engine.maxTotalVotingPower →
      ∃ E', engine.updateWithChangeSet E us = .ok E'

/-! ## Statuses -/

/-- The stored record of a validator, whatever its status. -/
def Staking.unstatused (s : Staking) (a : ValAddress) : Option Validator :=
  (s.validators.lookup a).map ({ · with status := .unbonded })

/-- Two states that differ in statuses and in the last set only. -/
structure StatusOnly (s t : Staking) : Prop where
  records : t.unstatused = s.unstatused
  powerIndex : t.powerIndex = s.powerIndex
  unbonding : t.unbondingDelegations = s.unbondingDelegations
  denom : t.bondDenom = s.bondDenom

namespace StatusOnly

variable {s t u : Staking}

theorem refl (s : Staking) : StatusOnly s s := ⟨rfl, rfl, rfl, rfl⟩

theorem symm (h : StatusOnly s t) : StatusOnly t s :=
  ⟨h.records.symm, h.powerIndex.symm, h.unbonding.symm, h.denom.symm⟩

theorem trans (h : StatusOnly s t) (h' : StatusOnly t u) : StatusOnly s u :=
  ⟨h'.records.trans h.records, h'.powerIndex.trans h.powerIndex, h'.unbonding.trans h.unbonding,
    h'.denom.trans h.denom⟩

theorem setStatus (s : Staking) (a : ValAddress) (status : BondStatus) :
    StatusOnly s (s.setStatus a status) := by
  unfold Staking.setStatus
  split
  · exact refl s
  next v hv =>
    refine ⟨funext fun c => ?_, rfl, rfl, rfl⟩
    obtain rfl := s.keyed hv
    simp only [Staking.unstatused, Staking.setValidator_validators]
    by_cases hc : c = v.operatorAddress
    · rw [hc, Finmap.lookup_insert, hv]
      rfl
    · rw [Finmap.lookup_insert_of_ne _ hc]

theorem foldl (as : List ValAddress) (status : BondStatus) (s : Staking) :
    StatusOnly s (as.foldl (fun s a => s.setStatus a status) s) := by
  induction as generalizing s with
  | nil => exact refl s
  | cons a as ih => exact (setStatus s a status).trans (ih _)

/-- The records are the same in all but the status. -/
theorem lookup (h : StatusOnly s t) {a : ValAddress} {w : Validator}
    (hw : t.validators.lookup a = some w) : ∃ v, s.validators.lookup a = some v ∧
      { w with status := .unbonded } = { v with status := .unbonded } := by
  have hrecord := congrFun h.records a
  rw [Staking.unstatused, hw, Option.map_some, eq_comm] at hrecord
  obtain ⟨v, hv, heq⟩ := Option.map_eq_some_iff.mp hrecord
  exact ⟨v, hv, heq.symm⟩

theorem nonNegativePower (h : StatusOnly s t) (hs : s.NonNegativePower) : t.NonNegativePower := by
  intro a w hw
  obtain ⟨v, hv, heq⟩ := h.lookup hw
  have htokens : w.tokens = v.tokens := by simpa using congrArg Validator.tokens heq
  rw [htokens]
  exact hs a v hv

theorem indexExact {s t : AppState} (h : StatusOnly s.staking t.staking) (hs : IndexExact s) :
    IndexExact t := by
  have hentry : ∀ {u u' : Staking}, StatusOnly u u' → ∀ {p a}, (∃ v, u'.validators.lookup a =
      some v ∧ v.jailed = false ∧ v.powerKey = (p, a)) → ∃ v, u.validators.lookup a = some v ∧
        v.jailed = false ∧ v.powerKey = (p, a) := by
    rintro u u' hu p a ⟨w, hw, hjailed, hkey⟩
    obtain ⟨v, hv, heq⟩ := hu.lookup hw
    exact ⟨v, hv, (congrArg Validator.jailed heq).symm.trans hjailed,
      (congrArg Validator.powerKey heq).symm.trans hkey⟩
  intro p a
  rw [h.powerIndex, hs p a]
  exact ⟨hentry h.symm, hentry h⟩

end StatusOnly

/-! ## Tokens of the two kinds -/

section Tokens

variable {s : Staking} {status : BondStatus}

/-- What a new status of `a` adds to the bonded tokens, and takes from the others. -/
def Staking.statusShift (s : Staking) (status : BondStatus) (a : ValAddress) : ℤ :=
  (s.validators.lookup a).elim 0 fun v => { v with status }.tokensIn true - v.tokensIn true

theorem lookup_setStatus_of_ne {a c : ValAddress} (h : c ≠ a) :
    (s.setStatus a status).validators.lookup c = s.validators.lookup c := by
  unfold Staking.setStatus
  split
  · rfl
  next v hv =>
    obtain rfl := s.keyed hv
    exact Finmap.lookup_insert_of_ne _ h

theorem lookup_foldl_of_not_mem {as : List ValAddress} {c : ValAddress} (h : c ∉ as) :
    (as.foldl (fun s a => s.setStatus a status) s).validators.lookup c =
      s.validators.lookup c := by
  induction as generalizing s with
  | nil => rfl
  | cons a as ih =>
    obtain ⟨hne, hrest⟩ := not_or.mp (List.mem_cons.not.mp h)
    rw [List.foldl_cons, ih hrest, lookup_setStatus_of_ne hne]

variable (bonded : Bool)

omit bonded in
theorem Validator.tokensIn_false (v : Validator) :
    v.tokensIn false = v.tokens.getD 0 - v.tokensIn true := by
  by_cases h : v.status = .bonded <;> simp [Validator.tokensIn, h]

theorem tokensOf_setStatus (a : ValAddress) :
    tokensOf bonded (s.setStatus a status).validators = tokensOf bonded s.validators +
      if bonded then s.statusShift status a else -s.statusShift status a := by
  unfold Staking.setStatus Staking.statusShift
  split
  next hv => simp [hv]
  next v hv =>
    obtain rfl := s.keyed hv
    rw [Staking.setValidator_validators, tokensOf_insert_of_lookup bonded hv, hv, Option.elim_some]
    cases bonded with
    | true =>
      simp only [if_true]
      omega
    | false =>
      simp only [Validator.tokensIn_false, Bool.false_eq_true, if_false]
      omega

/-- New statuses of different validators add up. -/
theorem tokensOf_foldl {as : List ValAddress} (hnodup : as.Nodup) :
    tokensOf bonded (as.foldl (fun s a => s.setStatus a status) s).validators =
      tokensOf bonded s.validators + if bonded then (as.map (s.statusShift status)).sum
        else -(as.map (s.statusShift status)).sum := by
  induction as generalizing s with
  | nil => simp
  | cons a as ih =>
    obtain ⟨hfresh, hnodup⟩ := List.nodup_cons.mp hnodup
    have hothers : as.map ((s.setStatus a status).statusShift status) =
        as.map (s.statusShift status) := by
      refine List.map_congr_left fun c hc => ?_
      have hne : c ≠ a := fun h => hfresh (h ▸ hc)
      rw [Staking.statusShift, lookup_setStatus_of_ne hne]
      rfl
    rw [List.foldl_cons, ih hnodup, hothers, tokensOf_setStatus, List.map_cons, List.sum_cons]
    split_ifs <;> omega

theorem owed_nonneg (hs : s.NonNegativePower) : 0 ≤ owed bonded s := by
  have htokens : 0 ≤ tokensOf bonded s.validators := by
    refine total_nonneg fun a v hv => ?_
    split_ifs
    · exact hs a v hv
    · exact le_rfl
  have hunbonding := unbondingBalance_nonneg s.unbondingDelegations
  unfold owed
  split_ifs <;> omega

end Tokens

/-! ## The update of the records -/

/-- The records after an update that takes `taken`. -/
def updatedStaking (s : Staking) (taken : List Validator) : Staking :=
  { (noLongerBonded s taken).foldl (fun s a => s.setStatus a .unbonding)
      ((taken.map (·.operatorAddress)).foldl (fun s a => s.setStatus a .bonded) s) with
    lastValidatorPowers := lastPowers taken }

theorem statusOnly_updatedStaking (s : Staking) (taken : List Validator) :
    StatusOnly s (updatedStaking s taken) := by
  have h := (StatusOnly.foldl (taken.map (·.operatorAddress)) .bonded s).trans
    (StatusOnly.foldl (noLongerBonded s taken) .unbonding _)
  exact ⟨h.records, h.powerIndex, h.unbonding, h.denom⟩

/-- What the walk takes: stored validators, each once and with power. -/
structure Takes (s : Staking) (taken : List Validator) : Prop where
  stored : ∀ v ∈ taken, s.validators.lookup v.operatorAddress = some v
  nodup : (taken.map (·.operatorAddress)).Nodup
  power : ∀ v ∈ taken, 0 < v.powerKey.1

section Update

variable {s : AppState} {max : ℕ} {taken : List Validator}

theorem IndexExact.nonneg (hs : IndexExact s) (htokens : s.staking.NonNegativePower) :
    ∀ e ∈ s.staking.powerIndex, 0 ≤ e.1 := by
  rintro ⟨p, a⟩ he
  obtain ⟨v, hv, -, hkey⟩ := (hs p a).mp he
  obtain ⟨rfl, -⟩ := Prod.mk.inj hkey
  exact Int.tdiv_nonneg (htokens a v hv) (by decide)

/-- The walk over entries of an exact index does not fail. -/
theorem walkIndex_returns (hs : IndexExact s) (entries : List (ℤ × ValAddress)) (n : ℕ)
    (h : ∀ e ∈ entries, e ∈ s.staking.powerIndex) :
    ∃ taken, walkIndex s.staking n entries = .ok taken := by
  induction entries generalizing n with
  | nil => exact ⟨[], walkIndex_nil s.staking n⟩
  | cons e entries ih =>
    obtain ⟨p, a⟩ := e
    cases n with
    | zero => exact ⟨[], rfl⟩
    | succ n =>
      obtain ⟨hentry, hentries⟩ := List.forall_mem_cons.mp h
      obtain ⟨v, hv, hjailed, -⟩ := (hs p a).mp hentry
      obtain ⟨rest, hrest⟩ := ih n hentries
      simp only [walkIndex, hv, hjailed, Bool.false_eq_true, if_false, hrest, Except.map]
      split_ifs
      · exact ⟨[], rfl⟩
      · exact ⟨v :: rest, rfl⟩

theorem takes_of_walkIndex (hs : IndexExact s) (htokens : s.staking.NonNegativePower)
    (h : walkIndex s.staking max (ranked ByPower s.staking.powerIndex) = .ok taken) :
    Takes s.staking taken := by
  have hstored := walkIndex_stored h
  have hkeys := walkIndex_ok (pairwise_ranked ByPower s.staking.powerIndex)
    (fun e he => hs.nonneg htokens e ((mem_ranked ByPower _).mp he))
    (fun e he v hv => by
      obtain ⟨w, hw, -, hkey⟩ := (hs e.1 e.2).mp ((mem_ranked ByPower _).mp he)
      rwa [Option.some.inj (hv.symm.trans hw)]) h
  refine ⟨hstored, ?_, fun v hv => ?_⟩
  · -- the entries are different, and a validator has one entry only
    have hnodup : (taken.map (·.powerKey)).Nodup := by
      rw [hkeys, ranked_eq_sort]
      exact ((Finset.sort_nodup _ _).sublist (List.take_sublist _ _)).filter _
    refine List.Nodup.map_on (fun v hv w hw heq => ?_) (List.Nodup.of_map _ hnodup)
    have hsame : s.staking.validators.lookup v.operatorAddress = some w := heq ▸ hstored w hw
    exact Option.some.inj ((hstored v hv).symm.trans hsame)
  · have hmem : v.powerKey ∈ taken.map (·.powerKey) := List.mem_map_of_mem hv
    rw [hkeys] at hmem
    exact of_decide_eq_true (List.mem_filter.mp hmem).2

/-- Bonded validators can all begin to unbond. -/
theorem beginUnbonding_returns {as : List ValAddress} {s : Staking} (hnodup : as.Nodup)
    (h : ∀ a ∈ as, s.statusOf a = some .bonded) :
    beginUnbonding as s = .ok (as.foldl (fun s a => s.setStatus a .unbonding) s) := by
  induction as generalizing s with
  | nil => rfl
  | cons a as ih =>
    obtain ⟨hfresh, hnodup⟩ := List.nodup_cons.mp hnodup
    obtain ⟨ha, has⟩ := List.forall_mem_cons.mp h
    rw [beginUnbonding, ha, List.foldl_cons]
    refine ih hnodup fun c hc => ?_
    have hne : c ≠ a := fun heq => hfresh (heq ▸ hc)
    rw [Staking.statusOf_setStatus, if_neg hne]
    exact has c hc

theorem nodup_noLongerBonded (s : Staking) (taken : List Validator) :
    (noLongerBonded s taken).Nodup := by
  rw [noLongerBonded, ranked_eq_sort]
  exact Finset.sort_nodup _ _

/-- A validator that drops out has the record it had. -/
theorem lookup_of_noLongerBonded {s : Staking} {a : ValAddress}
    (h : a ∈ noLongerBonded s taken) : ((taken.map (·.operatorAddress)).foldl
      (fun s a => s.setStatus a .bonded) s).validators.lookup a = s.validators.lookup a :=
  lookup_foldl_of_not_mem (mem_noLongerBonded_iff.mp h).2

/-- Where the last set is bonded, the records are updated without a failure. -/
theorem applyTaken_returns {s : Staking}
    (hlast : ∀ a ∈ s.lastValidatorPowers, s.statusOf a = some .bonded) :
    applyTaken s taken = .ok (updatedStaking s taken) := by
  have hunbond := beginUnbonding_returns (nodup_noLongerBonded s taken)
    (s := (taken.map (·.operatorAddress)).foldl (fun s a => s.setStatus a .bonded) s)
    fun a ha => by
      rw [Staking.statusOf, lookup_of_noLongerBonded ha]
      exact hlast a (mem_noLongerBonded_iff.mp ha).1
  simp only [applyTaken, hunbond, bind, Except.bind, pure, Except.pure]
  rfl

/-! ## The pools -/

theorem sum_statusShift_taken {s : Staking} (h : Takes s taken) :
    ((taken.map (·.operatorAddress)).map (s.statusShift .bonded)).sum = enteringTokens taken := by
  rw [List.map_map, enteringTokens]
  congr 1
  refine List.map_congr_left fun v hv => ?_
  rw [Function.comp_apply, Staking.statusShift, h.stored v hv, Option.elim_some]
  by_cases hstatus : v.status = .bonded <;> simp [Validator.tokensIn, hstatus]

theorem sum_statusShift_dropped {s : Staking}
    (hlast : ∀ a ∈ s.lastValidatorPowers, s.statusOf a = some .bonded) :
    ((noLongerBonded s taken).map (((taken.map (·.operatorAddress)).foldl
      (fun s a => s.setStatus a .bonded) s).statusShift .unbonding)).sum =
        -leavingTokens s (noLongerBonded s taken) := by
  rw [leavingTokens, List.sum_neg, List.map_map]
  congr 1
  refine List.map_congr_left fun a ha => ?_
  have hstatus := hlast a (mem_noLongerBonded_iff.mp ha).1
  obtain ⟨v, hv, hbonded⟩ := Option.map_eq_some_iff.mp hstatus
  rw [Function.comp_apply, Staking.statusShift, lookup_of_noLongerBonded ha, hv, Option.elim_some,
    Option.elim_some]
  simp [Validator.tokensIn, hbonded]

/-- **The update and the pools.** What the bonded validators gain in tokens, the others lose. -/
theorem owed_updatedStaking {s : Staking} (h : Takes s taken)
    (hlast : ∀ a ∈ s.lastValidatorPowers, s.statusOf a = some .bonded) (bonded : Bool) :
    owed bonded (updatedStaking s taken) = owed bonded s +
      if bonded then enteringTokens taken - leavingTokens s (noLongerBonded s taken)
      else leavingTokens s (noLongerBonded s taken) - enteringTokens taken := by
  have hunbonding := (statusOnly_updatedStaking s taken).unbonding
  have htokens : tokensOf bonded (updatedStaking s taken).validators = _ :=
    (tokensOf_foldl bonded (nodup_noLongerBonded s taken)).trans
      (congrArg (· + _) (tokensOf_foldl bonded h.nodup))
  unfold owed
  rw [htokens, hunbonding, sum_statusShift_taken h, sum_statusShift_dropped hlast]
  split_ifs <;> omega

end Update

/-! ## The invariant -/

/-- **The records and the engine.** No tokens are negative. Every validator has a consensus key,
and no two have the same. The validators of the last set are bonded, and the engine has their
keys with their powers. -/
structure Registered (E : EngineSet) (s : AppState) : Prop where
  tokens : s.staking.NonNegativePower
  keyed : ∀ {a v}, s.staking.validators.lookup a = some v → v.consensusPubkey.isSome
  distinct : ∀ {a c v w}, s.staking.validators.lookup a = some v →
    s.staking.validators.lookup c = some w → v.consensusPubkey = w.consensusPubkey → a = c
  last : ∀ a ∈ s.staking.lastValidatorPowers, s.staking.statusOf a = some .bonded
  tracks : ∀ k p, E.lookup k = some p ↔ ∃ a v, s.staking.validators.lookup a = some v ∧
    v.consensusPubkey = some k ∧ s.staking.lastValidatorPowers.lookup a = some p

/-- **A sound state.** Records and engine fit together, the power index is exact, and the pools
cover what they have to. -/
structure Sound (b : SdkBase) (E : EngineSet) (s : AppState) : Prop extends Registered E s where
  index : IndexExact s
  funded : ∀ bonded, 0 ≤ slack b bonded s
  denom : s.staking.bondDenom = defaultBondDenom

theorem lookup_lastPowers_of_mem {taken : List Validator}
    (h : (taken.map (·.operatorAddress)).Nodup) {v : Validator} (hv : v ∈ taken) :
    (lastPowers taken).lookup v.operatorAddress = some v.powerKey.1 := by
  induction taken with
  | nil => cases hv
  | cons w taken ih =>
    obtain ⟨hfresh, hnodup⟩ := List.nodup_cons.mp h
    have hcons : lastPowers (w :: taken) =
      (lastPowers taken).insert w.operatorAddress w.powerKey.1 := rfl
    rw [hcons]
    rcases List.mem_cons.mp hv with rfl | hv
    · exact Finmap.lookup_insert _
    · have hne : v.operatorAddress ≠ w.operatorAddress := fun heq =>
        hfresh (List.mem_map.mpr ⟨v, hv, heq⟩)
      rw [Finmap.lookup_insert_of_ne _ hne]
      exact ih hnodup hv

section Reports

variable {s : AppState} {E : EngineSet} {taken : List Validator} {us : List ValidatorUpdate}

theorem mem_reported_iff {s : Staking} {v : Validator} {p : ℤ} :
    (v, p) ∈ reported s taken ↔
      (v ∈ taken ∧ s.lastValidatorPowers.lookup v.operatorAddress ≠ some v.powerKey.1 ∧
        p = v.powerKey.1) ∨
      v.operatorAddress ∈ noLongerBonded s taken ∧
        s.validators.lookup v.operatorAddress = some v ∧ p = 0 := by
  simp only [reported, List.mem_append, List.mem_map, List.mem_filter, List.mem_filterMap,
    Option.map_eq_some_iff, Prod.mk.injEq, decide_eq_true_eq]
  constructor
  · rintro (⟨w, ⟨hw, hchanged⟩, rfl, rfl⟩ | ⟨a, ha, w, hw, rfl, rfl⟩)
    · exact .inl ⟨hw, hchanged, rfl⟩
    · obtain rfl := s.keyed hw
      exact .inr ⟨ha, hw, rfl⟩
  · rintro (⟨hv, hchanged, rfl⟩ | ⟨ha, hv, rfl⟩)
    · exact .inl ⟨v, ⟨hv, hchanged⟩, rfl, rfl⟩
    · exact .inr ⟨v.operatorAddress, ha, v, hv, rfl, rfl⟩

theorem stored_of_mem_reported (htakes : Takes s.staking taken) {e : Validator × ℤ}
    (he : e ∈ reported s.staking taken) :
    s.staking.validators.lookup e.1.operatorAddress = some e.1 := by
  rcases mem_reported_iff.mp he with ⟨hv, -, -⟩ | ⟨-, hv, -⟩
  · exact htakes.stored e.1 hv
  · exact hv

/-- No validator is reported twice. -/
theorem pairwise_reported (htakes : Takes s.staking taken) :
    (reported s.staking taken).Pairwise fun e f => e.1.operatorAddress ≠ f.1.operatorAddress := by
  refine List.pairwise_append.mpr ⟨?_, ?_, ?_⟩
  · exact List.pairwise_map.mpr ((List.pairwise_map.mp htakes.nodup).filter _)
  · refine List.Pairwise.filterMap _ (fun a c hne e he f hf => ?_)
      (nodup_noLongerBonded s.staking taken)
    obtain ⟨v, hv, rfl⟩ := Option.map_eq_some_iff.mp he
    obtain ⟨w, hw, rfl⟩ := Option.map_eq_some_iff.mp hf
    rwa [s.staking.keyed hv, s.staking.keyed hw]
  · intro e he f hf heq
    obtain ⟨v, hv, rfl⟩ := List.mem_map.mp he
    obtain ⟨a, ha, hf⟩ := List.mem_filterMap.mp hf
    obtain ⟨w, hw, rfl⟩ := Option.map_eq_some_iff.mp hf
    refine (mem_noLongerBonded_iff.mp ha).2 ?_
    rw [← s.staking.keyed hw]
    exact heq ▸ List.mem_map_of_mem (List.mem_filter.mp hv).1

/-- The list `us` has the keys and powers of what is reported. -/
def Reports (s : Staking) (taken : List Validator) (us : List ValidatorUpdate) : Prop :=
  us.map (fun u => (some u.1, u.2)) = (reported s taken).map fun e => (e.1.consensusPubkey, e.2)

theorem Reports.mem_iff {s : Staking} (h : Reports s taken us) {k : PubKey} {p : ℤ} :
    (k, p) ∈ us ↔ ∃ v, (v, p) ∈ reported s taken ∧ v.consensusPubkey = some k := by
  have hmem : (some k, p) ∈ us.map (fun u => (some u.1, u.2)) ↔ (k, p) ∈ us := by
    simp
  rw [← hmem, h]
  simp

variable (hs : Registered E s) (htakes : Takes s.staking taken) (hus : Reports s.staking taken us)

include hs htakes hus

/-- What is reported under the key of a validator is reported of this validator. -/
theorem Registered.mem_reports_iff {a : ValAddress} {v : Validator} {k : PubKey}
    (hv : s.staking.validators.lookup a = some v) (hk : v.consensusPubkey = some k) {p : ℤ} :
    (k, p) ∈ us ↔ (v, p) ∈ reported s.staking taken := by
  rw [hus.mem_iff]
  constructor
  · rintro ⟨w, hw, hwk⟩
    have hstored := stored_of_mem_reported htakes hw
    have hop : w.operatorAddress = a := hs.distinct hstored hv (hwk.trans hk.symm)
    rw [hop, hv] at hstored
    rwa [Option.some.inj hstored]
  · exact fun h => ⟨v, h, hk⟩

theorem Registered.nodup_reports : (us.map Prod.fst).Nodup := by
  have hkeys : (us.map Prod.fst).map some =
      (reported s.staking taken).map fun e => e.1.consensusPubkey := by
    have hfst := congrArg (List.map Prod.fst) hus
    rw [List.map_map, List.map_map] at hfst
    rw [List.map_map]
    exact hfst
  refine List.Nodup.of_map some ?_
  rw [hkeys, List.Nodup, List.pairwise_map]
  refine (pairwise_reported htakes).imp_of_mem fun {e f} he hf hne heq => hne ?_
  exact hs.distinct (stored_of_mem_reported htakes he) (stored_of_mem_reported htakes hf) heq

/-- What is reported has the right form. -/
theorem Registered.wellFormed_reports : E.WellFormed us where
  distinct := hs.nodup_reports htakes hus
  nonneg := by
    rintro ⟨k, p⟩ hu
    obtain ⟨v, hreport, -⟩ := hus.mem_iff.mp hu
    rcases mem_reported_iff.mp hreport with ⟨hv, -, rfl⟩ | ⟨-, -, rfl⟩
    · exact (htakes.power v hv).le
    · exact le_rfl
  known := by
    rintro ⟨k, p⟩ hu hp
    obtain rfl : p = 0 := hp
    obtain ⟨v, hv, hk⟩ := hus.mem_iff.mp hu
    rcases mem_reported_iff.mp hv with ⟨hv, -, hzero⟩ | ⟨hdropped, hv, -⟩
    · exact absurd hzero (htakes.power v hv).ne
    · -- it was in the last set, so the engine knows it
      obtain ⟨q, hq⟩ := Finmap.mem_iff.mp (mem_noLongerBonded_iff.mp hdropped).1
      exact Finmap.mem_of_lookup_eq_some ((hs.tracks k q).mpr ⟨_, v, hv, hk, hq⟩)

/-- After the reports, the engine has a key with the power that its validator has in the new last
set. -/
theorem Registered.lookup_update {v : Validator} {k : PubKey}
    (hv : s.staking.validators.lookup v.operatorAddress = some v)
    (hk : v.consensusPubkey = some k) :
    (E.update us).lookup k = (lastPowers taken).lookup v.operatorAddress := by
  have hnodup := hs.nodup_reports htakes hus
  have hmem : ∀ p, (k, p) ∈ us ↔ (v, p) ∈ reported s.staking taken := fun p =>
    hs.mem_reports_iff htakes hus hv hk
  have hold : ∀ p, E.lookup k = some p ↔
      s.staking.lastValidatorPowers.lookup v.operatorAddress = some p := by
    intro p
    rw [hs.tracks]
    constructor
    · rintro ⟨a, w, hw, hwk, hp⟩
      rwa [← hs.distinct hw hv (hwk.trans hk.symm)]
    · exact fun hp => ⟨_, v, hv, hk, hp⟩
  have hunnamed : (∀ p, (v, p) ∉ reported s.staking taken) →
      (E.update us).lookup k = E.lookup k := by
    intro hnone
    refine EngineSet.lookup_update_of_not_mem fun hkey => ?_
    obtain ⟨⟨k', p⟩, hu, rfl⟩ := List.mem_map.mp hkey
    exact hnone p ((hmem p).mp hu)
  by_cases hin : v ∈ taken
  · have hpower := htakes.power v hin
    have hnot : v.operatorAddress ∉ noLongerBonded s.staking taken := fun hdropped =>
      (mem_noLongerBonded_iff.mp hdropped).2 (List.mem_map_of_mem hin)
    rw [lookup_lastPowers_of_mem htakes.nodup hin]
    by_cases hsame : s.staking.lastValidatorPowers.lookup v.operatorAddress = some v.powerKey.1
    · rw [hunnamed ?_, hold, hsame]
      intro p hp
      rcases mem_reported_iff.mp hp with ⟨-, hchanged, -⟩ | ⟨hdropped, -, -⟩
      · exact hchanged hsame
      · exact hnot hdropped
    · have hu := (hmem _).mpr (mem_reported_iff.mpr (.inl ⟨hin, hsame, rfl⟩))
      rw [EngineSet.lookup_update_of_mem hnodup hu, if_neg hpower.ne']
  · have hout : v.operatorAddress ∉ taken.map (·.operatorAddress) := by
      intro h
      obtain ⟨w, hw, heq⟩ := List.mem_map.mp h
      have hstored : s.staking.validators.lookup v.operatorAddress = some w :=
        heq ▸ htakes.stored w hw
      exact hin (Option.some.inj (hv.symm.trans hstored) ▸ hw)
    rw [Finmap.lookup_eq_none.mpr (mem_lastPowers_iff.not.mpr hout)]
    by_cases hlast : v.operatorAddress ∈ s.staking.lastValidatorPowers
    · have hdropped := mem_noLongerBonded_iff.mpr ⟨hlast, hout⟩
      have hu := (hmem 0).mpr (mem_reported_iff.mpr (.inr ⟨hdropped, hv, rfl⟩))
      rw [EngineSet.lookup_update_of_mem hnodup hu, if_pos rfl]
    · rw [hunnamed ?_]
      · refine Option.eq_none_iff_forall_ne_some.mpr fun p hp => ?_
        exact hlast (Finmap.mem_of_lookup_eq_some ((hold p).mp hp))
      · intro p hp
        rcases mem_reported_iff.mp hp with ⟨hv, -, -⟩ | ⟨hdropped, -, -⟩
        · exact hin hv
        · exact hlast (mem_noLongerBonded_iff.mp hdropped).1

end Reports

/-! ## The end of a block -/

section EndBlock

variable {b : SdkBase} {s : AppState} {E : EngineSet} {taken : List Validator}
  {us : List ValidatorUpdate}

/-- Whoever the engine has after the reports is a validator. -/
theorem Registered.exists_of_lookup_update (hs : Registered E s) (htakes : Takes s.staking taken)
    (hus : Reports s.staking taken us) {k : PubKey} {p : ℤ}
    (h : (E.update us).lookup k = some p) : ∃ v,
      s.staking.validators.lookup v.operatorAddress = some v ∧ v.consensusPubkey = some k := by
  by_cases hnamed : k ∈ us.map Prod.fst
  · obtain ⟨⟨k', q⟩, hu, rfl⟩ := List.mem_map.mp hnamed
    obtain ⟨v, hv, hk⟩ := hus.mem_iff.mp hu
    exact ⟨v, stored_of_mem_reported htakes hv, hk⟩
  · rw [EngineSet.lookup_update_of_not_mem hnamed] at h
    obtain ⟨a, v, hv, hk, -⟩ := (hs.tracks k p).mp h
    obtain rfl := s.staking.keyed hv
    exact ⟨v, hv, hk⟩

/-- **The engine follows.** The records after an update and the engine's set after its reports fit
together. -/
theorem Registered.updated (hs : Registered E s) (htakes : Takes s.staking taken)
    (hus : Reports s.staking taken us) {t : AppState}
    (ht : t.staking = updatedStaking s.staking taken)
    (hlast : ∀ a ∈ t.staking.lastValidatorPowers, t.staking.statusOf a = some .bonded) :
    Registered (E.update us) t := by
  have hstatus : StatusOnly s.staking t.staking := ht ▸ statusOnly_updatedStaking s.staking taken
  have hpowers : t.staking.lastValidatorPowers = lastPowers taken := by rw [ht]; rfl
  have hrecord : ∀ {u u' : Staking}, StatusOnly u u' → ∀ {a w},
      u'.validators.lookup a = some w → ∃ v, u.validators.lookup a = some v ∧
        w.consensusPubkey = v.consensusPubkey := by
    intro u u' hu a w hw
    obtain ⟨v, hv, heq⟩ := hu.lookup hw
    exact ⟨v, hv, by simpa using congrArg Validator.consensusPubkey heq⟩
  refine ⟨hstatus.nonNegativePower hs.tokens, fun hw => ?_, fun hv hw heq => ?_, hlast,
    fun k p => ⟨fun h => ?_, ?_⟩⟩
  · obtain ⟨v, hv, hkey⟩ := hrecord hstatus hw
    rw [hkey]
    exact hs.keyed hv
  · obtain ⟨v', hv', hkv⟩ := hrecord hstatus hv
    obtain ⟨w', hw', hkw⟩ := hrecord hstatus hw
    exact hs.distinct hv' hw' (hkv.symm.trans (heq.trans hkw))
  · obtain ⟨v, hv, hk⟩ := hs.exists_of_lookup_update htakes hus h
    obtain ⟨w, hw, hkey⟩ := hrecord hstatus.symm hv
    rw [hs.lookup_update htakes hus hv hk, ← hpowers] at h
    exact ⟨_, w, hw, hkey.symm.trans hk, h⟩
  · rintro ⟨a, w, hw, hk, hp⟩
    obtain ⟨v, hv, hkey⟩ := hrecord hstatus hw
    obtain rfl := s.staking.keyed hv
    rw [hs.lookup_update htakes hus hv (hkey.symm.trans hk), ← hpowers, hp]

variable (laws : PoolLaws b) (ctx : BlockContext)

include laws

/-- Coins that a pool has can be sent to the other one. -/
theorem send_between_pools (p : Bool) {n : ℕ} (hn : n ≤ poolBalance b p s.bank) :
    ∃ t, (b.documented.step ctx "" (.sendCoinsFromModuleToModule (poolName p) (poolName !p)
        ⟨defaultBondDenom, n⟩)).run s = (.ok (), t) ∧ t.staking = s.staking ∧
      ∀ bonded, slack b bonded t = slack b bonded s + if bonded = p then -(n : ℤ) else n := by
  have hbalance : n ≤ s.bank.balance (b.moduleAddress (poolName p)) defaultBondDenom :=
    Int.ofNat_le.mp hn
  have haccept : (b.documented.step ctx "" (.sendCoinsFromModuleToModule (poolName p)
      (poolName !p) ⟨defaultBondDenom, n⟩)).refuse s = none := by
    simp [Sdk.step, SdkBase.documented, SdkBase.mustRefuse, hbalance]
  refine ⟨_, Step.run_of_accepted haccept, rfl, fun bonded => slack_of_poolBalance bonded rfl ?_⟩
  calc poolBalance b bonded ((s.bank.subCoins (b.moduleAddress (poolName p))
          ⟨defaultBondDenom, n⟩).addCoins (b.moduleAddress (poolName !p)) ⟨defaultBondDenom, n⟩)
      = poolBalance b bonded s.bank + -(if bonded = p then (n : ℤ) else 0) +
          if bonded = !p then (n : ℤ) else 0 := by
        rw [laws.poolBalance_addCoins, laws.poolBalance_subCoins bonded s.bank hbalance]
    _ = poolBalance b bonded s.bank + if bonded = p then -(n : ℤ) else n := by
        cases bonded <;> cases p <;> simp

/-- The transfer goes through when the pools have the coins. -/
theorem transferBetweenPools_returns {entering leaving : ℤ}
    (hdenom : s.staking.bondDenom = defaultBondDenom)
    (hin : entering - leaving ≤ poolBalance b false s.bank)
    (hout : leaving - entering ≤ poolBalance b true s.bank) :
    ∃ t, transferBetweenPools b ctx entering leaving s = (.ok (), t) ∧ t.staking = s.staking ∧
      ∀ bonded, slack b bonded t = slack b bonded s +
        if bonded then entering - leaving else leaving - entering := by
  unfold transferBetweenPools
  rw [bind_of_ok (get_apply s), hdenom]
  split_ifs with hless hmore
  · obtain ⟨t, hrun, hstaking, hslack⟩ := send_between_pools laws ctx false (s := s)
      (n := (entering - leaving).toNat) (by omega)
    refine ⟨t, hrun, hstaking, fun bonded => ?_⟩
    rw [hslack bonded]
    cases bonded <;> simp <;> omega
  · obtain ⟨t, hrun, hstaking, hslack⟩ := send_between_pools laws ctx true (s := s)
      (n := (leaving - entering).toNat) (by omega)
    refine ⟨t, hrun, hstaking, fun bonded => ?_⟩
    rw [hslack bonded]
    cases bonded <;> simp <;> omega
  · refine ⟨s, rfl, rfl, fun bonded => ?_⟩
    split_ifs <;> omega

/-- The transfer of an update goes through, and restores the slack of the pools. -/
theorem Sound.transferBetweenPools (hs : Sound b E s) (htakes : Takes s.staking taken) :
    ∃ t, transferBetweenPools b ctx (enteringTokens taken)
        (leavingTokens s.staking (noLongerBonded s.staking taken))
        { s with staking := updatedStaking s.staking taken } = (.ok (), t) ∧
      t.staking = updatedStaking s.staking taken ∧
      ∀ bonded, slack b bonded t = slack b bonded s := by
  have hstatus := statusOnly_updatedStaking s.staking taken
  have howed := owed_updatedStaking htakes hs.last
  -- neither kind of validator loses more tokens than it has, and the pools have as many
  have hnonneg : ∀ bonded, owed bonded s.staking + _ ≥ 0 := fun bonded =>
    howed bonded ▸ owed_nonneg bonded (hstatus.nonNegativePower hs.tokens)
  have hcovered : ∀ bonded, owed bonded s.staking ≤ poolBalance b bonded s.bank := fun bonded =>
    sub_nonneg.mp (hs.funded bonded)
  have hin := (hnonneg false).le.trans (add_le_add_left (hcovered false) _)
  have hout := (hnonneg true).le.trans (add_le_add_left (hcovered true) _)
  simp only [Bool.false_eq_true, if_false, if_true] at hin hout
  obtain ⟨t, hrun, hstaking, hslack⟩ := transferBetweenPools_returns laws ctx
    (s := { s with staking := updatedStaking s.staking taken })
    (hstatus.denom.trans hs.denom)
    (show enteringTokens taken - leavingTokens s.staking (noLongerBonded s.staking taken) ≤
      poolBalance b false s.bank by omega)
    (show leavingTokens s.staking (noLongerBonded s.staking taken) - enteringTokens taken ≤
      poolBalance b true s.bank by omega)
  refine ⟨t, hrun, hstaking, fun bonded => ?_⟩
  rw [hslack bonded]
  change poolBalance b bonded s.bank - owed bonded (updatedStaking s.staking taken) + _ =
    poolBalance b bonded s.bank - owed bonded s.staking
  rw [howed bonded]
  split_ifs <;> omega

/-- **The end of a block.** From a sound state the update goes through. Its reports have the right
form, and the state is sound again, with the set that they make of the engine's. -/
theorem Sound.stakingEndBlock (max : ℕ) (hs : Sound b E s) : ∃ us t,
    stakingEndBlock b ctx max s = (.ok us, t) ∧ E.WellFormed us ∧ Sound b (E.update us) t := by
  obtain ⟨taken, hwalk⟩ := walkIndex_returns hs.index (ranked ByPower s.staking.powerIndex) max
    fun e he => (mem_ranked ByPower _).mp he
  have htakes := takes_of_walkIndex hs.index hs.tokens hwalk
  have happly : applyTaken s.staking taken = .ok _ := applyTaken_returns hs.last
  obtain ⟨us, hreport, hus⟩ := abciValidatorUpdates_ok fun e (he : e ∈ reported s.staking taken) =>
    hs.keyed (stored_of_mem_reported htakes he)
  obtain ⟨t, htransfer, hstaking, hslack⟩ := hs.transferBetweenPools laws ctx htakes
  have hupdate := applyTaken_ok hs.index (hs.index.nonneg hs.tokens) hwalk happly
  have hstatus : StatusOnly s.staking t.staking :=
    hstaking ▸ statusOnly_updatedStaking s.staking taken
  refine ⟨us, t, ?_, hs.wellFormed_reports htakes hus, ?_, hstatus.indexExact hs.index, ?_, ?_⟩
  · unfold NexusNode.stakingEndBlock
    rw [bind_of_ok (get_apply s)]
    simp only [ofExcept_bind_apply, hwalk, happly, hreport]
    rw [bind_of_ok (modify_apply _ s), bind_of_ok htransfer, pure_apply]
  · refine hs.updated htakes hus hstaking fun a ha => ?_
    rw [hstaking] at ha ⊢
    exact hupdate.bonds a ((hupdate.last a).mp ha)
  · intro bonded
    rw [hslack bonded]
    exact hs.funded bonded
  · exact hstatus.denom.trans hs.denom

end EndBlock

end NexusNode
