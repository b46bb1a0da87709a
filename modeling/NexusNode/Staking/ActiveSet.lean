import Mathlib.Data.Prod.Lex
import Mathlib.Data.List.Lex
import NexusNode.Program.Ranking
import NexusNode.Staking.Creation
import NexusNode.Staking.PowerIndex

/-!
# The active set

At the end of a block the staking module walks the power index from the top. The first
`max_validators` entries with power become the new validator set: their validators are bonded,
and those of the last set that are not among them begin to unbond. Nobody else is looked at. So
a validator that is bonded without being in the last set, which is what `add_validator` leaves
behind, is put right by the next update only if it is taken.

## Main definitions

* `Ranks max index a`: the walk takes an entry of `a`
* `applyAndReturnValidatorSetUpdates`: the update, as far as the staking records go
* `StakingUpdate`: what the update is meant to do
* `BondedIsLast`: the bonded validators are those of the last set

## Main results

* `applyAndReturnValidatorSetUpdates_ok`: on an exact index the update does what it is meant to
* `bondedIsLast_update_iff`: when bonded validators and the last set agree after an update that
  follows `add_validator`
-/

namespace NexusNode

open Program Proc

/-! ## The order of the index -/

/-- The key of an entry: descending power, then, as the bytes of the address are inverted in the
store, descending length and ascending bytes. -/
def entryKey (e : ℤ × ValAddress) : ℤᵒᵈ ×ₗ ℕᵒᵈ ×ₗ List ℕ :=
  toLex (OrderDual.toDual e.1, toLex (OrderDual.toDual e.2.length, e.2.map UInt8.toNat))

/-- The order in which the index is walked. -/
abbrev ByPower : (ℤ × ValAddress) → (ℤ × ValAddress) → Prop := Order.Preimage entryKey (· ≤ ·)

theorem map_toNat_injective : Function.Injective (List.map UInt8.toNat) :=
  List.map_injective_iff.mpr fun _ _ h => UInt8.toNat_inj.mp h

/-- The order of addresses as byte strings. -/
abbrev ByAddress : ValAddress → ValAddress → Prop :=
  Order.Preimage (List.map UInt8.toNat) (· ≤ ·)

instance : Std.Antisymm ByAddress where
  antisymm _ _ hab hba := map_toNat_injective (le_antisymm hab hba)

instance : IsTrans (ℤ × ValAddress) ByPower := ⟨fun _ _ _ h h' => le_trans h h'⟩

instance : Std.Antisymm ByPower where
  antisymm e f hef hfe := by
    obtain ⟨p, a⟩ := e
    obtain ⟨q, b⟩ := f
    have hkey : entryKey (p, a) = entryKey (q, b) := le_antisymm hef hfe
    obtain ⟨hp, hrest⟩ := Prod.mk.inj (toLex_inj.mp hkey)
    obtain ⟨-, ha⟩ := Prod.mk.inj (toLex_inj.mp hrest)
    exact Prod.ext (OrderDual.toDual_inj.mp hp) (map_toNat_injective ha)

theorem not_byPower_of_lt {p q : ℤ} (h : p < q) (a b : ValAddress) : ¬ ByPower (p, a) (q, b) := by
  intro hle
  have hpower : OrderDual.toDual p ≤ OrderDual.toDual q := by
    rcases Prod.Lex.le_iff.mp hle with hlt | ⟨heq, -⟩
    · exact hlt.le
    · exact heq.le
  exact absurd (OrderDual.toDual_le_toDual.mp hpower) (not_le.mpr h)

theorem le_of_byPower {e f : ℤ × ValAddress} (h : ByPower e f) : f.1 ≤ e.1 := by
  by_contra hlt
  exact not_byPower_of_lt (not_le.mp hlt) e.2 f.2 h

/-- The walk takes an entry of `a`: one with power, and with fewer than `max` in front of it. -/
def Ranks (max : ℕ) (index : Finset (ℤ × ValAddress)) (a : ValAddress) : Prop :=
  ∃ p, 0 < p ∧ (p, a) ∈ index ∧ rank ByPower index (p, a) < max

/-- Entries without power are in front of none that the walk takes. -/
theorem ranks_erase_iff {max : ℕ} {index : Finset (ℤ × ValAddress)} {a b : ValAddress} :
    Ranks max (index.erase (0, a)) b ↔ Ranks max index b := by
  refine exists_congr fun p => and_congr_right fun hp => ?_
  rw [rank_erase (not_byPower_of_lt hp a b), Finset.mem_erase]
  have hne : (p, b) ≠ (0, a) := fun h => hp.ne' (congrArg Prod.fst h)
  simp [hne]

theorem ranks_insert_erase_iff {max : ℕ} {index : Finset (ℤ × ValAddress)} {a b : ValAddress}
    {e : ℤ × ValAddress} :
    Ranks max (insert e (index.erase (0, a))) b ↔ Ranks max (insert e index) b := by
  have heq : (insert e (index.erase (0, a))).erase (0, a) = (insert e index).erase (0, a) := by
    ext x
    simp only [Finset.mem_erase, Finset.mem_insert]
    tauto
  calc Ranks max (insert e (index.erase (0, a))) b
      ↔ Ranks max ((insert e (index.erase (0, a))).erase (0, a)) b := ranks_erase_iff.symm
    _ ↔ Ranks max ((insert e index).erase (0, a)) b := by rw [heq]
    _ ↔ Ranks max (insert e index) b := ranks_erase_iff

/-! ## Statuses -/

namespace Staking

def statusOf (s : Staking) (a : ValAddress) : Option BondStatus :=
  (s.validators.lookup a).map (·.status)

/-- Write the status of a stored validator. -/
def setStatus (s : Staking) (a : ValAddress) (status : BondStatus) : Staking :=
  match s.validators.lookup a with
  | none => s
  | some v => s.setValidator { v with status }

theorem statusOf_setStatus (s : Staking) (a b : ValAddress) (status : BondStatus) :
    (s.setStatus a status).statusOf b =
      if b = a then (s.statusOf b).map fun _ => status else s.statusOf b := by
  unfold setStatus
  split
  next hv =>
    split_ifs with hb
    · subst hb
      simp [statusOf, hv]
    · rfl
  next v hv =>
    obtain rfl := s.keyed hv
    simp only [statusOf, setValidator_validators]
    split_ifs with hb
    · subst hb
      rw [Finmap.lookup_insert, hv]
      rfl
    · rw [Finmap.lookup_insert_of_ne _ hb]

/-- Writing one status to several validators. -/
theorem statusOf_foldl (as : List ValAddress) (status : BondStatus) (s : Staking)
    (b : ValAddress) : (as.foldl (fun s a => s.setStatus a status) s).statusOf b =
      if b ∈ as then (s.statusOf b).map fun _ => status else s.statusOf b := by
  induction as generalizing s with
  | nil => simp
  | cons a as ih =>
    rw [List.foldl_cons, ih, statusOf_setStatus]
    by_cases hb : b = a
    · cases hstatus : s.statusOf b <;> simp [hb]
    · simp [hb]

end Staking

/-! ## The update -/

/-- The failure of the walk on a jailed validator. -/
def jailedInPowerStore : String := "should never retrieve a jailed validator from the power store"

/-- The walk over the index: up to `max` entries, and down to the first without power. -/
def walkIndex (s : Staking) : ℕ → List (ℤ × ValAddress) → Except String (List Validator)
  | 0, _ => .ok []
  | _ + 1, [] => .ok []
  | n + 1, (_, a) :: entries =>
    match s.validators.lookup a with
    | none => .error "validator record not found for address"
    | some v =>
      if v.jailed then .error jailedInPowerStore
      else if v.powerKey.1 = 0 then .ok []
      else (walkIndex s n entries).map (v :: ·)

/-- Begin to unbond the validators that dropped out. -/
def beginUnbonding : List ValAddress → Staking → Except String Staking
  | [], s => .ok s
  | a :: as, s =>
    match s.statusOf a with
    | none => .error "validator record not found for address"
    | some .bonded => beginUnbonding as (s.setStatus a .unbonding)
    | some _ => .error "bad state transition bondedToUnbonding"

/-- The last validator set with its powers. -/
def lastPowers (taken : List Validator) : Records ValAddress ℤ :=
  taken.foldr (fun v m => m.insert v.operatorAddress v.powerKey.1) ∅

/-- The validators of the last set that are not taken again. -/
def noLongerBonded (s : Staking) (taken : List Validator) : List ValAddress :=
  ranked ByAddress (s.lastValidatorPowers.keys.filter (· ∉ taken.map (·.operatorAddress)))

/-- What an update that takes `taken` does to the records. -/
def applyTaken (s : Staking) (taken : List Validator) : Except String Staking := do
  let bonded := (taken.map (·.operatorAddress)).foldl (fun s a => s.setStatus a .bonded) s
  let updated ← beginUnbonding (noLongerBonded s taken) bonded
  pure { updated with lastValidatorPowers := lastPowers taken }

/-- `ApplyAndReturnValidatorSetUpdates`, as far as the records of the staking module go. -/
def applyAndReturnValidatorSetUpdates (max : ℕ) (s : Staking) : Except String Staking := do
  let taken ← walkIndex s max (ranked ByPower s.powerIndex)
  applyTaken s taken

/-- **What the update is meant to do.** The validators that the walk takes are the last set and
are bonded, those of the old last set that are not taken begin to unbond, and all others keep
their status. -/
structure StakingUpdate (max : ℕ) (s t : Staking) : Prop where
  last : ∀ a, a ∈ t.lastValidatorPowers ↔ Ranks max s.powerIndex a
  bonds : ∀ a, Ranks max s.powerIndex a → t.statusOf a = some .bonded
  unbonds : ∀ a, a ∈ s.lastValidatorPowers → ¬ Ranks max s.powerIndex a →
    t.statusOf a = some .unbonding
  others : ∀ a, a ∉ s.lastValidatorPowers → ¬ Ranks max s.powerIndex a →
    t.statusOf a = s.statusOf a

/-- The bonded validators are those of the last set. -/
def BondedIsLast (s : Staking) : Prop :=
  ∀ a, s.statusOf a = some .bonded ↔ a ∈ s.lastValidatorPowers

/-- After an update, bonded validators and the last set agree exactly when before it every bonded
validator was in the last set or is taken. -/
theorem StakingUpdate.bondedIsLast_iff {max : ℕ} {s t : Staking} (h : StakingUpdate max s t) :
    BondedIsLast t ↔ ∀ a, s.statusOf a = some .bonded →
      a ∈ s.lastValidatorPowers ∨ Ranks max s.powerIndex a := by
  constructor
  · intro ht a ha
    by_contra hnot
    obtain ⟨hlast, hranks⟩ := not_or.mp hnot
    -- nobody looks at the validator, so it stays bonded without being in the set
    have hbonded : t.statusOf a = some .bonded := (h.others a hlast hranks).trans ha
    exact hranks ((h.last a).mp ((ht a).mp hbonded))
  · intro hs a
    rw [h.last a]
    refine ⟨fun ha => ?_, h.bonds a⟩
    by_contra hranks
    by_cases hlast : a ∈ s.lastValidatorPowers
    · rw [h.unbonds a hlast hranks] at ha
      cases ha
    · rw [h.others a hlast hranks] at ha
      exact (hs a ha).elim hlast hranks

section Refinement

variable {s : Staking}

/-- One step of a walk that goes through. -/
theorem walkIndex_cons_ok {p : ℤ} {a : ValAddress} {entries : List (ℤ × ValAddress)} {n : ℕ}
    {taken : List Validator} (h : walkIndex s (n + 1) ((p, a) :: entries) = .ok taken) :
    ∃ v, s.validators.lookup a = some v ∧ v.jailed = false ∧
      ((v.powerKey.1 = 0 ∧ taken = []) ∨ (v.powerKey.1 ≠ 0 ∧
        ∃ rest, walkIndex s n entries = .ok rest ∧ taken = v :: rest)) := by
  rw [walkIndex] at h
  split at h
  · cases h
  next v hv =>
    split_ifs at h with hjailed hzero
    · exact ⟨v, hv, Bool.of_not_eq_true hjailed, .inl ⟨hzero, (Except.ok.inj h).symm⟩⟩
    · refine ⟨v, hv, Bool.of_not_eq_true hjailed, .inr ⟨hzero, ?_⟩⟩
      cases hrest : walkIndex s n entries with
      | error e =>
        rw [hrest] at h
        cases h
      | ok rest =>
        rw [hrest] at h
        exact ⟨rest, rfl, (Except.ok.inj h).symm⟩

theorem walkIndex_nil (s : Staking) (n : ℕ) : walkIndex s n [] = .ok [] := by
  cases n <;> rfl

/-- What the walk takes from sorted entries that agree with their records: those with power
among the first. -/
theorem walkIndex_ok {entries : List (ℤ × ValAddress)} {n : ℕ} {taken : List Validator}
    (hsorted : entries.Pairwise ByPower) (hnonneg : ∀ e ∈ entries, 0 ≤ e.1)
    (hcurrent : ∀ e ∈ entries, ∀ v, s.validators.lookup e.2 = some v → v.powerKey = e)
    (h : walkIndex s n entries = .ok taken) :
    taken.map (·.powerKey) = (entries.take n).filter (0 < ·.1) := by
  induction entries generalizing n taken with
  | nil =>
    obtain rfl := Except.ok.inj ((walkIndex_nil s n).symm.trans h)
    simp
  | cons e entries ih =>
    obtain ⟨p, a⟩ := e
    cases n with
    | zero =>
      obtain rfl := Except.ok.inj h
      rfl
    | succ n =>
      simp only [List.forall_mem_cons] at hnonneg hcurrent
      obtain ⟨hle, hsorted⟩ := List.pairwise_cons.mp hsorted
      obtain ⟨v, hv, -, hrest⟩ := walkIndex_cons_ok h
      have hkey := hcurrent.1 v hv
      rw [hkey] at hrest
      rcases hrest with ⟨hzero, rfl⟩ | ⟨hpower, rest, hrest, rfl⟩
      · -- behind an entry without power there are only such entries
        refine (List.filter_eq_nil_iff.mpr fun e he => ?_).symm
        have hep : e.1 ≤ p := by
          rcases List.mem_cons.mp (List.mem_of_mem_take he) with rfl | hmem
          · exact le_rfl
          · exact le_of_byPower (hle e hmem)
        rw [decide_eq_true_eq, not_lt]
        exact hep.trans hzero.le
      · have hp : 0 < p := lt_of_le_of_ne hnonneg.1 (Ne.symm hpower)
        have htail := ih hsorted hnonneg.2 hcurrent.2 hrest
        rw [List.take_succ_cons, List.filter_cons_of_pos (by simpa using hp), List.map_cons,
          htail, hkey]

/-- The walk takes stored records. -/
theorem walkIndex_stored {entries : List (ℤ × ValAddress)} {n : ℕ} {taken : List Validator}
    (h : walkIndex s n entries = .ok taken) :
    ∀ v ∈ taken, s.validators.lookup v.operatorAddress = some v := by
  induction entries generalizing n taken with
  | nil =>
    obtain rfl := Except.ok.inj ((walkIndex_nil s n).symm.trans h)
    simp
  | cons e entries ih =>
    obtain ⟨p, a⟩ := e
    cases n with
    | zero =>
      obtain rfl := Except.ok.inj h
      simp
    | succ n =>
      obtain ⟨v, hv, -, ⟨-, rfl⟩ | ⟨-, rest, hrest, rfl⟩⟩ := walkIndex_cons_ok h
      · simp
      · obtain rfl := s.keyed hv
        exact List.forall_mem_cons.mpr ⟨hv, ih hrest⟩

theorem beginUnbonding_ok {as : List ValAddress} {t : Staking} (h : beginUnbonding as s = .ok t) :
    t = as.foldl (fun s a => s.setStatus a .unbonding) s ∧ ∀ a ∈ as, (s.statusOf a).isSome := by
  induction as generalizing s with
  | nil =>
    obtain rfl := Except.ok.inj h
    exact ⟨rfl, by simp⟩
  | cons a as ih =>
    rw [beginUnbonding] at h
    split at h
    · cases h
    next hstatus =>
      obtain ⟨rfl, hall⟩ := ih h
      refine ⟨rfl, List.forall_mem_cons.mpr ⟨by simp [hstatus], fun b hb => ?_⟩⟩
      have hsome := hall b hb
      rw [Staking.statusOf_setStatus] at hsome
      split_ifs at hsome with hba
      · simpa using hsome
      · exact hsome
    · cases h

theorem mem_lastPowers_iff {taken : List Validator} {a : ValAddress} :
    a ∈ lastPowers taken ↔ a ∈ taken.map (·.operatorAddress) := by
  induction taken with
  | nil => simp [lastPowers, Finmap.notMem_empty]
  | cons v taken ih =>
    have hcons : lastPowers (v :: taken) =
      (lastPowers taken).insert v.operatorAddress v.powerKey.1 := rfl
    rw [hcons, Finmap.mem_insert, List.map_cons, List.mem_cons, ih]

theorem mem_noLongerBonded_iff {taken : List Validator} {a : ValAddress} :
    a ∈ noLongerBonded s taken ↔
      a ∈ s.lastValidatorPowers ∧ a ∉ taken.map (·.operatorAddress) := by
  rw [noLongerBonded, mem_ranked, Finset.mem_filter, Finmap.mem_keys]

/-- The validators that the walk over an exact index takes. -/
theorem mem_taken_iff {s : AppState} {max : ℕ} {taken : List Validator} (hs : IndexExact s)
    (hnonneg : ∀ e ∈ s.staking.powerIndex, 0 ≤ e.1)
    (h : walkIndex s.staking max (ranked ByPower s.staking.powerIndex) = .ok taken)
    {a : ValAddress} :
    a ∈ taken.map (·.operatorAddress) ↔ Ranks max s.staking.powerIndex a := by
  have hcurrent : ∀ e ∈ ranked ByPower s.staking.powerIndex, ∀ v,
      s.staking.validators.lookup e.2 = some v → v.powerKey = e := by
    intro e he v hv
    obtain ⟨w, hw, -, hkey⟩ := (hs e.1 e.2).mp ((mem_ranked ByPower _).mp he)
    rwa [Option.some.inj (hv.symm.trans hw)]
  have hkeys := walkIndex_ok (pairwise_ranked ByPower s.staking.powerIndex)
    (fun e he => hnonneg e ((mem_ranked ByPower _).mp he)) hcurrent h
  have hoperators : taken.map (·.operatorAddress) = (taken.map (·.powerKey)).map Prod.snd := by
    rw [List.map_map]
    rfl
  rw [hoperators, hkeys, List.mem_map]
  constructor
  · rintro ⟨⟨p, b⟩, hmem, rfl⟩
    obtain ⟨htake, hp⟩ := List.mem_filter.mp hmem
    obtain ⟨hindex, hrank⟩ := mem_take_ranked_iff.mp htake
    exact ⟨p, of_decide_eq_true hp, hindex, hrank⟩
  · rintro ⟨p, hp, hindex, hrank⟩
    exact ⟨(p, a), List.mem_filter.mpr
      ⟨mem_take_ranked_iff.mpr ⟨hindex, hrank⟩, decide_eq_true hp⟩, rfl⟩

/-- What is taken becomes the last set. -/
theorem applyTaken_ok {s : AppState} {max : ℕ} {taken : List Validator} {t : Staking}
    (hs : IndexExact s) (hnonneg : ∀ e ∈ s.staking.powerIndex, 0 ≤ e.1)
    (hwalk : walkIndex s.staking max (ranked ByPower s.staking.powerIndex) = .ok taken)
    (h : applyTaken s.staking taken = .ok t) : StakingUpdate max s.staking t := by
  obtain ⟨updated, hunbond, hvalidators, hlast⟩ : ∃ updated,
      beginUnbonding (noLongerBonded s.staking taken) ((taken.map (·.operatorAddress)).foldl
        (fun s a => s.setStatus a .bonded) s.staking) = .ok updated ∧
      t.validators = updated.validators ∧ t.lastValidatorPowers = lastPowers taken := by
    obtain ⟨updated, hunbond, hpure⟩ := except_bind_eq_ok_iff.mp h
    obtain rfl := Except.ok.inj hpure
    exact ⟨updated, hunbond, rfl, rfl⟩
  have htaken : ∀ a, a ∈ taken.map (·.operatorAddress) ↔ Ranks max s.staking.powerIndex a :=
    fun a => mem_taken_iff hs hnonneg hwalk
  have hdropped : ∀ a, a ∈ noLongerBonded s.staking taken ↔
      a ∈ s.staking.lastValidatorPowers ∧ ¬ Ranks max s.staking.powerIndex a := fun a => by
    rw [mem_noLongerBonded_iff, htaken]
  obtain ⟨rfl, hstored⟩ := beginUnbonding_ok hunbond
  -- what becomes of a status: the taken ones are bonded, then those that dropped out unbond
  have hstatus : ∀ a, t.statusOf a =
      if a ∈ noLongerBonded s.staking taken then _ else _ := fun a => by
    rw [Staking.statusOf, hvalidators]
    exact Staking.statusOf_foldl (noLongerBonded s.staking taken) .unbonding _ a
  refine ⟨fun a => ?_, fun a ha => ?_, fun a ha hranks => ?_, fun a ha hranks => ?_⟩
  · rw [hlast, mem_lastPowers_iff, htaken]
  · have hmem := (htaken a).mpr ha
    obtain ⟨v, hv, rfl⟩ := List.mem_map.mp hmem
    rw [hstatus, if_neg (by simp [hdropped, ha]), Staking.statusOf_foldl, if_pos hmem]
    simp [Staking.statusOf, walkIndex_stored hwalk v hv]
  · have hmem := (hdropped a).mpr ⟨ha, hranks⟩
    obtain ⟨status, hsome⟩ := Option.isSome_iff_exists.mp (hstored a hmem)
    rw [hstatus, if_pos hmem, hsome]
    rfl
  · rw [hstatus, if_neg (by simp [hdropped, ha]), Staking.statusOf_foldl,
      if_neg ((htaken a).not.mpr hranks)]

/-- **The update does what it is meant to.** -/
theorem applyAndReturnValidatorSetUpdates_ok {s : AppState} {max : ℕ} {t : Staking}
    (hs : IndexExact s) (hnonneg : ∀ e ∈ s.staking.powerIndex, 0 ≤ e.1)
    (h : applyAndReturnValidatorSetUpdates max s.staking = .ok t) :
    StakingUpdate max s.staking t := by
  obtain ⟨taken, hwalk, happly⟩ := except_bind_eq_ok_iff.mp h
  exact applyTaken_ok hs hnonneg hwalk happly

end Refinement

/-! ## Adding a validator -/

section Adding

variable {sdk : Sdk} {ctx : BlockContext} {a : ValAddress} {s t : AppState}

/-- A validator that was added is bonded, while the last set is as before, and has the entry of
its initial tokens in the index. -/
theorem executeAddValidator_statusOf {opts : Option AddValidatorOptions}
    (hmissing : s.staking.validators.lookup a = none)
    (h : executeAddValidator sdk ctx a opts s = (.ok (), t)) :
    ∃ n, opts.bind (·.initialTokens) = some n ∧
      (∀ b, t.staking.statusOf b = if b = a then some .bonded else s.staking.statusOf b) ∧
      t.staking.lastValidatorPowers = s.staking.lastValidatorPowers ∧
      t.staking.powerIndex =
        insert (n.tdiv powerReduction, a) (s.staking.powerIndex.erase (0, a)) := by
  obtain ⟨pubKey, n, m, hopts, ht⟩ := executeAddValidator_staking ctx hmissing h
  have hn := usableOptions_pos hopts
  refine ⟨n, usableOptions_initialTokens hopts, fun b => ?_, by rw [ht]; rfl, ?_⟩
  · rw [Staking.statusOf, ht, Staking.delegate_validators]
    change Option.map _ (((s.staking.validators.insert a _).insert a _).lookup b) = _
    split_ifs with hb
    · rw [hb, Finmap.lookup_insert]
      rfl
    · rw [Finmap.lookup_insert_of_ne _ hb, Finmap.lookup_insert_of_ne _ hb]
      rfl
  · -- the entry of the empty record gives way to the one with the tokens
    have htokens : (0 : ℤ) + n.toNat = n := by omega
    have hindex : t.staking.powerIndex = insert (((0 : ℤ) + n.toNat).tdiv powerReduction, a)
        ((insert (0, a) s.staking.powerIndex).erase (0, a)) := by
      rw [ht]
      rfl
    rw [hindex, htokens, Finset.erase_insert_eq_erase]

/-- **Bonded validators and the last set.** When they agree before `add_validator`, and the hook
returns, they agree after the next update exactly when the validator was there already, or its
initial tokens rank it among the first `max`. -/
theorem bondedIsLast_update_iff {max : ℕ} {opts : Option AddValidatorOptions} {u : Staking}
    (hs : BondedIsLast s.staking) (h : executeAddValidator sdk ctx a opts s = (.ok (), t))
    (hupdate : StakingUpdate max t.staking u) :
    BondedIsLast u ↔ (s.staking.validators.lookup a).isSome ∨
      ∃ n, opts.bind (·.initialTokens) = some n ∧
        Ranks max (insert (n.tdiv powerReduction, a) s.staking.powerIndex) a := by
  rw [hupdate.bondedIsLast_iff]
  cases hv : s.staking.validators.lookup a with
  | some v =>
    rw [executeAddValidator_of_lookup sdk ctx hv] at h
    obtain rfl := (Prod.mk.inj h).2
    exact iff_of_true (fun b hb => .inl ((hs b).mp hb)) (.inl rfl)
  | none =>
    obtain ⟨n, htokens, hstatus, hlast, hindex⟩ := executeAddValidator_statusOf hv h
    have hranks : Ranks max t.staking.powerIndex a ↔
        Ranks max (insert (n.tdiv powerReduction, a) s.staking.powerIndex) a := by
      rw [hindex]
      exact ranks_insert_erase_iff
    have hnot : a ∉ s.staking.lastValidatorPowers := by
      rw [← hs a, Staking.statusOf, hv]
      simp
    rw [htokens]
    simp only [Option.isSome_none, Bool.false_eq_true, Option.some.injEq, exists_eq_left', false_or,
      ← hranks, hstatus, hlast]
    constructor
    · intro hall
      exact (hall a (by simp)).resolve_left hnot
    · intro ha b hb
      split_ifs at hb with hba
      · exact .inr (hba ▸ ha)
      · exact .inl ((hs b).mp hb)

end Adding

section Sample

theorem bondedIsLast_sampleState : BondedIsLast (sampleState false).staking := by
  intro a
  rw [Staking.statusOf]
  constructor
  · intro h
    obtain ⟨v, hv, -⟩ := Option.map_eq_some_iff.mp h
    obtain ⟨rfl, -⟩ := sampleState_lookup hv
    exact (Finmap.mem_singleton _ _ _).mpr rfl
  · intro h
    obtain rfl : a = sampleOperator := (Finmap.mem_singleton _ _ _).mp h
    rfl

/-- The local network after a second validator was added with the given tokens. -/
def grownState (tokens : ℤ) : AppState :=
  (executeAddValidator sampleSdk sampleBlock secondOperator
    (some ⟨some secondKey, some tokens, some 1⟩) (sampleState false)).2

theorem indexExact_grownState (tokens : ℤ) : IndexExact (grownState tokens) :=
  indexExact_executeAddValidator sampleBlock (indexWrites_documented sampleBase) secondOperator _
    (indexExact_sampleState false)

/-- With two million tokens the second validator enters the set of at most seven, and bonded
validators and the last set agree. -/
theorem bondedIsLast_update_two_million :
    ∃ u, applyAndReturnValidatorSetUpdates 7 (grownState 2000000).staking = .ok u ∧
      BondedIsLast u := by
  have hadd : executeAddValidator sampleSdk sampleBlock secondOperator
      (some ⟨some secondKey, some 2000000, some 1⟩) (sampleState false) =
        (.ok (), grownState 2000000) := Prod.ext (by decide +kernel) rfl
  have hreturns : (applyAndReturnValidatorSetUpdates 7
      (grownState 2000000).staking).toOption.isSome := by decide +kernel
  rcases happly : applyAndReturnValidatorSetUpdates 7 (grownState 2000000).staking with e | u
  · rw [happly] at hreturns
    cases hreturns
  refine ⟨u, rfl, ?_⟩
  have hupdate := applyAndReturnValidatorSetUpdates_ok (indexExact_grownState 2000000)
    (by decide +kernel) happly
  refine (bondedIsLast_update_iff bondedIsLast_sampleState hadd hupdate).mpr (.inr ?_)
  exact ⟨2000000, rfl, 2, by decide, by decide +kernel, by decide +kernel⟩

/-- With less than a million tokens it has no power: it stays bonded outside the set. -/
theorem bondedIsLast_update_fails :
    BondedIsLast (sampleState false).staking ∧
    (executeAddValidator sampleSdk sampleBlock secondOperator
      (some ⟨some secondKey, some 999999, some 1⟩) (sampleState false)).1 = .ok () ∧
    ∃ u, applyAndReturnValidatorSetUpdates 7 (grownState 999999).staking = .ok u ∧
      ¬ BondedIsLast u := by
  have hleft : (applyAndReturnValidatorSetUpdates 7 (grownState 999999).staking).toOption.map
      (fun u => (u.statusOf secondOperator, u.lastValidatorPowers.lookup secondOperator)) =
        some (some .bonded, none) := by decide +kernel
  rcases happly : applyAndReturnValidatorSetUpdates 7 (grownState 999999).staking with e | u
  · rw [happly] at hleft
    cases hleft
  rw [happly] at hleft
  obtain ⟨hbonded, hlast⟩ := Prod.mk.inj (Option.some.inj hleft)
  refine ⟨bondedIsLast_sampleState, by decide +kernel, u, rfl, fun hagree => ?_⟩
  exact Finmap.lookup_eq_none.mp hlast ((hagree secondOperator).mp hbonded)

end Sample

end NexusNode
