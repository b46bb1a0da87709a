import NexusNode.Staking.Pools

/-!
# Reconciliation of the staking pools

A reconciliation compares the balance of each pool with what the pool has to cover and mints the
difference. The not-bonded pool may not mint, so its deficit passes through the bonded pool. What
is missing is computed here as a list of calls, and the two pools are handled by one argument.

## Main definitions

* `deficit bonded s`: what a pool lacks
* `mintInto`: the calls that mint a deficit
* `ReconcileSucceeds`: no keeper call of a reconciliation is refused
* `Funded`: both pools cover what they have to

## Main results

* `balance_mintInto`: minting a deficit changes the balance of one pool only
* `executeReconcileStakingPools_exact`: what a reconciliation does
-/

namespace NexusNode

open Program Proc

/-- What a pool lacks; negative if it has more than it has to cover. -/
def deficit (b : SdkBase) (bonded : Bool) (s : AppState) : ℤ :=
  owed bonded s.staking - poolBalance b bonded s.bank

/-- Both pools cover what they have to. -/
def Funded (b : SdkBase) (s : AppState) : Prop :=
  tokensOf true s.staking.validators ≤
      s.bank.balance (b.moduleAddress bondedPoolName) defaultBondDenom ∧
    tokensOf false s.staking.validators + unbondingBalance s.staking.unbondingDelegations ≤
      s.bank.balance (b.moduleAddress notBondedPoolName) defaultBondDenom

instance (b : SdkBase) (s : AppState) : Decidable (Funded b s) :=
  inferInstanceAs (Decidable (_ ∧ _))

theorem funded_iff {b : SdkBase} {s : AppState} :
    Funded b s ↔ ∀ bonded, deficit b bonded s ≤ 0 := by
  simp only [Funded, deficit, poolBalance, poolName, owed, Bool.forall_bool, Bool.false_eq_true,
    if_true, if_false]
  omega

section Reconcile

variable (sdk : Sdk) (ctx : BlockContext)

/-- The calls that mint `d` coins into a pool, if `d` is positive. -/
def mintInto (bonded : Bool) (d : ℤ) : List (Step AppState String) :=
  if 0 < d then
    sdk.step ctx "" (.mintCoins bondedPoolName ⟨defaultBondDenom, d.toNat⟩) ::
      match bonded with
      | true => []
      -- only the bonded pool may mint
      | false => [sdk.step ctx "" (.sendCoinsFromModuleToModule bondedPoolName notBondedPoolName
          ⟨defaultBondDenom, d.toNat⟩)]
  else []

/-- The keeper calls of a reconciliation succeed: the two that read, and those that mint. -/
structure ReconcileSucceeds (s : AppState) : Prop where
  validators : sdk.refuse ctx .getAllValidators s = none
  unbonding : sdk.refuse ctx .iterateUnbondingDelegations s = none
  mints : Accepts (mintInto sdk ctx true (deficit sdk.toSdkBase true s) ++
    mintInto sdk ctx false (deficit sdk.toSdkBase false s)) s

/-! ## Minting a deficit -/

variable {sdk} {ctx}

/-- Minting a deficit changes the balance of its pool, by what is positive of it. -/
theorem balance_mintInto (bonded : Bool) (d : ℤ) (s : AppState) (a : AccAddress)
    (denom : String) :
    (effects (mintInto sdk ctx bonded d) s).bank.balance a denom =
      s.bank.balance a denom +
        if a = sdk.moduleAddress (poolName bonded) ∧ denom = defaultBondDenom then d.toNat
        else 0 := by
  unfold mintInto
  by_cases hd : 0 < d
  swap
  · simp [effects, hd, Int.toNat_of_nonpos (not_lt.mp hd)]
  rw [if_pos hd]
  cases bonded with
  | true => exact Bank.balance_addCoins ..
  | false =>
    -- the coins leave the bonded pool again
    simp only [effects, List.foldl_cons, List.foldl_nil, Sdk.step, SdkBase.effect, Bank.sendCoins,
      Bank.mintCoins, Bank.balance_addCoins, Bank.balance_subCoins, poolName,
      Nat.add_sub_cancel]
    rfl

theorem supply_mintInto (bonded : Bool) (d : ℤ) (s : AppState) (denom : String) :
    (effects (mintInto sdk ctx bonded d) s).bank.supply denom =
      s.bank.supply denom + if denom = defaultBondDenom then d.toNat else 0 := by
  unfold mintInto
  by_cases hd : 0 < d
  swap
  · simp [effects, hd, Int.toNat_of_nonpos (not_lt.mp hd)]
  rw [if_pos hd]
  have hmint : (s.bank.mintCoins (sdk.moduleAddress bondedPoolName)
      ⟨defaultBondDenom, d.toNat⟩).supply denom =
      s.bank.supply denom + if denom = defaultBondDenom then d.toNat else 0 := by
    simp only [Bank.mintCoins]
    split_ifs <;> simp
  cases bonded <;> exact hmint

/-- Minting changes the bank only. -/
theorem effects_mintInto (bonded : Bool) (d : ℤ) (s : AppState) :
    effects (mintInto sdk ctx bonded d) s =
      { s with bank := (effects (mintInto sdk ctx bonded d) s).bank } := by
  unfold mintInto
  by_cases hd : 0 < d
  · rw [if_pos hd]
    cases bonded <;> rfl
  · rw [if_neg hd]
    rfl

/-! ## The two pools -/

/-- The part of a reconciliation for one pool. -/
def reconcilePool (sdk : Sdk) (ctx : BlockContext) : Bool → ℤ → Hook Unit
  | true => reconcileBondedPool sdk ctx
  | false => reconcileNotBondedPool sdk ctx

/-- With calls that succeed, a pool is lifted to the sum. -/
theorem reconcilePool_of_accepts {bonded : Bool} {sum : ℤ} {s : AppState}
    (h : Accepts (mintInto sdk ctx bonded (sum - poolBalance sdk.toSdkBase bonded s.bank)) s) :
    reconcilePool sdk ctx bonded sum s = (.ok (),
      effects (mintInto sdk ctx bonded (sum - poolBalance sdk.toSdkBase bonded s.bank)) s) := by
  have hiff : 0 < sum - poolBalance sdk.toSdkBase bonded s.bank ↔
      poolBalance sdk.toSdkBase bonded s.bank < sum := by omega
  simp only [mintInto, hiff] at h ⊢
  cases bonded with
  | true =>
    unfold reconcilePool reconcileBondedPool
    rw [bind_of_ok (get_apply s)]
    unfold poolBalance poolName at h ⊢
    dsimp only at h ⊢
    split_ifs at h ⊢
    · rw [bind_of_ok (attempt_of_ok (Step.run_of_accepted h.1))]
      rfl
    · rfl
  | false =>
    unfold reconcilePool reconcileNotBondedPool
    rw [bind_of_ok (get_apply s)]
    unfold poolBalance poolName at h ⊢
    dsimp only at h ⊢
    split_ifs at h ⊢
    · rw [bind_of_ok (attempt_of_ok (Step.run_of_accepted h.1))]
      exact bind_of_ok (attempt_of_ok (Step.run_of_accepted h.2.1)) _
    · rfl

/-- A pool that has the sum is left alone. -/
theorem reconcilePool_of_le {bonded : Bool} {sum : ℤ} {s : AppState}
    (h : sum ≤ poolBalance sdk.toSdkBase bonded s.bank) :
    reconcilePool sdk ctx bonded sum s = (.ok (), s) := by
  have hnil : mintInto sdk ctx bonded (sum - poolBalance sdk.toSdkBase bonded s.bank) = [] :=
    if_neg (by omega)
  have hrun := @reconcilePool_of_accepts sdk ctx bonded sum s (by rw [hnil]; trivial)
  rwa [hnil] at hrun

theorem Sdk.eq_of_getAllValidators {s : AppState} {validators : Records ValAddress Validator}
    (h : sdk.getAllValidators ctx s = .ok validators) : s.staking.validators = validators := by
  unfold Sdk.getAllValidators Sdk.answer at h
  split at h
  · cases h
  · exact Except.ok.inj h

theorem Sdk.eq_of_iterateUnbondingDelegations {s : AppState}
    {ubds : Records (AccAddress × ValAddress) (List (Option ℤ))}
    (h : sdk.iterateUnbondingDelegations ctx s = .ok ubds) :
    s.staking.unbondingDelegations = ubds := by
  unfold Sdk.iterateUnbondingDelegations Sdk.answer at h
  split at h
  · cases h
  · exact Except.ok.inj h

/-- Where both pools are funded, a reconciliation changes nothing, whatever it can read. -/
theorem executeReconcileStakingPools_of_funded {s : AppState} (h : Funded sdk.toSdkBase s)
    (ctx : BlockContext) : executeReconcileStakingPools sdk ctx s = (.ok (), s) := by
  obtain ⟨hbonded, hnotBonded⟩ := h
  have hubds := unbondingBalance_nonneg s.staking.unbondingDelegations
  unfold executeReconcileStakingPools
  cases hread : sdk.getAllValidators ctx s with
  | error e =>
    rw [bind_of_ok (attempt_of_error (ask_of_error hread))]
    rfl
  | ok validators =>
    obtain rfl := Sdk.eq_of_getAllValidators hread
    rw [bind_of_ok (attempt_of_ok (ask_of_ok hread))]
    dsimp only
    have hfirst : reconcileBondedPool sdk ctx (tokensOf true s.staking.validators) s =
        (.ok (), s) := @reconcilePool_of_le sdk ctx true _ s hbonded
    cases hiterate : sdk.iterateUnbondingDelegations ctx s with
    | error e =>
      rw [bind_of_ok (attempt_of_error (ask_of_error hiterate)), bind_of_ok hfirst]
      have hle : tokensOf false s.staking.validators + 0 ≤
          tokensOf false s.staking.validators +
            unbondingBalance s.staking.unbondingDelegations := by
        omega
      exact @reconcilePool_of_le sdk ctx false _ s (hle.trans hnotBonded)
    | ok ubds =>
      obtain rfl := Sdk.eq_of_iterateUnbondingDelegations hiterate
      rw [bind_of_ok (attempt_of_ok (ask_of_ok hiterate)), bind_of_ok hfirst]
      exact @reconcilePool_of_le sdk ctx false _ s hnotBonded

theorem deficit_effects_mintInto
    (hne : sdk.moduleAddress bondedPoolName ≠ sdk.moduleAddress notBondedPoolName)
    (p bonded : Bool) (d : ℤ) (s : AppState) :
    deficit sdk.toSdkBase bonded (effects (mintInto sdk ctx p d) s) =
      deficit sdk.toSdkBase bonded s - if bonded = p then (d.toNat : ℤ) else 0 := by
  have hbalance := @balance_mintInto sdk ctx p d s (sdk.moduleAddress (poolName bonded))
    defaultBondDenom
  simp only [poolAddress_inj hne, and_true] at hbalance
  unfold deficit poolBalance
  rw [hbalance, effects_mintInto]
  split_ifs <;> push_cast <;> omega

/-- With keeper calls that succeed, a reconciliation mints both deficits. -/
theorem executeReconcileStakingPools_eq
    (hne : sdk.moduleAddress bondedPoolName ≠ sdk.moduleAddress notBondedPoolName) {s : AppState}
    (h : ReconcileSucceeds sdk ctx s) :
    executeReconcileStakingPools sdk ctx s = (.ok (),
      effects (mintInto sdk ctx false (deficit sdk.toSdkBase false s))
        (effects (mintInto sdk ctx true (deficit sdk.toSdkBase true s)) s)) := by
  obtain ⟨hvalidators, hunbonding, hmints⟩ := h
  obtain ⟨u, hfirst, hsecond⟩ := runSteps_append_ok (runSteps_eq_ok_iff.mpr ⟨hmints, rfl⟩)
  obtain ⟨hfirst, hu⟩ := runSteps_eq_ok_iff.mp hfirst
  obtain ⟨hsecond, -⟩ := runSteps_eq_ok_iff.mp hsecond
  have hread : sdk.getAllValidators ctx s = .ok s.staking.validators := by
    simp [Sdk.getAllValidators, Sdk.answer, hvalidators]
  have hiterate : sdk.iterateUnbondingDelegations ctx s = .ok s.staking.unbondingDelegations := by
    simp [Sdk.iterateUnbondingDelegations, Sdk.answer, hunbonding]
  have hbonded : reconcileBondedPool sdk ctx (tokensOf true s.staking.validators) s =
      (.ok (), u) := by
    have howed : owed true s.staking = tokensOf true s.staking.validators := by simp [owed]
    rw [← hu, deficit, howed]
    rw [deficit, howed] at hfirst
    exact reconcilePool_of_accepts hfirst
  have hsame : owed false s.staking - poolBalance sdk.toSdkBase false u.bank =
      deficit sdk.toSdkBase false s := by
    have hdeficit := @deficit_effects_mintInto sdk ctx hne true false
      (deficit sdk.toSdkBase true s) s
    rw [effects_mintInto, hu] at hdeficit
    simpa [deficit] using hdeficit
  rw [hu, ← hsame]
  rw [← hsame] at hsecond
  unfold executeReconcileStakingPools
  rw [bind_of_ok (attempt_of_ok (ask_of_ok hread))]
  dsimp only
  rw [bind_of_ok (attempt_of_ok (ask_of_ok hiterate)), bind_of_ok hbonded]
  exact reconcilePool_of_accepts hsecond

/-- With keeper calls that succeed, a reconciliation leaves funded pools. -/
theorem executeReconcileStakingPools_funded
    (hne : sdk.moduleAddress bondedPoolName ≠ sdk.moduleAddress notBondedPoolName) {s : AppState}
    (h : ReconcileSucceeds sdk ctx s) :
    ∃ t, executeReconcileStakingPools sdk ctx s = (.ok (), t) ∧ Funded sdk.toSdkBase t := by
  refine ⟨_, executeReconcileStakingPools_eq hne h, funded_iff.mpr fun bonded => ?_⟩
  rw [deficit_effects_mintInto hne, deficit_effects_mintInto hne]
  cases bonded <;> simp

/-- **What a reconciliation does.** When no keeper call is refused, it lifts the balance of each
pool to what the pool has to cover and leaves a larger balance alone. The supply grows by the two
deficits, nothing else changes, and a second run changes nothing. -/
theorem executeReconcileStakingPools_exact
    (hne : sdk.moduleAddress bondedPoolName ≠ sdk.moduleAddress notBondedPoolName) {s : AppState}
    (h : ReconcileSucceeds sdk ctx s) :
    let bondedSum := tokensOf true s.staking.validators
    let notBondedSum := tokensOf false s.staking.validators +
      unbondingBalance s.staking.unbondingDelegations
    let bondedBal (s : AppState) : ℤ :=
      s.bank.balance (sdk.moduleAddress bondedPoolName) defaultBondDenom
    let notBondedBal (s : AppState) : ℤ :=
      s.bank.balance (sdk.moduleAddress notBondedPoolName) defaultBondDenom
    ∃ t, executeReconcileStakingPools sdk ctx s = (.ok (), t) ∧
      bondedBal t = max (bondedBal s) bondedSum ∧
      notBondedBal t = max (notBondedBal s) notBondedSum ∧
      (∀ denom, (t.bank.supply denom : ℤ) = s.bank.supply denom +
        if denom = defaultBondDenom then
          max 0 (bondedSum - bondedBal s) + max 0 (notBondedSum - notBondedBal s)
        else 0) ∧
      (∀ a denom, (a ≠ sdk.moduleAddress bondedPoolName ∧ a ≠ sdk.moduleAddress notBondedPoolName ∨
        denom ≠ defaultBondDenom) → t.bank.balance a denom = s.bank.balance a denom) ∧
      t = { s with bank := t.bank } ∧
      ∀ ctx', executeReconcileStakingPools sdk ctx' t = (.ok (), t) := by
  intro bondedSum notBondedSum bondedBal notBondedBal
  have hbonded : deficit sdk.toSdkBase true s = bondedSum - bondedBal s := by
    simp [deficit, owed, poolBalance, poolName, bondedSum, bondedBal]
  have hnotBonded : deficit sdk.toSdkBase false s = notBondedSum - notBondedBal s := rfl
  have hrun := executeReconcileStakingPools_eq hne h
  rw [hbonded, hnotBonded] at hrun
  generalize ht : effects (mintInto sdk ctx false (notBondedSum - notBondedBal s))
    (effects (mintInto sdk ctx true (bondedSum - bondedBal s)) s) = t at hrun
  have hbalance (a : AccAddress) (denom : String) : t.bank.balance a denom =
      s.bank.balance a denom +
        (if a = sdk.moduleAddress bondedPoolName ∧ denom = defaultBondDenom then
          (bondedSum - bondedBal s).toNat else 0) +
        if a = sdk.moduleAddress notBondedPoolName ∧ denom = defaultBondDenom then
          (notBondedSum - notBondedBal s).toNat else 0 := by
    rw [← ht, balance_mintInto, balance_mintInto]
    rfl
  have hframe : t = { s with bank := t.bank } := by
    rw [← ht, effects_mintInto, effects_mintInto true]
  have hfirst : bondedBal t = max (bondedBal s) bondedSum := by
    have := hbalance (sdk.moduleAddress bondedPoolName) defaultBondDenom
    simp only [hne, true_and, false_and, if_true, if_false] at this
    simp only [bondedBal, this]
    push_cast
    omega
  have hsecond : notBondedBal t = max (notBondedBal s) notBondedSum := by
    have := hbalance (sdk.moduleAddress notBondedPoolName) defaultBondDenom
    simp only [hne.symm, true_and, false_and, if_true, if_false] at this
    simp only [notBondedBal, this]
    push_cast
    omega
  refine ⟨t, hrun, hfirst, hsecond, ?_, ?_, hframe, ?_⟩
  · intro denom
    rw [← ht, supply_mintInto, supply_mintInto]
    split_ifs <;> push_cast <;> omega
  · rintro a denom (⟨ha, ha'⟩ | hdenom)
    · rw [hbalance, if_neg (ha ·.1), if_neg (ha' ·.1)]
      rfl
    · rw [hbalance, if_neg (hdenom ·.2), if_neg (hdenom ·.2)]
      rfl
  · -- both pools are funded now
    obtain ⟨t', hrun', hfunded⟩ := executeReconcileStakingPools_funded hne h
    obtain rfl : t = t' := (Prod.mk.inj (hrun.symm.trans hrun')).2
    exact executeReconcileStakingPools_of_funded hfunded

end Reconcile

section Sample

/-- The local network with pools that have lost their coins, and a delegation of seven that is
being unbonded. -/
def depletedState : AppState :=
  { sampleState false with
    bank := { balance := fun _ _ => 0, supply := (sampleState false).bank.supply }
    staking := { (sampleState false).staking with
      unbondingDelegations := Finmap.singleton (secondOperator, sampleOperator) [some 7] } }

theorem reconcileSucceeds_depletedState :
    ReconcileSucceeds sampleSdk sampleBlock depletedState where
  validators := rfl
  unbonding := rfl
  mints := by decide +kernel

/-- The coins that were lost are minted. -/
theorem executeReconcileStakingPools_depleted :
    ∃ t, executeReconcileStakingPools sampleSdk sampleBlock depletedState = (.ok (), t) ∧
      t.bank.balance (sampleBase.moduleAddress bondedPoolName) defaultBondDenom = 1000000 ∧
      t.bank.balance (sampleBase.moduleAddress notBondedPoolName) defaultBondDenom = 7 ∧
      t.bank.supply defaultBondDenom = 2000007 ∧
      executeReconcileStakingPools sampleSdk sampleBlock t = (.ok (), t) := by
  have hne : sampleSdk.moduleAddress bondedPoolName ≠ sampleSdk.moduleAddress notBondedPoolName :=
    poolLaws_sampleBase.distinct
  obtain ⟨t, hrun, hbonded, hnotBonded, hsupply, -, -, hagain⟩ :=
    executeReconcileStakingPools_exact hne reconcileSucceeds_depletedState
  have hB : tokensOf true depletedState.staking.validators = 1000000 := by decide +kernel
  have hN : tokensOf false depletedState.staking.validators +
      unbondingBalance depletedState.staking.unbondingDelegations = 7 := by decide +kernel
  have hS := hsupply defaultBondDenom
  rw [hB, hN] at hS
  rw [hB] at hbonded
  rw [hN] at hnotBonded
  refine ⟨t, hrun, Int.ofNat.inj hbonded, Int.ofNat.inj hnotBonded, Int.ofNat.inj hS, ?_⟩
  exact hagain sampleBlock

end Sample

end NexusNode
