import NexusNode.Staking.Shares

/-!
# The power index along the hooks

The staking module walks the power index to find the next validator set, and panics on a jailed
validator it meets there. The index is exact when it has one entry for every validator that is
not jailed, under its current tokens, and no other. `Delegate` and `Unjail` keep the entry of a
validator in step with its record. The hooks also write records and entries on their own:
`add_validator` files both for a new validator, and `remove_validator` takes the entry out before
it jails the record.

## Main definitions

* `IndexExact s`: the index has exactly the entries of the validators that are not jailed
* `IndexWrites`: writes of records and index entries do not fail

## Main results

* `IndexExact.effect`: what the calls of the SDK do to an exact index
* `run_indexExact`: the index stays exact along the hooks
-/

namespace NexusNode

open Program Proc

/-! ## Exactness -/

/-- The index has an entry for every validator that is not jailed, under its current tokens, and
no other. -/
def IndexExact (s : AppState) : Prop :=
  ∀ p a, (p, a) ∈ s.staking.powerIndex ↔
    ∃ v, s.staking.validators.lookup a = some v ∧ v.jailed = false ∧ v.powerKey = (p, a)

/-- Writes of validator records and of index entries do not fail. -/
structure IndexWrites (sdk : Sdk) : Prop where
  setValidator : ∀ ctx v s, sdk.refuse ctx (.setValidator v) s = none
  setValidatorByConsAddr : ∀ ctx v s, v.consensusPubkey.isSome →
    sdk.refuse ctx (.setValidatorByConsAddr v) s = none
  setNewValidatorByPowerIndex : ∀ ctx v s, sdk.refuse ctx (.setNewValidatorByPowerIndex v) s = none
  deleteValidatorByPowerIndex : ∀ ctx v s, sdk.refuse ctx (.deleteValidatorByPowerIndex v) s = none

section Exact

variable {s t : AppState} {v : Validator}

/-- The index after a record is written: the entries of other validators are as they were, and
those of this one are its own. -/
theorem IndexExact.insert (hs : IndexExact s)
    (hvalidators : t.staking.validators = s.staking.validators.insert v.operatorAddress v)
    (hother : ∀ p a, a ≠ v.operatorAddress →
      ((p, a) ∈ t.staking.powerIndex ↔ (p, a) ∈ s.staking.powerIndex))
    (hown : ∀ p, (p, v.operatorAddress) ∈ t.staking.powerIndex ↔
      v.jailed = false ∧ v.powerKey = (p, v.operatorAddress)) : IndexExact t := by
  intro p a
  by_cases ha : a = v.operatorAddress
  · subst ha
    rw [hown, hvalidators, Finmap.lookup_insert]
    simp
  · rw [hother p a ha, hs p a, hvalidators, Finmap.lookup_insert_of_ne _ ha]

/-- The entries of a validator in an exact index. -/
theorem IndexExact.mem_own (hs : IndexExact s)
    (hv : s.staking.validators.lookup v.operatorAddress = some v) (p : ℤ) :
    (p, v.operatorAddress) ∈ s.staking.powerIndex ↔
      v.jailed = false ∧ v.powerKey = (p, v.operatorAddress) := by
  rw [hs, hv]
  simp

theorem IndexExact.not_mem_of_missing (hs : IndexExact s) {a : ValAddress}
    (h : s.staking.validators.lookup a = none) (p : ℤ) : (p, a) ∉ s.staking.powerIndex := by
  rw [hs, h]
  simp

/-- Without its own key, an exact index has no entry of a validator. -/
theorem IndexExact.not_mem_erase (hs : IndexExact s)
    (hv : s.staking.validators.lookup v.operatorAddress = some v) (p : ℤ) :
    (p, v.operatorAddress) ∉ s.staking.powerIndex.erase v.powerKey := by
  rw [Finset.mem_erase, hs.mem_own hv]
  rintro ⟨hne, -, heq⟩
  exact hne heq.symm

/-- An entry of another operator is not the key of the validator. -/
theorem ne_powerKey {p : ℤ} {a : ValAddress} (ha : a ≠ v.operatorAddress) : (p, a) ≠ v.powerKey :=
  fun h => ha (congrArg Prod.snd h)

theorem IndexExact.delegate (hs : IndexExact s)
    (hv : s.staking.validators.lookup v.operatorAddress = some v) {d : AccAddress} {n : ℕ}
    (ht : t.staking = s.staking.delegate d v n) : IndexExact t := by
  have hindex : t.staking.powerIndex = if v.jailed then s.staking.powerIndex.erase v.powerKey
      else Insert.insert (v.addTokensFromDel n).powerKey
        (s.staking.powerIndex.erase v.powerKey) := by
    rw [ht]
    rfl
  refine hs.insert (v := v.addTokensFromDel n) (by rw [ht]; rfl) (fun p a ha => ?_) fun p => ?_
  · -- entries of other validators are neither taken out nor put in
    have ha : a ≠ v.operatorAddress := ha
    have hne := ne_powerKey (p := p) ha
    have hne' : (p, a) ≠ (v.addTokensFromDel n).powerKey := ne_powerKey ha
    rw [hindex]
    split_ifs <;> simp [hne, hne']
  · -- the old entry is taken out, under the old tokens
    have hgone := hs.not_mem_erase hv p
    change (p, v.operatorAddress) ∈ _ ↔ v.jailed = false ∧ _ = (p, v.operatorAddress)
    rw [hindex]
    split_ifs with hjailed
    · simpa only [hjailed, Bool.true_eq_false, false_and, iff_false] using hgone
    · simp only [Finset.mem_insert, hgone, or_false, Bool.not_eq_true _ ▸ hjailed, true_and]
      exact eq_comm

theorem IndexExact.unjail (hs : IndexExact s)
    (hv : s.staking.validators.lookup v.operatorAddress = some v)
    (ht : t.staking = s.staking.unjail v) : IndexExact t := by
  have hindex : t.staking.powerIndex = Insert.insert v.powerKey s.staking.powerIndex := by
    rw [ht]
    rfl
  refine hs.insert (v := { v with jailed := false }) (by rw [ht]; rfl) (fun p a ha => ?_)
    fun p => ?_
  · have hne := ne_powerKey (p := p) ha
    rw [hindex, Finset.mem_insert]
    exact or_iff_right hne
  · have hown := hs.mem_own hv p
    change (p, v.operatorAddress) ∈ _ ↔ false = false ∧ v.powerKey = (p, v.operatorAddress)
    rw [hindex, Finset.mem_insert, hown]
    simp only [true_and]
    exact ⟨fun h => h.elim Eq.symm And.right, fun h => .inl h.symm⟩

/-- A new validator and its entry. -/
theorem IndexExact.indexByPower (hs : IndexExact s)
    (hmissing : s.staking.validators.lookup v.operatorAddress = none) (hv : v.jailed = false)
    (hvalidators : t.staking.validators = s.staking.validators.insert v.operatorAddress v)
    (hindex : t.staking.powerIndex = Insert.insert v.powerKey s.staking.powerIndex) :
    IndexExact t := by
  refine hs.insert hvalidators (fun p a ha => ?_) fun p => ?_
  · have hne := ne_powerKey (p := p) ha
    rw [hindex, Finset.mem_insert]
    exact or_iff_right hne
  · have hnone := hs.not_mem_of_missing hmissing p
    rw [hindex, Finset.mem_insert]
    simp only [hnone, or_false, hv, true_and]
    exact eq_comm

/-- The entry is taken out before the record is jailed. -/
theorem IndexExact.remove (hs : IndexExact s)
    (hv : s.staking.validators.lookup v.operatorAddress = some v) {moved : Bool}
    (ht : t.staking = (unindexed v s.staking).setValidator (removedRecord v moved)) :
    IndexExact t := by
  have hoperator := removedRecord_operatorAddress v moved
  have hindex : t.staking.powerIndex =
      if v.jailed then s.staking.powerIndex else s.staking.powerIndex.erase v.powerKey := by
    rw [ht]
    unfold unindexed
    split_ifs <;> rfl
  refine hs.insert (v := removedRecord v moved) ?_ (fun p a ha => ?_) fun p => ?_
  · rw [ht, Staking.setValidator_validators, unindexed_validators]
  · rw [hoperator] at ha
    have hne := ne_powerKey (p := p) ha
    rw [hindex]
    split_ifs
    · rfl
    · simp [hne]
  · rw [hoperator, removedRecord_jailed, hindex]
    simp only [Bool.true_eq_false, false_and, iff_false]
    split_ifs with hjailed
    · rw [hs.mem_own hv]
      simp [hjailed]
    · exact hs.not_mem_erase hv p

/-- **Calls and the index.** Every call that does not write a record or an entry as it is given
keeps an exact index exact. -/
theorem IndexExact.effect (hs : IndexExact s) (b : SdkBase) {call : SdkCall}
    (hcall : call.isIndexWrite = false) : IndexExact (b.effect call s) := by
  cases call with
  | delegate d a c =>
    simp only [SdkBase.effect]
    split
    · exact hs
    next v hv =>
      obtain rfl := s.staking.keyed hv
      exact hs.delegate hv rfl
  | unjail a =>
    simp only [SdkBase.effect]
    split
    · exact hs
    next v hv =>
      obtain rfl := s.staking.keyed hv
      exact hs.unjail hv rfl
  | setValidator v => cases hcall
  | setValidatorByConsAddr v => cases hcall
  | setNewValidatorByPowerIndex v => cases hcall
  | deleteValidatorByPowerIndex v => cases hcall
  | _ => exact hs

end Exact

/-! ## Hooks -/

section Hooks

variable {sdk : Sdk} (ctx : BlockContext)

theorem Performs.indexExact {Q : SdkCall → Prop} {c : Step AppState String} (h : Performs sdk Q c)
    (hQ : ∀ call, Q call → call.isIndexWrite = false) (t : AppState) (ht : IndexExact t) :
    IndexExact (c.effect t) :=
  h.keeps (fun _ _ hu => hu) (fun call hcall _ hu => hu.effect sdk.toSdkBase (hQ call hcall)) t ht

theorem SdkCall.isIndexWrite_of_isTopUp (call : SdkCall) (h : call.isTopUp) :
    call.isIndexWrite = false := by
  cases call <;> first | rfl | cases h

theorem indexExact_executeUnjailing (a : ValAddress) (target : Option ℤ) {s : AppState}
    (hs : IndexExact s) : IndexExact (executeUnjailing sdk ctx a target s).2 := by
  refine executeUnjailing_induct sdk ctx hs fun v _ => runSteps_keeps (fun c hc => ?_) hs
  rcases List.mem_append.mp hc with hc | hc
  · cases target with
    | none => cases hc
    | some target =>
      exact (performs_topUpSteps sdk ctx a v target _ c hc).indexExact
        SdkCall.isIndexWrite_of_isTopUp
  · refine (performs_releaseSteps sdk ctx a v c hc).indexExact ?_
    rintro call (rfl | ⟨c, info, rfl⟩) <;> rfl

variable (hwrites : IndexWrites sdk)

include hwrites

/-- The record of a new validator, its two index entries and the records behind them. None of
the three first writes is refused, so the record never stands without its entry. -/
theorem indexExact_recordSteps {v : Validator} {pubKey : PubKey} {s : AppState}
    (hmissing : s.staking.validators.lookup v.operatorAddress = none) (hjailed : v.jailed = false)
    (hkey : v.consensusPubkey = some pubKey) (hs : IndexExact s) :
    IndexExact (runSteps (recordSteps sdk ctx v.operatorAddress pubKey v) s).2 := by
  rw [← List.take_append_drop 3 (recordSteps sdk ctx v.operatorAddress pubKey v)]
  refine runSteps_append_keeps ?_ fun c hc t _ => ?_
  · have hset : (sdk.step ctx "failed to persist validator: "
        (.setValidator v)).refuse s = none := by
      simp [Sdk.step, hwrites.setValidator]
    have hcons : ∀ u, (sdk.step ctx "failed to index validator by cons addr: "
        (.setValidatorByConsAddr v)).refuse u = none := fun u => by
      simp [Sdk.step, hwrites.setValidatorByConsAddr ctx v u (by simp [hkey])]
    have hpower : ∀ u, (sdk.step ctx "failed to index validator by power: "
        (.setNewValidatorByPowerIndex v)).refuse u = none := fun u => by
      simp [Sdk.step, hwrites.setNewValidatorByPowerIndex]
    simp only [recordSteps, List.take_succ_cons, List.take_zero]
    rw [runSteps_cons_of_accepted hset, runSteps_cons_of_accepted (hcons _),
      runSteps_cons_of_accepted (hpower _)]
    apply hs.indexByPower hmissing hjailed
    all_goals simp only [runSteps, pure_apply, Sdk.step, SdkBase.effect, SdkBase.getConsAddr, hkey]
    all_goals rfl
  · exact (performs_recordSteps_drop sdk ctx v.operatorAddress pubKey v c hc).indexExact
      (fun _ hcall => hcall.2) t

theorem indexExact_persistSteps {a : ValAddress} {s : AppState}
    (hmissing : s.staking.validators.lookup a = none) (pubKey : PubKey) (n : Option ℤ)
    (hs : IndexExact s) : IndexExact (runSteps (persistSteps sdk ctx a pubKey n) s).2 := by
  cases n with
  | none => exact hs
  | some m =>
    by_cases hm : 0 < m
    · simp only [persistSteps, if_pos hm]
      refine runSteps_append_keeps ?_ ?_
      · exact indexExact_recordSteps ctx hwrites (v := storedValidator a pubKey m) hmissing rfl
          rfl hs
      · intro c hc t _ ht
        obtain rfl := List.mem_singleton.mp hc
        rwa [Step.check_effect]
    · simp only [persistSteps, if_neg hm]
      exact hs

theorem indexExact_executeAddValidator (a : ValAddress) (opts : Option AddValidatorOptions)
    {s : AppState} (hs : IndexExact s) : IndexExact (executeAddValidator sdk ctx a opts s).2 := by
  refine executeAddValidator_induct sdk ctx hs fun hmissing pubKey n _ => ?_
  refine runSteps_cons_induct hs fun _ => runSteps_cons_induct hs fun _ => ?_
  rw [buildStep, Step.check_effect]
  refine runSteps_append_keeps ?_ fun c hc t _ => ?_
  · exact indexExact_persistSteps ctx hwrites (s := (accountStep a).effect s) hmissing pubKey _ hs
  · exact (performs_topUpSteps sdk ctx a _ n _ c hc).indexExact SdkCall.isIndexWrite_of_isTopUp t

omit hwrites in
theorem indexExact_executeRemoveValidator {a : ValAddress} {opts : Option RemoveValidatorOptions}
    {s t : AppState} (h : executeRemoveValidator sdk ctx a opts s = (.ok (), t))
    (hs : IndexExact s) : IndexExact t := by
  obtain ⟨v, -, -, moved, hv, -, -, hstaking, -⟩ := executeRemoveValidator_ok sdk ctx h
  obtain rfl := s.staking.keyed hv
  exact hs.remove hv hstaking

/-- **One hook** that returns keeps an exact index exact. -/
theorem indexExact_performHook {hook : BlockHook} {s t : AppState} {r : Outcome String Unit}
    (h : performHook sdk ctx hook s = (r, t)) (hr : r.returned) (hs : IndexExact s) :
    IndexExact t := by
  refine performHook_keeps sdk ctx ?_ ?_ ?_ ?_ h hr hs
  · exact fun a target u hu => indexExact_executeUnjailing ctx a target hu
  · exact fun a opts u hu => indexExact_executeAddValidator ctx hwrites a opts hu
  · exact fun a opts u w hrun hu => indexExact_executeRemoveValidator ctx hrun hu
  · intro u hu
    unfold IndexExact
    rw [executeReconcileStakingPools_staking sdk ctx u]
    exact hu

omit ctx in
/-- **The power index along the hooks.** From a state with an exact index, the index is exact
after every hook of a run of hooks that return. -/
theorem run_indexExact {s₀ t : AppState}
    {cs : List (Call (BlockContext × BlockHook) (Outcome String Unit) AppState)}
    (hrun : Run (hookStep sdk) s₀ cs t) (h₀ : IndexExact s₀) : ∀ c ∈ cs, IndexExact c.after := by
  have hkeep : ∀ op s r u, IndexExact s → hookStep sdk op s r u → IndexExact u :=
    fun op s r u hs hstep => indexExact_performHook op.1 hwrites hstep.1 hstep.2 hs
  intro c hc
  have hbefore := hrun.forall_before h₀ hkeep c hc
  exact hkeep _ _ _ _ hbefore (hrun.step_of_mem c hc)

end Hooks

section Sample

theorem indexWrites_documented (b : SdkBase) : IndexWrites b.documented where
  setValidator _ _ _ := rfl
  setValidatorByConsAddr _ v _ h := by
    obtain ⟨pubKey, hkey⟩ := Option.isSome_iff_exists.mp h
    simp [SdkBase.documented, SdkBase.mustRefuse, hkey]
  setNewValidatorByPowerIndex _ _ _ := rfl
  deleteValidatorByPowerIndex _ _ _ := rfl

theorem indexExact_sampleState (jailed : Bool) : IndexExact (sampleState jailed) := by
  intro p a
  constructor
  · intro h
    cases jailed with
    | true => cases h
    | false =>
      obtain ⟨rfl, rfl⟩ := Prod.mk.inj (Finset.mem_singleton.mp h)
      exact ⟨sampleValidator false, rfl, rfl, rfl⟩
  · rintro ⟨v, hv, hjailed, hkey⟩
    obtain ⟨rfl, rfl⟩ := sampleState_lookup hv
    obtain rfl : jailed = false := hjailed
    exact Finset.mem_singleton.mpr hkey.symm

/-- The second validator is added, with two million tokens. -/
def addHook : BlockHook :=
  ⟨60, .addValidator, .addValidator "nexusvaloper17ze54jawc4etntrlz997wtkt8w3gwndvmehgex"
    (some ⟨some secondKey, some 2000000, some 1⟩)⟩

/-- The local network with a second validator. -/
def addedState : AppState := (performHook sampleSdk sampleBlock addHook (sampleState false)).2

/-- The same, with the first validator then removed. -/
def replacedState : AppState :=
  (performHook sampleSdk sampleBlock (removeHook (some ⟨true, none⟩)) addedState).2

/-- One validator takes the place of another, in the records and in the index. -/
theorem run_indexExact_replace :
    IndexExact addedState ∧ IndexExact replacedState ∧
      addedState.staking.powerIndex = {(1, sampleOperator), (2, secondOperator)} ∧
      replacedState.staking.powerIndex = {(2, secondOperator)} := by
  have hadd : performHook sampleSdk sampleBlock addHook (sampleState false) =
      (.ok (), addedState) := Prod.ext (by decide +kernel) rfl
  have hremove : performHook sampleSdk sampleBlock (removeHook (some ⟨true, none⟩)) addedState =
      (.ok (), replacedState) := Prod.ext (by decide +kernel) rfl
  have hrun : Run (hookStep sampleSdk) (sampleState false)
      [⟨(sampleBlock, addHook), .ok (), sampleState false, addedState⟩,
        ⟨(sampleBlock, removeHook (some ⟨true, none⟩)), .ok (), addedState, replacedState⟩]
      replacedState := .snoc (.snoc .nil ⟨hadd, rfl⟩) ⟨hremove, rfl⟩
  have hexact := run_indexExact (indexWrites_documented sampleBase) hrun
    (indexExact_sampleState false)
  simp only [List.forall_mem_cons] at hexact
  exact ⟨hexact.1, hexact.2.1, by decide +kernel, by decide +kernel⟩

end Sample

end NexusNode
