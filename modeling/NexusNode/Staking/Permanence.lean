import NexusNode.Staking.PowerIndex

/-!
# Removal is permanent

A removal leaves a jailed record without an index entry and a tombstoned signing info. Later
hooks may write to all three: `unjail` rewrites the signing info before it asks for the
unjailing, `add_validator` creates signing infos, also for a key that another validator had, and
both delegate. The SDK refuses to unjail a tombstoned validator, and a signing info that is found
is not created again. So what a removal leaves behind is kept by every later hook.

## Main definitions

* `Removed b a c s`: the validator `a` with the consensus address `c` is removed
* `SdkCall.Spares a c`: the calls that cannot bring it back
* `FindsSigningInfos`: what is assumed of reading a signing info

## Main results

* `Removed.effect`: the calls that spare a removed validator keep it removed
* `removed_performHook`: so does every hook that returns
* `run_removed`: a removed validator stays removed
-/

namespace NexusNode

open Program Proc

/-- The validator `a` with the consensus address `c` is removed: its record is jailed, it has no
index entry, and its signing info is tombstoned. -/
structure Removed (b : SdkBase) (a : ValAddress) (c : ConsAddress) (s : AppState) : Prop where
  record : ∃ v, s.staking.validators.lookup a = some v ∧ v.jailed = true ∧ b.getConsAddr v = .ok c
  unindexed : ∀ p, (p, a) ∉ s.staking.powerIndex
  tombstoned : ∃ info, s.slashing.signingInfos.lookup c = some info ∧ info.tombstoned = true

/-- A signing info that is stored is found. -/
def FindsSigningInfos (sdk : Sdk) : Prop :=
  ∀ ctx c s, (s.slashing.signingInfos.lookup c).isSome →
    sdk.refuse ctx (.getValidatorSigningInfo c) s = none

/-- The call does not file a record or an index entry of `a` as it is given, does not unjail it,
and files only tombstoned infos under `c`. -/
def SdkCall.Spares (a : ValAddress) (c : ConsAddress) : SdkCall → Prop
  | .setValidator v => v.operatorAddress ≠ a
  | .setNewValidatorByPowerIndex v => v.operatorAddress ≠ a
  | .setValidatorSigningInfo c' info => c' = c → info.tombstoned = true
  | .unjail a' => a' ≠ a
  | _ => True

section Calls

variable {b : SdkBase} {a : ValAddress} {c : ConsAddress} {s t : AppState}

/-- Writing a jailed record with the same key, or one of another validator, and no entry. -/
theorem Removed.insert (hs : Removed b a c s) {v : Validator}
    (hvalidators : t.staking.validators = s.staking.validators.insert v.operatorAddress v)
    (hv : v.operatorAddress = a → v.jailed = true ∧ b.getConsAddr v = .ok c)
    (hindex : ∀ p, (p, a) ∈ t.staking.powerIndex → (p, a) ∈ s.staking.powerIndex)
    (hinfos : ∃ info, t.slashing.signingInfos.lookup c = some info ∧ info.tombstoned = true) :
    Removed b a c t where
  record := by
    by_cases ha : a = v.operatorAddress
    · subst ha
      exact ⟨v, by rw [hvalidators, Finmap.lookup_insert], hv rfl⟩
    · obtain ⟨w, hw, hrest⟩ := hs.record
      exact ⟨w, by rw [hvalidators, Finmap.lookup_insert_of_ne _ ha, hw], hrest⟩
  unindexed p h := hs.unindexed p (hindex p h)
  tombstoned := hinfos

/-- Writing a signing info, tombstoned if it is the one of the validator. -/
theorem Removed.tombstoned_insert (hs : Removed b a c s) {c' : ConsAddress}
    {info : ValidatorSigningInfo} (h : c' = c → info.tombstoned = true) :
    ∃ info', (s.slashing.signingInfos.insert c' info).lookup c = some info' ∧
      info'.tombstoned = true := by
  by_cases hc : c = c'
  · subst hc
    exact ⟨info, Finmap.lookup_insert _, h rfl⟩
  · rw [Finmap.lookup_insert_of_ne _ hc]
    exact hs.tombstoned

theorem Removed.delegate (hs : Removed b a c s) (d : AccAddress) (a' : ValAddress) (coins : Coin) :
    Removed b a c (b.effect (.delegate d a' coins) s) := by
  obtain ⟨v, hv, hjailed, hcons⟩ := hs.record
  simp only [SdkBase.effect]
  split
  · exact hs
  next w hw =>
    obtain rfl := s.staking.keyed hw
    -- a delegation to the validator itself finds it jailed and puts no entry in
    have hown : w.operatorAddress = a → w.jailed = true ∧ b.getConsAddr w = .ok c := by
      rintro rfl
      obtain rfl := Option.some.inj (hv.symm.trans hw)
      exact ⟨hjailed, hcons⟩
    refine hs.insert (v := w.addTokensFromDel coins.amount) rfl hown (fun p hp => ?_) hs.tombstoned
    simp only [Staking.delegate, Staking.setByPowerIndex] at hp
    split_ifs at hp with hwj
    · exact Finset.mem_of_mem_erase hp
    · rcases Finset.mem_insert.mp hp with heq | hp
      · exact absurd (hown (congrArg Prod.snd heq).symm).1 hwj
      · exact Finset.mem_of_mem_erase hp

theorem Removed.unjail (hs : Removed b a c s) {a' : ValAddress} (ha : a' ≠ a) :
    Removed b a c (b.effect (.unjail a') s) := by
  simp only [SdkBase.effect]
  split
  · exact hs
  next w hw =>
    obtain rfl := s.staking.keyed hw
    refine hs.insert (v := { w with jailed := false }) rfl (fun h => absurd h ha) (fun p hp => ?_)
      hs.tombstoned
    rcases Finset.mem_insert.mp hp with heq | hp
    · exact absurd (congrArg Prod.snd heq).symm ha
    · exact hp

/-- **Calls and removed validators.** A call that spares a removed validator keeps it removed. -/
theorem Removed.effect (hs : Removed b a c s) (call : SdkCall) (hcall : call.Spares a c) :
    Removed b a c (b.effect call s) := by
  cases call with
  | delegate d a' coins => exact hs.delegate d a' coins
  | unjail a' => exact hs.unjail hcall
  | setValidator w =>
    exact hs.insert (v := w) rfl (fun h => absurd h hcall) (fun _ hp => hp) hs.tombstoned
  | setNewValidatorByPowerIndex w =>
    refine ⟨hs.record, fun p hp => ?_, hs.tombstoned⟩
    rcases Finset.mem_insert.mp hp with heq | hp
    · exact hcall (congrArg Prod.snd heq).symm
    · exact hs.unindexed p hp
  | deleteValidatorByPowerIndex w =>
    exact ⟨hs.record, fun p hp => hs.unindexed p (Finset.mem_of_mem_erase hp), hs.tombstoned⟩
  | setValidatorSigningInfo c' info =>
    exact ⟨hs.record, hs.unindexed, hs.tombstoned_insert hcall⟩
  | setValidatorByConsAddr w =>
    simp only [SdkBase.effect]
    split
    · exact ⟨hs.record, hs.unindexed, hs.tombstoned⟩
    · exact hs
  | _ => exact ⟨hs.record, hs.unindexed, hs.tombstoned⟩

/-- A removed validator may not be unjailed. -/
theorem Removed.mustRefuse_unjail (hs : Removed b a c s) : b.mustRefuse (.unjail a) s = true := by
  obtain ⟨v, hv, -, hcons⟩ := hs.record
  obtain ⟨info, hinfo, htomb⟩ := hs.tombstoned
  simp [SdkBase.mustRefuse, hv, SdkBase.isTombstoned, hcons, hinfo, htomb]

end Calls

/-! ## Hooks -/

section Hooks

variable {sdk : Sdk} (ctx : BlockContext) {a : ValAddress} {c : ConsAddress}

theorem Performs.removed {Q : SdkCall → Prop} {d : Step AppState String} (h : Performs sdk Q d)
    (hQ : ∀ call, Q call → call.Spares a c) (t : AppState) (ht : Removed sdk.toSdkBase a c t) :
    Removed sdk.toSdkBase a c (d.effect t) :=
  h.keeps (fun _ _ hu => ⟨hu.record, hu.unindexed, hu.tombstoned⟩)
    (fun call hcall _ hu => hu.effect call (hQ call hcall)) t ht

theorem SdkCall.spares_of_isTopUp (call : SdkCall) (h : call.isTopUp) : call.Spares a c := by
  cases call <;> trivial

/-- Clearing the jail time of a signing info keeps it tombstoned. -/
theorem removed_clearJailStep (consAddr : ConsAddress) {t : AppState}
    (ht : Removed sdk.toSdkBase a c t) :
    Removed sdk.toSdkBase a c ((clearJailStep sdk ctx consAddr).effect t) := by
  cases hread : sdk.getValidatorSigningInfo ctx consAddr t with
  | error e => simpa only [clearJailStep, Step.reading, hread, Except.mapError] using ht
  | ok info =>
    simp only [clearJailStep, Step.reading, hread, Except.mapError]
    obtain ⟨-, hinfo⟩ := Sdk.getValidatorSigningInfo_eq_ok_iff.mp hread
    refine ht.effect (.setValidatorSigningInfo consAddr (clearedInfo ctx info)) ?_
    rintro rfl
    -- what is written back is the stored info, with another jail time
    obtain ⟨info', hinfo', htomb⟩ := ht.tombstoned
    obtain rfl := Option.some.inj (hinfo.symm.trans hinfo')
    exact htomb

theorem removed_executeUnjailing (x : ValAddress) (target : Option ℤ) {s : AppState}
    (hs : Removed sdk.toSdkBase a c s) :
    Removed sdk.toSdkBase a c (executeUnjailing sdk ctx x target s).2 := by
  refine executeUnjailing_induct sdk ctx hs fun v _ => ?_
  refine runSteps_keeps_of_accepted (fun d hd t haccept ht => ?_) hs
  rcases List.mem_append.mp hd with hd | hd
  · cases target with
    | none => cases hd
    | some target =>
      exact (performs_topUpSteps sdk ctx x v target _ d hd).removed SdkCall.spares_of_isTopUp t ht
  · unfold releaseSteps at hd
    split at hd
    · rcases List.mem_cons.mp hd with rfl | hd
      · exact removed_clearJailStep ctx _ ht
      · obtain rfl := List.mem_singleton.mp hd
        refine ht.unjail ?_
        rintro rfl
        have hrefuse := sdk.mustRefuse_of_accepted (sdk.refuse_of_step ctx haccept)
        rw [ht.mustRefuse_unjail] at hrefuse
        cases hrefuse
    · obtain rfl := List.mem_singleton.mp hd
      cases haccept

variable (hfinds : FindsSigningInfos sdk)

include hfinds

/-- A new validator with the key of the removed one finds the tombstoned info and leaves it. -/
theorem removed_signingInfoStep (consAddr : ConsAddress) {t : AppState}
    (ht : Removed sdk.toSdkBase a c t) :
    Removed sdk.toSdkBase a c (((sdk.step ctx "failed to set signing info: "
      (.setValidatorSigningInfo consAddr (newSigningInfo ctx))).ifMissing
        (sdk.getValidatorSigningInfo ctx consAddr)).effect t) := by
  unfold Step.ifMissing
  dsimp only
  cases hread : sdk.getValidatorSigningInfo ctx consAddr t with
  | ok info => exact ht
  | error e =>
    refine ht.effect (.setValidatorSigningInfo consAddr (newSigningInfo ctx)) ?_
    rintro rfl
    obtain ⟨info, hinfo, -⟩ := ht.tombstoned
    have hfound := hfinds ctx consAddr t (by simp [hinfo])
    rw [Sdk.getValidatorSigningInfo_eq_ok_iff.mpr ⟨hfound, hinfo⟩] at hread
    cases hread

theorem removed_recordSteps {x : ValAddress} (hx : x ≠ a) (pubKey : PubKey) {v : Validator}
    (hv : v.operatorAddress = x) :
    ∀ d ∈ recordSteps sdk ctx x pubKey v, ∀ t, Removed sdk.toSdkBase a c t →
      Removed sdk.toSdkBase a c (d.effect t) := by
  subst hv
  simp only [recordSteps, List.forall_mem_cons]
  refine ⟨fun t ht => ht.effect (.setValidator v) hx,
    fun t ht => ht.effect (.setValidatorByConsAddr v) trivial,
    fun t ht => ht.effect (.setNewValidatorByPowerIndex v) hx,
    fun t ht => removed_signingInfoStep ctx hfinds _ ht,
    fun t ht => ht.effect (.setValidatorHistoricalRewards ..) trivial,
    fun t ht => ht.effect (.setValidatorCurrentRewards ..) trivial,
    fun t ht => ht.effect (.setValidatorAccumulatedCommission ..) trivial, ?_, by simp⟩
  exact (Performs.ifMissing (.step (Q := fun call => call = .setFeePool []) rfl) _).removed
    (by rintro call rfl; trivial)

theorem removed_executeAddValidator (x : ValAddress) (opts : Option AddValidatorOptions)
    {s : AppState} (hs : Removed sdk.toSdkBase a c s) :
    Removed sdk.toSdkBase a c (executeAddValidator sdk ctx x opts s).2 := by
  refine executeAddValidator_induct sdk ctx hs fun hmissing pubKey n _ => ?_
  have hx : x ≠ a := by
    rintro rfl
    obtain ⟨v, hv, -⟩ := hs.record
    exact nomatch hv.symm.trans hmissing
  refine runSteps_keeps ?_ hs
  simp only [createSteps, List.forall_mem_cons, List.forall_mem_append]
  refine ⟨fun t ht => ⟨ht.record, ht.unindexed, ht.tombstoned⟩, fun t ht => ?_, fun d hd => ?_,
    fun d hd => ?_⟩
  · rwa [buildStep, Step.check_effect]
  · cases hn : opts.bind (·.minSelfDelegation) with
    | none =>
      rw [hn] at hd
      cases hd
    | some m =>
      rw [hn, persistSteps] at hd
      split_ifs at hd
      · rcases List.mem_append.mp hd with hd | hd
        · exact removed_recordSteps ctx hfinds hx pubKey rfl d hd
        · obtain rfl := List.mem_singleton.mp hd
          exact (Performs.check (Q := fun _ => False) _).removed fun _ h => h.elim
      · cases hd
  · exact (performs_topUpSteps sdk ctx x _ n _ d hd).removed SdkCall.spares_of_isTopUp

omit hfinds in
/-- A later removal, of the same validator or of another one. -/
theorem removed_executeRemoveValidator {x : ValAddress} {opts : Option RemoveValidatorOptions}
    {s t : AppState} (h : executeRemoveValidator sdk ctx x opts s = (.ok (), t))
    (hs : Removed sdk.toSdkBase a c s) : Removed sdk.toSdkBase a c t := by
  obtain ⟨v, c', info, moved, hv, hcons, hinfo, hstaking, hinfos, -⟩ :=
    executeRemoveValidator_ok sdk ctx h
  obtain rfl := s.staking.keyed hv
  have hoperator := removedRecord_operatorAddress v moved
  refine hs.insert (v := removedRecord v moved) ?_ (fun hown => ?_) (fun p hp => ?_) ?_
  · rw [hstaking, Staking.setValidator_validators, unindexed_validators]
  · obtain ⟨w, hw, -, hwcons⟩ := hs.record
    rw [hoperator] at hown
    obtain rfl := Option.some.inj ((hown ▸ hv).symm.trans hw)
    rw [getConsAddr_removedRecord]
    exact ⟨removedRecord_jailed v moved, hwcons⟩
  · rw [hstaking] at hp
    exact unindexed_powerIndex_subset v s.staking hp
  · rw [hinfos]
    exact hs.tombstoned_insert fun _ => tombstonedInfo_tombstoned info

omit hfinds in
/-- What a removal leaves behind, where the index was exact. -/
theorem removed_of_executeRemoveValidator {x : ValAddress} {opts : Option RemoveValidatorOptions}
    {s t : AppState} (h : executeRemoveValidator sdk ctx x opts s = (.ok (), t))
    (hs : IndexExact s) : ∃ v c, s.staking.validators.lookup x = some v ∧
      sdk.getConsAddr v = .ok c ∧ Removed sdk.toSdkBase x c t := by
  have ht := indexExact_executeRemoveValidator ctx h hs
  obtain ⟨v, c, info, moved, hv, hcons, -, hstaking, hinfos, -⟩ :=
    executeRemoveValidator_ok sdk ctx h
  obtain rfl := s.staking.keyed hv
  have hrecord : t.staking.validators.lookup v.operatorAddress = some (removedRecord v moved) := by
    rw [hstaking, Staking.setValidator_validators, removedRecord_operatorAddress,
      Finmap.lookup_insert]
  refine ⟨v, c, hv, hcons, ?_, fun p hp => ?_, ?_⟩
  · rw [← getConsAddr_removedRecord sdk.toSdkBase v moved] at hcons
    exact ⟨removedRecord v moved, hrecord, removedRecord_jailed v moved, hcons⟩
  · -- an exact index has no entry of a jailed validator
    obtain ⟨w, hw, hjailed, -⟩ := (ht p v.operatorAddress).mp hp
    obtain rfl := Option.some.inj (hrecord.symm.trans hw)
    simp at hjailed
  · exact ⟨tombstonedInfo info, by rw [hinfos, Finmap.lookup_insert], by simp⟩

/-- **One hook** that returns keeps a removed validator removed. -/
theorem removed_performHook {hook : BlockHook} {s t : AppState} {r : Outcome String Unit}
    (h : performHook sdk ctx hook s = (r, t)) (hr : r.returned)
    (hs : Removed sdk.toSdkBase a c s) : Removed sdk.toSdkBase a c t := by
  refine performHook_keeps sdk ctx ?_ ?_ ?_ ?_ h hr hs
  · exact fun x target u hu => removed_executeUnjailing ctx x target hu
  · exact fun x opts u hu => removed_executeAddValidator ctx hfinds x opts hu
  · exact fun x opts u w hrun hu => removed_executeRemoveValidator ctx hrun hu
  · intro u hu
    obtain ⟨hstaking, hslashing⟩ := executeReconcileStakingPools_frame sdk ctx u
    exact ⟨by rw [hstaking]; exact hu.record, by rw [hstaking]; exact hu.unindexed,
      by rw [hslashing]; exact hu.tombstoned⟩

omit ctx in
/-- **Removal is permanent.** When a removal returns on a state with an exact index, the
validator is jailed, has no index entry and its signing info is tombstoned, and all of this holds
after every hook of any run of hooks that return. -/
theorem run_removed {ctx : BlockContext} {opts : Option RemoveValidatorOptions}
    {s s₁ t : AppState} {cs : List (Call (BlockContext × BlockHook) (Outcome String Unit) AppState)}
    (hs : IndexExact s) (hremove : executeRemoveValidator sdk ctx a opts s = (.ok (), s₁))
    (hrun : Run (hookStep sdk) s₁ cs t) :
    ∃ v c, s.staking.validators.lookup a = some v ∧ sdk.getConsAddr v = .ok c ∧
      Removed sdk.toSdkBase a c s₁ ∧ ∀ call ∈ cs, Removed sdk.toSdkBase a c call.after := by
  obtain ⟨v, c, hv, hcons, hremoved⟩ := removed_of_executeRemoveValidator ctx hremove hs
  have hkeep : ∀ op u r w, Removed sdk.toSdkBase a c u → hookStep sdk op u r w →
      Removed sdk.toSdkBase a c w :=
    fun op u r w hu hstep => removed_performHook op.1 hfinds hstep.1 hstep.2 hu
  refine ⟨v, c, hv, hcons, hremoved, fun call hcall => ?_⟩
  have hbefore := hrun.forall_before hremoved hkeep call hcall
  exact hkeep _ _ _ _ hbefore (hrun.step_of_mem call hcall)

end Hooks

section Sample

theorem findsSigningInfos_documented (b : SdkBase) : FindsSigningInfos b.documented :=
  fun _ _ _ _ => rfl

/-- The local network with a second validator and the first one removed. -/
def retiredState : AppState :=
  (executeRemoveValidator sampleSdk sampleBlock sampleOperator none addedState).2

/-- The same, after an attempt to unjail the removed validator. -/
def retriedState : AppState := (performHook sampleSdk sampleBlock unjailHook retiredState).2

/-- The removed validator is not unjailed again. -/
theorem run_removed_unjail :
    Removed sampleBase sampleOperator sampleConsAddress retriedState ∧
      (performHook sampleSdk sampleBlock unjailHook retiredState).1 =
        .error (.error
          "failed to unjail validator: validator still jailed; cannot be unjailed") := by
  have hadd : performHook sampleSdk sampleBlock addHook (sampleState false) =
      (.ok (), addedState) := Prod.ext (by decide +kernel) rfl
  have hexact : IndexExact addedState := indexExact_performHook sampleBlock
    (indexWrites_documented sampleBase) hadd rfl (indexExact_sampleState false)
  have hremove : executeRemoveValidator sampleSdk sampleBlock sampleOperator none addedState =
      (.ok (), retiredState) := Prod.ext (by decide +kernel) rfl
  have hunjail : (performHook sampleSdk sampleBlock unjailHook retiredState).1 =
      .error (.error
        "failed to unjail validator: validator still jailed; cannot be unjailed") := by
    decide +kernel
  have hrun : Run (hookStep sampleSdk) retiredState
      [⟨(sampleBlock, unjailHook), _, retiredState, retriedState⟩] retriedState :=
    .snoc .nil ⟨Prod.ext hunjail rfl, rfl⟩
  obtain ⟨v, c, hv, hcons, -, hremoved⟩ :=
    run_removed (findsSigningInfos_documented sampleBase) hexact hremove hrun
  have hkey : addedState.staking.validators.lookup sampleOperator =
      some (sampleValidator false) := by decide +kernel
  obtain rfl := Option.some.inj (hkey.symm.trans hv)
  have haddress : sampleBase.getConsAddr (sampleValidator false) = .ok sampleConsAddress := rfl
  obtain rfl : sampleConsAddress = c := Except.ok.inj (haddress.symm.trans hcons)
  exact ⟨hremoved _ List.mem_cons_self, hunjail⟩

end Sample

end NexusNode
