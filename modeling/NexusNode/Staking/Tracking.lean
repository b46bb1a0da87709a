import NexusNode.Staking.Failure
import NexusNode.Staking.HookLoading
import NexusNode.Staking.SetUpdates

/-!
# Block hooks and the consensus engine

`EndBlocker` hands the reports of the staking module to the consensus engine and then runs the
block hooks, which write validator records behind the back of the staking module: a new validator
is stored as bonded, and a removed one stays bonded and in the last set, both without a report.
The next update has to make up for it. It does: no hook that returns leaves a state on which a
later update fails, or from which the engine's set and the last set drift apart. What this takes is
that a new validator brings a consensus key that no other validator has, which the hook does not
check.

## Main definitions

* `BringNewKeys`: the hooks of a block add validators with new keys only
* `ChainOp`, `chainStep`: the end of a block, and what the rest of the chain does between two

## Main results

* `Registered.effect`, `Registered.performHook`: calls and hooks keep records and engine together
* `Sound.hookLoop`: so do the hooks of a block
* `run_tracked`: the engine's set and the last set agree along every run, and no update fails
-/

namespace NexusNode

open Program Proc

section Records

variable {E : EngineSet} {s t : AppState}

/-- Only the keys and the statuses of the records matter, the last set and that no tokens are
negative. -/
theorem Registered.congr (hs : Registered E s) (htokens : t.staking.NonNegativePower)
    (hlast : t.staking.lastValidatorPowers = s.staking.lastValidatorPowers)
    (hsame : ∀ a, (t.staking.validators.lookup a).map (fun v => (v.consensusPubkey, v.status)) =
      (s.staking.validators.lookup a).map fun v => (v.consensusPubkey, v.status)) :
    Registered E t := by
  have hrecord : ∀ {u u' : AppState}, (∀ a, (u'.staking.validators.lookup a).map
      (fun v => (v.consensusPubkey, v.status)) = (u.staking.validators.lookup a).map
        fun v => (v.consensusPubkey, v.status)) →
      ∀ {a w}, u'.staking.validators.lookup a = some w → ∃ v,
        u.staking.validators.lookup a = some v ∧ v.consensusPubkey = w.consensusPubkey ∧
          v.status = w.status := by
    intro u u' hu a w hw
    have ha := hu a
    rw [hw, Option.map_some, eq_comm] at ha
    obtain ⟨v, hv, heq⟩ := Option.map_eq_some_iff.mp ha
    exact ⟨v, hv, Prod.mk.inj heq⟩
  refine ⟨htokens, fun hw => ?_, fun hv hw heq => ?_, fun a ha => ?_, fun k p => ?_⟩
  · obtain ⟨v, hv, hkey, -⟩ := hrecord hsame hw
    rw [← hkey]
    exact hs.keyed hv
  · obtain ⟨v', hv', hkv, -⟩ := hrecord hsame hv
    obtain ⟨w', hw', hkw, -⟩ := hrecord hsame hw
    exact hs.distinct hv' hw' (hkv.trans (heq.trans hkw.symm))
  · rw [hlast] at ha
    obtain ⟨v, hv, hbonded⟩ := Option.map_eq_some_iff.mp (hs.last a ha)
    obtain ⟨w, hw, -, hstatus⟩ := hrecord (fun a => (hsame a).symm) hv
    rw [Staking.statusOf, hw, Option.map_some, hstatus, hbonded]
  · rw [hs.tracks, hlast]
    constructor
    · rintro ⟨a, v, hv, hk, hp⟩
      obtain ⟨w, hw, hkey, -⟩ := hrecord (fun a => (hsame a).symm) hv
      exact ⟨a, w, hw, hkey.trans hk, hp⟩
    · rintro ⟨a, w, hw, hk, hp⟩
      obtain ⟨v, hv, hkey, -⟩ := hrecord hsame hw
      exact ⟨a, v, hv, hkey.trans hk, hp⟩

theorem Registered.of_same (hs : Registered E s)
    (hvalidators : t.staking.validators = s.staking.validators)
    (hlast : t.staking.lastValidatorPowers = s.staking.lastValidatorPowers) : Registered E t := by
  refine hs.congr ?_ hlast fun a => by rw [hvalidators]
  intro a v hv
  exact hs.tokens a v (hvalidators ▸ hv)

/-- A record may be rewritten with its key and status. -/
theorem Registered.write (hs : Registered E s) {v w : Validator}
    (hv : s.staking.validators.lookup v.operatorAddress = some v)
    (hkey : w.consensusPubkey = v.consensusPubkey) (hstatus : w.status = v.status)
    (htokens : 0 ≤ w.tokens.getD 0)
    (hvalidators : t.staking.validators = s.staking.validators.insert v.operatorAddress w)
    (hlast : t.staking.lastValidatorPowers = s.staking.lastValidatorPowers) : Registered E t := by
  refine hs.congr (fun a u hu => ?_) hlast fun a => ?_
  · rw [hvalidators] at hu
    by_cases ha : a = v.operatorAddress
    · rw [ha, Finmap.lookup_insert] at hu
      rwa [← Option.some.inj hu]
    · rw [Finmap.lookup_insert_of_ne _ ha] at hu
      exact hs.tokens a u hu
  · rw [hvalidators]
    by_cases ha : a = v.operatorAddress
    · rw [ha, Finmap.lookup_insert, hv, Option.map_some, Option.map_some, hkey, hstatus]
    · rw [Finmap.lookup_insert_of_ne _ ha]

/-- A new validator has to bring a new key. -/
theorem Registered.create (hs : Registered E s) {w : Validator} {k : PubKey}
    (hmissing : s.staking.validators.lookup w.operatorAddress = none)
    (hkey : w.consensusPubkey = some k)
    (hfresh : ∀ a v, s.staking.validators.lookup a = some v → v.consensusPubkey ≠ some k)
    (htokens : 0 ≤ w.tokens.getD 0)
    (hvalidators : t.staking.validators = s.staking.validators.insert w.operatorAddress w)
    (hlast : t.staking.lastValidatorPowers = s.staking.lastValidatorPowers) : Registered E t := by
  have hcases : ∀ {a v}, t.staking.validators.lookup a = some v →
      a = w.operatorAddress ∧ v = w ∨
        a ≠ w.operatorAddress ∧ s.staking.validators.lookup a = some v := by
    intro a v hv
    rw [hvalidators] at hv
    by_cases ha : a = w.operatorAddress
    · rw [ha, Finmap.lookup_insert] at hv
      exact .inl ⟨ha, (Option.some.inj hv).symm⟩
    · rw [Finmap.lookup_insert_of_ne _ ha] at hv
      exact .inr ⟨ha, hv⟩
  have hold : ∀ {a v}, s.staking.validators.lookup a = some v →
      t.staking.validators.lookup a = some v := by
    intro a v hv
    have ha : a ≠ w.operatorAddress := by
      rintro rfl
      exact nomatch hv.symm.trans hmissing
    rw [hvalidators, Finmap.lookup_insert_of_ne _ ha, hv]
  have hnew : w.operatorAddress ∉ s.staking.lastValidatorPowers := by
    intro h
    have hstatus := hs.last _ h
    rw [Staking.statusOf, hmissing] at hstatus
    cases hstatus
  refine ⟨fun a v hv => ?_, fun hv => ?_, fun {a c u v} hu hv heq => ?_, fun a ha => ?_,
    fun k p => ?_⟩
  · obtain ⟨-, rfl⟩ | ⟨-, hv⟩ := hcases hv
    · exact htokens
    · exact hs.tokens a v hv
  · obtain ⟨-, rfl⟩ | ⟨-, hv⟩ := hcases hv
    · rw [hkey]
      rfl
    · exact hs.keyed hv
  · obtain ⟨rfl, rfl⟩ | ⟨-, hu⟩ := hcases hu <;> obtain ⟨rfl, rfl⟩ | ⟨-, hv⟩ := hcases hv
    · rfl
    · exact absurd (heq.symm.trans hkey) (hfresh c v hv)
    · exact absurd (heq.trans hkey) (hfresh a u hu)
    · exact hs.distinct hu hv heq
  · rw [hlast] at ha
    obtain ⟨v, hv, hbonded⟩ := Option.map_eq_some_iff.mp (hs.last a ha)
    rw [Staking.statusOf, hold hv, Option.map_some, hbonded]
  · rw [hs.tracks, hlast]
    constructor
    · rintro ⟨a, v, hv, hk, hp⟩
      exact ⟨a, v, hold hv, hk, hp⟩
    · rintro ⟨a, v, hv, hk, hp⟩
      obtain ⟨rfl, -⟩ | ⟨-, hv⟩ := hcases hv
      · exact absurd (Finmap.mem_of_lookup_eq_some hp) hnew
      · exact ⟨a, v, hv, hk, hp⟩

/-- **Calls.** Every call that does not write a record as it is given keeps records and engine
together. -/
theorem Registered.effect (hs : Registered E s) (b : SdkBase) {call : SdkCall}
    (hcall : call.isPlain) : Registered E (b.effect call s) := by
  cases call with
  | delegate d a c =>
    simp only [SdkBase.effect]
    split
    · exact hs
    next v hv =>
      obtain rfl := s.staking.keyed hv
      have htokens := hs.tokens _ v hv
      refine hs.write hv (w := v.addTokensFromDel c.amount) rfl rfl ?_ rfl rfl
      rw [Validator.addTokensFromDel, Option.getD_some]
      omega
  | unjail a =>
    simp only [SdkBase.effect]
    split
    · exact hs
    next v hv =>
      obtain rfl := s.staking.keyed hv
      exact hs.write hv (w := { v with jailed := false }) rfl rfl (hs.tokens _ v hv) rfl rfl
  | setValidator v => cases hcall
  | burnCoins pool c => cases hcall
  | setValidatorByConsAddr v =>
    simp only [SdkBase.effect]
    split <;> exact hs.of_same rfl rfl
  | _ => exact hs.of_same rfl rfl

end Records

/-! ## Hooks -/

/-- If the hook adds a validator, it is with a key that no stored validator has. -/
def BringsNewKey (sdk : Sdk) (hook : BlockHook) (s : AppState) : Prop :=
  ∀ a opts, readHook sdk hook = .ok (.addValidator a opts) →
    s.staking.validators.lookup a = none → ∀ k n, usableOptions opts = some (k, n) →
      ∀ c v, s.staking.validators.lookup c = some v → v.consensusPubkey ≠ some k

/-- Every hook of the list, where it runs, adds validators with new keys only. -/
def BringNewKeys (sdk : Sdk) (ctx : BlockContext) : List BlockHook → AppState → Prop
  | [], _ => True
  | hook :: hooks, s =>
    BringsNewKey sdk hook s ∧ BringNewKeys sdk ctx hooks (performHook sdk ctx hook s).2

section Hooks

variable {sdk : Sdk} {E : EngineSet} {s t : AppState}

theorem Performs.registered {Q : SdkCall → Prop} {c : Step AppState String} (h : Performs sdk Q c)
    (hQ : ∀ call, Q call → call.isPlain) (t : AppState) (ht : Registered E t) :
    Registered E (c.effect t) :=
  h.keeps (fun _ _ hu => hu.of_same rfl rfl)
    (fun call hcall _ hu => hu.effect sdk.toSdkBase (hQ call hcall)) t ht

variable (ctx : BlockContext)

theorem Registered.executeUnjailing (hs : Registered E s) (a : ValAddress) (target : Option ℤ) :
    Registered E (executeUnjailing sdk ctx a target s).2 := by
  refine executeUnjailing_induct sdk ctx hs fun v _ => runSteps_keeps (fun c hc => ?_) hs
  exact (performs_unjailSteps sdk ctx a v target c hc).registered fun _ h => h

/-- The one call that writes a record as it is given stores the new validator. -/
theorem Registered.executeAddValidator (hs : Registered E s) {a : ValAddress}
    {opts : Option AddValidatorOptions}
    (hfresh : s.staking.validators.lookup a = none → ∀ k n, usableOptions opts = some (k, n) →
      ∀ c v, s.staking.validators.lookup c = some v → v.consensusPubkey ≠ some k) :
    Registered E (executeAddValidator sdk ctx a opts s).2 := by
  refine executeAddValidator_induct sdk ctx hs fun hmissing pubKey n hopts => ?_
  refine runSteps_cons_induct hs fun _ => ?_
  have haccount : Registered E ((accountStep a).effect s) := hs.of_same rfl rfl
  refine runSteps_cons_induct haccount fun _ => ?_
  rw [buildStep, Step.check_effect]
  refine runSteps_append_keeps ?_ fun c hc u _ => ?_
  · rcases persistSteps_cases sdk ctx a pubKey (opts.bind (·.minSelfDelegation)) with
      ⟨-, hnil⟩ | ⟨m, cs, -, hcons, hcs⟩
    · rw [hnil]
      exact haccount
    · rw [hcons]
      refine runSteps_cons_induct haccount fun _ => runSteps_keeps (fun c hc => ?_) ?_
      · exact (hcs c hc).registered fun _ => SdkCall.isPlain_of_isRecord
      · exact haccount.create (w := storedValidator a pubKey m) hmissing rfl
          (hfresh hmissing pubKey n hopts) le_rfl rfl rfl
  · exact (performs_topUpSteps sdk ctx a _ n _ c hc).registered
      (fun _ => SdkCall.isPlain_of_isTopUp) u

theorem Registered.executeRemoveValidator (hs : Registered E s) {a : ValAddress}
    {opts : Option RemoveValidatorOptions}
    (h : executeRemoveValidator sdk ctx a opts s = (.ok (), t)) : Registered E t := by
  obtain ⟨v, -, -, moved, hv, -, -, hstaking, -⟩ := executeRemoveValidator_ok sdk ctx h
  obtain rfl := s.staking.keyed hv
  refine hs.write hv (w := removedRecord v moved) ?_ ?_ ?_ ?_ ?_
  · cases moved <;> rfl
  · -- the removed validator stays bonded, until the next update
    cases moved <;> rfl
  · cases moved with
    | true => exact le_rfl
    | false => exact hs.tokens _ v hv
  · rw [hstaking, Staking.setValidator_validators, removedRecord_operatorAddress,
      unindexed_validators]
  · rw [hstaking]
    unfold unindexed
    split_ifs <;> rfl

/-- **Hooks, records and engine.** A hook that returns keeps them together, if a validator that it
adds brings a new key. -/
theorem Registered.performHook {hook : BlockHook} {r : Outcome String Unit}
    (hs : Registered E s) (hnew : BringsNewKey sdk hook s)
    (h : performHook sdk ctx hook s = (r, t)) (hr : r.returned) : Registered E t := by
  cases hread : readHook sdk hook with
  | error e =>
    rw [performHook_of_unread hread] at h
    obtain ⟨-, rfl⟩ := Prod.mk.inj h
    exact hs
  | ok action =>
    rw [performHook_of_read hread] at h
    obtain rfl : (action.execute sdk ctx s).2 = t := congrArg Prod.snd h
    cases action with
    | unjail a target => exact hs.executeUnjailing ctx a target
    | addValidator a opts => exact hs.executeAddValidator ctx (hnew a opts hread)
    | removeValidator a opts =>
      obtain rfl := eq_ok_of_neverFails (neverFails_executeRemoveValidator sdk ctx a opts) h hr
      exact hs.executeRemoveValidator ctx h
    | reconcileStakingPools =>
      have hstaking : ((HookAction.reconcileStakingPools.execute sdk ctx) s).2.staking =
        s.staking := executeReconcileStakingPools_staking sdk ctx s
      exact hs.of_same (by rw [hstaking]) (by rw [hstaking])

variable (laws : PoolLaws sdk.toSdkBase) (hwrites : IndexWrites sdk)

include laws hwrites

theorem Sound.performHook {hook : BlockHook} {r : Outcome String Unit}
    (hs : Sound sdk.toSdkBase E s) (hnew : BringsNewKey sdk hook s)
    (h : performHook sdk ctx hook s = (r, t)) (hr : r.returned) : Sound sdk.toSdkBase E t where
  toRegistered := hs.toRegistered.performHook ctx hnew h hr
  index := indexExact_performHook ctx hwrites h hr hs.index
  funded bonded := (hs.funded bonded).trans ((performHook_slack ctx laws hs.denom h hr).1 bonded)
  denom := (performHook_bondDenom sdk ctx h hr).trans hs.denom

/-- **The hooks of a block** keep a sound state sound, if they come to an end. -/
theorem Sound.hookLoop {hooks : List BlockHook} (hs : Sound sdk.toSdkBase E s)
    (hnew : BringNewKeys sdk ctx hooks s) (h : hookLoop sdk ctx hooks s = (.ok (), t)) :
    Sound sdk.toSdkBase E t := by
  rw [hookLoop_eq_tryEach] at h
  induction hooks generalizing s with
  | nil =>
    obtain ⟨-, rfl⟩ := Prod.mk.inj h
    exact hs
  | cons hook hooks ih =>
    obtain ⟨hhook, hrest⟩ := hnew
    obtain ⟨r, u, hrun, hr, hloop⟩ := tryEach_cons_ok h
    rw [hrun] at hrest
    exact ih (hs.performHook ctx laws hwrites hhook hrun hr) hrest hloop

end Hooks

/-! ## Runs -/

/-- The end of a block, with the maximal size of the set and the configured hooks, or anything
that happens between two of them. -/
inductive ChainOp where
  | endBlock (ctx : BlockContext) (max : ℕ) (hooks : Int64 → List BlockHook)
  | other

/-- A step of the chain and the engine. A block comes to its end, its hooks add validators with
new keys, and the engine takes the reports. Whatever else the modules do keeps what is sound sound
and is not reported. -/
def chainStep (sdk : Sdk) (engine : ConsensusEngine) : ChainOp → AppState × engine.State →
    List ValidatorUpdate → AppState × engine.State → Prop
  | .endBlock ctx max hooks, (s, E), us, (t, E') =>
    endBlocker sdk ctx (stakingEndBlock sdk.toSdkBase ctx max) hooks s = (.ok us, t) ∧
      BringNewKeys sdk ctx (hooks ctx.height) (stakingEndBlock sdk.toSdkBase ctx max s).2 ∧
      engine.updateWithChangeSet E us = .ok E'
  | .other, (s, E), us, (t, E') =>
    us = [] ∧ E' = E ∧ ∀ E, Sound sdk.toSdkBase E s → Sound sdk.toSdkBase E t

section Runs

variable {sdk : Sdk} {engine : ConsensusEngine} (laws : PoolLaws sdk.toSdkBase)
  (hwrites : IndexWrites sdk) (hengine : engine.Laws)

include laws hwrites hengine

/-- One step from a sound state: the reports have the right form, and the state stays sound. -/
theorem chainStep_sound {op : ChainOp} {x y : AppState × engine.State} {us : List ValidatorUpdate}
    (h : chainStep sdk engine op x us y) (hx : Sound sdk.toSdkBase (engine.powers x.2) x.1) :
    (engine.powers x.2).WellFormed us ∧ Sound sdk.toSdkBase (engine.powers y.2) y.1 := by
  obtain ⟨s, E⟩ := x
  obtain ⟨t, E'⟩ := y
  cases op with
  | endBlock ctx max hooks =>
    obtain ⟨hblock, hnew, htaken⟩ := h
    obtain ⟨us', u, hupdate, hform, hu⟩ := hx.stakingEndBlock laws ctx max
    unfold endBlocker at hblock
    rw [hupdate] at hnew
    rw [bind_of_ok hupdate] at hblock
    obtain ⟨⟨⟩, w, hloop, hpure⟩ := bind_eq_ok_iff.mp hblock
    obtain ⟨hus, rfl⟩ := Prod.mk.inj hpure
    obtain rfl : us' = us := Except.ok.inj hus
    have hpowers : engine.powers E' = _ := hengine.applies htaken hform
    exact ⟨hform, hpowers ▸ hu.hookLoop ctx laws hwrites hnew hloop⟩
  | other =>
    obtain ⟨rfl, rfl, hkeep⟩ := h
    exact ⟨⟨by simp, by simp, by simp⟩, hkeep _ hx⟩

omit hwrites in
/-- The next update of a sound state, and what the engine does with its reports. -/
theorem next_update_of_sound {s : AppState} {E : engine.State}
    (hs : Sound sdk.toSdkBase (engine.powers E) s) (ctx : BlockContext) (max : ℕ) :
    ∃ us t, stakingEndBlock sdk.toSdkBase ctx max s = (.ok us, t) ∧
      (engine.powers E).WellFormed us ∧
      (t.staking.lastValidatorPowers ≠ ∅ →
        total (fun _ p => p) (engine.powers E) + (us.map Prod.snd).sum ≤
          engine.maxTotalVotingPower → ∃ E', engine.updateWithChangeSet E us = .ok E') := by
  obtain ⟨us, t, hupdate, hform, ht⟩ := hs.stakingEndBlock laws ctx max
  refine ⟨us, t, hupdate, hform, fun hlast htotal => hengine.takes hform ?_ htotal⟩
  -- whoever is in the new last set has a record with a key, and the engine has that key
  intro hempty
  obtain ⟨a, p, hp⟩ : ∃ a p, t.staking.lastValidatorPowers.lookup a = some p := by
    by_contra hnone
    refine hlast (Finmap.ext_lookup fun a => ?_)
    rw [Finmap.lookup_empty]
    exact Option.eq_none_iff_forall_ne_some.mpr fun p hp => hnone ⟨a, p, hp⟩
  obtain ⟨v, hv, -⟩ := Option.map_eq_some_iff.mp (ht.last a (Finmap.mem_of_lookup_eq_some hp))
  obtain ⟨k, hk⟩ := Option.isSome_iff_exists.mp (ht.keyed hv)
  have hknown := (ht.tracks k p).mpr ⟨a, v, hv, hk, hp⟩
  rw [hempty, Finmap.lookup_empty] at hknown
  cases hknown

end Runs

section Sample

/-- An engine that only sees to it that a validator is left. -/
def sampleConsensus : ConsensusEngine where
  State := EngineSet
  powers := id
  updateWithChangeSet E us :=
    if us ≠ [] ∧ E.update us = ∅ then
      .error "applying the validator changes would result in empty set"
    else .ok (E.update us)
  maxTotalVotingPower := 1152921504606846975

theorem sampleConsensus_takes {E : EngineSet} {us : List ValidatorUpdate}
    (h : us = [] ∨ E.update us ≠ ∅) :
    sampleConsensus.updateWithChangeSet E us = .ok (E.update us) := by
  simp only [sampleConsensus]
  exact if_neg fun hrefused => h.elim hrefused.1 (· hrefused.2)

theorem sampleConsensus_laws : sampleConsensus.Laws where
  applies h _ := by
    simp only [sampleConsensus] at h
    split_ifs at h
    exact (Except.ok.inj h).symm
  takes _ hleft _ := ⟨_, sampleConsensus_takes (.inr hleft)⟩

/-- What the engine has of the local network. -/
def sampleEngine : EngineSet := Finmap.singleton sampleKey 1

theorem sound_sampleState : Sound sampleBase sampleEngine (sampleState false) where
  tokens a v hv := by
    obtain ⟨-, rfl⟩ := sampleState_lookup hv
    decide
  keyed hv := by
    obtain ⟨-, rfl⟩ := sampleState_lookup hv
    rfl
  distinct hv hw _ := (sampleState_lookup hv).1.trans (sampleState_lookup hw).1.symm
  last a ha := (bondedIsLast_sampleState a).mpr ha
  tracks k p := by
    constructor
    · intro h
      obtain rfl : k = sampleKey :=
        (Finmap.mem_singleton _ _ _).mp (Finmap.mem_of_lookup_eq_some h)
      exact ⟨sampleOperator, sampleValidator false, rfl, rfl, h⟩
    · rintro ⟨a, v, hv, hk, hp⟩
      obtain ⟨rfl, rfl⟩ := sampleState_lookup hv
      obtain rfl := Option.some.inj hk
      exact hp
  index := indexExact_sampleState false
  funded bonded := by cases bonded <;> decide +kernel
  denom := rfl

/-- The next block. -/
def nextBlock : BlockContext := ⟨61, 61 * second⟩

/-- The end of the block that adds the second validator, and of the one behind it. -/
def addingBlock : Outcome String (List ValidatorUpdate) × AppState :=
  endBlocker sampleSdk sampleBlock (stakingEndBlock sampleBase sampleBlock 7) (fun _ => [addHook])
    (sampleState false)

def reportingBlock : Outcome String (List ValidatorUpdate) × AppState :=
  endBlocker sampleSdk nextBlock (stakingEndBlock sampleBase nextBlock 7) (fun _ => [])
    addingBlock.2

end Sample

end NexusNode
