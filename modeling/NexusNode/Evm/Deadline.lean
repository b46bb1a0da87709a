import NexusNode.Evm.Retrying

/-!
# The deadline of a proposal

`PrepareProposal` runs its two retry loops under one deadline. The loops look at it between two
attempts only, so the handler may return late: by the pause that the deadline falls into, and by
the engine call after that pause. The pauses also bound the number of calls.

## Main definitions

* `Engine.AnswersWithin`: no call of the engine takes longer

## Main results

* `prepareProposal_within_deadline`: when the handler returns, and how many calls it has made
-/

namespace NexusNode

open Program Proc

/-- No call of the engine takes longer than so many milliseconds. -/
def Engine.AnswersWithin (eng : Engine) (latency : ℕ) : Prop := ∀ log, eng.latency log ≤ latency

/-- One call of the engine, or none. -/
structure OneCall (latency : ℕ) (w w' : World) : Prop where
  advances : w.clock ≤ w'.clock
  within : w'.clock ≤ w.clock + latency
  once : w'.log.length ≤ w.log.length + 1

section Rounds

variable {k : Keeper} {eng : Engine} {latency : ℕ} (heng : eng.AnswersWithin latency)

theorem OneCall.none (latency : ℕ) (w : World) : OneCall latency w w :=
  ⟨Nat.le_refl _, Nat.le_add_right _ _, Nat.le_succ _⟩

include heng

theorem oneCall_record (w : World) (e : EngineEvent) :
    OneCall latency w (w.record e (eng.latency w.log)) where
  advances := Nat.le_add_right _ _
  within := Nat.add_le_add_left (heng w.log) _
  once := by rw [World.record_log, List.length_append, List.length_singleton]

theorem forkchoiceRound_oneCall (hdr : Header) (height : UInt64) (s : World × PayloadID) :
    OneCall latency s.1 (forkchoiceRound k eng hdr height s).2.1 := by
  obtain ⟨w, id₀⟩ := s
  cases hs : w.store.blockState with
  | none =>
    rw [forkchoiceRound_of_no_state hs]
    exact .none latency w
  | some state =>
    rw [forkchoiceRound_apply hs]
    dsimp only
    split <;> exact oneCall_record heng w _

theorem getPayloadRound_oneCall (height timestamp : UInt64) (id : PayloadID) (s : World × Poll) :
    OneCall latency s.1 (getPayloadRound k eng height timestamp id s).2.1 := by
  obtain ⟨w, poll⟩ := s
  rw [getPayloadRound_apply]
  exact oneCall_record heng w _

end Rounds

/-- The pace of a retry loop between `w` and `w'`: its last attempt is made at the time `c`. -/
structure Paced (latency deadline : ℕ) (w w' : World) (c : ℕ) : Prop where
  after : w.clock ≤ c
  early : c = w.clock ∨ c < deadline + retryDelay
  advances : c ≤ w'.clock
  within : w'.clock ≤ c + latency
  calls : retryDelay * w'.log.length + w.clock ≤ retryDelay * w.log.length + retryDelay + c

theorem retryAssigning_paced {τ : Type} {fn : Proc (World × τ) EvmError Bool} {latency : ℕ}
    (hfn : ∀ s, OneCall latency s.1 (fn s).2.1) {goCtx : GoContext} {deadline : ℕ}
    (hdone : (goCtx.err deadline).isSome) (init : τ) (attempts : ℕ) (w : World) :
    ∃ c, Paced latency deadline w (retryAssigning goCtx init fn attempts w).2 c := by
  have hlate (s : World × τ) : deadline ≤ s.1.clock →
      (goCtx.err s.1.clock).map EvmError.ctx ≠ none := GoContext.done_of_le hdone
  have hpause (s : World × τ) : s.1.sleep.clock = s.1.clock + retryDelay ∧
      s.1.sleep.log.length = s.1.log.length := ⟨rfl, rfl⟩
  obtain ⟨c, hafter, hearly, hadvances, hwithin, hcalls⟩ :=
    @retryLoop_paced (World × τ) EvmError (fun s => (goCtx.err s.1.clock).map EvmError.ctx)
      (fun s => (s.1.sleep, s.2)) fn (fun s => s.1.clock) retryDelay (fun s => s.1.log.length)
      latency deadline (fun s => ⟨(hfn s).advances, (hfn s).within⟩) (fun s => (hfn s).once)
      hpause hlate attempts (w, init)
  exact ⟨c, hafter, hearly, hadvances, hwithin, hcalls⟩

/-! ## The wait between the loops -/

section Wait

variable {goCtx : GoContext} {preferDone : Bool} {deadline : ℕ} {w w' : World}

/-- The wait ends at the first time at which the context is done, or after `buildDelay`. -/
theorem waitBuildDelay_cases (goCtx : GoContext) (preferDone : Bool) (w : World) :
    ∃ d ≤ buildDelay, (∀ d' < d, ¬ (goCtx.err (w.clock + d')).isSome) ∧
      (waitBuildDelay goCtx preferDone w).2 = { w with clock := w.clock + d } ∧
      ((waitBuildDelay goCtx preferDone w).1 = .ok () → d = buildDelay) := by
  unfold waitBuildDelay
  dsimp only
  split
  · next d hd =>
    obtain ⟨-, hmem, hbefore⟩ := List.find?_range_eq_some.mp hd
    have hle : d ≤ buildDelay := Nat.le_of_lt_succ (List.mem_range.mp hmem)
    have hlive : ∀ d' < d, ¬ (goCtx.err (w.clock + d')).isSome := fun d' hd' => by
      simpa using hbefore d' hd'
    split_ifs with hfirst
    · exact ⟨d, hle, hlive, rfl, fun h => by cases h⟩
    · -- the timer and the context are ready at once, and the timer is chosen
      obtain rfl : d = buildDelay := Nat.le_antisymm hle (Nat.le_of_not_lt fun h => hfirst (.inl h))
      exact ⟨_, Nat.le_refl _, hlive, rfl, fun _ => rfl⟩
  · next hnone =>
    refine ⟨buildDelay, Nat.le_refl _, fun d hd => ?_, rfl, fun _ => rfl⟩
    exact List.find?_eq_none.mp hnone d (List.mem_range.mpr (Nat.lt_succ_of_lt hd))

/-- The wait is over by the deadline, if that was not missed before. -/
theorem waitBuildDelay_within (hdone : (goCtx.err deadline).isSome) :
    (waitBuildDelay goCtx preferDone w).2.log = w.log ∧
      (waitBuildDelay goCtx preferDone w).2.clock ≤ max w.clock deadline ∧
      ((waitBuildDelay goCtx preferDone w).1 = .ok () →
        (waitBuildDelay goCtx preferDone w).2.clock = w.clock + buildDelay ∧
          (waitBuildDelay goCtx preferDone w).2.clock ≤ deadline) := by
  obtain ⟨d, hle, hlive, hend, hok⟩ := waitBuildDelay_cases goCtx preferDone w
  have hbefore : ∀ d' < d, w.clock + d' < deadline := fun d' hd' => by
    by_contra hlate
    exact hlive d' hd' (goCtx.stays_done (Nat.le_of_not_lt hlate) hdone)
  have hclock : d = 0 ∨ w.clock + d ≤ deadline := by
    rcases Nat.eq_zero_or_pos d with hzero | hpos
    · exact .inl hzero
    · have := hbefore (d - 1) (by omega)
      omega
  rw [hend]
  refine ⟨rfl, by dsimp only; omega, fun h => ?_⟩
  obtain rfl := hok h
  have hpos : buildDelay ≠ 0 := by decide
  exact ⟨rfl, hclock.resolve_left hpos⟩

end Wait

/-! ## The handler -/

section Handler

variable {k : Keeper} {eng : Engine} {latency : ℕ} (heng : eng.AnswersWithin latency)

include heng

/-- The part after the first loop: the wait, and unless that was stopped, the second loop. -/
theorem pollPayload_cases {goCtx : GoContext} {deadline : ℕ}
    (hdone : (goCtx.err deadline).isSome) (preferDone : Bool) (attempts : ℕ)
    (height timestamp : UInt64) (id : PayloadID) (w : World) :
    let w' := (pollPayload k eng goCtx preferDone attempts height timestamp id w).2
    (w'.log = w.log ∧ w'.clock ≤ max w.clock deadline) ∨
      ∃ u c, u.log = w.log ∧ u.clock = w.clock + buildDelay ∧ u.clock ≤ deadline ∧
        Paced latency deadline u w' c := by
  intro w'
  obtain ⟨hlog, hclock, hok⟩ := @waitBuildDelay_within goCtx preferDone deadline w hdone
  rcases hwait : waitBuildDelay goCtx preferDone w with ⟨r | ⟨⟩, u⟩
  · rw [hwait] at hlog hclock
    have hw' : w' = u := congrArg Prod.snd (bind_of_stop hwait _)
    rw [hw']
    exact .inl ⟨hlog, hclock⟩
  · rw [hwait] at hlog hok
    obtain ⟨hu, hbefore⟩ := hok rfl
    obtain ⟨c, hpaced⟩ := retryAssigning_paced (getPayloadRound_oneCall (k := k) heng height
      timestamp id) hdone ⟨none, 0⟩ attempts u
    refine .inr ⟨u, c, hlog, hu, hbefore, ?_⟩
    have hw' : w' = (retryAssigning goCtx ⟨none, 0⟩
        (getPayloadRound k eng height timestamp id) attempts u).2 := by
      refine (congrArg Prod.snd (bind_of_ok hwait _)).trans (bind_snd _ (fun poll v => ?_) u)
      cases poll.payloadResponse with
      | none => rfl
      | some response => exact bind_pure_snd _ _ v
    rw [hw']
    exact hpaced

/-- Where a proposal ends, and how many calls it made. -/
theorem prepareProposal_paced (ctx : SdkContext) (req : RequestPrepareProposal) (w : World)
    (attempts : ℕ) :
    let w' := (prepareProposal k eng ctx attempts req w).2
    w'.clock ≤ w.clock + prepareTimeout + retryDelay + latency ∧
      w'.log.length ≤ w.log.length + prepareTimeout / retryDelay + 1 := by
  intro w'
  rcases prepareProposal_cases k eng ctx attempts req w with hsame | ⟨state, -, -, heq⟩
  · have hw' : w' = w := hsame
    rw [hw', Nat.add_assoc, Nat.add_assoc, Nat.add_assoc]
    exact ⟨Nat.le_add_right _ _, Nat.le_add_right _ _⟩
  dsimp only at heq
  have hdone := GoContext.withTimeout_done ctx.goCtx w.clock prepareTimeout
  obtain ⟨c, hfirst⟩ := retryAssigning_paced (forkchoiceRound_oneCall (k := k) heng ctx.header
    ctx.header.height.toUInt64) hdone (FixedBytes.ofBytes 8 []) attempts w
  obtain ⟨hafter, hearly, hadvances, hwithin, hcalls⟩ := hfirst
  have hw' : w' = _ := congrArg Prod.snd heq
  rcases hloop : retryAssigning (ctx.goCtx.withTimeout w.clock prepareTimeout)
    (FixedBytes.ofBytes 8 []) (forkchoiceRound k eng ctx.header ctx.header.height.toUInt64)
    attempts w with ⟨r | id, u⟩
  · rw [bind_of_stop hloop] at hw'
    rw [hloop] at hadvances hwithin hcalls
    dsimp only at hadvances hwithin hcalls
    rw [hw']
    dsimp only
    unfold prepareTimeout retryDelay at *
    exact ⟨by omega, by omega⟩
  · rw [bind_of_ok hloop] at hw'
    rw [hloop] at hadvances hwithin hcalls
    dsimp only at hadvances hwithin hcalls
    obtain ⟨hlog, hclock⟩ | ⟨v, c', hlog, hv, hbefore, -, hearly', -, hwithin', hcalls'⟩ :=
      pollPayload_cases (k := k) heng hdone ctx.preferDone attempts ctx.header.height.toUInt64
        (calculateTimestamp k.config ctx.header.time ctx.header.height.toUInt64 state.timestamp)
        id u
    · rw [← hw'] at hlog hclock
      rw [hlog]
      unfold prepareTimeout retryDelay at *
      exact ⟨by omega, by omega⟩
    · rw [← hw'] at hwithin' hcalls'
      rw [hlog] at hcalls'
      unfold prepareTimeout retryDelay buildDelay at *
      exact ⟨by omega, by omega⟩

/-- **The deadline of a proposal.** With an engine whose calls take at most `latency`
milliseconds, `PrepareProposal` returns, whatever the engine replies, by its deadline, one pause
and one more call. Until then it has made at most one call for each pause that fits before the
deadline, and one more. -/
theorem prepareProposal_within_deadline (ctx : SdkContext) (req : RequestPrepareProposal)
    (w : World) (attempts : ℕ) (hn : prepareTimeout / retryDelay < attempts) :
    Halts (prepareProposal k eng ctx attempts req) w ∧
      (prepareProposal k eng ctx attempts req w).2.clock ≤
        w.clock + prepareTimeout + retryDelay + latency ∧
      (prepareProposal k eng ctx attempts req w).2.log.length ≤
        w.log.length + prepareTimeout / retryDelay + 1 := by
  refine ⟨?_, prepareProposal_paced heng ctx req w attempts⟩
  obtain ⟨n, rfl⟩ := Nat.exists_eq_add_one_of_ne_zero (Nat.ne_zero_of_lt hn)
  refine prepareProposal_halts k eng ctx req ?_ w
  unfold prepareTimeout retryDelay at *
  omega

end Handler

open Wire

theorem answersWithin_unreachableEngine : unreachableEngine.AnswersWithin 1 := fun _ =>
  Nat.le_refl 1

/-- With an engine that is not reachable, and a state to build on. -/
theorem prepareProposal_within_deadline_unreachable :
    let run := prepareProposal (sampleKeeper defaultConfig cancunSpec (samplePayload []) [])
      unreachableEngine (sampleCtx .prepareProposal) 1001 ⟨2, []⟩
    Halts run sampleWorld ∧ (run sampleWorld).2.clock ≤ 10011 ∧
      (run sampleWorld).2.log.length ≤ 1001 :=
  prepareProposal_within_deadline answersWithin_unreachableEngine (sampleCtx .prepareProposal)
    ⟨2, []⟩ sampleWorld 1001 (Nat.lt_succ_self 1000)

end NexusNode
