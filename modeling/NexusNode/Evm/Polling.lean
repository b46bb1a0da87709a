import NexusNode.Evm.Prepare
import NexusNode.Evm.Wire
import NexusNode.Program.Streak

/-!
# Proposals along every sequence of replies

Both loops of `PrepareProposal` assign variables of the function from inside their attempts, so
what a proposal wraps depends on which of the replies came last. This module follows the replies:
a proposal wraps the last `getPayload` reply, which was for the payload id of the last forkchoice
update; a forkchoice reply that the keeper cannot use ends the proposal at once; and the streak of
unknown payloads is bounded by the counter that the other replies reset.

## Main definitions

* `forkchoiceReply`: what the client makes of a forkchoice reply
* `EngineEvent.forkchoice?`, `EngineEvent.payload?`: the forkchoice updates and the `getPayload`
  calls of a log
* `UnknownGet`: a `getPayload` call that was answered with an unknown payload
* `BuiltLast`: a payload that was built and fetched by the last replies of the calls

## Main results

* `prepareProposal_streak`: whichever way a proposal ends, the streaks of unknown payloads are
  bounded
* `prepareProposal_unusable`: a forkchoice reply that cannot be used ends the proposal
* `prepareProposal_from_last_replies`: the three together
-/

namespace NexusNode

open Program Proc

/-! ## Replies -/

/-- What `ForkchoiceUpdatedV3` of the client returns for a reply of the engine. -/
def forkchoiceReply : Except RpcError ForkChoiceResponse → Except EvmError ForkChoiceResponse
  | .ok response =>
    if response.payloadStatus.status = .accepted then .error (.unexpectedAccepted response)
    else .ok response
  | .error e => .error (.forkchoiceCall e)

/-- A reply of the client that no payload can be built from. -/
def Unusable (reply : Except RpcError ForkChoiceResponse) : Prop :=
  ∃ r, forkchoiceReply reply = .ok r ∧ (r.payloadStatus.status ≠ .valid ∨ r.payloadID = none)

/-- An unusable reply is answered with an error, and no other is. -/
theorem unusable_iff {reply : Except RpcError ForkChoiceResponse} :
    Unusable reply ↔ ∃ e, buildVerdict reply = .error (.error e) := by
  cases reply with
  | error e => simp [Unusable, forkchoiceReply, buildVerdict]
  | ok r =>
    by_cases ha : r.payloadStatus.status = .accepted
    · simp [Unusable, forkchoiceReply, buildVerdict, ha]
    · by_cases hv : r.payloadStatus.status = .valid
      · cases hid : r.payloadID <;> simp [Unusable, forkchoiceReply, buildVerdict, hv, hid]
      · simp [Unusable, forkchoiceReply, buildVerdict, ha, hv]

/-- The forkchoice updates of a log. -/
def EngineEvent.forkchoice? :
    EngineEvent → Option (ForkchoiceCall × Except RpcError ForkChoiceResponse)
  | .forkchoiceUpdated call reply => some (call, reply)
  | _ => none

/-- The `getPayload` calls of a log. -/
def EngineEvent.payload? :
    EngineEvent → Option (GetPayloadCall × Except RpcError ExecutionPayloadEnvelope)
  | .getPayload call reply => some (call, reply)
  | _ => none

/-- A `getPayload` call that was answered with an unknown payload. -/
def UnknownGet (e : EngineEvent) : Prop :=
  ∃ call err, e = .getPayload call (.error err) ∧
    isPayloadUnknown (.getPayloadCall call.version err)

/-- A forkchoice update that was answered with an unusable reply. -/
def UnusableBuild (e : EngineEvent) : Prop :=
  ∃ call reply, e = .forkchoiceUpdated call reply ∧ Unusable reply

theorem not_unknownGet_forkchoiceUpdated (call : ForkchoiceCall)
    (reply : Except RpcError ForkChoiceResponse) :
    ¬ UnknownGet (.forkchoiceUpdated call reply) := by
  rintro ⟨_, _, he, -⟩
  cases he

theorem not_unusableBuild_getPayload (call : GetPayloadCall)
    (reply : Except RpcError ExecutionPayloadEnvelope) :
    ¬ UnusableBuild (.getPayload call reply) := by
  rintro ⟨_, _, he, -⟩
  cases he

/-! ## One attempt -/

section Attempts

variable {k : Keeper} {eng : Engine} {hdr : Header} {height timestamp : UInt64} {id : PayloadID}

/-- An attempt of the first loop makes at most one call, a forkchoice update; if the reply is
unusable, it stops with an error. -/
theorem forkchoiceRound_cases {w w' : World} {id₀ : PayloadID} {o : Outcome EvmError Bool}
    (h : forkchoiceRound k eng hdr height (w, id₀) = (o, (w', id))) :
    w' = w ∨ ∃ call reply n, w' = w.record (.forkchoiceUpdated call reply) n ∧
      (Unusable reply → ∃ e, o = .error (.error e)) := by
  cases hs : w.store.blockState with
  | none =>
    rw [forkchoiceRound_of_no_state hs] at h
    exact .inl (congrArg (fun out => out.2.1) h).symm
  | some state =>
    rw [forkchoiceRound_apply hs] at h
    dsimp only at h
    refine .inr ⟨buildCall k hdr height state, eng.forkchoiceUpdated w.log
      (buildCall k hdr height state), eng.latency w.log, ?_, ?_⟩
    · split at h <;> exact (congrArg (fun out => out.2.1) h).symm
    · intro hu
      obtain ⟨e, he⟩ := unusable_iff.mp hu
      rw [he] at h
      exact ⟨e, (congrArg Prod.fst h).symm⟩

/-- An attempt of the second loop makes one call. It resets the counter or raises it by one,
and resets it unless the call was answered with an unknown payload; at the limit it stops. -/
theorem getPayloadRound_counts {w w' : World} {poll poll' : Poll} {o : Outcome EvmError Bool}
    (h : getPayloadRound k eng height timestamp id (w, poll) = (o, (w', poll'))) :
    ∃ call reply n, w' = w.record (.getPayload call reply) n ∧
      (poll'.consecutiveUnknownPayload = 0 ∧ ¬ UnknownGet (.getPayload call reply) ∨
        poll'.consecutiveUnknownPayload = poll.consecutiveUnknownPayload + 1 ∧
          (o = .ok false →
            poll.consecutiveUnknownPayload + 1 < maxConsecutiveUnknownPayloadAttempts)) := by
  rw [getPayloadRound_apply] at h
  obtain ⟨rfl, hpair⟩ := Prod.mk.inj h
  obtain ⟨rfl, rfl⟩ := Prod.mk.inj hpair
  refine ⟨_, _, _, rfl, ?_⟩
  cases eng.getPayload w.log ⟨k.chainSpec.getPayloadEngineRPCVersion timestamp, id⟩ with
  | ok envelope =>
    refine .inl ⟨rfl, ?_⟩
    rintro ⟨_, _, he, -⟩
    cases he
  | error err =>
    by_cases hu : isPayloadUnknown
      (.getPayloadCall (k.chainSpec.getPayloadEngineRPCVersion timestamp) err)
    · right
      by_cases hn : maxConsecutiveUnknownPayloadAttempts ≤ poll.consecutiveUnknownPayload + 1
      · simp [pollVerdict, hu, hn]
      · exact ⟨by simp [pollVerdict, hu, hn], fun _ => Nat.lt_of_not_le hn⟩
    · refine .inl ⟨by simp [pollVerdict, hu], ?_⟩
      rintro ⟨_, _, he, hunknown⟩
      cases he
      exact hu hunknown

end Attempts

/-! ## Streaks of unknown payloads -/

section Streaks

variable {k : Keeper} {eng : Engine} {height timestamp : UInt64} {id : PayloadID}

/-- The calls since `w₀` have no streak of unknown payloads above the limit, and at most `n` of
them at the end. -/
def PollStreak (w₀ : World) (n : ℕ) (w : World) : Prop :=
  ∃ es, w.log = w₀.log ++ es ∧
    StreakWithin UnknownGet maxConsecutiveUnknownPayloadAttempts n es

theorem pollStreak_of_logsOnly {w₀ w : World} (h : LogsOnly (fun e => ¬ UnknownGet e) w₀ w) :
    PollStreak w₀ 0 w := by
  obtain ⟨es, hes, hP⟩ := h
  exact ⟨es, hes, by simpa using StreakWithin.nil.append_of_not hP⟩

theorem PollStreak.of_log_eq {w₀ w w' : World} {n : ℕ} (h : PollStreak w₀ n w)
    (hlog : w'.log = w.log) : PollStreak w₀ n w' := by
  obtain ⟨es, hes, hstreak⟩ := h
  exact ⟨es, hlog.trans hes, hstreak⟩

theorem PollStreak.record {w₀ w : World} {n m : ℕ} {e : EngineEvent} (h : PollStreak w₀ n w)
    (hn : n < maxConsecutiveUnknownPayloadAttempts)
    (he : m = 0 ∧ ¬ UnknownGet e ∨ m = n + 1) (latency : ℕ) :
    PollStreak w₀ m (w.record e latency) := by
  obtain ⟨es, hes, hstreak⟩ := h
  refine ⟨es ++ [e], by rw [World.record_log, hes, List.append_assoc], ?_⟩
  rcases he with ⟨rfl, hnot⟩ | rfl
  · exact hstreak.concat_of_not hnot
  · exact hstreak.concat hn e

theorem forkchoiceRound_not_unknown (k : Keeper) (eng : Engine) (hdr : Header)
    (height : UInt64) :
    Within (Order.Preimage Prod.fst (LogsOnly fun e => ¬ UnknownGet e))
      (forkchoiceRound k eng hdr height) := by
  rintro ⟨w, id₀⟩
  rcases h : forkchoiceRound k eng hdr height (w, id₀) with ⟨o, w', id⟩
  show LogsOnly _ w w'
  rcases forkchoiceRound_cases h with rfl | ⟨call, reply, n, rfl, -⟩
  · exact refl_of (LogsOnly _) _
  · exact logsOnly_record w (not_unknownGet_forkchoiceUpdated call reply) n

/-- The second loop keeps the streaks within the limit. -/
theorem getPayloadLoop_streak (k : Keeper) (eng : Engine) (height timestamp : UInt64)
    (id : PayloadID) {w₀ w : World} (h : PollStreak w₀ 0 w) (goCtx : GoContext) (attempts : ℕ) :
    ∃ n, PollStreak w₀ n (retryAssigning goCtx ⟨none, 0⟩
      (getPayloadRound k eng height timestamp id) attempts w).2 := by
  -- before each attempt the counter bounds the streak at the end, and is below the limit
  let I : World × Poll → Prop := fun s => PollStreak w₀ s.2.consecutiveUnknownPayload s.1 ∧
    s.2.consecutiveUnknownPayload < maxConsecutiveUnknownPayloadAttempts
  have hround {s s' : World × Poll} {o : Outcome EvmError Bool} (hs : I s)
      (hf : getPayloadRound k eng height timestamp id s = (o, s')) :
      PollStreak w₀ s'.2.consecutiveUnknownPayload s'.1 := by
    obtain ⟨call, reply, n, hw, hc⟩ := getPayloadRound_counts hf
    rw [hw]
    exact hs.1.record hs.2 (hc.imp_right And.left) n
  have hnext (s s' : World × Poll) (hs : I s)
      (hf : getPayloadRound k eng height timestamp id s = (.ok false, s')) :
      I (s'.1.sleep, s'.2) := by
    have hstreak : PollStreak w₀ s'.2.consecutiveUnknownPayload s'.1 := hround hs hf
    refine ⟨hstreak, ?_⟩
    obtain ⟨call, reply, n, -, ⟨hc, -⟩ | ⟨hc, hlt⟩⟩ := getPayloadRound_counts hf
    · exact hc ▸ Nat.zero_lt_of_lt hs.2
    · exact hc ▸ hlt rfl
  exact retryAssigning_induct (I := I) (Q := fun _ u => ∃ n, PollStreak w₀ n u)
    (fun s hs => ⟨_, hs.1⟩) (fun s s' hs hf => ⟨_, hround hs hf⟩)
    (fun s s' _ hs hf => ⟨_, hround hs hf⟩) (fun s s' _ hs hf => ⟨_, hround hs hf⟩) hnext
    ⟨h, show 0 < maxConsecutiveUnknownPayloadAttempts by decide⟩ goCtx attempts

/-- What follows the first loop keeps the streaks within the limit. -/
theorem pollPayload_streak {w₀ w : World} (h : PollStreak w₀ 0 w) (goCtx : GoContext)
    (preferDone : Bool) (attempts : ℕ) :
    ∃ n, PollStreak w₀ n
      (pollPayload k eng goCtx preferDone attempts height timestamp id w).2 := by
  unfold pollPayload
  rcases hwait : waitBuildDelay goCtx preferDone w with ⟨r | ⟨⟩, w₁⟩
  · rw [bind_of_stop hwait]
    exact ⟨0, h.of_log_eq (waitBuildDelay_log hwait)⟩
  rw [bind_of_ok hwait]
  obtain ⟨n, hn⟩ := getPayloadLoop_streak k eng height timestamp id
    (h.of_log_eq (waitBuildDelay_log hwait)) goCtx attempts
  refine ⟨n, hn.of_log_eq (congrArg World.log (bind_snd _ ?_ w₁))⟩
  intro poll u
  cases poll.payloadResponse with
  | none => rfl
  | some response => exact bind_snd _ (fun _ _ => rfl) u

/-- **Streaks of unknown payloads.** Whichever way a proposal ends, it has made no more than
the limit of consecutive `getPayload` calls that were all answered with an unknown payload. -/
theorem prepareProposal_streak (k : Keeper) (eng : Engine) (ctx : SdkContext) (attempts : ℕ)
    (req : RequestPrepareProposal) (w : World) :
    ∃ n, PollStreak w n (prepareProposal k eng ctx attempts req w).2 := by
  rcases prepareProposal_cases k eng ctx attempts req w with hw | ⟨state, hs, hnonneg, hrun⟩
  · rw [hw]
    exact ⟨0, pollStreak_of_logsOnly (refl_of (LogsOnly _) w)⟩
  rw [hrun]
  have hfirst := pollStreak_of_logsOnly (retryAssigning_logsOnly
    (forkchoiceRound_not_unknown k eng ctx.header ctx.header.height.toUInt64)
    (ctx.goCtx.withTimeout w.clock prepareTimeout) (FixedBytes.ofBytes 8 []) attempts w)
  rcases hloop : retryAssigning (ctx.goCtx.withTimeout w.clock prepareTimeout)
    (FixedBytes.ofBytes 8 []) (forkchoiceRound k eng ctx.header ctx.header.height.toUInt64)
    attempts w with ⟨r | id, w₁⟩
  · rw [hloop] at hfirst
    rw [bind_of_stop hloop]
    exact ⟨0, hfirst⟩
  rw [hloop] at hfirst
  rw [bind_of_ok hloop]
  exact pollPayload_streak hfirst _ _ _

end Streaks

/-! ## Unusable forkchoice replies -/

section Unusable

variable (k : Keeper) (eng : Engine)

/-- The first loop ends with an error as soon as a reply is unusable. -/
theorem forkchoiceLoop_unusable (hdr : Header) (height : UInt64) (id₀ : PayloadID) (w : World)
    (goCtx : GoContext) (attempts : ℕ) :
    LogsOnly (fun e => ¬ UnusableBuild e) w
        (retryAssigning goCtx id₀ (forkchoiceRound k eng hdr height) attempts w).2 ∨
      ∃ e, (retryAssigning goCtx id₀ (forkchoiceRound k eng hdr height) attempts w).1 =
        .error (.error e) := by
  let I : World × PayloadID → Prop := fun s => LogsOnly (fun e => ¬ UnusableBuild e) w s.1
  have hround {s s' : World × PayloadID} {o : Outcome EvmError Bool} (hs : I s)
      (hf : forkchoiceRound k eng hdr height s = (o, s')) :
      I s' ∨ ∃ e, o = .error (.error e) := by
    rcases forkchoiceRound_cases hf with hw | ⟨call, reply, n, hw, hstop⟩
    · exact .inl (show LogsOnly _ w s'.1 from hw ▸ hs)
    · by_cases hu : Unusable reply
      · exact .inr (hstop hu)
      · have hevent : ¬ UnusableBuild (.forkchoiceUpdated call reply) := by
          rintro ⟨_, _, he, hu'⟩
          cases he
          exact hu hu'
        have hrec : LogsOnly (fun e => ¬ UnusableBuild e) s.1 s'.1 :=
          hw ▸ logsOnly_record s.1 hevent n
        exact .inl (IsTrans.trans w s.1 s'.1 hs hrec)
  have hok {s s' : World × PayloadID} {b : Bool} (hs : I s)
      (hf : forkchoiceRound k eng hdr height s = (.ok b, s')) : I s' := by
    rcases hround hs hf with h | ⟨e, he⟩
    · exact h
    · cases he
  refine retryAssigning_induct (I := I)
    (Q := fun o u => LogsOnly (fun e => ¬ UnusableBuild e) w u ∨ ∃ e, o = .error (.error e))
    (fun s hs => .inl hs) (fun s s' hs hf => .inl (hok hs hf)) ?_
    (fun s s' e _ _ => .inr ⟨e, rfl⟩) (fun s s' hs hf => ?_) (refl_of (LogsOnly _) w) goCtx attempts
  · intro s s' r hs hf
    rcases hround hs hf with h | ⟨e, he⟩
    · exact .inl h
    · exact .inr ⟨e, by rw [Except.error.inj he]⟩
  · have h : LogsOnly _ w s'.1 := hok hs hf
    exact h

theorem pollPayload_not_unusable (goCtx : GoContext) (preferDone : Bool) (attempts : ℕ)
    (height timestamp : UInt64) (id : PayloadID) :
    Within (LogsOnly fun e => ¬ UnusableBuild e)
      (pollPayload k eng goCtx preferDone attempts height timestamp id) := by
  refine .bind (fun w => .of_log_eq (waitBuildDelay_log rfl)) fun _ => ?_
  refine .bind (retryAssigning_logsOnly ?_ _ _ _) fun poll => ?_
  · rintro ⟨w, poll⟩
    rw [getPayloadRound_apply]
    exact logsOnly_record w (not_unusableBuild_getPayload _ _) _
  · cases poll.payloadResponse with
    | none => exact .panic _
    | some response => exact .bind (.ofOutcome _) fun _ => .pure _

/-- **Unusable replies.** A proposal that met a forkchoice reply with another status than `VALID`
or without a payload id ends with an error. -/
theorem prepareProposal_unusable (ctx : SdkContext) (attempts : ℕ) (req : RequestPrepareProposal)
    (w : World) :
    LogsOnly (fun e => ¬ UnusableBuild e) w (prepareProposal k eng ctx attempts req w).2 ∨
      ∃ e, (prepareProposal k eng ctx attempts req w).1 = .error (.error e) := by
  rcases prepareProposal_cases k eng ctx attempts req w with hw | ⟨state, hs, hnonneg, hrun⟩
  · rw [hw]
    exact .inl (refl_of (LogsOnly _) w)
  rw [hrun]
  have hfirst := forkchoiceLoop_unusable k eng ctx.header ctx.header.height.toUInt64
    (FixedBytes.ofBytes 8 []) w (ctx.goCtx.withTimeout w.clock prepareTimeout) attempts
  rcases hloop : retryAssigning (ctx.goCtx.withTimeout w.clock prepareTimeout)
    (FixedBytes.ofBytes 8 []) (forkchoiceRound k eng ctx.header ctx.header.height.toUInt64)
    attempts w with ⟨r | id, w₁⟩ <;> rw [hloop] at hfirst
  · rw [bind_of_stop hloop]
    exact hfirst.imp_right fun ⟨e, he⟩ => ⟨e, by rw [Except.error.inj he]⟩
  · rw [bind_of_ok hloop]
    rcases hfirst with hlog | ⟨e, he⟩
    · exact .inl (IsTrans.trans w w₁ _ hlog (pollPayload_not_unusable k eng _ _ _ _ _ _ w₁))
    · cases he

end Unusable

/-! ## The last replies -/

/-- The envelope was the last `getPayload` reply of the calls, for the payload id of the last
forkchoice reply, which was `VALID` for the head of `state` and the timestamp of the header. -/
structure BuiltLast (k : Keeper) (hdr : Header) (state : BlockState) (calls : List EngineEvent)
    (envelope : ExecutionPayloadEnvelope) (id : PayloadID) : Prop where
  forkchoice : ∃ call attrs r,
    (calls.filterMap EngineEvent.forkchoice?).getLast? = some (call, .ok r) ∧
    call.update.headBlockHash = state.hash ∧ call.attrs = some attrs ∧
    attrs.timestamp = calculateTimestamp k.config hdr.time hdr.height.toUInt64 state.timestamp ∧
    r.payloadStatus.status = .valid ∧ r.payloadID = some id
  payload : ∃ version,
    (calls.filterMap EngineEvent.payload?).getLast? = some (⟨version, id⟩, .ok envelope)

/-- The calls by which an envelope is obtained end with it. -/
theorem ObtainedBy.builtLast {k : Keeper} {hdr : Header} {state : BlockState}
    {envelope : ExecutionPayloadEnvelope} {calls : List EngineEvent}
    (h : ObtainedBy k hdr hdr.height.toUInt64 state envelope calls) :
    ∃ id, BuiltLast k hdr state calls envelope id := by
  obtain ⟨fs, r, id, gs, rfl, hvalid, hid, hfs, hgs⟩ := h
  have hnoPayload : fs.filterMap EngineEvent.payload? = [] := by
    rw [List.filterMap_eq_nil_iff]
    intro e he
    obtain ⟨reply, rfl, -⟩ := hfs e he
    rfl
  have hnoForkchoice : gs.filterMap EngineEvent.forkchoice? = [] := by
    rw [List.filterMap_eq_nil_iff]
    intro e he
    obtain ⟨err, rfl⟩ := hgs e he
    rfl
  refine ⟨id, ⟨buildCall k hdr hdr.height.toUInt64 state, _, r, ?_, rfl, rfl, rfl, hvalid, hid⟩,
    ⟨(getCall k hdr hdr.height.toUInt64 state id).version, ?_⟩⟩
  · rw [List.filterMap_append, List.filterMap_append, List.filterMap_append, hnoForkchoice]
    simp [List.filterMap_cons, EngineEvent.forkchoice?]
  · rw [List.filterMap_append, List.filterMap_append, List.filterMap_append, hnoPayload]
    simp [List.filterMap_cons, EngineEvent.payload?, getCall]

/-- **Proposals only hold what the engine built on the head.** Along every sequence of replies: a
response has one transaction, within the limit, that wraps the payload of the last `getPayload`
reply, which was for the payload id of the last forkchoice reply, `VALID` for the stored head and
the timestamp of the header. A forkchoice reply of the client with another status or without a
payload id ends the proposal with an error. And no more than the limit of consecutive `getPayload`
calls were all answered with an unknown payload. -/
theorem prepareProposal_from_last_replies (k : Keeper) (eng : Engine) (ctx : SdkContext)
    (attempts : ℕ) (req : RequestPrepareProposal) (w : World) (state : BlockState)
    (hs : w.store.blockState = some state) (hh : req.height ≠ 1) :
    ∃ calls, (prepareProposal k eng ctx attempts req w).2.log = w.log ++ calls ∧
      (∀ txs, (prepareProposal k eng ctx attempts req w).1 = .ok txs →
        ∃ envelope id raw, BuiltLast k ctx.header state calls envelope id ∧
          Wraps k.platform envelope.executionPayload raw ∧ raw.length ≤ maxTxSize ∧
          txs = [raw]) ∧
      (∀ call reply r, .forkchoiceUpdated call reply ∈ calls → forkchoiceReply reply = .ok r →
        (r.payloadStatus.status ≠ .valid ∨ r.payloadID = none) →
        ∃ e, (prepareProposal k eng ctx attempts req w).1 = .error (.error e)) ∧
      ∀ streak, streak <:+: calls → (∀ e ∈ streak, UnknownGet e) →
        streak.length ≤ maxConsecutiveUnknownPayloadAttempts := by
  obtain ⟨n, calls, hcalls, hstreak⟩ := prepareProposal_streak k eng ctx attempts req w
  refine ⟨calls, hcalls, ?_, ?_, hstreak.anywhere⟩
  · intro txs htxs
    obtain ⟨state', envelope, calls', raw, hs', -, hobtained, hcalls', htx, rfl⟩ :=
      prepareProposal_ok hh (Prod.ext htxs rfl)
    obtain rfl := Option.some.inj (hs.symm.trans hs')
    obtain rfl := List.append_cancel_left (hcalls.symm.trans hcalls')
    obtain ⟨id, hbuilt⟩ := hobtained.builtLast
    obtain ⟨hwraps, hlen⟩ := payloadTx_eq_ok_iff.mp htx
    exact ⟨envelope, id, raw, hbuilt, hwraps, hlen, rfl⟩
  · intro call reply r hmem hreply hbad
    rcases prepareProposal_unusable k eng ctx attempts req w with ⟨calls', hcalls', hP⟩ | he
    · obtain rfl := List.append_cancel_left (hcalls.symm.trans hcalls')
      exact absurd ⟨call, reply, rfl, r, hreply, hbad⟩ (hP _ hmem)
    · exact he

section Sample

open Wire

/-- An engine that has a payload on the second request, after an unknown payload. -/
def lateEngine (envelope : ExecutionPayloadEnvelope) : Engine where
  newPayload _ _ := .ok ⟨.valid, none, none⟩
  forkchoiceUpdated _ _ := .ok ⟨⟨.valid, none, none⟩, some (FixedBytes.ofBytes 8 [1])⟩
  getPayload log _ := if log.length < 2 then .error ⟨"Unknown payload", ""⟩ else .ok envelope
  latency _ := 1

/-- A proposal that meets an unknown payload first wraps the payload of the second reply. -/
theorem prepareProposal_from_last_replies_late :
    let k := sampleKeeper defaultConfig cancunSpec (samplePayload []) []
    ∃ w envelope id raw,
      prepareProposal k (lateEngine ⟨samplePayload [], []⟩) (sampleCtx .prepareProposal) 2 ⟨2, []⟩
        sampleWorld = (.ok [raw], w) ∧
      w.log.length = 3 ∧
      BuiltLast k (sampleCtx .prepareProposal).header ⟨hexToHash "0x01", 0, 0⟩ w.log envelope id ∧
      Wraps k.platform envelope.executionPayload raw ∧ raw.length ≤ maxTxSize := by
  intro k
  have hrun : ((prepareProposal k (lateEngine ⟨samplePayload [], []⟩) (sampleCtx .prepareProposal)
      2 ⟨2, []⟩ sampleWorld).map id fun w => w.log.length) =
      (.ok [encodePayloadTx (payloadMsg (samplePayload []))], 3) := by decide +kernel
  obtain ⟨calls, hcalls, hok, -, -⟩ := prepareProposal_from_last_replies k
    (lateEngine ⟨samplePayload [], []⟩) (sampleCtx .prepareProposal) 2 ⟨2, []⟩ sampleWorld
    ⟨hexToHash "0x01", 0, 0⟩ rfl (by decide)
  generalize prepareProposal k (lateEngine ⟨samplePayload [], []⟩) (sampleCtx .prepareProposal)
    2 ⟨2, []⟩ sampleWorld = out at hrun hcalls hok ⊢
  obtain ⟨o, w⟩ := out
  obtain ⟨ho, hlength⟩ := Prod.mk.inj hrun
  obtain ⟨envelope, id, raw, hbuilt, hwraps, hlen, htxs⟩ := hok _ ho
  obtain rfl : w.log = calls := hcalls
  exact ⟨w, envelope, id, raw, by rw [show o = _ from ho, htxs], hlength, hbuilt, hwraps, hlen⟩

end Sample

end NexusNode
