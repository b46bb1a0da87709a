import NexusNode.Evm.Finalize
import NexusNode.Evm.Prepare

/-!
# What the node asks the engine

Whichever way a call of the node ends, the calls of the engine it has made are of few kinds. A
proposal updates the forkchoice to the stored block, with the attributes of the block to build,
and asks for the payload. A finalization sends the payload of its message, and updates the
forkchoice to the block of that payload. Both take the timestamp from the header and the stored
block in the same way.

## Main definitions

* `ProposalCall`, `FinalizeCall`: the calls of the two operations
* `Sends P`: the store stayed as it was and the log grew by calls that satisfy `P`

## Main results

* `prepareProposal_calls`: the calls of a proposal
* `executionPayload_calls`: the calls of a finalization
* `executionPayload_stop_calls`: when a finalization that fails has left the forkchoice alone
-/

namespace NexusNode

open Program Proc

/-- The timestamp of the block that a header and the stored block state ask for. -/
def headerTimestamp (k : Keeper) (hdr : Header) (state : BlockState) : UInt64 :=
  calculateTimestamp k.config hdr.time hdr.height.toUInt64 state.timestamp

/-- The calls of a proposal on `state`. -/
inductive ProposalCall (k : Keeper) (hdr : Header) (state : BlockState) : EngineEvent → Prop
  | build (reply : Except RpcError ForkChoiceResponse) :
      ProposalCall k hdr state
        (.forkchoiceUpdated (buildCall k hdr hdr.height.toUInt64 state) reply)
  | get (id : PayloadID) (reply : Except RpcError ExecutionPayloadEnvelope) :
      ProposalCall k hdr state (.getPayload (getCall k hdr hdr.height.toUInt64 state id) reply)

/-- The calls of a finalization of `payload`. -/
inductive FinalizeCall (k : Keeper) (hdr : Header) (payload : ExecutableData) : EngineEvent → Prop
  | send (hashes : List Hash) (reply : Except RpcError PayloadStatusV1) :
      FinalizeCall k hdr payload (.newPayload (payloadCall k hdr payload hashes) reply)
  | head (reply : Except RpcError ForkChoiceResponse) :
      FinalizeCall k hdr payload
        (.forkchoiceUpdated ⟨forkchoiceAt payload.blockHash, none⟩ reply)

/-- The store stayed as it was, and the log grew by calls that satisfy `P` of it. -/
def Sends (P : Store → EngineEvent → Prop) (w w' : World) : Prop :=
  SameStore w w' ∧ LogsOnly (P w.store) w w'

instance (P : Store → EngineEvent → Prop) : Std.Refl (Sends P) :=
  ⟨fun w => ⟨rfl, refl_of (LogsOnly _) w⟩⟩

instance (P : Store → EngineEvent → Prop) : IsTrans World (Sends P) where
  trans u v w := by
    rintro ⟨hstore, hlog⟩ ⟨hstore', hlog'⟩
    have hsame : v.store = u.store := hstore
    rw [hsame] at hlog'
    exact ⟨Eq.trans hstore' hstore, IsTrans.trans u v w hlog hlog'⟩

theorem Sends.of_log_eq {P : Store → EngineEvent → Prop} {w w' : World} (hstore : SameStore w w')
    (hlog : w'.log = w.log) : Sends P w w' :=
  ⟨hstore, .of_log_eq hlog⟩

theorem sends_record {P : Store → EngineEvent → Prop} (w : World) {e : EngineEvent}
    (he : P w.store e) (n : ℕ) : Sends P w (w.record e n) :=
  ⟨rfl, logsOnly_record w he n⟩

theorem retryAssigning_sends {P : Store → EngineEvent → Prop} {τ : Type}
    {fn : Proc (World × τ) EvmError Bool} (hfn : Within (Order.Preimage Prod.fst (Sends P)) fn)
    (ctx : GoContext) (init : τ) (attempts : ℕ) :
    Within (Sends P) (retryAssigning ctx init fn attempts) :=
  retryAssigning_keeps (fun _ => .of_log_eq rfl rfl) hfn ctx init attempts

/-! ## Proposals -/

section Proposal

variable (k : Keeper) (eng : Engine) (hdr : Header)

/-- What a proposal that read `state` sends, as long as that is the stored state. -/
def ProposalSends (state : BlockState) (store : Store) (e : EngineEvent) : Prop :=
  store.blockState = some state → ProposalCall k hdr state e

theorem forkchoiceRound_sends (state : BlockState) :
    Within (Order.Preimage Prod.fst (Sends (ProposalSends k hdr state)))
      (forkchoiceRound k eng hdr hdr.height.toUInt64) := by
  rintro ⟨w, id₀⟩
  cases hs : w.store.blockState with
  | none =>
    rw [forkchoiceRound_of_no_state hs]
    exact refl_of (Sends _) w
  | some b =>
    have hsend (n : ℕ) (reply : Except RpcError ForkChoiceResponse) :
        Sends (ProposalSends k hdr state) w
          (w.record (.forkchoiceUpdated (buildCall k hdr hdr.height.toUInt64 b) reply) n) := by
      refine sends_record w (fun hstate => ?_) n
      obtain rfl := Option.some.inj (hs.symm.trans hstate)
      exact .build reply
    rw [forkchoiceRound_apply hs]
    dsimp only
    split
    · exact hsend _ _
    · exact hsend _ _
    · exact hsend _ _

theorem getPayloadRound_sends (state : BlockState) (id : PayloadID) :
    Within (Order.Preimage Prod.fst (Sends (ProposalSends k hdr state)))
      (getPayloadRound k eng hdr.height.toUInt64 (headerTimestamp k hdr state) id) := by
  rintro ⟨w, poll⟩
  rw [getPayloadRound_apply]
  exact sends_record w (fun _ => .get id _) _

theorem waitBuildDelay_sends {P : Store → EngineEvent → Prop} (ctx : GoContext)
    (preferDone : Bool) : Within (Sends P) (waitBuildDelay ctx preferDone) := fun w =>
  .of_log_eq (waitBuildDelay_sameStore ctx preferDone w) (waitBuildDelay_log rfl)

/-- **The calls of a proposal.** Whichever way it ends, a proposal has made calls only if the
header has a height and a block state is stored, and they are calls of that header and state. -/
theorem prepareProposal_calls (ctx : SdkContext) (attempts : ℕ) (req : RequestPrepareProposal)
    (w : World) :
    LogsOnly (fun e => 0 ≤ ctx.header.height ∧ ∃ state, w.store.blockState = some state ∧
      ProposalCall k ctx.header state e) w (prepareProposal k eng ctx attempts req w).2 := by
  rcases prepareProposal_cases k eng ctx attempts req w with hw | ⟨state, hs, hnonneg, hrun⟩
  · rw [hw]
    exact refl_of (LogsOnly _) w
  rw [hrun]
  have hsends : Within (Sends (ProposalSends k ctx.header state))
      (retryAssigning (ctx.goCtx.withTimeout w.clock prepareTimeout) (FixedBytes.ofBytes 8 [])
        (forkchoiceRound k eng ctx.header ctx.header.height.toUInt64) attempts >>=
        pollPayload k eng (ctx.goCtx.withTimeout w.clock prepareTimeout) ctx.preferDone attempts
          ctx.header.height.toUInt64 (headerTimestamp k ctx.header state)) := by
    refine .bind (retryAssigning_sends (forkchoiceRound_sends k eng _ state) _ _ _) fun id => ?_
    refine .bind (waitBuildDelay_sends _ _) fun _ => ?_
    refine .bind (retryAssigning_sends (getPayloadRound_sends k eng _ state id) _ _ _)
      fun poll => ?_
    cases poll.payloadResponse with
    | none => exact .panic _
    | some response => exact .bind (.ofOutcome _) fun _ => .pure _
  obtain ⟨-, es, hes, hP⟩ := hsends w
  exact ⟨es, hes, fun e he => ⟨hnonneg, state, hs, hP e he hs⟩⟩

end Proposal

/-! ## Finalizations -/

section Finalization

variable (k : Keeper) (eng : Engine) (ctx : SdkContext) (attempts : ℕ)

theorem newPayloadRetry_calls (payload : ExecutableData) :
    Within (LogsOnly fun e => ∃ hashes reply,
        e = .newPayload (payloadCall k ctx.header payload hashes) reply)
      (retry ctx.goCtx (newPayloadAttempt k eng ctx payload) attempts) := by
  refine retry_logsOnly (fun w => ?_) _ _
  rcases newPayloadAttempt_cases k eng ctx payload w with h | ⟨hashes, -, h⟩ <;> rw [h]
  · exact refl_of (LogsOnly _) w
  · exact logsOnly_record w ⟨hashes, _, rfl⟩ _

theorem engineRounds_calls (payload : ExecutableData) :
    Within (LogsOnly (FinalizeCall k ctx.header payload))
      (engineRounds k eng ctx attempts payload) := by
  refine Within.bind ((newPayloadRetry_calls k eng ctx attempts payload).mono ?_) fun _ =>
    retry_logsOnly ?_ _ _
  · intro w w' hlog
    refine hlog.imp fun e he => ?_
    obtain ⟨hashes, reply, rfl⟩ := he
    exact .send hashes reply
  · intro w
    rw [forkchoiceAttempt_apply]
    exact logsOnly_record w (.head _) _

/-- **The calls of a finalization.** Whichever way it ends, a finalization has made calls only
for the payload of its message, and only if that is valid on the stored state. -/
theorem executionPayload_calls (msg : MsgExecutionPayload) (w : World) :
    LogsOnly (fun e => ∃ state payload, w.store.blockState = some state ∧
      k.platform.unmarshalPayload msg.executionPayload = .ok payload ∧
      PayloadValid k ctx.header state payload ∧ FinalizeCall k ctx.header payload e) w
      (executionPayload k eng ctx attempts msg w).2 := by
  cases hcheck : checkExecutionPayload k ctx msg w.store with
  | error r =>
    rw [executionPayload_of_check_error hcheck]
    exact refl_of (LogsOnly _) w
  | ok payload =>
    obtain ⟨-, -, state, hs, hvalid⟩ := checkExecutionPayload_eq_ok_iff.mp hcheck
    obtain ⟨-, hdecode, hv⟩ := validatePayload_eq_ok_iff.mp hvalid
    obtain ⟨es, hes, hP⟩ := engineRounds_calls k eng ctx attempts payload w
    refine ⟨es, ?_, fun e he => ⟨state, payload, hs, hdecode, hv, hP e he⟩⟩
    rcases hr : engineRounds k eng ctx attempts payload w with ⟨r | u, w₁⟩ <;>
      simp only [executionPayload_eq, hcheck, hr] at hes ⊢
    · exact hes
    · exact hes

variable {k eng ctx attempts}

/-- The forkchoice loop does not stop before the context is done, unless a head is refused. -/
theorem forkchoiceRetry_ne_stop {payload : ExecutableData} {w u w' : World} {r : Stop EvmError}
    (hgrown : w.log <+: u.log) (hlive : ctx.goCtx.err w'.clock = none)
    (htaken : LogsOnly EngineEvent.TakesHead w w') (hr : r ≠ .running) :
    retry ctx.goCtx (forkchoiceAttempt eng payload) attempts u ≠ (.error r, w') := by
  intro h
  have hnext : ∀ t t', w.log <+: t.log → forkchoiceAttempt eng payload t = (.ok false, t') →
      w.log <+: t'.sleep.log := by
    intro t t' ht hf
    rw [forkchoiceAttempt_apply] at hf
    obtain ⟨-, rfl⟩ := Prod.mk.inj hf
    exact ht.trans (List.prefix_append _ _)
  obtain ⟨t, ⟨fs, hfs⟩, hlast⟩ := retry_stop_cases hnext hgrown hlive hr h
  rw [forkchoiceAttempt_apply] at hlast
  obtain ⟨hverdict, rfl⟩ := Prod.mk.inj hlast
  obtain ⟨response, hreply, hstatus⟩ := forkchoiceVerdict_eq_error hverdict
  obtain ⟨es, hes, htakes⟩ := htaken
  rw [World.record_log, hreply, ← hfs, List.append_assoc, List.append_cancel_left_eq] at hes
  have hrefused := htakes _ (hes ▸ List.mem_append_right _ List.mem_cons_self)
  exact hrefused hstatus

/-- When no head of the call was refused and the context is live at its end, a finalization that
fails has not updated the forkchoice. -/
theorem executionPayload_stop_calls {msg : MsgExecutionPayload} {w w' : World} {r : Stop EvmError}
    (hlive : ctx.goCtx.err w'.clock = none) (htaken : LogsOnly EngineEvent.TakesHead w w')
    (hr : r ≠ .running) (h : executionPayload k eng ctx attempts msg w = (.error r, w')) :
    LogsOnly (fun e => ∃ call reply, e = .newPayload call reply) w w' := by
  rw [executionPayload_eq] at h
  cases hcheck : checkExecutionPayload k ctx msg w.store with
  | error q =>
    simp only [hcheck] at h
    obtain ⟨-, rfl⟩ := Prod.mk.inj h
    exact refl_of (LogsOnly _) w
  | ok payload =>
    simp only [hcheck] at h
    rcases hrounds : engineRounds k eng ctx attempts payload w with ⟨q | u, w₁⟩ <;>
      rw [hrounds] at h
    · obtain ⟨hq, rfl⟩ := Prod.mk.inj h
      obtain rfl := Except.error.inj hq
      unfold engineRounds at hrounds
      have hcalls := newPayloadRetry_calls k eng ctx attempts payload w
      rcases bind_stop_cases hrounds with hfirst | ⟨⟨⟩, u, hfirst, hsecond⟩ <;>
        rw [hfirst] at hcalls
      · refine hcalls.imp fun e he => ?_
        obtain ⟨hashes, reply, rfl⟩ := he
        exact ⟨_, _, rfl⟩
      · obtain ⟨es, hes, -⟩ := hcalls
        exact (forkchoiceRetry_ne_stop ⟨es, hes.symm⟩ hlive htaken hr hsecond).elim
    · simp [setBlockState_apply] at h

end Finalization

end NexusNode
