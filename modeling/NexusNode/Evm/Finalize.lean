import NexusNode.Evm.Wire

/-!
# Finalizing a payload

What becomes of a payload that passed the checks depends on the engine only through the
number of attempts: as long as the engine does not refuse the block, the retry loops end with
the payload recorded, or do not end. An attempt that fails before it reaches the engine is
repeated like one that did not get through to it, so a payload that cannot be sent keeps the
loop running until the context is done.

## Main definitions

* `Engine.Lenient`, `Engine.AlwaysValid`: engines that refuse nothing, and that take everything
* `blobLimit`: the number of blobs the execution client allows in one block

## Main results

* `engineRounds_of_lenient`: the rounds with an engine that refuses nothing
* `engineRounds_of_taken`: the rounds with an engine that takes the block at once
* `executionPayload_exists_ok_iff`: with an engine that takes everything, success is
  sendability
* `executionPayload_running`: a payload that cannot be sent is retried for ever
* `executionPayload_logsOnly`: the calls a finalization makes
* `sendPayload_within_blobLimit_iff`: the fixed cap against the limit of the active fork
* `executionPayload_two_runs`: the result does not depend on the engine connection
-/

namespace NexusNode

open Program Proc

/-! ## Engines that do not refuse -/

/-- Every reply of the engine is a transport error or leaves the block standing. -/
structure Engine.Lenient (eng : Engine) : Prop where
  newPayload : ∀ log call r, eng.newPayload log call = .ok r →
    r.status = .valid ∨ r.status = .syncing
  forkchoiceUpdated : ∀ log call r, eng.forkchoiceUpdated log call = .ok r →
    r.payloadStatus.status ≠ .invalid

/-- The engine never answers `INVALID` to a forkchoice update. -/
def Engine.TakesHeads (eng : Engine) : Prop :=
  ∀ log call r, eng.forkchoiceUpdated log call = .ok r → r.payloadStatus.status ≠ .invalid

/-- The call is not a forkchoice update that was answered `INVALID`. -/
def EngineEvent.TakesHead : EngineEvent → Prop
  | .forkchoiceUpdated _ (.ok r) => r.payloadStatus.status ≠ .invalid
  | _ => True

/-- The engine answers `VALID` to every `newPayload` and `forkchoiceUpdated` call. -/
structure Engine.AlwaysValid (eng : Engine) : Prop where
  newPayload : ∀ log call, ∃ r, eng.newPayload log call = .ok r ∧ r.status = .valid
  forkchoiceUpdated : ∀ log call, ∃ r, eng.forkchoiceUpdated log call = .ok r ∧
    r.payloadStatus.status = .valid

section Rounds

variable {k : Keeper} {eng : Engine} {ctx : SdkContext} {payload : ExecutableData}

theorem newPayloadVerdict_of_lenient (heng : eng.Lenient) (log : List EngineEvent)
    (call : NewPayloadCall) : ∃ b, newPayloadVerdict (eng.newPayload log call) = .ok b := by
  cases h : eng.newPayload log call with
  | error e => exact ⟨false, rfl⟩
  | ok r =>
    refine ⟨true, if_neg ?_⟩
    rintro ⟨hv, hs⟩
    rcases heng.newPayload log call r h with hr | hr
    · exact hv hr
    · exact hs hr

theorem forkchoiceVerdict_of_takesHeads (heng : eng.TakesHeads) (log : List EngineEvent)
    (call : ForkchoiceCall) : ∃ b, forkchoiceVerdict (eng.forkchoiceUpdated log call) = .ok b := by
  cases h : eng.forkchoiceUpdated log call with
  | error e => exact ⟨false, rfl⟩
  | ok r =>
    have hr := heng log call r h
    by_cases ha : r.payloadStatus.status = .accepted
    · exact ⟨false, by simp [forkchoiceVerdict, ha]⟩
    · exact ⟨true, by simp [forkchoiceVerdict, ha, hr]⟩

/-- With a lenient engine an attempt answers, whether or not it reaches the engine. -/
theorem newPayloadAttempt_of_lenient (heng : eng.Lenient) (w : World) (r : Stop EvmError)
    (w' : World) : newPayloadAttempt k eng ctx payload w ≠ (.error r, w') := by
  rcases newPayloadAttempt_cases k eng ctx payload w with h | ⟨hashes, -, h⟩
  · simp [h]
  · obtain ⟨b, hb⟩ :=
      newPayloadVerdict_of_lenient heng w.log (payloadCall k ctx.header payload hashes)
    simp [h, hb]

theorem forkchoiceAttempt_of_takesHeads (heng : eng.TakesHeads) (w : World) (r : Stop EvmError)
    (w' : World) : forkchoiceAttempt eng payload w ≠ (.error r, w') := by
  obtain ⟨b, hb⟩ :=
    forkchoiceVerdict_of_takesHeads heng w.log ⟨forkchoiceAt payload.blockHash, none⟩
  simp [forkchoiceAttempt_apply, hb]

/-- **The rounds with a lenient engine** end well, are still running, or found the context
done. -/
theorem engineRounds_of_lenient (heng : eng.Lenient) {attempts : ℕ} {w w' : World}
    {o : Outcome EvmError Unit} (h : engineRounds k eng ctx attempts payload w = (o, w')) :
    o = .ok () ∨ o = .error .running ∨ (ctx.goCtx.err w'.clock).isSome := by
  unfold engineRounds at h
  rcases o with r | ⟨⟩
  · refine .inr ?_
    -- the rounds stopped in one of the two loops, and the attempts of both always answer
    rcases bind_stop_cases h with h | ⟨-, u, -, h⟩
    · exact (retry_stop_of_answers (newPayloadAttempt_of_lenient heng) h).imp (congrArg _) id
    · have hheads : eng.TakesHeads := heng.forkchoiceUpdated
      exact (retry_stop_of_answers (forkchoiceAttempt_of_takesHeads hheads) h).imp (congrArg _) id
  · exact .inl rfl

/-- A payload that cannot be sent does not get through the rounds. -/
theorem engineRounds_of_not_sendable
    (h : bytesToHash ctx.header.appHash = zeroHash ∨ ¬ Sendable k.platform payload)
    (attempts : ℕ) (w : World) : (engineRounds k eng ctx attempts payload w).1 ≠ .ok () := by
  intro hok
  unfold engineRounds at hok
  have hne : ∀ s s', newPayloadAttempt k eng ctx payload s ≠ (.ok true, s') := fun s s' => by
    simp [newPayloadAttempt_of_not_sendable eng h]
  rcases hr : retry ctx.goCtx (newPayloadAttempt k eng ctx payload) attempts w with ⟨r | u, w'⟩
  · rw [bind_of_stop hr] at hok
    simp at hok
  · exact retryLoop_ne_ok _ _ hne attempts w (congrArg Prod.fst hr)

/-- A payload that the engine takes at once needs one attempt of each loop. -/
theorem engineRounds_of_taken {hashes : List Hash}
    (happ : bytesToHash ctx.header.appHash ≠ zeroHash)
    (hh : BlobHashes k.platform payload.transactions hashes)
    (hlen : hashes.length ≤ maxBlobsPerBlock) {w : World}
    {reply : Except RpcError PayloadStatusV1} {reply' : Except RpcError ForkChoiceResponse}
    (hnew : eng.newPayload w.log (payloadCall k ctx.header payload hashes) = reply)
    (htaken : newPayloadVerdict reply = .ok true)
    (hhead : eng.forkchoiceUpdated
      (w.log ++ [.newPayload (payloadCall k ctx.header payload hashes) reply])
      ⟨forkchoiceAt payload.blockHash, none⟩ = reply')
    (hset : forkchoiceVerdict reply' = .ok true) (attempts : ℕ) :
    ∃ w', engineRounds k eng ctx (attempts + 1) payload w = (.ok (), w') ∧
      w'.log = w.log ++ [.newPayload (payloadCall k ctx.header payload hashes) reply] ++
        [.forkchoiceUpdated ⟨forkchoiceAt payload.blockHash, none⟩ reply'] := by
  have h₁ : newPayloadAttempt k eng ctx payload w = (.ok true,
      w.record (.newPayload (payloadCall k ctx.header payload hashes) reply)
        (eng.latency w.log)) := by
    simp [newPayloadAttempt_of_sendable eng happ hh hlen, hnew, htaken]
  have h₂ (u : World) (hu : u.log =
      w.log ++ [.newPayload (payloadCall k ctx.header payload hashes) reply]) :
      forkchoiceAttempt eng payload u = (.ok true, u.record
        (.forkchoiceUpdated ⟨forkchoiceAt payload.blockHash, none⟩ reply')
        (eng.latency u.log)) := by
    rw [forkchoiceAttempt_apply, hu]
    dsimp only
    rw [hhead, hset]
  unfold engineRounds retry
  rw [bind_of_ok (retryLoop_of_true h₁ attempts), retryLoop_of_true (h₂ _ rfl)]
  exact ⟨_, rfl, rfl⟩

/-- With an engine that takes everything, every payload that can be sent is taken at once. -/
theorem engineRounds_of_alwaysValid (heng : eng.AlwaysValid)
    (happ : bytesToHash ctx.header.appHash ≠ zeroHash) (hs : Sendable k.platform payload)
    (attempts : ℕ) (w : World) :
    (engineRounds k eng ctx (attempts + 1) payload w).1 = .ok () := by
  obtain ⟨hashes, hh, hlen⟩ := hs
  obtain ⟨r, hr, hv⟩ := heng.newPayload w.log (payloadCall k ctx.header payload hashes)
  obtain ⟨r', hr', hv'⟩ := heng.forkchoiceUpdated
    (w.log ++ [.newPayload (payloadCall k ctx.header payload hashes) (.ok r)])
    ⟨forkchoiceAt payload.blockHash, none⟩
  obtain ⟨w', hrounds, -⟩ := engineRounds_of_taken happ hh hlen hr (by simp [newPayloadVerdict, hv])
    hr' (by simp [forkchoiceVerdict, hv']) attempts
  rw [hrounds]

end Rounds

/-! ## The blob cap -/

/-- The blobs the execution client allows in one block: 6, and 9 from Prague on. -/
def blobLimit (chainSpec : ChainSpec) (timestamp : UInt64) : ℕ :=
  if chainSpec.isPragueActive timestamp then 9 else 6

/-- `sendPayload` does not fail on the number of blobs, and calls the engine. -/
def SendsPayload (k : Keeper) (eng : Engine) (ctx : SdkContext) (payload : ExecutableData) : Prop :=
  ∀ w, (∀ got max, (sendPayload k eng ctx payload w).1 ≠ .error (.error (.tooManyBlobs got max))) ∧
    ∃ call reply, (sendPayload k eng ctx payload w).2.log = w.log ++ [.newPayload call reply]

theorem sendNewPayload_ne_tooManyBlobs (eng : Engine) (call : NewPayloadCall) (w : World)
    (got max : ℕ) : (sendNewPayload eng call w).1 ≠ .error (.error (.tooManyBlobs got max)) := by
  cases h : eng.newPayload w.log call with
  | ok r => simp [sendNewPayload_of_ok h]
  | error e => simp [sendNewPayload_of_error h]

/-- **The blob cap against the active fork.** A payload within the limit of the execution
client is sent exactly when the header has an app hash and the cap of Cancun is not exceeded,
which the limit only ensures before Prague. -/
theorem sendPayload_within_blobLimit_iff {k : Keeper} {ctx : SdkContext}
    {payload : ExecutableData} {hashes : List Hash} (eng : Engine)
    (hh : BlobHashes k.platform payload.transactions hashes)
    (hlimit : hashes.length ≤ blobLimit k.chainSpec payload.timestamp) :
    SendsPayload k eng ctx payload ↔ bytesToHash ctx.header.appHash ≠ zeroHash ∧
      (k.chainSpec.isPragueActive payload.timestamp = false ∨ hashes.length ≤ 6) := by
  constructor
  · intro hsends
    by_contra hneg
    have hns : bytesToHash ctx.header.appHash = zeroHash ∨ ¬ Sendable k.platform payload := by
      by_contra hor
      rw [not_or, not_not] at hor
      obtain ⟨happ, hashes', hh', hlen⟩ := hor
      obtain rfl := hh.unique hh'
      exact hneg ⟨happ, .inr hlen⟩
    obtain ⟨e, he⟩ := sendPayload_of_not_sendable eng hns
    obtain ⟨-, call, reply, hlog⟩ := hsends ⟨⟨none, none⟩, [], 0⟩
    simp [he] at hlog
  · rintro ⟨happ, hcap⟩ w
    have hlen : hashes.length ≤ maxBlobsPerBlock := by
      rcases hcap with hprague | hlen
      · simpa [blobLimit, hprague, maxBlobsPerBlock] using hlimit
      · exact hlen
    rw [sendPayload_of_sendable eng happ hh hlen]
    exact ⟨sendNewPayload_ne_tooManyBlobs eng _ w, _, _, sendNewPayload_log eng _ w⟩

section Blobs

open Wire

/-- The fork schedule of the embedded networks: Prague from the start. -/
def pragueSpec : ChainSpec := ⟨some 0, none, none⟩

/-- The payload of one blob transaction with `n` blobs. -/
def blobPayload (n : ℕ) : ExecutableData :=
  samplePayload [blobTxBytes (List.replicate n (hexToHash "0x01"))]

def blobKeeper (n : ℕ) : Keeper :=
  let hashes := List.replicate n (hexToHash "0x01")
  sampleKeeper defaultConfig pragueSpec (blobPayload n) [(blobTxBytes hashes, ⟨hashes⟩)]

theorem blobHashes_blobKeeper (n : ℕ) :
    BlobHashes (blobKeeper n).platform (blobPayload n).transactions
      (List.replicate n (hexToHash "0x01")) :=
  blobHashes_samplePlatform _ _ _

/-- Six blobs are sent under Prague. -/
theorem sendPayload_within_blobLimit_six :
    SendsPayload (blobKeeper 6) (validEngine ⟨blobPayload 6, []⟩) (sampleCtx .finalize)
      (blobPayload 6) :=
  (sendPayload_within_blobLimit_iff _ (blobHashes_blobKeeper 6) (by decide)).mpr
    ⟨by decide, .inr (by decide)⟩

/-- Seven blobs are within the limit of Prague, and are not sent. -/
theorem sendPayload_refuses_seven_blobs :
    pragueSpec.validate = .ok () ∧
    BlobHashes (blobKeeper 7).platform (blobPayload 7).transactions
      (List.replicate 7 (hexToHash "0x01")) ∧
    (List.replicate 7 (hexToHash "0x01")).length ≤ blobLimit pragueSpec (blobPayload 7).timestamp ∧
    (sendPayload (blobKeeper 7) (validEngine ⟨blobPayload 7, []⟩) (sampleCtx .finalize)
      (blobPayload 7) sampleWorld).1 = .error (.error (.tooManyBlobs 7 6)) ∧
    (sendPayload (blobKeeper 7) (validEngine ⟨blobPayload 7, []⟩) (sampleCtx .finalize)
      (blobPayload 7) sampleWorld).2.log.length = 0 := by
  refine ⟨by decide, blobHashes_blobKeeper 7, by decide, by decide +kernel, by decide +kernel⟩

end Blobs

/-! ## The message server -/

section Server

variable {k : Keeper} {eng : Engine} {ctx : SdkContext} {attempts : ℕ} {msg : MsgExecutionPayload}
  {payload : ExecutableData} {w w' : World}

/-- The server succeeds when the checks and the rounds do. -/
theorem executionPayload_fst_eq_ok_iff :
    (executionPayload k eng ctx attempts msg w).1 = .ok () ↔
      ∃ payload, checkExecutionPayload k ctx msg w.store = .ok payload ∧
        (engineRounds k eng ctx attempts payload w).1 = .ok () := by
  rw [executionPayload_eq]
  cases checkExecutionPayload k ctx msg w.store with
  | error r => simp
  | ok payload =>
    rcases h : engineRounds k eng ctx attempts payload w with ⟨r | u, w₁⟩ <;>
      simp [h, setBlockState_apply]

/-- A message that passes the checks is finalized when the rounds end. -/
theorem executionPayload_of_rounds {w₁ : World}
    (hcheck : checkExecutionPayload k ctx msg w.store = .ok payload)
    (hrounds : engineRounds k eng ctx attempts payload w = (.ok (), w₁)) :
    executionPayload k eng ctx attempts msg w = setBlockState payload.blockState w₁ := by
  simp only [executionPayload_eq, hcheck, hrounds]

/-- A block that the engine refuses stops the finalization at its first call. -/
theorem executionPayload_of_refused {hashes : List Hash} {reply : Except RpcError PayloadStatusV1}
    {r : Stop EvmError} (hcheck : checkExecutionPayload k ctx msg w.store = .ok payload)
    (happ : bytesToHash ctx.header.appHash ≠ zeroHash)
    (hh : BlobHashes k.platform payload.transactions hashes)
    (hlen : hashes.length ≤ maxBlobsPerBlock)
    (hnew : eng.newPayload w.log (payloadCall k ctx.header payload hashes) = reply)
    (hrefused : newPayloadVerdict reply = .error r) (attempts : ℕ) :
    executionPayload k eng ctx (attempts + 1) msg w = (.error r,
      w.record (.newPayload (payloadCall k ctx.header payload hashes) reply)
        (eng.latency w.log)) := by
  have hattempt : newPayloadAttempt k eng ctx payload w = (.error r,
      w.record (.newPayload (payloadCall k ctx.header payload hashes) reply)
        (eng.latency w.log)) := by
    simp [newPayloadAttempt_of_sendable eng happ hh hlen, hnew, hrefused]
  have hrounds : engineRounds k eng ctx (attempts + 1) payload w = (.error r,
      w.record (.newPayload (payloadCall k ctx.header payload hashes) reply)
        (eng.latency w.log)) := by
    unfold engineRounds retry
    rw [bind_of_stop (retryLoop_of_stop hattempt attempts)]
  simp only [executionPayload_eq, hcheck, hrounds]

/-- With an engine that takes everything, a message that passes the checks and whose payload can
be sent is finalized with one attempt of each loop. -/
theorem executionPayload_of_alwaysValid (heng : eng.AlwaysValid)
    (happ : bytesToHash ctx.header.appHash ≠ zeroHash)
    (hcheck : checkExecutionPayload k ctx msg w.store = .ok payload)
    (hs : Sendable k.platform payload) (attempts : ℕ) :
    (executionPayload k eng ctx (attempts + 1) msg w).1 = .ok () :=
  executionPayload_fst_eq_ok_iff.mpr
    ⟨payload, hcheck, engineRounds_of_alwaysValid heng happ hs attempts w⟩

/-- With an engine that takes everything, a message that passes the checks is finalized after
finitely many attempts exactly when its payload can be sent. -/
theorem executionPayload_exists_ok_iff (heng : eng.AlwaysValid)
    (happ : bytesToHash ctx.header.appHash ≠ zeroHash)
    (hcheck : checkExecutionPayload k ctx msg w.store = .ok payload) :
    (∃ attempts, (executionPayload k eng ctx attempts msg w).1 = .ok ()) ↔
      Sendable k.platform payload := by
  constructor
  · rintro ⟨attempts, hok⟩
    obtain ⟨q, hq, hrounds⟩ := executionPayload_fst_eq_ok_iff.mp hok
    obtain rfl := Except.ok.inj (hcheck.symm.trans hq)
    by_contra hs
    exact engineRounds_of_not_sendable (.inr hs) attempts w hrounds
  · intro hs
    exact ⟨1, executionPayload_of_alwaysValid heng happ hcheck hs 0⟩

/-- Under a context that is never done, a call whose attempts to hand over the payload all fail
has not returned. -/
theorem executionPayload_running_of_false (hbg : ∀ t, ctx.goCtx.err t = none)
    (hcheck : checkExecutionPayload k ctx msg w.store = .ok payload)
    (hfalse : ∀ u, (newPayloadAttempt k eng ctx payload u).1 = .ok false) :
    (executionPayload k eng ctx attempts msg w).1 = .error .running := by
  have hloop : (retry ctx.goCtx (newPayloadAttempt k eng ctx payload) attempts w).1 =
      .error .running := retry_running hbg hfalse attempts w
  have hrounds : (engineRounds k eng ctx attempts payload w).1 = .error .running := by
    unfold engineRounds
    rw [bind_of_stop (Prod.ext hloop rfl)]
  rcases hr : engineRounds k eng ctx attempts payload w with ⟨r | u, w₁⟩ <;> rw [hr] at hrounds
  · simpa [executionPayload_eq, hcheck, hr] using hrounds
  · simp at hrounds

/-- A payload that cannot be sent, under a context that is never done, is retried for ever. -/
theorem executionPayload_running (hbg : ∀ t, ctx.goCtx.err t = none)
    (hcheck : checkExecutionPayload k ctx msg w.store = .ok payload)
    (hns : ¬ Sendable k.platform payload) :
    (executionPayload k eng ctx attempts msg w).1 = .error .running := by
  refine executionPayload_running_of_false hbg hcheck fun u => ?_
  rw [newPayloadAttempt_of_not_sendable eng (.inr hns) u]

/-- The checks read the header, the execution mode and the block state. -/
theorem checkExecutionPayload_congr {ctx' : SdkContext} {store store' : Store}
    (hhdr : ctx'.header = ctx.header) (hmode : ctx'.execMode = ctx.execMode)
    (hstate : store'.blockState = store.blockState) :
    checkExecutionPayload k ctx' msg store' = checkExecutionPayload k ctx msg store := by
  unfold checkExecutionPayload validatePayload checkPayload
  rw [hhdr, hmode, hstate]

/-- A `newPayload` call of the rounds carries the payload, its blob hashes and the app hash. -/
def CallOf (k : Keeper) (hdr : Header) (payload : ExecutableData) (e : EngineEvent) : Prop :=
  ∀ call reply, e = .newPayload call reply →
    ∃ hashes, BlobHashes k.platform payload.transactions hashes ∧
      call = payloadCall k hdr payload hashes

theorem engineRounds_logsOnly (k : Keeper) (eng : Engine) (ctx : SdkContext) (attempts : ℕ)
    (payload : ExecutableData) :
    Within (LogsOnly (CallOf k ctx.header payload)) (engineRounds k eng ctx attempts payload) := by
  refine Within.bind (retry_logsOnly ?_ _ _) fun _ => retry_logsOnly ?_ _ _
  · intro w
    rcases newPayloadAttempt_cases k eng ctx payload w with h | ⟨hashes, hh, h⟩ <;> rw [h]
    · exact refl_of (LogsOnly _) w
    · refine logsOnly_record w (fun call reply he => ⟨hashes, hh, ?_⟩) _
      cases he
      rfl
  · intro w
    rw [forkchoiceAttempt_apply]
    exact logsOnly_record w (fun call reply he => by cases he) _

/-- **The calls of a finalization**: every `newPayload` call it makes is one of the payload its
message decodes to. -/
theorem executionPayload_logsOnly (eng : Engine) (attempts : ℕ)
    (hcheck : checkExecutionPayload k ctx msg w.store = .ok payload) :
    LogsOnly (CallOf k ctx.header payload) w (executionPayload k eng ctx attempts msg w).2 := by
  have hrounds := engineRounds_logsOnly k eng ctx attempts payload w
  rcases hr : engineRounds k eng ctx attempts payload w with ⟨r | u, w₁⟩ <;>
    simp only [executionPayload_eq, hcheck, hr] at hrounds ⊢
  · exact hrounds
  · exact hrounds

/-- A call that fails its checks returns their error, whatever the engine. -/
theorem executionPayload_of_check_error {r : Stop EvmError}
    (hcheck : checkExecutionPayload k ctx msg w.store = .error r) :
    executionPayload k eng ctx attempts msg w = (.error r, w) := by
  simp [executionPayload_eq, hcheck]

/-- **A call that returns before its context is done**, with a lenient engine and a message
that passes the checks, has recorded the payload. -/
theorem executionPayload_of_lenient {o : Outcome EvmError Unit} (heng : eng.Lenient)
    (hcheck : checkExecutionPayload k ctx msg w.store = .ok payload)
    (h : executionPayload k eng ctx attempts msg w = (o, w')) (hret : o ≠ .error .running)
    (hlive : ctx.goCtx.err w'.clock = none) :
    o = .ok () ∧ w'.store = { w.store with blockState := some payload.blockState } := by
  have heq := executionPayload_eq k eng ctx attempts msg w
  rcases hr : engineRounds k eng ctx attempts payload w with ⟨r | u, w₁⟩ <;>
    simp only [h, hcheck, hr] at heq
  · -- the rounds cannot have stopped: the call returned, and its context is not done
    obtain ⟨rfl, rfl⟩ := Prod.mk.inj heq
    rcases engineRounds_of_lenient heng hr with ho | ho | ho
    · simp at ho
    · exact absurd ho hret
    · simp [hlive] at ho
  · obtain ⟨rfl, -⟩ := Prod.mk.inj heq
    obtain ⟨q, hq, hstore⟩ := executionPayload_ok h
    obtain rfl := Except.ok.inj (hcheck.symm.trans hq)
    exact ⟨rfl, hstore⟩

end Server

/-- An engine that is always `VALID` is lenient. -/
theorem Engine.AlwaysValid.lenient {eng : Engine} (h : eng.AlwaysValid) : eng.Lenient where
  newPayload log call r hr := by
    obtain ⟨r', hr', hv⟩ := h.newPayload log call
    obtain rfl := Except.ok.inj (hr.symm.trans hr')
    exact .inl hv
  forkchoiceUpdated log call r hr := by
    obtain ⟨r', hr', hv⟩ := h.forkchoiceUpdated log call
    obtain rfl := Except.ok.inj (hr.symm.trans hr')
    simp [hv]

theorem alwaysValid_validEngine (envelope : ExecutionPayloadEnvelope) :
    (Wire.validEngine envelope).AlwaysValid :=
  ⟨fun _ _ => ⟨_, rfl, rfl⟩, fun _ _ => ⟨_, rfl, rfl⟩⟩

/-- An engine whose first call does not get through and that then is still syncing. -/
def flakyEngine : Engine where
  newPayload log _ :=
    if log = [] then .error ⟨"connection refused", ""⟩ else .ok ⟨.syncing, none, none⟩
  forkchoiceUpdated _ _ := .ok ⟨⟨.syncing, none, none⟩, none⟩
  getPayload _ _ := .error ⟨"connection refused", ""⟩
  latency _ := 3

theorem lenient_flakyEngine : flakyEngine.Lenient where
  newPayload log call r hr := by
    unfold flakyEngine at hr
    dsimp only at hr
    split_ifs at hr
    obtain rfl := Except.ok.inj hr
    exact .inr rfl
  forkchoiceUpdated log call r hr := by
    obtain rfl := Except.ok.inj hr
    simp

/-- **Finalization does not depend on the engine connection.** Two nodes with the same block
state finalize the same message under the same header, with engines that refuse nothing, and
both calls return before their contexts are done. If the message passes the checks, both
succeed and store the block of the payload; if it does not, both return the error of the
checks and store nothing. -/
theorem executionPayload_two_runs {k : Keeper} {eng₁ eng₂ : Engine} {ctx₁ ctx₂ : SdkContext}
    {attempts₁ attempts₂ : ℕ} {msg : MsgExecutionPayload} {w₁ w₂ w₁' w₂' : World}
    {o₁ o₂ : Outcome EvmError Unit} (heng₁ : eng₁.Lenient) (heng₂ : eng₂.Lenient)
    (hhdr : ctx₂.header = ctx₁.header) (hmode : ctx₂.execMode = ctx₁.execMode)
    (hstate : w₂.store.blockState = w₁.store.blockState)
    (h₁ : executionPayload k eng₁ ctx₁ attempts₁ msg w₁ = (o₁, w₁'))
    (h₂ : executionPayload k eng₂ ctx₂ attempts₂ msg w₂ = (o₂, w₂'))
    (hret₁ : o₁ ≠ .error .running) (hret₂ : o₂ ≠ .error .running)
    (hlive₁ : ctx₁.goCtx.err w₁'.clock = none) (hlive₂ : ctx₂.goCtx.err w₂'.clock = none) :
    (∀ payload, checkExecutionPayload k ctx₁ msg w₁.store = .ok payload →
      o₁ = .ok () ∧ o₂ = .ok () ∧ w₁'.store.blockState = some payload.blockState ∧
        w₂'.store.blockState = some payload.blockState) ∧
    ∀ r, checkExecutionPayload k ctx₁ msg w₁.store = .error r →
      o₁ = .error r ∧ o₂ = .error r ∧ w₁'.store = w₁.store ∧ w₂'.store = w₂.store := by
  have hcheck : checkExecutionPayload k ctx₂ msg w₂.store =
      checkExecutionPayload k ctx₁ msg w₁.store := checkExecutionPayload_congr hhdr hmode hstate
  constructor
  · intro payload hp
    obtain ⟨ho₁, hs₁⟩ := executionPayload_of_lenient heng₁ hp h₁ hret₁ hlive₁
    obtain ⟨ho₂, hs₂⟩ := executionPayload_of_lenient heng₂ (hcheck.trans hp) h₂ hret₂ hlive₂
    exact ⟨ho₁, ho₂, by rw [hs₁], by rw [hs₂]⟩
  · intro r hr
    obtain ⟨rfl, rfl⟩ := Prod.mk.inj (h₁.symm.trans (executionPayload_of_check_error hr))
    obtain ⟨rfl, rfl⟩ :=
      Prod.mk.inj (h₂.symm.trans (executionPayload_of_check_error (hcheck.trans hr)))
    exact ⟨rfl, rfl, rfl, rfl⟩

section TwoRuns

open Wire

/-- A node that reaches its engine at once and one that does not finalize the same block. -/
theorem executionPayload_two_runs_flaky :
    let k := sampleKeeper defaultConfig cancunSpec (samplePayload []) []
    let msg := payloadMsg (samplePayload [])
    let run₁ := executionPayload k (validEngine ⟨samplePayload [], []⟩) (sampleCtx .finalize) 1 msg
      sampleWorld
    let run₂ := executionPayload k flakyEngine (sampleCtx .finalize) 2 msg sampleWorld
    run₁.1 = .ok () ∧ run₂.1 = .ok () ∧
      run₁.2.store.blockState = some (samplePayload []).blockState ∧
      run₂.2.store.blockState = some (samplePayload []).blockState := by
  intro k msg run₁ run₂
  have hcheck : checkExecutionPayload k (sampleCtx .finalize) msg sampleWorld.store =
      .ok (samplePayload []) := checkExecutionPayload_samplePayload cancunSpec [] []
  have h₁ : executionPayload k (validEngine ⟨samplePayload [], []⟩) (sampleCtx .finalize) 1 msg
      sampleWorld = (run₁.1, run₁.2) := rfl
  have h₂ : executionPayload k flakyEngine (sampleCtx .finalize) 2 msg sampleWorld =
      (run₂.1, run₂.2) := rfl
  have hok₁ : run₁.1 = .ok () := executionPayload_of_alwaysValid (alwaysValid_validEngine _)
    (by decide) hcheck (sendable_of_no_transactions _ rfl) 0
  exact (executionPayload_two_runs (alwaysValid_validEngine _).lenient lenient_flakyEngine rfl rfl
    rfl h₁ h₂ (by simp [hok₁]) (by decide +kernel) rfl rfl).1 _ hcheck

/-- A message whose payload has another parent is refused by both nodes, with an engine that
takes everything and no transaction to decode. -/
theorem executionPayload_refuses_other_parent :
    let orphan := emptyPayload (hexToHash "0x05") (hexToHash "0x06") 1 1700000000 []
    let k := sampleKeeper defaultConfig cancunSpec orphan []
    k.platform.unmarshalPayload (payloadMsg orphan).executionPayload = .ok orphan ∧
      Sendable k.platform orphan ∧ (validEngine ⟨orphan, []⟩).Lenient ∧
      (sampleCtx .finalize).goCtx = .background ∧
      executionPayload k (validEngine ⟨orphan, []⟩) (sampleCtx .finalize) 1 (payloadMsg orphan)
          sampleWorld =
        (.error (.error (.parentHash (hexToHash "0x01") (hexToHash "0x05"))), sampleWorld) := by
  intro orphan k
  have hdecode := samplePlatform_unmarshalPayload orphan []
  refine ⟨hdecode, sendable_of_no_transactions orphan rfl, (alwaysValid_validEngine _).lenient,
    rfl, executionPayload_of_check_error ?_⟩
  rw [checkExecutionPayload_of_decoded rfl (jsonPayload_ne_nil orphan) rfl
    (samplePlatform_accAddressString orphan []).symm hdecode]
  decide +kernel

end TwoRuns

end NexusNode
