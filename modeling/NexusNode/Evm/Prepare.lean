import Mathlib.Data.List.Infix
import NexusNode.Evm.Keeper

/-!
# Preparing a proposal

`Keeper.PrepareProposal` asks the engine to build a block on the stored head, waits for the
build and polls for the payload, then wraps the payload as the one transaction of the
proposal. Both talks with the engine are retried, and the variables they share with the
function are assigned inside the retried closures.

## Main definitions

* `buildExecutionPayload`: the forkchoice update with payload attributes
* `forkchoiceRound`, `getPayloadRound`: one attempt of each retry loop, with the variable it
  assigns
* `prepareProposal`: the keeper's handler

## Main results

* `prepareProposal_sameStore`: preparing a proposal does not write the store
* `prepareProposal_ok`: the proposal wraps what the engine built on the stored head, and the
  log shows how it was obtained
* `prepareProposal_of_replies`: the proposal that an engine without delay leads to
-/

namespace NexusNode

open Program Proc

/-- The fields of `RequestPrepareProposal` that the handlers read. -/
structure RequestPrepareProposal where
  height : Int64
  txs : List Bytes

/-- `types.MaxTxSize` -/
def maxTxSize : ℕ := 20 * 1024 * 1024

/-- The milliseconds `PrepareProposal` may take. -/
def prepareTimeout : ℕ := 10000

/-- The milliseconds between the forkchoice update and the first `getPayload` call. -/
def buildDelay : ℕ := 100

/-- The milliseconds of polling that only met unknown payloads. -/
def maxUnknownPayloadPoll : ℕ := 5000

def maxConsecutiveUnknownPayloadAttempts : ℕ := maxUnknownPayloadPoll / retryDelay

/-! ## The attempts -/

/-- `unicode.ToLower` on the runes that can become one of the searched letters: the ASCII
capitals and the Kelvin sign. -/
def toLower (c : Char) : Char :=
  if c = Char.ofNat 0x212a then 'k' else c.toLower

/-- `isPayloadUnknown` -/
def isPayloadUnknown (e : EvmError) : Bool :=
  "unknown payload".toList <:+: e.text.toList.map toLower

/-- The attributes of the payload to build. -/
def payloadAttributes (k : Keeper) (hdr : Header) (height : UInt64) (state : BlockState) :
    PayloadAttributes where
  timestamp := calculateTimestamp k.config hdr.time height state.timestamp
  random := state.hash
  suggestedFeeRecipient := k.config.suggestedFeeRecipient
  withdrawals := []
  beaconRoot := bytesToHash hdr.appHash

/-- `buildExecutionPayload` -/
def buildExecutionPayload (k : Keeper) (eng : Engine) (hdr : Header) (height : UInt64) :
    Evm ForkChoiceResponse := do
  let state ← getBlockState
  forkchoiceUpdatedV3 eng (forkchoiceAt state.hash) (some (payloadAttributes k hdr height state))

/-- One attempt of the first loop. It assigns `payloadID`. -/
def forkchoiceRound (k : Keeper) (eng : Engine) (hdr : Header) (height : UInt64) :
    Proc (World × PayloadID) EvmError Bool := do
  match ← onFst (attempt (buildExecutionPayload k eng hdr height)) with
  -- the block state is read again in every attempt, and a failure to read it retried
  | .error _ => return false
  | .ok response =>
    if response.payloadStatus.status ≠ .valid then
      fail (.forkchoiceStatus response.payloadStatus.status)
    else
      match response.payloadID with
      | none => fail .nilPayloadID
      | some id => do
        modify fun s => (s.1, id)
        return true

/-- The variables of the second loop: the payload response, and the number of consecutive
replies that did not know the payload. -/
structure Poll where
  payloadResponse : Option ExecutionPayloadEnvelope
  consecutiveUnknownPayload : ℕ

/-- One attempt of the second loop. A failed call sets the response to nil. -/
def getPayloadRound (k : Keeper) (eng : Engine) (height timestamp : UInt64) (id : PayloadID) :
    Proc (World × Poll) EvmError Bool := do
  let reply ← onFst <| attempt <|
    if k.chainSpec.isOsakaActive timestamp then getPayloadV5 eng id
    else if k.chainSpec.isPragueActive timestamp then getPayloadV4 eng id
    else getPayloadV3 eng id
  match reply with
  | .ok response => do
    modify fun s => (s.1, ⟨some response, 0⟩)
    return true
  | .error e =>
    if isPayloadUnknown e then do
      modify fun s => (s.1, ⟨none, s.2.consecutiveUnknownPayload + 1⟩)
      -- give up on a build that the engine does not know of for too long
      let s ← get
      let n := s.2.consecutiveUnknownPayload
      if maxConsecutiveUnknownPayloadAttempts ≤ n then
        fail (.stillUnknown n height (k.chainSpec.getPayloadEngineRPCVersion timestamp) id e)
      else return false
    else do
      -- any other error ends the streak and is retried without a limit
      modify fun s => (s.1, ⟨none, 0⟩)
      return false

/-! ## The handler -/

/-- The `select` between the timer of `buildDelay` and `ctx.Done`: the first of the two, and
by `preferDone` when both are ready at once. -/
def waitBuildDelay (ctx : GoContext) (preferDone : Bool) : Evm Unit where
  run w :=
    match (List.range (buildDelay + 1)).find? fun d => (ctx.err (w.clock + d)).isSome with
    | some d =>
      if d < buildDelay ∨ preferDone then
        (.error (.error (.ctx ((ctx.err (w.clock + d)).getD .canceled))),
          { w with clock := w.clock + d })
      else (.ok (), { w with clock := w.clock + buildDelay })
    | none => (.ok (), { w with clock := w.clock + buildDelay })

/-- A third-party result inside a program. -/
def ofExt {α : Type} : Except String α → Outcome EvmError α
  | .ok a => .ok a
  | .error e => .error (.error (.ext e))

/-- The last part of `PrepareProposal`: the payload as a transaction. -/
def payloadTx (p : Platform) (payload : ExecutableData) : Outcome EvmError Bytes := do
  let payloadData ← ofExt (p.marshalPayload payload)
  let tx ← ofExt (p.buildTx (.executionPayload
    ⟨p.accAddressString p.evmModuleAddress, payloadData⟩))
  let raw ← ofExt (p.txEncoder tx)
  if maxTxSize < raw.length then .error (.error (.txTooLarge raw.length maxTxSize))
  else .ok raw

/-- `Keeper.PrepareProposal`, with at most `attempts` rounds of each retry loop. -/
def prepareProposal (k : Keeper) (eng : Engine) (ctx : SdkContext) (attempts : ℕ)
    (req : RequestPrepareProposal) : Evm (List Bytes) := do
  let start ← get
  let goCtx := ctx.goCtx.withTimeout start.clock prepareTimeout
  if req.height = 1 then return []
  else
    let height ← ofOutcome (toUint64 ctx.header.height)
    let state ← getBlockState
    let timestamp := calculateTimestamp k.config ctx.header.time height state.timestamp
    let payloadID ← retryAssigning goCtx (FixedBytes.ofBytes 8 [])
      (forkchoiceRound k eng ctx.header height) attempts
    waitBuildDelay goCtx ctx.preferDone
    let poll ← retryAssigning goCtx ⟨none, 0⟩
      (getPayloadRound k eng height timestamp payloadID) attempts
    match poll.payloadResponse with
    -- the source reads the response without testing it for nil
    | none => panic (.ext "invalid memory address or nil pointer dereference")
    | some response =>
      let tx ← ofOutcome (payloadTx k.platform response.executionPayload)
      return [tx]

/-! ## One attempt -/

section Rounds

variable {k : Keeper} {eng : Engine} {hdr : Header} {height timestamp : UInt64} {w : World}

/-- The forkchoice update that starts a build on `state`. -/
def buildCall (k : Keeper) (hdr : Header) (height : UInt64) (state : BlockState) :
    ForkchoiceCall :=
  ⟨forkchoiceAt state.hash, some (payloadAttributes k hdr height state)⟩

/-- What an attempt makes of the reply: the payload id, another attempt, or an error. -/
def buildVerdict : Except RpcError ForkChoiceResponse → Outcome EvmError (Option PayloadID)
  | .error _ => .ok none
  | .ok response =>
    if response.payloadStatus.status = .accepted then .ok none
    else if response.payloadStatus.status ≠ .valid then
      .error (.error (.forkchoiceStatus response.payloadStatus.status))
    else
      match response.payloadID with
      | none => .error (.error .nilPayloadID)
      | some id => .ok (some id)

theorem buildExecutionPayload_eq {state : BlockState} (hs : w.store.blockState = some state) :
    buildExecutionPayload k eng hdr height w =
      forkchoiceUpdatedV3 eng (forkchoiceAt state.hash)
        (some (payloadAttributes k hdr height state)) w := by
  unfold buildExecutionPayload
  rw [bind_of_ok (getBlockState_eq_ok_iff.mpr ⟨hs, rfl⟩)]

/-- The first attempt that does not fail assigns the payload id of its reply. -/
theorem forkchoiceRound_apply {state : BlockState} (hs : w.store.blockState = some state)
    (id₀ : PayloadID) :
    forkchoiceRound k eng hdr height (w, id₀) =
      let call := buildCall k hdr height state
      let reply := eng.forkchoiceUpdated w.log call
      let w' := w.record (.forkchoiceUpdated call reply) (eng.latency w.log)
      match buildVerdict reply with
      | .ok none => (.ok false, (w', id₀))
      | .ok (some id) => (.ok true, (w', id))
      | .error r => (.error r, (w', id₀)) := by
  unfold forkchoiceRound
  dsimp only
  have heq : buildExecutionPayload k eng hdr height w = _ := buildExecutionPayload_eq hs
  cases hr : eng.forkchoiceUpdated w.log (buildCall k hdr height state) with
  | error e =>
    have ha := attempt_of_error (heq.trans (forkchoiceUpdatedV3_of_error hr))
    simp [bind_apply, ha, buildVerdict, buildCall]
  | ok response =>
    by_cases hacc : response.payloadStatus.status = .accepted
    · have ha := attempt_of_error (heq.trans (forkchoiceUpdatedV3_of_accepted hr hacc))
      simp [bind_apply, ha, buildVerdict, buildCall, hacc]
    · have ha := attempt_of_ok (heq.trans (forkchoiceUpdatedV3_of_ok hr hacc))
      by_cases hv : response.payloadStatus.status = .valid
      · cases hid : response.payloadID <;>
          simp [bind_apply, ha, buildVerdict, buildCall, hv, hid]
      · simp [bind_apply, ha, buildVerdict, buildCall, hacc, hv]

/-- Without a stored state an attempt fails before it calls the engine. -/
theorem forkchoiceRound_of_no_state (hs : w.store.blockState = none) (id₀ : PayloadID) :
    forkchoiceRound k eng hdr height (w, id₀) = (.ok false, (w, id₀)) := by
  have hbuild := bind_of_stop (getBlockState_of_none hs) fun b : BlockState =>
    forkchoiceUpdatedV3 eng (forkchoiceAt b.hash) (some (payloadAttributes k hdr height b))
  unfold forkchoiceRound
  simp [bind_apply, attempt_of_error (p := buildExecutionPayload k eng hdr height) hbuild]

/-- The poll after a reply: the payload, another attempt, or the end of an unknown streak. -/
def pollVerdict (k : Keeper) (height timestamp : UInt64) (id : PayloadID) (poll : Poll) :
    Except RpcError ExecutionPayloadEnvelope → Outcome EvmError Bool × Poll
  | .ok response => (.ok true, ⟨some response, 0⟩)
  | .error e =>
    let version := k.chainSpec.getPayloadEngineRPCVersion timestamp
    let err := EvmError.getPayloadCall version e
    if isPayloadUnknown err then
      let n := poll.consecutiveUnknownPayload + 1
      if maxConsecutiveUnknownPayloadAttempts ≤ n then
        (.error (.error (.stillUnknown n height version id err)), ⟨none, n⟩)
      else (.ok false, ⟨none, n⟩)
    else (.ok false, ⟨none, 0⟩)

/-- The branches of the second loop call the version of the timestamp. -/
theorem getPayload_of_version (k : Keeper) (eng : Engine) (timestamp : UInt64) (id : PayloadID) :
    (if k.chainSpec.isOsakaActive timestamp then getPayloadV5 eng id
      else if k.chainSpec.isPragueActive timestamp then getPayloadV4 eng id
      else getPayloadV3 eng id) =
      getPayload (k.chainSpec.getPayloadEngineRPCVersion timestamp) eng id := by
  unfold ChainSpec.getPayloadEngineRPCVersion
  split_ifs <;> rfl

theorem getPayloadRound_apply (id : PayloadID) (poll : Poll) :
    getPayloadRound k eng height timestamp id (w, poll) =
      let call : GetPayloadCall := ⟨k.chainSpec.getPayloadEngineRPCVersion timestamp, id⟩
      let reply := eng.getPayload w.log call
      let verdict := pollVerdict k height timestamp id poll reply
      (verdict.1, (w.record (.getPayload call reply) (eng.latency w.log), verdict.2)) := by
  unfold getPayloadRound
  rw [getPayload_of_version]
  dsimp only
  cases hr : eng.getPayload w.log ⟨k.chainSpec.getPayloadEngineRPCVersion timestamp, id⟩ with
  | ok response =>
    have ha := attempt_of_ok (getPayload_of_ok hr)
    simp [bind_apply, ha, pollVerdict]
  | error e =>
    have ha := attempt_of_error (getPayload_of_error hr)
    by_cases hu : isPayloadUnknown (.getPayloadCall
      (k.chainSpec.getPayloadEngineRPCVersion timestamp) e)
    · by_cases hn : maxConsecutiveUnknownPayloadAttempts ≤ poll.consecutiveUnknownPayload + 1 <;>
        simp [bind_apply, ha, pollVerdict, hu, hn]
    · simp [bind_apply, ha, pollVerdict, hu]

/-! ## The store -/

theorem buildExecutionPayload_sameStore (k : Keeper) (eng : Engine) (hdr : Header)
    (height : UInt64) : Within SameStore (buildExecutionPayload k eng hdr height) :=
  Within.bind getBlockState_sameStore fun _ => forkchoiceUpdatedV3_sameStore _ _ _

theorem forkchoiceRound_sameStore (k : Keeper) (eng : Engine) (hdr : Header) (height : UInt64) :
    Within (Order.Preimage Prod.fst SameStore) (forkchoiceRound k eng hdr height) := by
  refine Within.bind (Within.onFst (Within.attempt (buildExecutionPayload_sameStore _ _ _ _))) ?_
  rintro (e | response)
  · exact Within.pure _
  · dsimp only
    split_ifs with hv
    · exact Within.fail _
    · cases response.payloadID with
      | none => exact Within.fail _
      | some id => exact Within.bind (Within.modify fun _ => rfl) fun _ => Within.pure _

theorem getPayloadRound_sameStore (k : Keeper) (eng : Engine) (height timestamp : UInt64)
    (id : PayloadID) :
    Within (Order.Preimage Prod.fst SameStore) (getPayloadRound k eng height timestamp id) := by
  rintro ⟨w, poll⟩
  rw [getPayloadRound_apply]
  rfl

theorem waitBuildDelay_sameStore (ctx : GoContext) (preferDone : Bool) :
    Within SameStore (waitBuildDelay ctx preferDone) := by
  intro w
  unfold waitBuildDelay
  dsimp only
  split
  · split_ifs <;> rfl
  · rfl

theorem waitBuildDelay_log {ctx : GoContext} {preferDone : Bool} {w w' : World}
    {o : Outcome EvmError Unit} (h : waitBuildDelay ctx preferDone w = (o, w')) :
    w'.log = w.log := by
  unfold waitBuildDelay at h
  dsimp only at h
  split at h
  · split_ifs at h <;> obtain ⟨-, rfl⟩ := Prod.mk.inj h <;> rfl
  · obtain ⟨-, rfl⟩ := Prod.mk.inj h
    rfl

end Rounds

/-- **Preparing a proposal does not write the store.** -/
theorem prepareProposal_sameStore (k : Keeper) (eng : Engine) (ctx : SdkContext) (attempts : ℕ)
    (req : RequestPrepareProposal) :
    Within SameStore (prepareProposal k eng ctx attempts req) := by
  refine Within.bind Within.get fun start => ?_
  dsimp only
  split_ifs with hh
  · exact Within.pure _
  refine Within.bind (Within.ofOutcome _) fun height => ?_
  refine Within.bind getBlockState_sameStore fun state => ?_
  refine Within.bind (retryAssigning_sameStore (forkchoiceRound_sameStore _ _ _ _) _ _ _)
    fun id => ?_
  refine Within.bind (waitBuildDelay_sameStore _ _) fun _ => ?_
  refine Within.bind (retryAssigning_sameStore (getPayloadRound_sameStore _ _ _ _ _) _ _ _)
    fun poll => ?_
  cases poll.payloadResponse with
  | none => exact Within.panic _
  | some response => exact Within.bind (Within.ofOutcome _) fun _ => Within.pure _

/-- `PrepareProposal` after the first loop. -/
def pollPayload (k : Keeper) (eng : Engine) (goCtx : GoContext) (preferDone : Bool) (attempts : ℕ)
    (height timestamp : UInt64) (id : PayloadID) : Evm (List Bytes) := do
  waitBuildDelay goCtx preferDone
  let poll ← retryAssigning goCtx ⟨none, 0⟩ (getPayloadRound k eng height timestamp id) attempts
  match poll.payloadResponse with
  | none => panic (.ext "invalid memory address or nil pointer dereference")
  | some response =>
    let tx ← ofOutcome (payloadTx k.platform response.executionPayload)
    return [tx]

/-- A proposal that changes anything has a height and a stored state, and runs the two loops. -/
theorem prepareProposal_cases (k : Keeper) (eng : Engine) (ctx : SdkContext) (attempts : ℕ)
    (req : RequestPrepareProposal) (w : World) :
    (prepareProposal k eng ctx attempts req w).2 = w ∨
      ∃ state, w.store.blockState = some state ∧ 0 ≤ ctx.header.height ∧
        let height := ctx.header.height.toUInt64
        let goCtx := ctx.goCtx.withTimeout w.clock prepareTimeout
        prepareProposal k eng ctx attempts req w =
          (retryAssigning goCtx (FixedBytes.ofBytes 8 []) (forkchoiceRound k eng ctx.header height)
            attempts >>= pollPayload k eng goCtx ctx.preferDone attempts height
              (calculateTimestamp k.config ctx.header.time height state.timestamp)) w := by
  unfold prepareProposal
  rw [bind_of_ok (get_apply w)]
  dsimp only
  split_ifs with hone
  · exact .inl rfl
  cases hheight : toUint64 ctx.header.height with
  | error r =>
    rw [bind_of_stop (ofOutcome_apply _ w)]
    exact .inl rfl
  | ok height =>
    obtain ⟨hnonneg, rfl⟩ := toUint64_eq_ok_iff.mp hheight
    rw [bind_of_ok (ofOutcome_apply _ w)]
    cases hs : w.store.blockState with
    | none =>
      rw [bind_of_stop (getBlockState_of_none hs)]
      exact .inl rfl
    | some state =>
      rw [bind_of_ok (getBlockState_eq_ok_iff.mpr ⟨hs, rfl⟩)]
      exact .inr ⟨state, rfl, hnonneg, rfl⟩

/-! ## What a proposal is made of -/

theorem ofExt_eq_ok_iff {α : Type} {x : Except String α} {a : α} :
    ofExt x = .ok a ↔ x = .ok a := by
  cases x <;> simp [ofExt]

/-- The transaction with the one message that carries the payload, signed by the module. -/
def Wraps (p : Platform) (payload : ExecutableData) (raw : Bytes) : Prop :=
  ∃ data tx, p.marshalPayload payload = .ok data ∧
    p.buildTx (.executionPayload ⟨p.accAddressString p.evmModuleAddress, data⟩) = .ok tx ∧
    p.txEncoder tx = .ok raw

theorem payloadTx_eq_ok_iff {p : Platform} {payload : ExecutableData} {raw : Bytes} :
    payloadTx p payload = .ok raw ↔ Wraps p payload raw ∧ raw.length ≤ maxTxSize := by
  unfold payloadTx
  simp only [except_bind_eq_ok_iff, ofExt_eq_ok_iff]
  constructor
  · rintro ⟨data, hdata, tx, htx, raw', hraw, h⟩
    split_ifs at h with hlong
    obtain rfl := Except.ok.inj h
    exact ⟨⟨data, tx, hdata, htx, hraw⟩, Nat.not_lt.mp hlong⟩
  · rintro ⟨⟨data, tx, hdata, htx, hraw⟩, hlen⟩
    exact ⟨data, hdata, tx, htx, raw, hraw, if_neg (Nat.not_lt.mpr hlen)⟩

/-- A forkchoice update after which the loop tries again. -/
def FailedBuild (call : ForkchoiceCall) (e : EngineEvent) : Prop :=
  ∃ reply, e = .forkchoiceUpdated call reply ∧ buildVerdict reply = .ok none

/-- A `getPayload` call that was answered with an error. -/
def FailedGet (call : GetPayloadCall) (e : EngineEvent) : Prop :=
  ∃ err, e = .getPayload call (.error err)

/-- The `getPayload` call of a build on `state`. -/
def getCall (k : Keeper) (hdr : Header) (height : UInt64) (state : BlockState) (id : PayloadID) :
    GetPayloadCall where
  version := k.chainSpec.getPayloadEngineRPCVersion
    (calculateTimestamp k.config hdr.time height state.timestamp)
  id := id

/-- The calls by which an envelope is obtained for a build on `state`: failed forkchoice
updates, one answered `VALID` with a payload id, failed `getPayload` calls for that id, and
the one that returned the envelope. -/
def ObtainedBy (k : Keeper) (hdr : Header) (height : UInt64) (state : BlockState)
    (envelope : ExecutionPayloadEnvelope) (calls : List EngineEvent) : Prop :=
  ∃ fs r id gs,
    calls = fs ++ [.forkchoiceUpdated (buildCall k hdr height state) (.ok r)] ++
      (gs ++ [.getPayload (getCall k hdr height state id) (.ok envelope)]) ∧
    r.payloadStatus.status = .valid ∧ r.payloadID = some id ∧
    (∀ e ∈ fs, FailedBuild (buildCall k hdr height state) e) ∧
    ∀ e ∈ gs, FailedGet (getCall k hdr height state id) e

theorem buildVerdict_eq_some_iff {reply : Except RpcError ForkChoiceResponse} {id : PayloadID} :
    buildVerdict reply = .ok (some id) ↔
      ∃ r, reply = .ok r ∧ r.payloadStatus.status = .valid ∧ r.payloadID = some id := by
  cases reply with
  | error e => simp [buildVerdict]
  | ok r =>
    by_cases ha : r.payloadStatus.status = .accepted
    · simp [buildVerdict, ha]
    · by_cases hv : r.payloadStatus.status = .valid
      · cases hid : r.payloadID <;> simp [buildVerdict, hv, hid]
      · simp [buildVerdict, ha, hv]

section Loops

variable {k : Keeper} {eng : Engine} {goCtx : GoContext} {attempts : ℕ} {w w' : World}
  {hdr : Header} {height timestamp : UInt64} {state : BlockState} {id₀ id : PayloadID}
  {poll₀ poll : Poll}

theorem forkchoiceRound_false {s : World × PayloadID} (hs : w.store.blockState = some state)
    (h : forkchoiceRound k eng hdr height (w, id₀) = (.ok false, s)) :
    SameStore w s.1 ∧ LogsOnly (FailedBuild (buildCall k hdr height state)) w s.1 := by
  rw [forkchoiceRound_apply hs] at h
  dsimp only at h
  split at h
  · next hv =>
    obtain ⟨-, rfl⟩ := Prod.mk.inj h
    exact ⟨rfl, logsOnly_record w ⟨_, rfl, hv⟩ (eng.latency w.log)⟩
  · simp at h
  · simp at h

theorem forkchoiceRound_true (hs : w.store.blockState = some state)
    (h : forkchoiceRound k eng hdr height (w, id₀) = (.ok true, (w', id))) :
    ∃ r, w'.log = w.log ++ [.forkchoiceUpdated (buildCall k hdr height state) (.ok r)] ∧
      r.payloadStatus.status = .valid ∧ r.payloadID = some id := by
  rw [forkchoiceRound_apply hs] at h
  dsimp only at h
  split at h
  · simp at h
  · next hv =>
    obtain ⟨-, hpair⟩ := Prod.mk.inj h
    obtain ⟨rfl, rfl⟩ := Prod.mk.inj hpair
    obtain ⟨r, hr, hvalid, hid⟩ := buildVerdict_eq_some_iff.mp hv
    exact ⟨r, by rw [World.record_log, hr], hvalid, hid⟩
  · simp at h

/-- The first loop ends with a forkchoice update answered `VALID`. -/
theorem forkchoiceLoop_ok (hs : w.store.blockState = some state)
    (h : retryAssigning goCtx id₀ (forkchoiceRound k eng hdr height) attempts w = (.ok id, w')) :
    ∃ fs r, w'.log = w.log ++ fs ++ [.forkchoiceUpdated (buildCall k hdr height state) (.ok r)] ∧
      r.payloadStatus.status = .valid ∧ r.payloadID = some id ∧
      ∀ e ∈ fs, FailedBuild (buildCall k hdr height state) e := by
  -- the invariant: the same store, and nothing but failed updates in the log
  let I : World × PayloadID → Prop := fun s =>
    SameStore w s.1 ∧ LogsOnly (FailedBuild (buildCall k hdr height state)) w s.1
  have hnext : ∀ s s', I s → forkchoiceRound k eng hdr height s = (.ok false, s') →
      I (s'.1.sleep, s'.2) := by
    rintro ⟨u, i⟩ s' ⟨hsame, hlogs⟩ hround
    have hround := forkchoiceRound_false ((congrArg Store.blockState hsame).trans hs) hround
    exact ⟨Eq.trans hround.1 hsame, IsTrans.trans w u s'.1 hlogs hround.2⟩
  obtain ⟨⟨u, i⟩, ⟨hsame, fs, hfs, hP⟩, hround⟩ :=
    retryAssigning_ok hnext ⟨rfl, refl_of (LogsOnly _) w⟩ h
  obtain ⟨r, hlog, hvalid, hid⟩ :=
    forkchoiceRound_true ((congrArg Store.blockState hsame).trans hs) hround
  exact ⟨fs, r, by rw [hlog, hfs], hvalid, hid, hP⟩

theorem getPayloadRound_false {s : World × Poll}
    (h : getPayloadRound k eng height timestamp id (w, poll) = (.ok false, s)) :
    LogsOnly (FailedGet ⟨k.chainSpec.getPayloadEngineRPCVersion timestamp, id⟩) w s.1 := by
  rw [getPayloadRound_apply] at h
  dsimp only at h
  obtain ⟨hv, rfl⟩ := Prod.mk.inj h
  cases hr : eng.getPayload w.log ⟨k.chainSpec.getPayloadEngineRPCVersion timestamp, id⟩ with
  | ok response => simp [hr, pollVerdict] at hv
  | error err => exact logsOnly_record w ⟨err, rfl⟩ (eng.latency w.log)

theorem getPayloadRound_true
    (h : getPayloadRound k eng height timestamp id (w, poll₀) = (.ok true, (w', poll))) :
    ∃ envelope, poll.payloadResponse = some envelope ∧
      w'.log = w.log ++
        [.getPayload ⟨k.chainSpec.getPayloadEngineRPCVersion timestamp, id⟩ (.ok envelope)] := by
  rw [getPayloadRound_apply] at h
  dsimp only at h
  obtain ⟨hv, hpair⟩ := Prod.mk.inj h
  obtain ⟨rfl, rfl⟩ := Prod.mk.inj hpair
  cases hr : eng.getPayload w.log ⟨k.chainSpec.getPayloadEngineRPCVersion timestamp, id⟩ with
  | ok envelope => exact ⟨envelope, rfl, rfl⟩
  | error err =>
    simp only [hr, pollVerdict] at hv
    split_ifs at hv
    all_goals simp at hv

/-- The second loop ends with the envelope of its last reply. -/
theorem getPayloadLoop_ok
    (h : retryAssigning goCtx poll₀ (getPayloadRound k eng height timestamp id) attempts w =
      (.ok poll, w')) :
    ∃ gs envelope, poll.payloadResponse = some envelope ∧
      w'.log = w.log ++ gs ++
        [.getPayload ⟨k.chainSpec.getPayloadEngineRPCVersion timestamp, id⟩ (.ok envelope)] ∧
      ∀ e ∈ gs, FailedGet ⟨k.chainSpec.getPayloadEngineRPCVersion timestamp, id⟩ e := by
  -- the invariant: nothing but failed calls in the log since the loop began
  let I : World × Poll → Prop := fun s =>
    LogsOnly (FailedGet ⟨k.chainSpec.getPayloadEngineRPCVersion timestamp, id⟩) w s.1
  have hnext : ∀ s s', I s → getPayloadRound k eng height timestamp id s = (.ok false, s') →
      I (s'.1.sleep, s'.2) := fun s s' hlogs hround =>
    IsTrans.trans w s.1 s'.1 hlogs (getPayloadRound_false hround)
  obtain ⟨⟨u, p⟩, ⟨gs, hgs, hP⟩, hround⟩ :=
    retryAssigning_ok hnext (refl_of (LogsOnly _) w) h
  obtain ⟨envelope, hpoll, hlog⟩ := getPayloadRound_true hround
  exact ⟨gs, envelope, hpoll, by rw [hlog, hgs], hP⟩

end Loops

/-- **A proposal wraps what the engine built on the stored head.** -/
theorem prepareProposal_ok {k : Keeper} {eng : Engine} {ctx : SdkContext} {attempts : ℕ}
    {req : RequestPrepareProposal} {w w' : World} {txs : List Bytes} (hh : req.height ≠ 1)
    (h : prepareProposal k eng ctx attempts req w = (.ok txs, w')) :
    ∃ state envelope calls tx, w.store.blockState = some state ∧ 0 ≤ ctx.header.height ∧
      ObtainedBy k ctx.header ctx.header.height.toUInt64 state envelope calls ∧
      w'.log = w.log ++ calls ∧
      payloadTx k.platform envelope.executionPayload = .ok tx ∧ txs = [tx] := by
  unfold prepareProposal at h
  rw [bind_of_ok (get_apply w), if_neg hh] at h
  obtain ⟨height, hheight, h⟩ := ofOutcome_bind_eq_ok_iff.mp h
  obtain ⟨hnonneg, rfl⟩ := toUint64_eq_ok_iff.mp hheight
  obtain ⟨state, w₁, hstate, h⟩ := bind_eq_ok_iff.mp h
  obtain ⟨hs, rfl⟩ := getBlockState_eq_ok_iff.mp hstate
  obtain ⟨id, w₂, hid, h⟩ := bind_eq_ok_iff.mp h
  obtain ⟨⟨⟩, w₃, hwait, h⟩ := bind_eq_ok_iff.mp h
  obtain ⟨poll, w₄, hpoll, h⟩ := bind_eq_ok_iff.mp h
  obtain ⟨fs, r, hlog₂, hvalid, hrid, hfs⟩ := forkchoiceLoop_ok hs hid
  obtain ⟨gs, envelope, hpr, hlog₄, hgs⟩ := getPayloadLoop_ok hpoll
  rw [hpr] at h
  obtain ⟨tx, htx, h⟩ := ofOutcome_bind_eq_ok_iff.mp h
  obtain ⟨htxs, rfl⟩ := Prod.mk.inj h
  refine ⟨state, envelope, _, tx, hs, hnonneg, ⟨fs, r, id, gs, rfl, hvalid, hrid, hfs, hgs⟩, ?_,
    htx, (Except.ok.inj htxs).symm⟩
  rw [hlog₄, waitBuildDelay_log hwait, hlog₂]
  simp [getCall]

/-! ## An engine that answers at once -/

theorem waitBuildDelay_of_live {ctx : GoContext} {w : World}
    (h : ∀ d ≤ buildDelay, ctx.err (w.clock + d) = none) (preferDone : Bool) :
    waitBuildDelay ctx preferDone w = (.ok (), { w with clock := w.clock + buildDelay }) := by
  have hfind : ((List.range (buildDelay + 1)).find? fun d => (ctx.err (w.clock + d)).isSome) =
      none := by
    refine List.find?_eq_none.mpr fun d hd => ?_
    rw [h d (Nat.le_of_lt_succ (List.mem_range.mp hd))]
    simp
  unfold waitBuildDelay
  dsimp only
  rw [hfind]

theorem forkchoiceRound_of_valid {k : Keeper} {eng : Engine} {hdr : Header} {height : UInt64}
    {w : World} {state : BlockState} {r : ForkChoiceResponse} {id : PayloadID}
    (hs : w.store.blockState = some state)
    (hbuild : eng.forkchoiceUpdated w.log (buildCall k hdr height state) = .ok r)
    (hvalid : r.payloadStatus.status = .valid) (hid : r.payloadID = some id) (id₀ : PayloadID) :
    forkchoiceRound k eng hdr height (w, id₀) = (.ok true,
      (w.record (.forkchoiceUpdated (buildCall k hdr height state) (.ok r)) (eng.latency w.log),
        id)) := by
  have hverdict : buildVerdict (.ok r) = .ok (some id) :=
    buildVerdict_eq_some_iff.mpr ⟨r, rfl, hvalid, hid⟩
  rw [forkchoiceRound_apply hs]
  dsimp only
  rw [hbuild, hverdict]

theorem getPayloadRound_of_ok {k : Keeper} {eng : Engine} {timestamp : UInt64} {id : PayloadID}
    {w : World} {envelope : ExecutionPayloadEnvelope}
    (hget : eng.getPayload w.log ⟨k.chainSpec.getPayloadEngineRPCVersion timestamp, id⟩ =
      .ok envelope) (height : UInt64) (poll : Poll) :
    getPayloadRound k eng height timestamp id (w, poll) = (.ok true,
      (w.record (.getPayload ⟨k.chainSpec.getPayloadEngineRPCVersion timestamp, id⟩
        (.ok envelope)) (eng.latency w.log), ⟨some envelope, 0⟩)) := by
  rw [getPayloadRound_apply]
  dsimp only
  rw [hget]
  rfl

/-- **The proposal of an engine that answers at once**: the first forkchoice update is answered
`VALID` with an id, and the first request for that id with the envelope. -/
theorem prepareProposal_of_replies {k : Keeper} {eng : Engine} {ctx : SdkContext}
    {req : RequestPrepareProposal} {w : World} {state : BlockState} {r : ForkChoiceResponse}
    {id : PayloadID} {envelope : ExecutionPayloadEnvelope} {tx : Bytes} (hh : req.height ≠ 1)
    (hnonneg : 0 ≤ ctx.header.height) (hs : w.store.blockState = some state)
    (hbuild : eng.forkchoiceUpdated w.log
      (buildCall k ctx.header ctx.header.height.toUInt64 state) = .ok r)
    (hvalid : r.payloadStatus.status = .valid) (hid : r.payloadID = some id)
    (hlive : ∀ d ≤ buildDelay, (ctx.goCtx.withTimeout w.clock prepareTimeout).err
      (w.clock + eng.latency w.log + d) = none)
    (hget : eng.getPayload (w.log ++
        [.forkchoiceUpdated (buildCall k ctx.header ctx.header.height.toUInt64 state) (.ok r)])
      (getCall k ctx.header ctx.header.height.toUInt64 state id) = .ok envelope)
    (htx : payloadTx k.platform envelope.executionPayload = .ok tx) (attempts : ℕ) :
    ∃ w', prepareProposal k eng ctx (attempts + 1) req w = (.ok [tx], w') ∧
      w'.store = w.store ∧
      w'.log = w.log ++
        [.forkchoiceUpdated (buildCall k ctx.header ctx.header.height.toUInt64 state) (.ok r)] ++
        [.getPayload (getCall k ctx.header ctx.header.height.toUInt64 state id)
          (.ok envelope)] := by
  have hfirst := forkchoiceRound_of_valid hs hbuild hvalid hid (FixedBytes.ofBytes 8 [])
  unfold prepareProposal
  rw [bind_of_ok (get_apply w)]
  dsimp only
  rw [if_neg hh, toUint64_eq_ok_iff.mpr ⟨hnonneg, rfl⟩, bind_of_ok (ofOutcome_apply _ w),
    bind_of_ok (getBlockState_eq_ok_iff.mpr ⟨hs, rfl⟩),
    bind_of_ok (retryAssigning_of_true hfirst _ attempts),
    bind_of_ok (waitBuildDelay_of_live hlive _),
    bind_of_ok (retryAssigning_of_true (getPayloadRound_of_ok hget _ ⟨none, 0⟩) _ attempts)]
  dsimp only
  rw [htx, bind_of_ok (ofOutcome_apply _ _)]
  exact ⟨_, rfl, rfl, rfl⟩

end NexusNode
