import NexusNode.Evm.Engine

/-!
# The keeper and its message servers

The EVM module stores one `BlockState`, the head of the execution chain. Genesis writes it,
and so does the message server of finalized blocks, after it has validated an execution
payload against it and the engine has taken the payload as a block and as its head. The
message server of proposals only validates.

## Main definitions

* `initGenesis`, `exportGenesis`, `updateParams`: the other writers and readers of the store
* `validatePayload`: the checks of a payload against the stored state and the header
* `sendPayload`: one `newPayload` call, with the blob hashes of the payload
* `executionPayload`: the message server of finalized blocks
* `proposalExecutionPayload`: the message server of proposals
* `PayloadValid`, `Sendable`: what `validatePayload` and `sendPayload` require

## Main results

* `validatePayload_eq_ok_iff`: a message is valid exactly when its payload is
* `collectVersionedHashes_eq_ok_iff`: the hashes sent are those of the transactions in order
* `sendPayload_of_sendable`, `sendPayload_of_not_sendable`: one call of the engine, or none
* `sendPayload_sends_blob_hashes`: when the engine is called, and with what
* `newPayloadAttempt_cases`: one attempt makes the call of the payload, or none
* `executionPayload_mono`: the bound on the attempts does not matter to a call that returned
* `executionPayload_ok`, `executionPayload_stop`: the store changes only on success
-/

namespace NexusNode

open Program Proc

/-- What the keeper is built from: third-party code, node configuration, fork schedule and the
address that may update the parameters. -/
structure Keeper where
  platform : Platform
  config : Config
  chainSpec : ChainSpec
  authority : Bytes

/-! ## The store -/

def getBlockState : Evm BlockState where
  run w :=
    match w.store.blockState with
    | some b => (.ok b, w)
    | none => (.error (.error .itemNotFound), w)

def setBlockState (b : BlockState) : Evm Unit :=
  modify fun w => { w with store := { w.store with blockState := some b } }

def setParams (p : Params) : Evm Unit :=
  modify fun w => { w with store := { w.store with params := some p } }

theorem getBlockState_eq_ok_iff {b : BlockState} {w w' : World} :
    getBlockState w = (.ok b, w') ↔ w.store.blockState = some b ∧ w = w' := by
  unfold getBlockState
  cases h : w.store.blockState <;> simp [h]

theorem getBlockState_of_none {w : World} (hs : w.store.blockState = none) :
    getBlockState w = (.error (.error .itemNotFound), w) := by
  simp [getBlockState, hs]

theorem getBlockState_sameStore : Within SameStore getBlockState := by
  intro w
  unfold getBlockState
  cases h : w.store.blockState <;> simp [SameStore, h]

theorem setBlockState_apply (b : BlockState) (w : World) :
    setBlockState b w =
      (.ok (), { w with store := { w.store with blockState := some b } }) := rfl

/-- `InitGenesis` -/
def initGenesis (g : GenesisState) : Evm Unit := do
  -- the parameters are written before the record is checked
  setParams g.params
  if g.genesisExecutionBlockHash = "" then fail .genesisHashRequired
  -- a record of an exported chain names its head
  else if g.currentBlockHash ≠ "" then
    setBlockState ⟨hexToHash g.currentBlockHash, g.currentBlockHeight, g.currentBlockTimestamp⟩
  else setBlockState ⟨hexToHash g.genesisExecutionBlockHash, 0, 0⟩

/-- `ExportGenesis` -/
def exportGenesis : Evm GenesisState := do
  let w ← get
  match w.store.params with
  | none => fail .itemNotFound
  | some params =>
    match w.store.blockState with
    -- a missing block state is exported as the default genesis
    | none =>
      return ⟨params, defaultGenesis.genesisExecutionBlockHash, "", 0, 0⟩
    | some b => return ⟨params, b.hash.hex, b.hash.hex, b.height, b.timestamp⟩

/-- `msgServer.UpdateParams` -/
def updateParams (k : Keeper) (req : MsgUpdateParams) : Evm Unit :=
  match k.platform.stringToBytes req.authority with
  | .error e => fail (.invalidAddress e)
  | .ok authority =>
    if k.authority ≠ authority then
      fail (.invalidSigner (k.platform.accAddressString k.authority) req.authority)
    else
      match req.params.validate with
      | .error e => fail e
      | .ok () => setParams req.params

/-! ## Validation -/

/-- `toUint64` panics on a negative value. -/
def toUint64 (val : Int64) : Outcome EvmError UInt64 :=
  if val < 0 then .error (.panic (.negative val.toInt)) else .ok val.toUInt64

theorem toUint64_eq_ok_iff {val : Int64} {n : UInt64} :
    toUint64 val = .ok n ↔ 0 ≤ val ∧ val.toUInt64 = n := by
  unfold toUint64
  split_ifs with h
  · simp [Int64.not_le.mpr h]
  · simp [Int64.not_lt.mp h]

/-- The checks of `validatePayload` that follow the decoding, in their order. -/
def checkPayload (k : Keeper) (ctx : SdkContext) (state : BlockState) (payload : ExecutableData) :
    Outcome EvmError ExecutableData :=
  if 0 < (payload.withdrawals.getD []).length then .error (.error .withdrawals)
  -- the list has to be present, although it has to be empty
  else if payload.withdrawals = none ∨ payload.blobGasUsed = none ∨
      payload.excessBlobGas = none then
    .error (.error .missingFields)
  else if payload.executionWitness ≠ none then .error (.error .witness)
  else if payload.parentHash ≠ state.hash then
    .error (.error (.parentHash state.hash payload.parentHash))
  else if payload.number ≠ state.height + 1 then
    .error (.error (.blockNumber (state.height + 1) payload.number))
  else if payload.timestamp ≤ state.timestamp then
    .error (.error (.oldTimestamp state.timestamp payload.timestamp))
  else do
    -- the proposer's own rule, on the state and header of this node
    let height ← toUint64 ctx.header.height
    let timestamp := calculateTimestamp k.config ctx.header.time height state.timestamp
    if payload.timestamp ≠ timestamp then
      .error (.error (.timestamp timestamp payload.timestamp))
    else .ok payload

/-- `validatePayload` -/
def validatePayload (k : Keeper) (ctx : SdkContext) (msg : MsgExecutionPayload)
    (state : BlockState) : Outcome EvmError ExecutableData :=
  let expected := k.platform.accAddressString k.platform.evmModuleAddress
  if msg.authority ≠ expected then .error (.error (.invalidAuthority expected msg.authority))
  else
    match k.platform.unmarshalPayload msg.executionPayload with
    | .error e => .error (.error (.invalidPayload e))
    | .ok payload => checkPayload k ctx state payload

/-- A payload that extends the stored state under the header. -/
structure PayloadValid (k : Keeper) (hdr : Header) (state : BlockState)
    (payload : ExecutableData) : Prop where
  withdrawals : payload.withdrawals = some []
  blobGasUsed : payload.blobGasUsed ≠ none
  excessBlobGas : payload.excessBlobGas ≠ none
  witness : payload.executionWitness = none
  parentHash : payload.parentHash = state.hash
  number : payload.number = state.height + 1
  newer : state.timestamp < payload.timestamp
  height_nonneg : 0 ≤ hdr.height
  timestamp : payload.timestamp =
    calculateTimestamp k.config hdr.time hdr.height.toUInt64 state.timestamp

theorem checkPayload_eq_ok_iff {k : Keeper} {ctx : SdkContext} {state : BlockState}
    {payload q : ExecutableData} :
    checkPayload k ctx state payload = .ok q ↔
      q = payload ∧ PayloadValid k ctx.header state payload := by
  unfold checkPayload
  constructor
  · intro h
    split_ifs at h with h₁ h₂ h₃ h₄ h₅ h₆
    simp only [not_or, ne_eq, not_not] at h₂ h₃ h₄ h₅
    rw [except_bind_eq_ok_iff] at h
    obtain ⟨height, hheight, h⟩ := h
    obtain ⟨h₇, rfl⟩ := toUint64_eq_ok_iff.mp hheight
    dsimp only at h
    split_ifs at h with h₈
    obtain rfl := Except.ok.inj h
    refine ⟨rfl, ⟨?_, h₂.2.1, h₂.2.2, h₃, h₄, h₅, UInt64.not_le.mp h₆, h₇, not_not.mp h₈⟩⟩
    obtain ⟨ws, hws⟩ := Option.ne_none_iff_exists'.mp h₂.1
    rw [hws] at h₁ ⊢
    simpa using h₁
  · rintro ⟨rfl, hv⟩
    have h₆ : ¬ q.timestamp ≤ state.timestamp := UInt64.not_le.mpr hv.newer
    have h₇ := toUint64_eq_ok_iff.mpr ⟨hv.height_nonneg, rfl⟩
    rw [if_neg (by simp [hv.withdrawals]),
      if_neg (by simp [hv.withdrawals, hv.blobGasUsed, hv.excessBlobGas]),
      if_neg (by simp [hv.witness]), if_neg (by simp [hv.parentHash]),
      if_neg (by simp [hv.number]), if_neg h₆]
    rw [except_bind_eq_ok_iff]
    exact ⟨_, h₇, if_neg (by simpa using hv.timestamp)⟩

/-- **Validation**: a message is accepted exactly when it comes from the module and its bytes
decode to a payload that extends the state. -/
theorem validatePayload_eq_ok_iff {k : Keeper} {ctx : SdkContext} {msg : MsgExecutionPayload}
    {state : BlockState} {payload : ExecutableData} :
    validatePayload k ctx msg state = .ok payload ↔
      msg.authority = k.platform.accAddressString k.platform.evmModuleAddress ∧
        k.platform.unmarshalPayload msg.executionPayload = .ok payload ∧
        PayloadValid k ctx.header state payload := by
  unfold validatePayload
  dsimp only
  split_ifs with ha
  · simp [ha]
  · rw [not_not] at ha
    cases hu : k.platform.unmarshalPayload msg.executionPayload with
    | error e => simp
    | ok q =>
      rw [checkPayload_eq_ok_iff]
      constructor
      · rintro ⟨rfl, hv⟩
        exact ⟨ha, rfl, hv⟩
      · rintro ⟨-, hq, hv⟩
        obtain rfl := Except.ok.inj hq
        exact ⟨rfl, hv⟩

/-! ## Sending the payload -/

/-- The blob cap of one block. -/
def maxBlobsPerBlock : ℕ := 6

/-- The loop of `sendPayload` over the transactions: their blob hashes, behind `acc`. -/
def collectVersionedHashes (p : Platform) : List Hash → List Bytes → Except EvmError (List Hash)
  | acc, [] => .ok acc
  | acc, txBytes :: rest =>
    match p.unmarshalBinary txBytes with
    | .error e => .error (.decodeTx e)
    | .ok tx => collectVersionedHashes p (acc ++ tx.blobHashes) rest

/-- `sendPayload` -/
def sendPayload (k : Keeper) (eng : Engine) (ctx : SdkContext) (payload : ExecutableData) :
    Evm PayloadStatusV1 :=
  let appHash := bytesToHash ctx.header.appHash
  if appHash = zeroHash then fail .emptyAppHash
  else
    match collectVersionedHashes k.platform [] payload.transactions with
    | .error e => fail e
    | .ok versionedHashes =>
      -- the cap does not depend on the fork, unlike the version of the call
      if maxBlobsPerBlock < versionedHashes.length then
        fail (.tooManyBlobs versionedHashes.length maxBlobsPerBlock)
      else if k.chainSpec.isAmsterdamActive payload.timestamp then
        newPayloadV5 eng payload versionedHashes appHash none
      else if k.chainSpec.isPragueActive payload.timestamp then
        newPayloadV4 eng payload versionedHashes appHash none
      else newPayloadV3 eng payload versionedHashes appHash

/-- The transactions decode, and `hashes` are their blob hashes in order. -/
def BlobHashes (p : Platform) (txs : List Bytes) (hashes : List Hash) : Prop :=
  ∃ decoded : List EvmTx,
    txs.map p.unmarshalBinary = decoded.map .ok ∧ hashes = decoded.flatMap (·.blobHashes)

/-- The transactions of the payload decode with at most `maxBlobsPerBlock` blob hashes. -/
def Sendable (p : Platform) (payload : ExecutableData) : Prop :=
  ∃ hashes, BlobHashes p payload.transactions hashes ∧ hashes.length ≤ maxBlobsPerBlock

theorem blobHashes_nil {p : Platform} {hashes : List Hash} :
    BlobHashes p [] hashes ↔ hashes = [] := by
  constructor
  · rintro ⟨decoded, hd, rfl⟩
    obtain rfl : decoded = [] := by simpa using hd.symm
    rfl
  · rintro rfl
    exact ⟨[], rfl, rfl⟩

theorem blobHashes_cons {p : Platform} {b : Bytes} {txs : List Bytes} {hashes : List Hash} :
    BlobHashes p (b :: txs) hashes ↔
      ∃ tx rest, p.unmarshalBinary b = .ok tx ∧ BlobHashes p txs rest ∧
        hashes = tx.blobHashes ++ rest := by
  constructor
  · rintro ⟨decoded, hd, rfl⟩
    cases decoded with
    | nil => simp at hd
    | cons tx decoded =>
      obtain ⟨htx, hrest⟩ := List.cons.inj hd
      exact ⟨tx, _, htx, ⟨decoded, hrest, rfl⟩, rfl⟩
  · rintro ⟨tx, _, htx, ⟨decoded, hrest, rfl⟩, rfl⟩
    exact ⟨tx :: decoded, by simp [htx, hrest], rfl⟩

/-- **The loop collects the blob hashes in order**, behind those it started with. -/
theorem collectVersionedHashes_eq_ok_iff {p : Platform} {txs : List Bytes}
    {acc out : List Hash} :
    collectVersionedHashes p acc txs = .ok out ↔
      ∃ hashes, BlobHashes p txs hashes ∧ out = acc ++ hashes := by
  -- induction on the transactions; the hashes of each go behind those collected so far
  induction txs generalizing acc with
  | nil => simp [collectVersionedHashes, blobHashes_nil, eq_comm]
  | cons b txs ih =>
    unfold collectVersionedHashes
    cases hb : p.unmarshalBinary b with
    | error e => simp [blobHashes_cons, hb]
    | ok tx =>
      rw [ih]
      constructor
      · rintro ⟨hashes, hh, rfl⟩
        exact ⟨_, blobHashes_cons.mpr ⟨tx, hashes, hb, hh, rfl⟩, by simp⟩
      · rintro ⟨_, hh, rfl⟩
        obtain ⟨tx', rest, htx, hrest, rfl⟩ := blobHashes_cons.mp hh
        obtain rfl := Except.ok.inj (hb.symm.trans htx)
        exact ⟨rest, hrest, by simp⟩

theorem collectVersionedHashes_nil_iff {p : Platform} {txs : List Bytes} {out : List Hash} :
    collectVersionedHashes p [] txs = .ok out ↔ BlobHashes p txs out := by
  simp [collectVersionedHashes_eq_ok_iff]

theorem BlobHashes.unique {p : Platform} {txs : List Bytes} {hs hs' : List Hash}
    (h : BlobHashes p txs hs) (h' : BlobHashes p txs hs') : hs = hs' :=
  Except.ok.inj ((collectVersionedHashes_nil_iff.mpr h).symm.trans
    (collectVersionedHashes_nil_iff.mpr h'))

/-- The call `sendPayload` makes: the version of the payload's timestamp, the payload itself,
its blob hashes, the app hash and, from version 4 on, no execution requests. -/
def payloadCall (k : Keeper) (hdr : Header) (payload : ExecutableData) (hashes : List Hash) :
    NewPayloadCall where
  version := k.chainSpec.newPayloadEngineRPCVersion payload.timestamp
  params := payload
  versionedHashes := hashes
  beaconRoot := bytesToHash hdr.appHash
  requests :=
    if k.chainSpec.newPayloadEngineRPCVersion payload.timestamp = 3 then none else some []

/-- A payload that can be sent is sent, in one call. -/
theorem sendPayload_of_sendable {k : Keeper} {ctx : SdkContext} {payload : ExecutableData}
    {hashes : List Hash} (eng : Engine) (happ : bytesToHash ctx.header.appHash ≠ zeroHash)
    (hh : BlobHashes k.platform payload.transactions hashes)
    (hlen : hashes.length ≤ maxBlobsPerBlock) :
    sendPayload k eng ctx payload =
      sendNewPayload eng (payloadCall k ctx.header payload hashes) := by
  unfold sendPayload
  dsimp only
  rw [if_neg happ, collectVersionedHashes_nil_iff.mpr hh]
  dsimp only
  rw [if_neg (by omega)]
  unfold payloadCall ChainSpec.newPayloadEngineRPCVersion
  cases k.chainSpec.isAmsterdamActive payload.timestamp <;>
    cases k.chainSpec.isPragueActive payload.timestamp <;>
    simp [newPayloadV3, newPayloadV4, newPayloadV5, newPayloadWithRequests_none]

/-- A payload that cannot be sent makes no call and returns an error. -/
theorem sendPayload_of_not_sendable {k : Keeper} {ctx : SdkContext} {payload : ExecutableData}
    (eng : Engine)
    (h : bytesToHash ctx.header.appHash = zeroHash ∨ ¬ Sendable k.platform payload) :
    ∃ e, sendPayload k eng ctx payload = fail e := by
  unfold sendPayload
  dsimp only
  by_cases happ : bytesToHash ctx.header.appHash = zeroHash
  · exact ⟨_, by rw [if_pos happ]⟩
  · rw [if_neg happ]
    have hns := h.resolve_left happ
    cases hc : collectVersionedHashes k.platform [] payload.transactions with
    | error e => exact ⟨e, rfl⟩
    | ok hashes =>
      have hlen : maxBlobsPerBlock < hashes.length := by
        by_contra hle
        exact hns ⟨hashes, collectVersionedHashes_nil_iff.mp hc, Nat.le_of_not_lt hle⟩
      exact ⟨_, by dsimp only; rw [if_pos hlen]⟩

/-- The blob hashes of an encoded transaction, none if it does not decode. -/
def blobHashesOf (p : Platform) (txBytes : Bytes) : List Hash :=
  match p.unmarshalBinary txBytes with
  | .ok tx => tx.blobHashes
  | .error _ => []

/-- The blob hashes of transactions that decode are those of each, in their order. -/
theorem blobHashes_iff_flatMap {p : Platform} {txs : List Bytes} {hashes : List Hash} :
    BlobHashes p txs hashes ↔
      (∀ b ∈ txs, ∃ tx, p.unmarshalBinary b = .ok tx) ∧ hashes = txs.flatMap (blobHashesOf p) := by
  induction txs generalizing hashes with
  | nil => simp [blobHashes_nil]
  | cons b txs ih =>
    rw [blobHashes_cons, List.forall_mem_cons, List.flatMap_cons]
    constructor
    · rintro ⟨tx, rest, htx, hrest, rfl⟩
      obtain ⟨hall, rfl⟩ := ih.mp hrest
      exact ⟨⟨⟨tx, htx⟩, hall⟩, by simp [blobHashesOf, htx]⟩
    · rintro ⟨⟨⟨tx, htx⟩, hall⟩, rfl⟩
      exact ⟨tx, _, htx, ih.mpr ⟨hall, rfl⟩, by simp [blobHashesOf, htx]⟩

/-- **What `sendPayload` sends.** The engine is called exactly if the app hash is not zero, the
transactions decode and their blob hashes are within the cap. It is then called once, with the
payload as it is, the blob hashes of its transactions in order and the app hash as beacon root.
Otherwise there is no call, and an error is returned. -/
theorem sendPayload_sends_blob_hashes (k : Keeper) (eng : Engine) (ctx : SdkContext)
    (payload : ExecutableData) (w : World) :
    let appHash := bytesToHash ctx.header.appHash
    let hashes := payload.transactions.flatMap (blobHashesOf k.platform)
    let sendable := appHash ≠ zeroHash ∧
      (∀ b ∈ payload.transactions, ∃ tx, k.platform.unmarshalBinary b = .ok tx) ∧
      hashes.length ≤ maxBlobsPerBlock
    let out := sendPayload k eng ctx payload w
    (out.2.log ≠ w.log ↔ sendable) ∧
    (sendable → ∃ call reply, out.2.log = w.log ++ [.newPayload call reply] ∧
      call.params = payload ∧ call.versionedHashes = hashes ∧ call.beaconRoot = appHash) ∧
    (¬ sendable → out.2.log = w.log ∧ ∃ e, out.1 = .error (.error e)) := by
  intro appHash hashes sendable out
  have hsent (h : sendable) : ∃ call reply, out.2.log = w.log ++ [.newPayload call reply] ∧
      call.params = payload ∧ call.versionedHashes = hashes ∧ call.beaconRoot = appHash := by
    obtain ⟨happ, hdecode, hlen⟩ := h
    have heq : out = sendNewPayload eng (payloadCall k ctx.header payload hashes) w :=
      congrArg (fun p => p w) (sendPayload_of_sendable eng happ
        (blobHashes_iff_flatMap.mpr ⟨hdecode, rfl⟩) hlen)
    have hlog := congrArg (fun o => o.2.log) heq
    exact ⟨_, _, hlog.trans (sendNewPayload_log eng _ w), rfl, rfl, rfl⟩
  have hunsent (h : ¬ sendable) : out.2.log = w.log ∧ ∃ e, out.1 = .error (.error e) := by
    have hnot : appHash = zeroHash ∨ ¬ Sendable k.platform payload := by
      by_contra hcon
      obtain ⟨happ, hs⟩ := not_or.mp hcon
      obtain ⟨_, hblobs, hlen⟩ := not_not.mp hs
      obtain ⟨hdecode, rfl⟩ := blobHashes_iff_flatMap.mp hblobs
      exact h ⟨happ, hdecode, hlen⟩
    obtain ⟨e, he⟩ := sendPayload_of_not_sendable eng hnot
    have heq : out = (.error (.error e), w) := congrArg (fun p => p w) he
    exact ⟨by rw [heq], e, by rw [heq]⟩
  refine ⟨⟨fun hlog => ?_, fun h => ?_⟩, hsent, hunsent⟩
  · by_contra h
    exact hlog (hunsent h).1
  · obtain ⟨call, reply, hlog, -⟩ := hsent h
    simp [hlog]

/-! ## The message servers -/

/-- The checks of `msgServer.ExecutionPayload` before it talks to the engine. -/
def checkExecutionPayload (k : Keeper) (ctx : SdkContext) (msg : MsgExecutionPayload)
    (store : Store) : Outcome EvmError ExecutableData :=
  if ctx.execMode ≠ .finalize then .error (.error .notFinalize)
  else if msg.executionPayload = [] then .error (.error .emptyPayload)
  else
    match store.blockState with
    | none => .error (.error (.getBlockState .itemNotFound))
    | some state => validatePayload k ctx msg state

/-- One attempt of the first retry loop. Every error of `sendPayload` means another try. -/
def newPayloadAttempt (k : Keeper) (eng : Engine) (ctx : SdkContext) (payload : ExecutableData) :
    Evm Bool := do
  match ← attempt (sendPayload k eng ctx payload) with
  -- an error of `sendPayload` itself is not told from one of the network
  | .error _ => return false
  | .ok status =>
    if status.status ≠ .valid ∧ status.status ≠ .syncing then fail (.payloadStatus status.status)
    else return true

/-- The forkchoice state that names one block as head, safe and finalized. -/
def forkchoiceAt (h : Hash) : ForkchoiceStateV1 := ⟨h, h, h⟩

/-- One attempt of the second retry loop. -/
def forkchoiceAttempt (eng : Engine) (payload : ExecutableData) : Evm Bool := do
  match ← attempt (forkchoiceUpdatedV3 eng (forkchoiceAt payload.blockHash) none) with
  -- `ACCEPTED` comes back as an error, so it is retried too
  | .error _ => return false
  | .ok response =>
    if response.payloadStatus.status = .invalid then
      fail (.forkchoiceStatus response.payloadStatus.status)
    else return true

/-- The block state a payload leaves. -/
def ExecutableData.blockState (payload : ExecutableData) : BlockState :=
  ⟨payload.blockHash, payload.number, payload.timestamp⟩

/-- `msgServer.ExecutionPayload`, with at most `attempts` rounds of each retry loop. -/
def executionPayload (k : Keeper) (eng : Engine) (ctx : SdkContext) (attempts : ℕ)
    (msg : MsgExecutionPayload) : Evm Unit := do
  let w ← get
  let payload ← ofOutcome (checkExecutionPayload k ctx msg w.store)
  retry ctx.goCtx (newPayloadAttempt k eng ctx payload) attempts
  retry ctx.goCtx (forkchoiceAttempt eng payload) attempts
  setBlockState payload.blockState

/-- `proposalMsgServer.ExecutionPayload` -/
def proposalExecutionPayload (k : Keeper) (ctx : SdkContext) (msg : MsgExecutionPayload)
    (store : Store) : Outcome EvmError Unit :=
  match store.blockState with
  | none => .error (.error (.getBlockState .itemNotFound))
  | some state => (validatePayload k ctx msg state).map fun _ => ()

/-- `proposalMsgServer.UpdateParams` -/
def proposalUpdateParams (_ : MsgUpdateParams) : Outcome EvmError Unit :=
  .error (.error .updateParamsInProposal)

theorem checkExecutionPayload_eq_ok_iff {k : Keeper} {ctx : SdkContext}
    {msg : MsgExecutionPayload} {store : Store} {payload : ExecutableData} :
    checkExecutionPayload k ctx msg store = .ok payload ↔
      ctx.execMode = .finalize ∧ msg.executionPayload ≠ [] ∧
        ∃ state, store.blockState = some state ∧ validatePayload k ctx msg state = .ok payload := by
  unfold checkExecutionPayload
  split_ifs with h₁ h₂
  · simp [h₁]
  · simp [h₂]
  · rw [not_not] at h₁
    cases hs : store.blockState <;> simp [h₁, h₂]

/-- A message of the module that decodes is checked as its payload is. -/
theorem checkExecutionPayload_of_decoded {k : Keeper} {ctx : SdkContext}
    {msg : MsgExecutionPayload} {store : Store} {state : BlockState} {payload : ExecutableData}
    (hmode : ctx.execMode = .finalize) (hne : msg.executionPayload ≠ [])
    (hs : store.blockState = some state)
    (hauthority : msg.authority = k.platform.accAddressString k.platform.evmModuleAddress)
    (hdecode : k.platform.unmarshalPayload msg.executionPayload = .ok payload) :
    checkExecutionPayload k ctx msg store = checkPayload k ctx state payload := by
  unfold checkExecutionPayload validatePayload
  rw [if_neg (not_not.mpr hmode), if_neg hne, hs]
  dsimp only
  rw [if_neg (not_not.mpr hauthority), hdecode]

theorem proposalExecutionPayload_eq_ok_iff {k : Keeper} {ctx : SdkContext}
    {msg : MsgExecutionPayload} {store : Store} :
    proposalExecutionPayload k ctx msg store = .ok () ↔
      ∃ state payload, store.blockState = some state ∧
        validatePayload k ctx msg state = .ok payload := by
  unfold proposalExecutionPayload
  cases hs : store.blockState with
  | none => simp
  | some state => cases hv : validatePayload k ctx msg state <;> simp [Except.map, hv]

/-! ## One attempt -/

theorem newPayloadAttempt_of_not_sendable {k : Keeper} {ctx : SdkContext}
    {payload : ExecutableData} (eng : Engine)
    (h : bytesToHash ctx.header.appHash = zeroHash ∨ ¬ Sendable k.platform payload) (w : World) :
    newPayloadAttempt k eng ctx payload w = (.ok false, w) := by
  obtain ⟨e, he⟩ := sendPayload_of_not_sendable eng h
  unfold newPayloadAttempt
  rw [he, bind_of_ok (attempt_of_error (fail_apply e w))]
  rfl

/-- The answer of an attempt that reaches the engine. -/
def newPayloadVerdict : Except RpcError PayloadStatusV1 → Outcome EvmError Bool
  | .error _ => .ok false
  | .ok status =>
    if status.status ≠ .valid ∧ status.status ≠ .syncing then
      .error (.error (.payloadStatus status.status))
    else .ok true

theorem newPayloadAttempt_of_sendable {k : Keeper} {ctx : SdkContext} {payload : ExecutableData}
    {hashes : List Hash} (eng : Engine) (happ : bytesToHash ctx.header.appHash ≠ zeroHash)
    (hh : BlobHashes k.platform payload.transactions hashes)
    (hlen : hashes.length ≤ maxBlobsPerBlock) (w : World) :
    newPayloadAttempt k eng ctx payload w =
      let call := payloadCall k ctx.header payload hashes
      let reply := eng.newPayload w.log call
      (newPayloadVerdict reply, w.record (.newPayload call reply) (eng.latency w.log)) := by
  unfold newPayloadAttempt
  rw [sendPayload_of_sendable eng happ hh hlen]
  dsimp only
  cases hr : eng.newPayload w.log (payloadCall k ctx.header payload hashes) with
  | error e =>
    rw [bind_of_ok (attempt_of_error (sendNewPayload_of_error hr))]
    rfl
  | ok status =>
    rw [bind_of_ok (attempt_of_ok (sendNewPayload_of_ok hr))]
    dsimp only [newPayloadVerdict]
    split_ifs <;> rfl

/-- **What an attempt can do**: answer `false` without a call, or make the call of the payload
and answer by its reply. -/
theorem newPayloadAttempt_cases (k : Keeper) (eng : Engine) (ctx : SdkContext)
    (payload : ExecutableData) (w : World) :
    newPayloadAttempt k eng ctx payload w = (.ok false, w) ∨
      ∃ hashes, BlobHashes k.platform payload.transactions hashes ∧
        newPayloadAttempt k eng ctx payload w =
          let call := payloadCall k ctx.header payload hashes
          let reply := eng.newPayload w.log call
          (newPayloadVerdict reply, w.record (.newPayload call reply) (eng.latency w.log)) := by
  by_cases h : bytesToHash ctx.header.appHash = zeroHash ∨ ¬ Sendable k.platform payload
  · exact .inl (newPayloadAttempt_of_not_sendable eng h w)
  · rw [not_or, not_not] at h
    obtain ⟨happ, hashes, hh, hlen⟩ := h
    exact .inr ⟨hashes, hh, newPayloadAttempt_of_sendable eng happ hh hlen w⟩

/-- The answer of a forkchoice attempt. -/
def forkchoiceVerdict : Except RpcError ForkChoiceResponse → Outcome EvmError Bool
  | .error _ => .ok false
  | .ok response =>
    if response.payloadStatus.status = .accepted then .ok false
    else if response.payloadStatus.status = .invalid then
      .error (.error (.forkchoiceStatus response.payloadStatus.status))
    else .ok true

theorem forkchoiceVerdict_eq_error {reply : Except RpcError ForkChoiceResponse}
    {r : Stop EvmError} (h : forkchoiceVerdict reply = .error r) :
    ∃ response, reply = .ok response ∧ response.payloadStatus.status = .invalid := by
  cases reply with
  | error e => cases h
  | ok response =>
    refine ⟨response, rfl, ?_⟩
    by_contra hstands
    rw [forkchoiceVerdict, if_neg hstands] at h
    split_ifs at h

theorem forkchoiceAttempt_apply (eng : Engine) (payload : ExecutableData) (w : World) :
    forkchoiceAttempt eng payload w =
      let call : ForkchoiceCall := ⟨forkchoiceAt payload.blockHash, none⟩
      let reply := eng.forkchoiceUpdated w.log call
      (forkchoiceVerdict reply, w.record (.forkchoiceUpdated call reply) (eng.latency w.log)) := by
  unfold forkchoiceAttempt
  dsimp only
  cases hr : eng.forkchoiceUpdated w.log ⟨forkchoiceAt payload.blockHash, none⟩ with
  | error e =>
    rw [bind_of_ok (attempt_of_error (forkchoiceUpdatedV3_of_error hr))]
    rfl
  | ok response =>
    -- the client decides on `ACCEPTED` before the attempt sees the status
    by_cases ha : response.payloadStatus.status = .accepted
    · rw [bind_of_ok (attempt_of_error (forkchoiceUpdatedV3_of_accepted hr ha))]
      simp [forkchoiceVerdict, ha]
    · rw [bind_of_ok (attempt_of_ok (forkchoiceUpdatedV3_of_ok hr ha))]
      by_cases hi : response.payloadStatus.status = .invalid <;> simp [forkchoiceVerdict, ha, hi]

/-! ## What the servers leave alone -/

theorem newPayloadAttempt_sameStore (k : Keeper) (eng : Engine) (ctx : SdkContext)
    (payload : ExecutableData) : Within SameStore (newPayloadAttempt k eng ctx payload) := by
  intro w
  rcases newPayloadAttempt_cases k eng ctx payload w with h | ⟨hashes, -, h⟩ <;> rw [h]
  · rfl
  · rfl

theorem forkchoiceAttempt_sameStore (eng : Engine) (payload : ExecutableData) :
    Within SameStore (forkchoiceAttempt eng payload) := by
  intro w
  rw [forkchoiceAttempt_apply]
  rfl

/-- The part of `executionPayload` that talks to the engine. -/
def engineRounds (k : Keeper) (eng : Engine) (ctx : SdkContext) (attempts : ℕ)
    (payload : ExecutableData) : Evm Unit := do
  retry ctx.goCtx (newPayloadAttempt k eng ctx payload) attempts
  retry ctx.goCtx (forkchoiceAttempt eng payload) attempts

theorem engineRounds_sameStore (k : Keeper) (eng : Engine) (ctx : SdkContext) (attempts : ℕ)
    (payload : ExecutableData) : Within SameStore (engineRounds k eng ctx attempts payload) := by
  unfold engineRounds
  exact Within.bind
    (retry_sameStore (newPayloadAttempt_sameStore k eng ctx payload) _ _)
    fun _ => retry_sameStore (forkchoiceAttempt_sameStore eng payload) _ _

/-- The message server is its checks, the rounds of the engine and one write. -/
theorem executionPayload_eq (k : Keeper) (eng : Engine) (ctx : SdkContext) (attempts : ℕ)
    (msg : MsgExecutionPayload) (w : World) :
    executionPayload k eng ctx attempts msg w =
      match checkExecutionPayload k ctx msg w.store with
      | .error r => (.error r, w)
      | .ok payload =>
        match engineRounds k eng ctx attempts payload w with
        | (.error r, w') => (.error r, w')
        | (.ok (), w') => setBlockState payload.blockState w' := by
  unfold executionPayload engineRounds
  rw [bind_of_ok (get_apply w)]
  cases hc : checkExecutionPayload k ctx msg w.store with
  | error r => rw [bind_of_stop (by rw [ofOutcome_apply])]
  | ok payload =>
    rw [bind_of_ok (by rw [ofOutcome_apply])]
    dsimp only
    rcases h₁ : retry ctx.goCtx (newPayloadAttempt k eng ctx payload) attempts w with ⟨r | u, w₁⟩
    · rw [bind_of_stop h₁, bind_of_stop h₁]
    · rw [bind_of_ok h₁, bind_of_ok h₁]
      rcases h₂ : retry ctx.goCtx (forkchoiceAttempt eng payload) attempts w₁ with ⟨r | u, w₂⟩
      · rw [bind_of_stop h₂]
      · rw [bind_of_ok h₂]

theorem engineRounds_mono {k : Keeper} {eng : Engine} {ctx : SdkContext} {n m : ℕ}
    (hnm : n ≤ m) {payload : ExecutableData} {w w' : World} {o : Outcome EvmError Unit}
    (h : engineRounds k eng ctx n payload w = (o, w')) (ho : o ≠ .error .running) :
    engineRounds k eng ctx m payload w = (o, w') := by
  unfold engineRounds at h ⊢
  rcases h₁ : retry ctx.goCtx (newPayloadAttempt k eng ctx payload) n w with ⟨r | u, w₁⟩
  · -- stopped in the first loop, which then stops there with more attempts too
    rw [bind_of_stop h₁] at h
    obtain ⟨rfl, rfl⟩ := Prod.mk.inj h
    exact bind_of_stop (retryLoop_mono hnm h₁ ho) _
  · rw [bind_of_ok h₁] at h
    refine (bind_of_ok (retryLoop_mono hnm h₁ ?_) _).trans (retryLoop_mono hnm h ho)
    exact fun hrunning => nomatch hrunning

/-- **The bound on the attempts does not matter.** A call that did not run out of its attempts
ends the same with more of them. -/
theorem executionPayload_mono {k : Keeper} {eng : Engine} {ctx : SdkContext} {n m : ℕ}
    (hnm : n ≤ m) {msg : MsgExecutionPayload} {w w' : World} {o : Outcome EvmError Unit}
    (h : executionPayload k eng ctx n msg w = (o, w')) (ho : o ≠ .error .running) :
    executionPayload k eng ctx m msg w = (o, w') := by
  rw [executionPayload_eq] at h ⊢
  cases hc : checkExecutionPayload k ctx msg w.store with
  | error r =>
    simp only [hc] at h ⊢
    exact h
  | ok payload =>
    simp only [hc] at h ⊢
    rcases hr : engineRounds k eng ctx n payload w with ⟨r | u, w₁⟩ <;> rw [hr] at h
    · obtain ⟨rfl, rfl⟩ := Prod.mk.inj h
      rw [engineRounds_mono hnm hr ho]
    · rw [engineRounds_mono hnm hr (by simp)]
      exact h

/-- A payload that was taken is recorded: it passed the checks, and nothing but the block
state changed. -/
theorem executionPayload_ok {k : Keeper} {eng : Engine} {ctx : SdkContext} {attempts : ℕ}
    {msg : MsgExecutionPayload} {w w' : World}
    (h : executionPayload k eng ctx attempts msg w = (.ok (), w')) :
    ∃ payload, checkExecutionPayload k ctx msg w.store = .ok payload ∧
      w'.store = { w.store with blockState := some payload.blockState } := by
  rw [executionPayload_eq] at h
  cases hc : checkExecutionPayload k ctx msg w.store with
  | error r => simp [hc] at h
  | ok payload =>
    simp only [hc] at h
    have hs := engineRounds_sameStore k eng ctx attempts payload w
    rcases hr : engineRounds k eng ctx attempts payload w with ⟨r | u, w₁⟩ <;> rw [hr] at h hs
    · simp at h
    · simp only [setBlockState_apply] at h
      obtain ⟨-, rfl⟩ := Prod.mk.inj h
      exact ⟨payload, rfl, by rw [show w₁.store = w.store from hs]⟩

/-- A call that did not succeed left the store alone. -/
theorem executionPayload_stop {k : Keeper} {eng : Engine} {ctx : SdkContext} {attempts : ℕ}
    {msg : MsgExecutionPayload} {w w' : World} {r : Stop EvmError}
    (h : executionPayload k eng ctx attempts msg w = (.error r, w')) : w'.store = w.store := by
  rw [executionPayload_eq] at h
  cases hc : checkExecutionPayload k ctx msg w.store with
  | error r =>
    simp only [hc] at h
    obtain ⟨-, rfl⟩ := Prod.mk.inj h
    rfl
  | ok payload =>
    simp only [hc] at h
    have hs := engineRounds_sameStore k eng ctx attempts payload w
    rcases hr : engineRounds k eng ctx attempts payload w with ⟨q | u, w₁⟩ <;> rw [hr] at h hs
    · obtain ⟨-, rfl⟩ := Prod.mk.inj h
      exact hs
    · simp [setBlockState_apply] at h

end NexusNode
