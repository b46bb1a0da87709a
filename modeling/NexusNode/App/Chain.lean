import NexusNode.App.Proposal
import NexusNode.Evm.Finalize
import NexusNode.Program.Run

/-!
# The execution chain over whole runs

A running node is a sequence of completed calls: proposals are prepared and processed,
payloads are finalized, parameters updated and the state exported, in any order. The stored
block state is the head of a chain of execution blocks. Every call either leaves it alone or,
when it finalizes a payload, moves it to the block of that payload.

## Main definitions

* `Op`, `Op.run`, `Op.Returns`: the operations of a node and their completed calls
* `Linked payload b b'`: the payload leads from the block `b` to the block `b'`

## Main results

* `Op.returns_moves`: what one call does to the stored block state
* `chain_height`: the height along a chain
* `run_blockState_chain`: the stored states of a run form one chain
* `validatePayload_honest_iff`: when the payload of an honest proposer is valid
-/

namespace NexusNode

open Program Proc

/-! ## Operations -/

/-- The operations of a running node. Every call has its own context and its own engine. -/
inductive Op where
  | prepareProposal (eng : Engine) (maxCosmosTxs : Int) (ctx : SdkContext)
      (req : RequestPrepareProposal)
  | processProposal (maxCosmosTxs : Int) (ctx : SdkContext) (req : RequestProcessProposal)
  | executionPayload (eng : Engine) (ctx : SdkContext) (msg : MsgExecutionPayload)
  | updateParams (msg : MsgUpdateParams)
  | exportGenesis

inductive Response where
  | prepared (txs : List Bytes)
  | processed (status : ProposalStatus)
  | executed
  | updated
  | exported (genesis : GenesisState)
  deriving DecidableEq

/-- A call of an operation, with at most `attempts` rounds of each retry loop. -/
def Op.run (k : Keeper) (attempts : ℕ) : Op → Evm Response
  | .prepareProposal eng maxCosmosTxs ctx req => do
    return .prepared (← makePrepareProposalHandler k eng maxCosmosTxs ctx attempts req)
  | .processProposal maxCosmosTxs ctx req => do
    let w ← get
    return .processed (← ofOutcome (NexusNode.processProposal k maxCosmosTxs ctx req w.store))
  | .executionPayload eng ctx msg => do
    NexusNode.executionPayload k eng ctx attempts msg
    return .executed
  | .updateParams msg => do
    NexusNode.updateParams k msg
    return .updated
  | .exportGenesis => do
    return .exported (← NexusNode.exportGenesis)

/-- The call of the operation from `w` came back with `r` and left `w'`. -/
def Op.Returns (k : Keeper) (op : Op) (w : World) (r : Outcome EvmError Response) (w' : World) :
    Prop :=
  ∃ attempts, op.run k attempts w = (r, w') ∧ r ≠ .error .running

/-- A completed call of the node. -/
abbrev NodeCall := Call Op (Outcome EvmError Response) World

/-- The call finalized a payload. -/
def finalizes (c : NodeCall) : Bool :=
  match c.op, c.result with
  | .executionPayload .., .ok _ => true
  | _, _ => false

/-! ## Links -/

/-- The payload leads from the block `b` to the block `b'`: it has `b` as parent, the next
number and a later timestamp. -/
structure Linked (payload : ExecutableData) (b b' : BlockState) : Prop where
  parentHash : payload.parentHash = b.hash
  next : b' = ⟨payload.blockHash, b.height + 1, payload.timestamp⟩
  later : b.timestamp < payload.timestamp

/-- Two successive blocks. -/
def Extends (b b' : BlockState) : Prop := ∃ payload, Linked payload b b'

theorem PayloadValid.linked {k : Keeper} {hdr : Header} {b : BlockState} {payload : ExecutableData}
    (h : PayloadValid k hdr b payload) : Linked payload b payload.blockState :=
  ⟨h.parentHash, by rw [ExecutableData.blockState, h.number], h.newer⟩

/-- A call that finalized a payload: its message decodes to a payload that links the stored
states around the call. -/
def Finalized (k : Keeper) (c : NodeCall) : Prop :=
  ∃ eng ctx msg payload b b', c.op = .executionPayload eng ctx msg ∧
    k.platform.unmarshalPayload msg.executionPayload = .ok payload ∧
    c.before.store.blockState = some b ∧ c.after.store.blockState = some b' ∧ Linked payload b b'

/-! ## One call -/

/-- The block state is as it was. -/
def SameBlockState (w w' : World) : Prop := w'.store.blockState = w.store.blockState

instance : Std.Refl SameBlockState := ⟨fun _ => rfl⟩

instance : IsTrans World SameBlockState := ⟨fun _ _ _ h h' => Eq.trans h' h⟩

theorem SameStore.sameBlockState {w w' : World} (h : SameStore w w') : SameBlockState w w' :=
  congrArg Store.blockState h

theorem updateParams_sameBlockState (k : Keeper) (req : MsgUpdateParams) :
    Within SameBlockState (updateParams k req) := by
  unfold updateParams
  split
  · exact Within.fail _
  · split_ifs
    · exact Within.fail _
    · split
      · exact Within.fail _
      · exact Within.modify fun _ => rfl

theorem exportGenesis_sameStore : Within SameStore exportGenesis := by
  refine Within.bind Within.get fun w => ?_
  cases w.store.params with
  | none => exact Within.fail _
  | some params =>
    cases w.store.blockState with
    | none => exact Within.pure _
    | some b => exact Within.pure _

/-- A call that is not one of the message server leaves the block state alone. -/
theorem Op.run_sameBlockState (k : Keeper) (attempts : ℕ) (op : Op)
    (hop : ∀ eng ctx msg, op ≠ .executionPayload eng ctx msg) :
    Within SameBlockState (op.run k attempts) := by
  cases op with
  | prepareProposal eng maxCosmosTxs ctx req =>
    have hprepare := makePrepareProposalHandler_sameStore k eng maxCosmosTxs ctx attempts req
    exact Within.bind (hprepare.mono fun _ _ => SameStore.sameBlockState) fun _ => Within.pure _
  | processProposal maxCosmosTxs ctx req =>
    exact Within.bind Within.get fun _ => Within.bind (Within.ofOutcome _) fun _ => Within.pure _
  | executionPayload eng ctx msg => exact absurd rfl (hop eng ctx msg)
  | updateParams msg => exact Within.bind (updateParams_sameBlockState k msg) fun _ => Within.pure _
  | exportGenesis =>
    exact Within.bind (exportGenesis_sameStore.mono fun _ _ => SameStore.sameBlockState) fun _ =>
      Within.pure _

/-- A message that was finalized decodes to a payload that links the stored states. -/
theorem executionPayload_linked {k : Keeper} {eng : Engine} {ctx : SdkContext} {attempts : ℕ}
    {msg : MsgExecutionPayload} {w w' : World}
    (h : executionPayload k eng ctx attempts msg w = (.ok (), w')) :
    ∃ payload b, k.platform.unmarshalPayload msg.executionPayload = .ok payload ∧
      w.store.blockState = some b ∧ w'.store.blockState = some payload.blockState ∧
      Linked payload b payload.blockState := by
  obtain ⟨payload, hcheck, hstore⟩ := executionPayload_ok h
  obtain ⟨-, -, b, hb, hvalid⟩ := checkExecutionPayload_eq_ok_iff.mp hcheck
  obtain ⟨-, hdecode, hv⟩ := validatePayload_eq_ok_iff.mp hvalid
  exact ⟨payload, b, hdecode, hb, by rw [hstore], hv.linked⟩

/-- **One call** finalizes a payload that links the stored states around it, or leaves the
block state alone. -/
theorem Op.returns_moves {k : Keeper} {op : Op} {w w' : World} {r : Outcome EvmError Response}
    (h : op.Returns k w r w') :
    if finalizes ⟨op, r, w, w'⟩ then Finalized k ⟨op, r, w, w'⟩
    else w'.store.blockState = w.store.blockState := by
  obtain ⟨attempts, hrun, -⟩ := h
  by_cases hop : ∃ eng ctx msg, op = .executionPayload eng ctx msg
  · obtain ⟨eng, ctx, msg, rfl⟩ := hop
    unfold Op.run at hrun
    cases r with
    | ok response =>
      obtain ⟨⟨⟩, u, hexec, hu⟩ := bind_eq_ok_iff.mp hrun
      obtain ⟨-, rfl⟩ := Prod.mk.inj hu
      obtain ⟨payload, b, hdecode, hb, hb', hlinked⟩ := executionPayload_linked hexec
      exact ⟨eng, ctx, msg, payload, b, _, rfl, hdecode, hb, hb', hlinked⟩
    | error r =>
      rcases bind_stop_cases hrun with hexec | ⟨⟨⟩, u, -, hu⟩
      · exact congrArg Store.blockState (executionPayload_stop hexec)
      · simp at hu
  · -- no other operation writes the block state, whichever way it ends
    have hkeep := Op.run_sameBlockState k attempts op
      (fun eng ctx msg h => hop ⟨eng, ctx, msg, h⟩) w
    rw [hrun] at hkeep
    have hf : finalizes ⟨op, r, w, w'⟩ = false := by
      cases op with
      | executionPayload eng ctx msg => exact absurd ⟨eng, ctx, msg, rfl⟩ hop
      | _ => rfl
    simpa [hf, SameBlockState] using hkeep

/-! ## Chains -/

/-- Along a chain every block adds one to the height, up to the largest height. -/
theorem chain_height {b₀ : BlockState} {bs : List BlockState} (h : (b₀ :: bs).IsChain Extends)
    (hmax : b₀.height.toNat + bs.length < 2 ^ 64) {b : BlockState}
    (hb : (b₀ :: bs).getLast? = some b) : b.height.toNat = b₀.height.toNat + bs.length := by
  induction bs generalizing b₀ with
  | nil =>
    obtain rfl : b₀ = b := by simpa using hb
    simp
  | cons b₁ bs ih =>
    rw [List.isChain_cons_cons] at h
    obtain ⟨⟨payload, hlink⟩, hrest⟩ := h
    -- the bound on the length keeps the addition from wrapping around
    have hheight : b₁.height.toNat = b₀.height.toNat + 1 := by
      rw [hlink.next, UInt64.toNat_add]
      simp only [List.length_cons] at hmax
      have : (1 : UInt64).toNat = 1 := rfl
      omega
    have hlast : (b₁ :: bs).getLast? = some b := by simpa using hb
    rw [ih hrest (by simp only [List.length_cons] at hmax; omega) hlast, hheight,
      List.length_cons]
    omega

/-- The height of the execution block that a genesis names. -/
def genesisHeight (g : GenesisState) : UInt64 :=
  if g.currentBlockHash ≠ "" then g.currentBlockHeight else 0

/-- An accepted genesis stores a block state of that height. -/
theorem initGenesis_height {g : GenesisState} {w w' : World} (h : initGenesis g w = (.ok (), w')) :
    ∃ b, w'.store.blockState = some b ∧ b.height = genesisHeight g := by
  unfold initGenesis at h
  unfold genesisHeight
  obtain ⟨⟨⟩, u, -, h⟩ := bind_eq_ok_iff.mp h
  split_ifs at h with hrequired hcurrent
  · simp at h
  · obtain ⟨-, rfl⟩ := Prod.mk.inj h
    exact ⟨_, rfl, (if_pos hcurrent).symm⟩
  · obtain ⟨-, rfl⟩ := Prod.mk.inj h
    exact ⟨_, rfl, (if_neg hcurrent).symm⟩

theorem initGenesis_ok {g : GenesisState} {w w' : World} (h : initGenesis g w = (.ok (), w')) :
    ∃ b, w'.store.blockState = some b := by
  obtain ⟨b, hb, -⟩ := initGenesis_height h
  exact ⟨b, hb⟩

/-- **The execution chain.** In a run of any calls from an accepted genesis, the stored block
state changes only at the calls that finalize a payload, and these link the states around
them. So the states they store form one chain from the state of the genesis, and as long as
the heights last they are counted by it. -/
theorem run_blockState_chain {k : Keeper} {g : GenesisState} {w₀ w₁ t : World}
    {calls : List NodeCall} (hg : initGenesis g w₀ = (.ok (), w₁))
    (hrun : Run (Op.Returns k) w₁ calls t) :
    (∀ c ∈ calls, if finalizes c then Finalized k c
      else c.after.store.blockState = c.before.store.blockState) ∧
    ∃ b₀ bs, w₁.store.blockState = some b₀ ∧
      (calls.filter finalizes).map (fun c => c.after.store.blockState) = bs.map some ∧
      (b₀ :: bs).IsChain Extends ∧ t.store.blockState = (b₀ :: bs).getLast? ∧
      (b₀.height.toNat + (calls.filter finalizes).length < 2 ^ 64 →
        ∃ b, t.store.blockState = some b ∧
          b.height.toNat = b₀.height.toNat + (calls.filter finalizes).length) := by
  have hcalls : ∀ c ∈ calls, if finalizes c then Finalized k c
      else c.after.store.blockState = c.before.store.blockState :=
    fun c hc => (hrun.step_of_mem c hc).elim fun n h => Op.returns_moves ⟨n, h⟩
  refine ⟨hcalls, ?_⟩
  obtain ⟨b₀, hb₀⟩ := initGenesis_ok hg
  -- the run refines the abstract chain: its calls stutter or take one step of `Extends`
  have hmoves : ∀ c ∈ calls, Moves finalizes (fun w => w.store.blockState) Extends c := by
    intro c hc
    have hmove := hcalls c hc
    unfold Moves
    split_ifs at hmove ⊢
    · obtain ⟨-, -, -, payload, b, b', -, -, hb, hb', hlink⟩ := hmove
      exact ⟨b, b', hb, hb', payload, hlink⟩
    · exact hmove
  obtain ⟨bs, hbs, hchain, hlast⟩ := hrun.exists_chain finalizes _ Extends hb₀ hmoves
  refine ⟨b₀, bs, hb₀, hbs, hchain, hlast, fun hmax => ?_⟩
  have hlen : (calls.filter finalizes).length = bs.length := by
    simpa using congrArg List.length hbs
  rw [hlen] at hmax ⊢
  refine ⟨(b₀ :: bs).getLast (by simp), ?_, chain_height hchain hmax ?_⟩
  · rw [hlast, List.getLast?_eq_getLast_of_ne_nil (by simp)]
  · rw [List.getLast?_eq_getLast_of_ne_nil (by simp)]

section Sample

open Wire

/-- The genesis on the execution block with hash 1. -/
def sampleGenesis : GenesisState := ⟨{}, "0x01", "", 0, 0⟩

/-- The world after that genesis. -/
def genesisWorld : World := (initGenesis sampleGenesis ⟨⟨none, none⟩, [], 0⟩).2

/-- An engine that rejects every payload. -/
def invalidEngine : Engine :=
  { validEngine ⟨samplePayload [], []⟩ with newPayload := fun _ _ => .ok ⟨.invalid, none, none⟩ }

/-- The context of a finalization, in the block of the given height and time. -/
def executeCtx (height time : Int64) : SdkContext :=
  ⟨⟨height, time, [1]⟩, .finalize, .background, true⟩

/-- The call that finalizes a payload there. -/
def finalizeOp (eng : Engine) (height time : Int64) (payload : ExecutableData) : Op :=
  .executionPayload eng (executeCtx height time) (payloadMsg payload)

section Finalize

variable {k : Keeper} {w : World} {height time : Int64} {payload : ExecutableData}
  (hempty : payload.transactions = [])
  (hcheck : checkExecutionPayload k (executeCtx height time) (payloadMsg payload) w.store =
    .ok payload)

include hempty hcheck

/-- With an engine that takes everything, the call succeeds wherever its message passes the checks,
with one call of each kind. -/
theorem finalizeOp_taken (envelope : ExecutionPayloadEnvelope) :
    ∃ w', (finalizeOp (validEngine envelope) height time payload).run k 1 w =
        (.ok .executed, w') ∧
      w'.store.blockState = some payload.blockState ∧
      w'.log = w.log ++
        [.newPayload (payloadCall k (executeCtx height time).header payload [])
          (.ok ⟨.valid, none, none⟩)] ++
        [.forkchoiceUpdated ⟨forkchoiceAt payload.blockHash, none⟩
          (.ok ⟨⟨.valid, none, none⟩, some (FixedBytes.ofBytes 8 [1])⟩)] := by
  obtain ⟨w₁, hrounds, hlog⟩ := @engineRounds_of_taken k (validEngine envelope)
    (executeCtx height time) payload [] (show bytesToHash [1] ≠ zeroHash by decide)
    ⟨[], by rw [hempty]; rfl, rfl⟩ (by decide) w _ _ rfl rfl rfl rfl 0
  have hexecuted := executionPayload_of_rounds hcheck hrounds
  rw [setBlockState_apply] at hexecuted
  exact ⟨_, bind_of_ok hexecuted _, rfl, hlog⟩

/-- With an engine that rejects it, the call returns the status and leaves the store alone. -/
theorem finalizeOp_refused :
    ∃ w', (finalizeOp invalidEngine height time payload).run k 1 w =
      (.error (.error (.payloadStatus .invalid)), w') ∧ w'.store = w.store := by
  have hrefused := @executionPayload_of_refused k invalidEngine (executeCtx height time) _ _ w []
    _ _ hcheck (show bytesToHash [1] ≠ zeroHash by decide) ⟨[], by rw [hempty]; rfl, rfl⟩
    (by decide) rfl rfl 0
  exact ⟨_, bind_of_stop hrefused _, rfl⟩

end Finalize

/-- The call that finalizes the first payload. -/
def sampleOp : Op :=
  .executionPayload (validEngine ⟨samplePayload [], []⟩) (sampleCtx .finalize)
    (payloadMsg (samplePayload []))

/-- That call succeeds wherever its message passes the checks, with one call of each kind. -/
theorem sampleOp_run {k : Keeper} {w : World}
    (hcheck : checkExecutionPayload k (sampleCtx .finalize) (payloadMsg (samplePayload []))
      w.store = .ok (samplePayload [])) :
    ∃ w', sampleOp.run k 1 w = (.ok .executed, w') ∧
      w'.store.blockState = some (samplePayload []).blockState ∧
      w'.log = w.log ++
        [.newPayload (payloadCall k (sampleCtx .finalize).header (samplePayload []) [])
          (.ok ⟨.valid, none, none⟩)] ++
        [.forkchoiceUpdated ⟨forkchoiceAt (samplePayload []).blockHash, none⟩
          (.ok ⟨⟨.valid, none, none⟩, some (FixedBytes.ofBytes 8 [1])⟩)] :=
  finalizeOp_taken rfl hcheck _

/-- A keeper that knows the sample payload and a second one. -/
def pairKeeper (config : Config) (second : ExecutableData) : Keeper :=
  let sample := sampleKeeper config cancunSpec (samplePayload []) []
  { sample with platform :=
    { sample.platform with
      unmarshalPayload := fun b =>
        if b = jsonPayload second then .ok second else sample.platform.unmarshalPayload b
      unmarshalPayload_nil := by
        rw [if_neg (jsonPayload_ne_nil second).symm]
        exact sample.platform.unmarshalPayload_nil } }

/-- The keeper tells its two payloads apart. -/
theorem pairKeeper_unmarshalPayload (config : Config) {second : ExecutableData}
    (hne : jsonPayload (samplePayload []) ≠ jsonPayload second) :
    (pairKeeper config second).platform.unmarshalPayload (jsonPayload (samplePayload [])) =
        .ok (samplePayload []) ∧
      (pairKeeper config second).platform.unmarshalPayload (jsonPayload second) = .ok second :=
  ⟨(if_neg hne).trans (samplePlatform_unmarshalPayload (samplePayload []) []), if_pos rfl⟩

/-- The payload behind the sample payload. -/
def secondPayload : ExecutableData :=
  emptyPayload (hexToHash "0x02") (hexToHash "0x03") 2 1700000001 []

/-- The first payload is finalized in block 2. The second one is rejected by the engine in block 3
and finalized in block 4, and the chain has height 2. -/
theorem run_blockState_chain_two :
    ∃ calls t, Run (Op.Returns (pairKeeper defaultConfig secondPayload)) genesisWorld calls t ∧
      calls.map finalizes = [true, false, true] ∧
      ∃ b, t.store.blockState = some b ∧ b.height.toNat = 2 := by
  obtain ⟨hfirst, hsecond⟩ := pairKeeper_unmarshalPayload defaultConfig
    (show jsonPayload (samplePayload []) ≠ jsonPayload secondPayload by decide +kernel)
  have hcheck : ∀ {height : Int64} {store : Store}, 0 ≤ height →
      store.blockState = some (samplePayload []).blockState →
      checkExecutionPayload (pairKeeper defaultConfig secondPayload)
        (executeCtx height 1700000001) (payloadMsg secondPayload) store = .ok secondPayload :=
    fun hheight hstate => checkExecutionPayload_eq_ok_iff.mpr ⟨rfl, jsonPayload_ne_nil _, _,
      hstate, validatePayload_eq_ok_iff.mpr ⟨rfl, hsecond,
        ⟨rfl, Option.some_ne_none 0, Option.some_ne_none 0, rfl, rfl, rfl, by decide, hheight,
          show (1700000001 : UInt64) =
            afterPrevious (1700000001 : Int64).toUInt64 1700000000 by decide⟩⟩⟩
  obtain ⟨w₁, htaken, hstate₁, -⟩ := @sampleOp_run (pairKeeper defaultConfig secondPayload)
    genesisWorld (checkExecutionPayload_eq_ok_iff.mpr ⟨rfl, jsonPayload_ne_nil _, _, rfl,
      validatePayload_eq_ok_iff.mpr ⟨rfl, hfirst,
        ⟨rfl, Option.some_ne_none 0, Option.some_ne_none 0, rfl, rfl, rfl, by decide, by decide,
          rfl⟩⟩⟩)
  obtain ⟨w₂, hrefused, hstore⟩ := finalizeOp_refused rfl (@hcheck 3 _ (by decide) hstate₁)
  have hstate₂ : w₂.store.blockState = some (samplePayload []).blockState := by rw [hstore, hstate₁]
  obtain ⟨w₃, hexecuted, -, -⟩ :=
    finalizeOp_taken rfl (@hcheck 4 _ (by decide) hstate₂) ⟨secondPayload, []⟩
  have hrun : Run (Op.Returns (pairKeeper defaultConfig secondPayload)) genesisWorld _ w₃ :=
    ((Run.nil.snoc ⟨1, htaken, by simp⟩).snoc ⟨1, hrefused, by simp⟩).snoc ⟨1, hexecuted, by simp⟩
  have hg : initGenesis sampleGenesis ⟨⟨none, none⟩, [], 0⟩ = (.ok (), genesisWorld) := rfl
  obtain ⟨-, b₀, bs, hb₀, -, -, -, hheight⟩ := run_blockState_chain hg hrun
  obtain rfl := Option.some.inj hb₀
  have hfits : 0 + 2 < 2 ^ 64 := by decide
  exact ⟨_, w₃, hrun, rfl, hheight hfits⟩

end Sample

/-! ## Honest proposers -/

/-- The payload an engine builds when it honours the attributes of the forkchoice update. -/
structure HonestPayload (k : Keeper) (hdr : Header) (state : BlockState)
    (payload : ExecutableData) : Prop where
  parentHash : payload.parentHash = state.hash
  number : payload.number = state.height + 1
  timestamp : payload.timestamp = (payloadAttributes k hdr hdr.height.toUInt64 state).timestamp
  withdrawals : payload.withdrawals = some []
  blobGasUsed : payload.blobGasUsed ≠ none
  excessBlobGas : payload.excessBlobGas ≠ none
  witness : payload.executionWitness = none

/-- An honest payload extends the state exactly when its timestamp increases. -/
theorem HonestPayload.payloadValid_iff {k : Keeper} {hdr : Header} {state : BlockState}
    {payload : ExecutableData} (h : HonestPayload k hdr state payload) (hheight : 0 ≤ hdr.height) :
    PayloadValid k hdr state payload ↔
      TimestampRoom k.config hdr.height.toUInt64 state.timestamp := by
  -- all other fields are as the attributes ask for; only the order of timestamps is left
  rw [← lt_calculateTimestamp_iff k.config hdr.time]
  constructor
  · intro hv
    rw [← hv.timestamp]
    exact hv.newer
  · intro hlt
    exact ⟨h.withdrawals, h.blobGasUsed, h.excessBlobGas, h.witness, h.parentHash, h.number,
      h.timestamp ▸ hlt, hheight, h.timestamp⟩

/-- A block state that a run of the node from an accepted genesis stores. -/
def Reached (k : Keeper) (state : BlockState) : Prop :=
  ∃ g w₀ w₁ calls t, initGenesis g w₀ = (.ok (), w₁) ∧ Run (Op.Returns k) w₁ calls t ∧
    t.store.blockState = some state

/-- **When an honest payload is valid.** In every run under an accepted configuration, on every
block state it reaches and under every next header, the payload of an honest proposer passes
the validation exactly when the timestamp rule leaves room behind the stored timestamp: inside
the window the height plus the offset exceeds it, and outside it is not the largest one. -/
theorem validatePayload_honest_iff (k : Keeper) (raw : Option RawConfig) (state : BlockState)
    (ctx : SdkContext) (payload : ExecutableData) (msg : MsgExecutionPayload) :
    readConfig raw = .ok k.config → Reached k state →
    2 ≤ ctx.header.height → 0 ≤ ctx.header.time →
    msg.authority = k.platform.accAddressString k.platform.evmModuleAddress →
    k.platform.unmarshalPayload msg.executionPayload = .ok payload →
    HonestPayload k ctx.header state payload →
    (validatePayload k ctx msg state = .ok payload ↔
      TimestampRoom k.config ctx.header.height.toUInt64 state.timestamp) ∧
    (state.timestamp < calculateTimestamp k.config ctx.header.time ctx.header.height.toUInt64
        state.timestamp ↔
      TimestampRoom k.config ctx.header.height.toUInt64 state.timestamp) := by
  intro _ _ hheight _ hmsg hdecode honest
  have hnonneg : 0 ≤ ctx.header.height := Int64.le_trans (by decide) hheight
  refine ⟨?_, lt_calculateTimestamp_iff _ _ _ _⟩
  rw [validatePayload_eq_ok_iff, ← honest.payloadValid_iff hnonneg]
  simp [hmsg, hdecode]

section Window

open Wire

/-- The configuration file with a window from block height 3 on. -/
def windowFile : RawConfig := ⟨"", some ⟨"3", "", ""⟩, ""⟩

def windowConfig : Config := ⟨FixedBytes.ofBytes 20 [], some ⟨3, 0, none⟩, 0⟩

/-- The honest payload of block 3, on the block of the first payload. -/
def windowPayload : ExecutableData :=
  emptyPayload (hexToHash "0x02") (hexToHash "0x03") 2 3 []

/-- A keeper with the window that knows the payloads of blocks 2 and 3. -/
def windowKeeper : Keeper := pairKeeper windowConfig windowPayload

def thirdCtx : SdkContext := ⟨⟨3, 1700000001, [1]⟩, .processProposal, .background, true⟩

theorem readConfig_windowFile : readConfig (some windowFile) = .ok windowConfig := by
  decide +kernel

theorem windowKeeper_unmarshalPayload :
    windowKeeper.platform.unmarshalPayload (jsonPayload (samplePayload [])) =
        .ok (samplePayload []) ∧
      windowKeeper.platform.unmarshalPayload (jsonPayload windowPayload) = .ok windowPayload :=
  pairKeeper_unmarshalPayload windowConfig (by decide +kernel)

/-- An honest payload outside a window is valid: the one of block 2, below the window. -/
theorem validatePayload_honest_below_window :
    validatePayload windowKeeper (sampleCtx .processProposal) (payloadMsg (samplePayload []))
      ⟨hexToHash "0x01", 0, 0⟩ = .ok (samplePayload []) :=
  (validatePayload_honest_iff windowKeeper (some windowFile) _ (sampleCtx .processProposal) _ _
    readConfig_windowFile
    ⟨sampleGenesis, ⟨⟨none, none⟩, [], 0⟩, genesisWorld, [], genesisWorld, rfl, .nil, rfl⟩
    (by decide) (by decide) rfl windowKeeper_unmarshalPayload.1
    ⟨rfl, rfl, by decide, rfl, Option.some_ne_none 0, Option.some_ne_none 0, rfl⟩).1.mpr
    (by decide)

/-- Where the window is entered, an honest payload is refused: block 2 stored its block time,
and the timestamp of block 3 is its height. -/
theorem validatePayload_refuses_honest_at_window :
    readConfig (some windowFile) = .ok windowConfig ∧
    Reached windowKeeper ⟨hexToHash "0x02", 1, 1700000000⟩ ∧
    HonestPayload windowKeeper thirdCtx.header ⟨hexToHash "0x02", 1, 1700000000⟩ windowPayload ∧
    validatePayload windowKeeper thirdCtx (payloadMsg windowPayload)
        ⟨hexToHash "0x02", 1, 1700000000⟩ =
      .error (.error (.oldTimestamp 1700000000 3)) := by
  have hsample : HonestPayload windowKeeper (sampleCtx .finalize).header sampleHead
      (samplePayload []) :=
    ⟨rfl, rfl, by decide, rfl, Option.some_ne_none 0, Option.some_ne_none 0, rfl⟩
  have hcheck : checkExecutionPayload windowKeeper (sampleCtx .finalize)
      (payloadMsg (samplePayload [])) genesisWorld.store = .ok (samplePayload []) :=
    checkExecutionPayload_eq_ok_iff.mpr ⟨rfl, jsonPayload_ne_nil _, sampleHead, rfl,
      validatePayload_eq_ok_iff.mpr ⟨rfl, windowKeeper_unmarshalPayload.1,
        (hsample.payloadValid_iff (by decide)).mpr (by decide)⟩⟩
  obtain ⟨w', hexecuted, hstate, -⟩ := sampleOp_run hcheck
  have hrun : Run (Op.Returns windowKeeper) genesisWorld _ w' :=
    Run.nil.snoc ⟨1, hexecuted, by simp⟩
  refine ⟨readConfig_windowFile,
    ⟨sampleGenesis, ⟨⟨none, none⟩, [], 0⟩, genesisWorld, _, w', rfl, hrun, hstate⟩,
    ⟨rfl, rfl, by decide, rfl, Option.some_ne_none 0, Option.some_ne_none 0, rfl⟩, ?_⟩
  have hauthority : ¬ (payloadMsg windowPayload).authority ≠
      windowKeeper.platform.accAddressString windowKeeper.platform.evmModuleAddress :=
    not_not.mpr rfl
  have hdecode : windowKeeper.platform.unmarshalPayload
      (payloadMsg windowPayload).executionPayload = .ok windowPayload :=
    windowKeeper_unmarshalPayload.2
  unfold validatePayload
  dsimp only
  rw [if_neg hauthority, hdecode]
  decide +kernel

end Window

end NexusNode
