import NexusNode.App.PeerStatus

/-!
# The head lag of a chain

The readiness probe compares the height of the committed execution block with the height that
CometBFT reports at the trusted peer. The two count different things. A block of CometBFT whose
payload is rejected, or that has none, is committed without a new execution block, and a genesis
may start the two counts apart. So the distance of a node that is level with its peer is what the
genesis sets plus one for every such block, and it never goes back.

## Main definitions

* `ChainState`, `BlockCommits`: the committed blocks of a node
* `finalizedIn`: the block has a finalized payload

## Main results

* `run_height`: the execution height along the calls of a node
* `blocks_heights`: the two heights along a run of committed blocks
* `level_peer_ready_iff`: when a node that is level with its peer passes the check
-/

namespace NexusNode

open Program

/-! ## Committed blocks -/

/-- The state of a chain at one node. -/
structure ChainState where
  working : World
  /-- what queries see: nothing before the first commit -/
  committed : Store
  /-- the latest block of CometBFT, zero before the first commit -/
  cometHeight : ℕ

/-- The state after the genesis. -/
def ChainState.start (w : World) : ChainState := ⟨w, ⟨none, none⟩, 0⟩

/-- The calls of one committed block. As `ProcessProposal` makes sure, at most one of its
transactions is an execution payload. The first block has the initial height of the genesis. -/
structure BlockCommits (k : Keeper) (initialHeight : ℕ) (ops : List Op) (s : ChainState)
    (calls : List NodeCall) (s' : ChainState) : Prop where
  ops_eq : calls.map Call.op = ops
  onePayload : ops.countP Op.executes ≤ 1
  run : Run (Op.Returns k) s.working calls s'.working
  committed_eq : s'.committed = s'.working.store
  cometHeight_eq : s'.cometHeight =
    if s.cometHeight = 0 then initialHeight else s.cometHeight + 1

/-- A committed block. -/
abbrev BlockCall := Call (List Op) (List NodeCall) ChainState

/-- The payload of the block was finalized. -/
def finalizedIn (c : BlockCall) : Bool := c.result.any finalizes

/-! ## Heights -/

/-- **The execution height** counts the calls that finalize a payload. -/
theorem run_height {k : Keeper} {w t : World} {calls : List NodeCall}
    (h : Run (Op.Returns k) w calls t) {b : BlockState} (hb : w.store.blockState = some b) :
    ∃ b', t.store.blockState = some b' ∧
      b'.height = b.height + UInt64.ofNat (calls.countP finalizes) := by
  refine h.history (I := fun cs s => ∃ b', s.store.blockState = some b' ∧
    b'.height = b.height + UInt64.ofNat (cs.countP finalizes)) ⟨b, hb, by simp⟩ ?_
  rintro cs c hstep ⟨b₁, hb₁, hheight⟩
  have hmove := Op.returns_moves hstep
  rw [List.countP_append, List.countP_singleton]
  split_ifs at hmove ⊢ with hfin
  · obtain ⟨-, -, -, payload, b₂, b₃, -, -, hb₂, hb₃, hlink⟩ := hmove
    obtain rfl := Option.some.inj (hb₁.symm.trans hb₂)
    refine ⟨b₃, hb₃, ?_⟩
    rw [hlink.next, hheight, UInt64.ofNat_add, UInt64.add_assoc]
    rfl
  · exact ⟨b₁, hmove.trans hb₁, by rw [Nat.add_zero, hheight]⟩

theorem executes_of_finalizes {c : NodeCall} (h : finalizes c = true) : c.op.executes = true := by
  unfold finalizes at h
  split at h
  · rename_i hop _
    rw [hop]
    rfl
  · cases h

/-- One block adds one to the height, or nothing. -/
theorem BlockCommits.countP_finalizes {k : Keeper} {initialHeight : ℕ} {c : BlockCall}
    (h : BlockCommits k initialHeight c.op c.before c.result c.after) :
    c.result.countP finalizes = if finalizedIn c then 1 else 0 := by
  have hle : c.result.countP finalizes ≤ 1 := by
    refine le_trans ?_ h.onePayload
    rw [← h.ops_eq, List.countP_map]
    exact List.countP_mono_left fun _ _ => executes_of_finalizes
  unfold finalizedIn
  split_ifs with hany
  · have hpos : 0 < c.result.countP finalizes :=
      List.countP_pos_iff.mpr (List.any_eq_true.mp hany)
    omega
  · rw [List.countP_eq_zero]
    intro d hd hfin
    exact hany (List.any_eq_true.mpr ⟨d, hd, hfin⟩)

/-- **Two counts.** After the blocks of a run, CometBFT counts all of them, and the execution
height those with a finalized payload. -/
theorem blocks_heights {k : Keeper} {initialHeight : ℕ} (hinit : 1 ≤ initialHeight) {w : World}
    {b : BlockState} (hb : w.store.blockState = some b) {blocks : List BlockCall} {s : ChainState}
    (h : Run (BlockCommits k initialHeight) (.start w) blocks s) :
    (∃ b', s.working.store.blockState = some b' ∧
      b'.height = b.height + UInt64.ofNat (blocks.countP finalizedIn)) ∧
    (s.cometHeight = if blocks = [] then 0 else initialHeight - 1 + blocks.length) ∧
    (s.committed.blockState = if blocks = [] then none else s.working.store.blockState) := by
  refine h.history (I := fun cs t => (∃ b', t.working.store.blockState = some b' ∧
      b'.height = b.height + UInt64.ofNat (cs.countP finalizedIn)) ∧
    (t.cometHeight = if cs = [] then 0 else initialHeight - 1 + cs.length) ∧
    (t.committed.blockState = if cs = [] then none else t.working.store.blockState))
    ⟨⟨b, hb, by simp⟩, rfl, rfl⟩ ?_
  rintro cs c hstep ⟨⟨b₁, hb₁, hheight⟩, hcomet, -⟩
  have hne : cs ++ [c] ≠ [] := by simp
  refine ⟨?_, ?_, ?_⟩
  · obtain ⟨b₂, hb₂, hheight₂⟩ := run_height hstep.run hb₁
    refine ⟨b₂, hb₂, ?_⟩
    rw [hheight₂, hheight, hstep.countP_finalizes, List.countP_append, List.countP_singleton,
      UInt64.ofNat_add, UInt64.add_assoc]
  · rw [hstep.cometHeight_eq, hcomet, if_neg hne, List.length_append, List.length_singleton]
    cases cs with
    | nil =>
      simp only [if_true, List.length_nil]
      omega
    | cons d rest =>
      have hpos : initialHeight - 1 + (d :: rest).length ≠ 0 := by simp
      rw [if_neg (List.cons_ne_nil d rest), if_neg hpos, Nat.add_assoc]
  · rw [hstep.committed_eq, if_neg hne]

/-! ## Level with the peer -/

/-- A height that has grown by `n`, read as a signed number. -/
theorem toInt_height (a : UInt64) (n : ℕ) :
    (a + UInt64.ofNat n).toInt64.toInt = ((a.toNat : ℤ) + n).bmod (2 ^ 64) := by
  rw [toInt_toInt64, UInt64.toNat_add, UInt64.toNat_ofNat', Nat.add_mod_mod, Int.natCast_emod,
    Int.emod_bmod, Int.natCast_add]

/-- The blocks of a run that were committed without a new execution block. -/
def withoutPayload (blocks : List BlockCall) : ℕ := blocks.countP fun c => !finalizedIn c

theorem length_eq_finalized_add (blocks : List BlockCall) :
    blocks.length = blocks.countP finalizedIn + withoutPayload blocks := by
  unfold withoutPayload
  rw [List.length_eq_countP_add_countP finalizedIn]
  simp

/-- **A node level with its trusted peer.** After every accepted genesis and every run of
committed blocks, with a peer that reports the height of CometBFT at the node, the check of the
committed execution height passes exactly when the initial height, less one and less the height
of the genesis, plus the number of blocks without a finalized payload, is within the limit. The
first equivalence is for all heights, also those that wrap around when they are read as signed
numbers. -/
theorem level_peer_ready_iff {k : Keeper} {g : GenesisState} {w₀ w₁ : World}
    (hg : initGenesis g w₀ = (.ok (), w₁)) {initialHeight : ℕ} (hinit : 1 ≤ initialHeight)
    {blocks : List BlockCall} {s : ChainState}
    (hrun : Run (BlockCommits k initialHeight) (.start w₁) blocks s) {b : BlockState}
    (hb : s.committed.blockState = some b) {peer : Peer} {cfg : ReadinessProbeConfig} {h : Int64}
    (hpeer : PeerReports peer cfg h) (hlevel : h.toInt = s.cometHeight)
    (cometStatus : Option (Except String Bool)) :
    ((cfg.probeEnv peer cometStatus).checkTrustedPeerLag b.height = .ok () ↔
      |(initialHeight : ℤ) - 1 + blocks.length -
        ((genesisHeight g).toNat + blocks.countP finalizedIn : ℤ).bmod (2 ^ 64)| ≤
          cfg.headLagMaxBlocks.toNat) ∧
    ((genesisHeight g).toNat + blocks.countP finalizedIn < 2 ^ 63 →
      ((cfg.probeEnv peer cometStatus).checkTrustedPeerLag b.height = .ok () ↔
        |(initialHeight : ℤ) - 1 - (genesisHeight g).toNat + withoutPayload blocks| ≤
          cfg.headLagMaxBlocks.toNat)) := by
  obtain ⟨b₀, hb₀, hheight₀⟩ := initGenesis_height hg
  obtain ⟨⟨b', hb', hheight⟩, hcomet, hcommitted⟩ := blocks_heights hinit hb₀ hrun
  have hne : blocks ≠ [] := by
    rintro rfl
    cases hcommitted.symm.trans hb
  rw [if_neg hne] at hcomet hcommitted
  obtain rfl := Option.some.inj ((hcommitted.symm.trans hb).symm.trans hb')
  have h₀ : 0 ≤ h := Int64.le_iff_toInt_le.mpr (by
    rw [hlevel]
    exact Int.natCast_nonneg _)
  have hcheck := checkTrustedPeerLag_eq_ok_iff hpeer h₀ b.height cometStatus
  have hcast : (s.cometHeight : ℤ) = (initialHeight : ℤ) - 1 + blocks.length := by omega
  have hlocal : b.height.toInt64.toInt =
      ((genesisHeight g).toNat + blocks.countP finalizedIn : ℤ).bmod (2 ^ 64) := by
    rw [hheight, hheight₀, toInt_height]
  rw [hlocal, hlevel, hcast] at hcheck
  refine ⟨hcheck, fun hsmall => hcheck.trans ?_⟩
  rw [bmod_of_fits ⟨by omega, by omega⟩, length_eq_finalized_add]
  have hdistance : (initialHeight : ℤ) - 1 + ((blocks.countP finalizedIn +
      withoutPayload blocks : ℕ) : ℤ) - ((genesisHeight g).toNat + blocks.countP finalizedIn) =
      (initialHeight : ℤ) - 1 - (genesisHeight g).toNat + withoutPayload blocks := by
    omega
  rw [hdistance]

section Sample

open Wire

/-- The answer of a peer at the given height. -/
def statusAt (height : String) : Json :=
  .obj [("jsonrpc", .str "2.0"), ("result", .obj [("sync_info",
    .obj [("latest_block_height", .str height), ("catching_up", .bool false)])])]

/-- The text of that answer. -/
def statusBody (height : String) : Bytes :=
  goBytes ("\x7b\"jsonrpc\":\"2.0\",\"result\":\x7b\"sync_info\":\x7b\"latest_block_height\":\"" ++
    height ++ "\",\"catching_up\":false\x7d\x7d\x7d")

/-- A peer at the given height. -/
def peerAt (height : String) : Peer where
  parseText b := if b = statusBody height then .ok (statusAt height) else .error "invalid character"
  rawText _ := ""
  newRequest _ := .ok ()
  send _ _ := .ok ⟨200, .ok (statusBody height)⟩

def lagConfig : ReadinessProbeConfig := ⟨"http://peer:26657/status", "", 2⟩

theorem peerAt_reports {height : String} {h : Int64}
    (hparsed : parseCometStatusJSON (peerAt height).rawText
      ((peerAt height).parseText ((statusBody height).take (2 ^ 20))) = .ok ⟨some false, some h⟩) :
    PeerReports (peerAt height) lagConfig h where
  url := by decide +kernel
  reply := ⟨[], statusBody height, _, if_pos (by decide +kernel), rfl, rfl, hparsed, rfl⟩

/-- The chain after its first block, which has no payload. -/
def firstState : ChainState := ⟨genesisWorld, genesisWorld.store, 1⟩

theorem firstState_run (k : Keeper) :
    Run (BlockCommits k 1) (.start genesisWorld)
      [⟨[], [], .start genesisWorld, firstState⟩] firstState :=
  Run.nil.snoc ⟨rfl, by decide, .nil, rfl, rfl⟩

/-- The block of the given height, with the sample payload, on the given engine. -/
def payloadOp (eng : Engine) (height : Int64) : Op :=
  finalizeOp eng height 1700000000 (samplePayload [])

/-- The chain after that block. -/
def payloadState (eng : Engine) (height : Int64) (s : ChainState) : ChainState :=
  let w := ((payloadOp eng height).run cancunKeeper 1 s.working).2
  ⟨w, w.store, s.cometHeight + 1⟩

/-- The call of that block. -/
def payloadOpCall (eng : Engine) (height : Int64) (s : ChainState) : NodeCall :=
  ⟨payloadOp eng height, ((payloadOp eng height).run cancunKeeper 1 s.working).1, s.working,
    (payloadState eng height s).working⟩

/-- At every height the payload passes the checks on the block of the genesis. -/
theorem checkExecutionPayload_payloadOp {height : Int64} (hheight : 0 ≤ height) {store : Store}
    (hs : store.blockState = some genesisBlock) :
    checkExecutionPayload cancunKeeper (executeCtx height 1700000000)
      (payloadMsg (samplePayload [])) store = .ok (samplePayload []) := by
  have hvalid : PayloadValid cancunKeeper ⟨height, 1700000000, [1]⟩ genesisBlock
      (samplePayload []) :=
    { payloadValid_samplePayload [] [] cancunSpec .finalize with height_nonneg := hheight }
  exact checkExecutionPayload_eq_ok_iff.mpr ⟨rfl, jsonPayload_ne_nil _, _, hs,
    validatePayload_eq_ok_iff.mpr ⟨(samplePlatform_accAddressString _ []).symm,
      samplePlatform_unmarshalPayload _ [], hvalid⟩⟩

/-- A block whose call returns is committed. -/
theorem payloadOp_commits {eng : Engine} {height : Int64} {s : ChainState}
    (hpos : s.cometHeight ≠ 0)
    (hrun : ((payloadOp eng height).run cancunKeeper 1 s.working).1 ≠ .error .running) :
    BlockCommits cancunKeeper 1 [payloadOp eng height] s [payloadOpCall eng height s]
      (payloadState eng height s) :=
  ⟨rfl, by simp [Op.executes, payloadOp, finalizeOp], Run.nil.snoc ⟨1, rfl, hrun⟩, rfl,
    (if_neg hpos).symm⟩

/-- The block of a rejected payload leaves the stored head where it was. -/
theorem rejected_commits {height : Int64} (hheight : 0 ≤ height) {s : ChainState}
    (hpos : s.cometHeight ≠ 0) (hs : s.working.store.blockState = some genesisBlock) :
    BlockCommits cancunKeeper 1 [payloadOp invalidEngine height] s
        [payloadOpCall invalidEngine height s] (payloadState invalidEngine height s) ∧
      (payloadState invalidEngine height s).committed.blockState = some genesisBlock := by
  obtain ⟨w', hrun, hstore⟩ :=
    finalizeOp_refused rfl (checkExecutionPayload_payloadOp hheight hs)
  refine ⟨payloadOp_commits hpos ?_, ?_⟩
  · simp [payloadOp, hrun]
  · simp [payloadState, payloadOp, hrun, hstore, hs]

/-- The block of a payload that the engine takes moves the stored head to it. -/
theorem taken_commits {height : Int64} (hheight : 0 ≤ height) {s : ChainState}
    (hpos : s.cometHeight ≠ 0) (hs : s.working.store.blockState = some genesisBlock)
    (envelope : ExecutionPayloadEnvelope) :
    BlockCommits cancunKeeper 1 [payloadOp (validEngine envelope) height] s
        [payloadOpCall (validEngine envelope) height s]
        (payloadState (validEngine envelope) height s) ∧
      (payloadState (validEngine envelope) height s).committed.blockState =
        some (samplePayload []).blockState := by
  obtain ⟨w', hrun, hstate, -⟩ :=
    finalizeOp_taken rfl (checkExecutionPayload_payloadOp hheight hs) envelope
  refine ⟨payloadOp_commits hpos ?_, ?_⟩
  · simp [payloadOp, hrun]
  · simp [payloadState, payloadOp, hrun, hstate]

/-- After the first block, one with a rejected payload and one with a finalized payload, a node
at the height of its peer is ready: the two heads are two blocks apart. -/
theorem level_peer_ready_two_behind :
    let s := payloadState (validEngine ⟨samplePayload [], []⟩) 3
      (payloadState invalidEngine 2 firstState)
    (∃ blocks, Run (BlockCommits cancunKeeper 1) (.start genesisWorld) blocks s) ∧
      s.committed.blockState = some (samplePayload []).blockState ∧
      (lagConfig.probeEnv (peerAt "3") none).checkTrustedPeerLag
        (samplePayload []).blockState.height = .ok () := by
  intro s
  obtain ⟨hsecond, hs₂⟩ := @rejected_commits 2 (by decide) firstState (by decide) rfl
  obtain ⟨hthird, hs₃⟩ := @taken_commits 3 (by decide) (payloadState invalidEngine 2 firstState)
    (by decide) hs₂ ⟨samplePayload [], []⟩
  have hrun := ((firstState_run cancunKeeper).snoc hsecond).snoc hthird
  have hg : initGenesis sampleGenesis ⟨⟨none, none⟩, [], 0⟩ = (.ok (), genesisWorld) := rfl
  have hpeer : PeerReports (peerAt "3") lagConfig 3 := peerAt_reports (by decide +kernel)
  exact ⟨⟨_, hrun⟩, hs₃,
    (level_peer_ready_iff hg le_rfl hrun hs₃ hpeer rfl none).1.mpr (by decide +kernel)⟩

/-- After the first block and two blocks with rejected payloads, a node at the height of its
peer is reported as lagging. -/
theorem level_peer_lagging :
    let s := payloadState invalidEngine 3 (payloadState invalidEngine 2 firstState)
    ∃ blocks b h, initGenesis sampleGenesis ⟨⟨none, none⟩, [], 0⟩ = (.ok (), genesisWorld) ∧
      Run (BlockCommits cancunKeeper 1) (.start genesisWorld) blocks s ∧
      s.committed.blockState = some b ∧ PeerReports (peerAt "3") lagConfig h ∧
      h.toInt = s.cometHeight ∧ 2 ≤ lagConfig.headLagMaxBlocks ∧
      (lagConfig.probeEnv (peerAt "3") none).checkTrustedPeerLag b.height =
        .error ⟨.headLag, "3 blocks apart (local_committed=0 peer=3 max_abs=2)"⟩ := by
  intro s
  obtain ⟨hsecond, hs₂⟩ := @rejected_commits 2 (by decide) firstState (by decide) rfl
  obtain ⟨hthird, hs₃⟩ := @rejected_commits 3 (by decide) (payloadState invalidEngine 2 firstState)
    (by decide) hs₂
  exact ⟨_, genesisBlock, 3, rfl, ((firstState_run cancunKeeper).snoc hsecond).snoc hthird, hs₃,
    peerAt_reports (by decide +kernel), rfl, by decide, by decide +kernel⟩

end Sample

end NexusNode
