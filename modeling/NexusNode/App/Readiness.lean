import NexusNode.App.Versions

/-!
# Readiness probes beside the consensus

A readiness probe runs on a thread of its own. It reads the committed block, asks the local
CometBFT for its status and only then sends a forkchoice update with that block as head, safe and
finalized block. Meanwhile the consensus may finalize the next block, which updates the
forkchoice before the block is committed. A probe that was read before and sends after that
moves the engine back.

The model has the consensus thread, which makes one call of the node after the other in the
order of ABCI, and any number of probes. A call of the consensus works on its own state and its
forkchoice updates go out one by one, between those of the probes.

## Main definitions

* `runReadinessChecks`, `readinessChecksPhases`, `probeCommittedExecutionHead`: the probe
* `NodeState`, `Action`, `NodeStep`: the two kinds of threads, interleaved
* `Steady`: the condition on the steps under which heads do not go back

## Main results

* `Op.returns_names`, `runReadinessChecks_calls`: which block a forkchoice update names
* `NodeStep.headsOrdered`: what one step keeps
* `run_heads_ordered`: in a steady run the heads do not go back
-/

namespace NexusNode

open Program Proc

/-! ## The probe -/

inductive ReadinessErrorKind where
  | committedState
  | queryContext
  | cosmos
  | reth
  | headLag
  | trustedPeerConfig
  | trustedPeerRequest
  | trustedPeerResponse
  deriving DecidableEq

def ReadinessErrorKind.text : ReadinessErrorKind → String
  | .committedState => "committed_state"
  | .queryContext => "query_context"
  | .cosmos => "cosmos"
  | .reth => "reth"
  | .headLag => "head_lag"
  | .trustedPeerConfig => "trusted_peer_config"
  | .trustedPeerRequest => "trusted_peer_request"
  | .trustedPeerResponse => "trusted_peer_response"

/-- `readinessProbeError` -/
structure ReadinessError where
  kind : ReadinessErrorKind
  err : String
  deriving DecidableEq

def ReadinessError.text (e : ReadinessError) : String := e.kind.text ++ ": " ++ e.err

/-- What a probe learns outside the node and the engine: whether the local CometBFT is catching
up, when it has a client for it, and how far the trusted peer is from a height. -/
structure ProbeEnv where
  cometStatus : Option (Except String Bool)
  checkTrustedPeerLag : UInt64 → Except ReadinessError Unit

def probeCommittedExecutionHead (eng : Engine) (committed : BlockState) : Evm Unit := do
  let resp ← forkchoiceUpdatedV3 eng (forkchoiceAt committed.hash) none
  if resp.payloadStatus.status ≠ .valid then
    fail (.ext ("execution client forkchoice status " ++ resp.payloadStatus.status.text ++
      " (want VALID) head=" ++ committed.hash.hex))
  else pure ()

def checkLocalCometNotCatchingUp : Option (Except String Bool) → Except String Unit
  | none => .error "comet rpc client not configured for readiness"
  | some (.error e) => .error ("status: " ++ e)
  | some (.ok catchingUp) => if catchingUp then .error "catching_up=true" else .ok ()

def readinessChecksPhases (eng : Engine) (env : ProbeEnv) (committed : BlockState) :
    Proc World ReadinessError Unit := do
  mapError (ReadinessError.mk .cosmos) (ask fun _ => checkLocalCometNotCatchingUp env.cometStatus)
  mapError (fun e => ⟨.reth, e.text⟩) (probeCommittedExecutionHead eng committed)
  ask fun _ => env.checkTrustedPeerLag committed.height

/-- `runReadinessChecks`, with `query` the store of the latest height. -/
def runReadinessChecks (eng : Engine) (env : ProbeEnv) (query : Except String Store) :
    Proc World ReadinessError Unit :=
  match query with
  | .error e => fail ⟨.queryContext, "create query context: " ++ e⟩
  | .ok store =>
    match store.blockState with
    | none =>
      fail ⟨.committedState, "block state not initialized: " ++ EvmError.itemNotFound.text⟩
    | some committed => readinessChecksPhases eng env committed

/-- The probe makes no other call than a forkchoice update to the block it has read. -/
theorem readinessChecksPhases_calls (eng : Engine) (env : ProbeEnv) (committed : BlockState) :
    Within (LogsOnly fun e => ∃ reply,
        e = .forkchoiceUpdated ⟨forkchoiceAt committed.hash, none⟩ reply)
      (readinessChecksPhases eng env committed) := by
  refine .bind (.mapError (.ask _) _) fun _ => .bind (.mapError ?_ _) fun _ => .ask _
  refine .bind (fun w => ?_) fun resp => .ite (.fail _) (.pure _)
  rw [forkchoiceUpdatedV3_snd]
  exact logsOnly_record w ⟨_, rfl⟩ _

/-- The whole probe updates the forkchoice to the block of the store it has queried, if at all. -/
theorem runReadinessChecks_calls (eng : Engine) (env : ProbeEnv) (query : Except String Store) :
    Within (LogsOnly fun e => ∃ store committed reply, query = .ok store ∧
        store.blockState = some committed ∧
        e = .forkchoiceUpdated ⟨forkchoiceAt committed.hash, none⟩ reply)
      (runReadinessChecks eng env query) := by
  unfold runReadinessChecks
  cases query with
  | error e => exact .fail _
  | ok store =>
    cases hs : store.blockState with
    | none =>
      dsimp only
      rw [hs]
      exact .fail _
    | some committed =>
      dsimp only
      rw [hs]
      refine (readinessChecksPhases_calls eng env committed).mono fun w w' hlog => ?_
      refine hlog.imp fun e he => ?_
      obtain ⟨reply, he⟩ := he
      exact ⟨store, committed, reply, rfl, hs, he⟩

/-! ## The blocks that forkchoice updates name -/

/-- A forkchoice update, with the block that it is about. -/
structure HeadUpdate where
  update : ForkchoiceStateV1
  block : BlockState
  deriving DecidableEq

/-- The update names its block as head, safe and finalized block. -/
def HeadUpdate.Names (u : HeadUpdate) : Prop := u.update = forkchoiceAt u.block.hash

/-- The block that the forkchoice updates of an operation are about: a proposal starts from the
stored block, a finalization ends with the block of its payload. -/
def Op.block (k : Keeper) (w : World) : Op → Option BlockState
  | .prepareProposal .. => w.store.blockState
  | .executionPayload _ _ msg =>
    (k.platform.unmarshalPayload msg.executionPayload).toOption.map ExecutableData.blockState
  | _ => none

/-- The forkchoice updates in the log of `w'` behind that of `w`, which are about `block`. -/
def headUpdates (block : Option BlockState) (w w' : World) : List HeadUpdate :=
  (w'.log.drop w.log.length).filterMap fun
    | .forkchoiceUpdated call _ => block.map fun b => ⟨call.update, b⟩
    | _ => none

theorem mem_headUpdates {P : EngineEvent → Prop} {block : Option BlockState} {w w' : World}
    (h : LogsOnly P w w') {u : HeadUpdate} (hu : u ∈ headUpdates block w w') :
    ∃ call reply, P (.forkchoiceUpdated call reply) ∧ u.update = call.update ∧
      block = some u.block := by
  obtain ⟨es, hes, hP⟩ := h
  unfold headUpdates at hu
  rw [hes, List.drop_left] at hu
  obtain ⟨e, he, hu⟩ := List.mem_filterMap.mp hu
  cases e with
  | forkchoiceUpdated call reply =>
    obtain ⟨b, hb, rfl⟩ := Option.map_eq_some_iff.mp hu
    exact ⟨call, reply, hP _ he, rfl, hb⟩
  | newPayload call reply => cases hu
  | getPayload call reply => cases hu

/-- Every forkchoice update of a call of the node names the block of its operation. -/
theorem Op.returns_names {k : Keeper} {op : Op} {w w' : World} {r : Outcome EvmError Response}
    (h : op.Returns k w r w') :
    LogsOnly (fun e => ∀ call reply, e = .forkchoiceUpdated call reply →
      ∃ b, op.block k w = some b ∧ call.update = forkchoiceAt b.hash) w w' := by
  refine (Op.returns_calls h).imp fun e he call reply hcall => ?_
  subst hcall
  cases op with
  | prepareProposal eng maxCosmosTxs ctx req =>
    obtain ⟨state, hs, hproposal⟩ := he
    cases hproposal
    exact ⟨state, hs, rfl⟩
  | executionPayload eng ctx msg =>
    obtain ⟨state, payload, -, hdecode, -, hfinalize⟩ := he
    cases hfinalize
    exact ⟨payload.blockState, by simp [Op.block, hdecode, Except.toOption], rfl⟩
  | processProposal maxCosmosTxs ctx req => cases he
  | updateParams msg => cases he
  | exportGenesis => cases he

/-! ## Threads -/

/-- The state of a node with its threads. -/
structure NodeState where
  /-- what queries see -/
  committed : Store
  /-- the state that the consensus works on -/
  working : World
  /-- a payload was handled since the last commit -/
  finalized : Bool
  /-- the forkchoice updates of the current consensus call that are still to be sent -/
  outbox : List HeadUpdate
  /-- the blocks that the running probes have read -/
  probes : List BlockState
  /-- all forkchoice updates sent, in their order -/
  heads : List HeadUpdate

/-- A node that has sent nothing yet. -/
def NodeState.start (w : World) : NodeState := ⟨w.store, w, false, [], [], []⟩

inductive Action where
  /-- a call of the consensus runs -/
  | consensus (op : Op)
  /-- the next forkchoice update of that call goes out -/
  | send
  | commit
  /-- a probe reads the committed block -/
  | probeRead
  /-- a probe with the block it has read goes through its checks -/
  | probe (eng : Engine) (env : ProbeEnv) (block : BlockState)

/-- Whether the operation is a proposal. -/
def Op.proposes : Op → Bool
  | .prepareProposal .. => true
  | _ => false

/-- Whether the operation handles a payload. -/
def Op.executes : Op → Bool
  | .executionPayload .. => true
  | _ => false

/-- The steps of a node. The consensus makes one call at a time and proposes nothing between a
finalized block and its commit. Probes may read and send at any time. -/
inductive NodeStep (k : Keeper) : Action → NodeState → Unit → NodeState → Prop
  | consensus {s : NodeState} {op : Op} {r : Outcome EvmError Response} {w' : World} :
      s.outbox = [] → (s.finalized = true → op.proposes = false) → op.Returns k s.working r w' →
      NodeStep k (.consensus op) s () { s with
        working := w'
        finalized := s.finalized || op.executes
        outbox := headUpdates (op.block k s.working) s.working w' }
  | send {s : NodeState} {u : HeadUpdate} {rest : List HeadUpdate} :
      s.outbox = u :: rest →
      NodeStep k .send s () { s with outbox := rest, heads := s.heads ++ [u] }
  | commit {s : NodeState} :
      s.outbox = [] →
      NodeStep k .commit s () { s with committed := s.working.store, finalized := false }
  | probeRead {s : NodeState} {block : BlockState} :
      s.committed.blockState = some block →
      NodeStep k .probeRead s () { s with probes := block :: s.probes }
  | probe {s : NodeState} {eng : Engine} {env : ProbeEnv} {block : BlockState} {w w' : World}
      {o : Outcome ReadinessError Unit} :
      block ∈ s.probes → readinessChecksPhases eng env block w = (o, w') →
      NodeStep k (.probe eng env block) s () { s with
        probes := s.probes.erase block
        heads := s.heads ++ headUpdates (some block) w w' }

/-- The conditions on the steps of a run: where a payload is handled, the context is not done at
the end, the engine has refused no head on the way, and the stored height is below the largest
one; and a probe sends while the block it has read is still the one the consensus works on. -/
def Steady (c : Call Action Unit NodeState) : Prop :=
  match c.op with
  | .consensus (.executionPayload _ ctx _) =>
    ctx.goCtx.err c.after.working.clock = none ∧
      LogsOnly EngineEvent.TakesHead c.before.working c.after.working ∧
      ∀ b, c.before.working.store.blockState = some b → b.height.toNat + 1 < 2 ^ 64
  | .probe _ _ block => c.before.working.store.blockState = some block
  | _ => True

/-! ## Names -/

/-- Every forkchoice update, sent or still to be sent, names its block. -/
def AllNamed (s : NodeState) : Prop :=
  (∀ u ∈ s.outbox, u.Names) ∧ ∀ u ∈ s.heads, u.Names

theorem names_of_returns {k : Keeper} {op : Op} {w w' : World} {r : Outcome EvmError Response}
    (h : op.Returns k w r w') : ∀ u ∈ headUpdates (op.block k w) w w', u.Names := by
  intro u hu
  obtain ⟨call, reply, hcall, hupdate, hblock⟩ := mem_headUpdates (Op.returns_names h) hu
  obtain ⟨b, hb, hat⟩ := hcall call reply rfl
  obtain rfl := Option.some.inj (hblock.symm.trans hb)
  exact hupdate.trans hat

theorem names_of_probe {eng : Engine} {env : ProbeEnv} {block : BlockState} {w w' : World}
    {o : Outcome ReadinessError Unit} (h : readinessChecksPhases eng env block w = (o, w')) :
    ∀ u ∈ headUpdates (some block) w w', u.Names := by
  intro u hu
  have hcalls := readinessChecksPhases_calls eng env block w
  rw [h] at hcalls
  obtain ⟨call, reply, ⟨reply', heq⟩, hupdate, hblock⟩ := mem_headUpdates hcalls hu
  obtain rfl := Option.some.inj hblock
  cases heq
  exact hupdate

theorem NodeStep.allNamed {k : Keeper} {a : Action} {s s' : NodeState} {x : Unit}
    (h : NodeStep k a s x s') (hs : AllNamed s) : AllNamed s' := by
  obtain ⟨hout, hheads⟩ := hs
  cases h with
  | consensus _ _ hreturns => exact ⟨names_of_returns hreturns, hheads⟩
  | send hnext =>
    rw [hnext] at hout
    obtain ⟨hfirst, hrest⟩ := List.forall_mem_cons.mp hout
    exact ⟨hrest, List.forall_mem_append.mpr ⟨hheads, List.forall_mem_singleton.mpr hfirst⟩⟩
  | commit _ => exact ⟨hout, hheads⟩
  | probeRead _ => exact ⟨hout, hheads⟩
  | probe _ hprobe =>
    exact ⟨hout, List.forall_mem_append.mpr ⟨hheads, names_of_probe hprobe⟩⟩

/-! ## Order -/

/-- The heads are in the order of their heights, up to the block that the consensus works on,
and what is still to be sent is about that block. -/
structure HeadsOrdered (s : NodeState) : Prop where
  outbox : ∀ u ∈ s.outbox, s.working.store.blockState = some u.block
  bounded : ∀ u ∈ s.heads, ∃ b, s.working.store.blockState = some b ∧ u.block.height ≤ b.height
  ordered : s.heads.Pairwise fun u u' => u.block.height ≤ u'.block.height

/-- Updates about the block that the consensus works on can be added. -/
theorem HeadsOrdered.append {s : NodeState} (h : HeadsOrdered s) {us : List HeadUpdate}
    (hus : ∀ u ∈ us, s.working.store.blockState = some u.block) :
    (∀ u ∈ s.heads ++ us, ∃ b, s.working.store.blockState = some b ∧
      u.block.height ≤ b.height) ∧
    (s.heads ++ us).Pairwise fun u u' => u.block.height ≤ u'.block.height := by
  constructor
  · refine List.forall_mem_append.mpr ⟨h.bounded, fun u hu => ?_⟩
    exact ⟨u.block, hus u hu, UInt64.le_refl _⟩
  · refine List.pairwise_append.mpr ⟨h.ordered, ?_, fun u hu u' hu' => ?_⟩
    · refine List.pairwise_of_forall_mem_list fun u hu u' hu' => ?_
      rw [Option.some.inj ((hus u hu).symm.trans (hus u' hu'))]
      exact UInt64.le_refl _
    · obtain ⟨b, hb, hle⟩ := h.bounded u hu
      obtain rfl := Option.some.inj (hb.symm.trans (hus u' hu'))
      exact hle

/-- The consensus goes on to a block that is not lower, with updates about that block. -/
theorem HeadsOrdered.advance {s : NodeState} (h : HeadsOrdered s) {w' : World} {finalized : Bool}
    {us : List HeadUpdate} (hus : ∀ u ∈ us, w'.store.blockState = some u.block)
    (hup : ∀ b, s.working.store.blockState = some b →
      ∃ b', w'.store.blockState = some b' ∧ b.height ≤ b'.height) :
    HeadsOrdered { s with working := w', finalized := finalized, outbox := us } where
  outbox := hus
  bounded u hu := by
    obtain ⟨b, hb, hle⟩ := h.bounded u hu
    obtain ⟨b', hb', hle'⟩ := hup b hb
    exact ⟨b', hb', UInt64.le_trans hle hle'⟩
  ordered := h.ordered

/-- A payload that was handled leaves updates about the block it has stored, which is higher. A
payload that was refused leaves none. -/
theorem executionPayload_headUpdates {k : Keeper} {eng : Engine} {ctx : SdkContext}
    {msg : MsgExecutionPayload} {w w' : World} {r : Outcome EvmError Response}
    (hlive : ctx.goCtx.err w'.clock = none) (htaken : LogsOnly EngineEvent.TakesHead w w')
    (hmax : ∀ b, w.store.blockState = some b → b.height.toNat + 1 < 2 ^ 64)
    (h : Op.Returns k (.executionPayload eng ctx msg) w r w') :
    (∀ u ∈ headUpdates (Op.block k w (.executionPayload eng ctx msg)) w w',
      w'.store.blockState = some u.block) ∧
    ∀ b, w.store.blockState = some b →
      ∃ b', w'.store.blockState = some b' ∧ b.height ≤ b'.height := by
  have hnames := Op.returns_names h
  obtain ⟨attempts, hrun, hr⟩ := h
  unfold Op.run at hrun
  cases r with
  | ok response =>
    obtain ⟨⟨⟩, u, hexec, hu⟩ := bind_eq_ok_iff.mp hrun
    obtain ⟨-, rfl⟩ := Prod.mk.inj hu
    obtain ⟨payload, b, hdecode, hb, hb', hlink⟩ := executionPayload_linked hexec
    constructor
    · intro u hu
      obtain ⟨-, -, -, -, hblock⟩ := mem_headUpdates hnames hu
      rw [hb', ← hblock]
      simp [Op.block, hdecode, Except.toOption]
    · intro b₁ hb₁
      obtain rfl := Option.some.inj (hb.symm.trans hb₁)
      refine ⟨_, hb', ?_⟩
      rw [hlink.next, UInt64.le_iff_toNat_le, UInt64.toNat_add]
      have hlt := hmax b hb
      have : (1 : UInt64).toNat = 1 := rfl
      omega
  | error q =>
    rcases bind_stop_cases hrun with hexec | ⟨⟨⟩, u, -, hu⟩
    · have hstore := executionPayload_stop hexec
      have hcalls := executionPayload_stop_calls hlive htaken (fun hq => hr (congrArg _ hq)) hexec
      constructor
      · intro u hu
        obtain ⟨call, reply, ⟨call', reply', hcall⟩, -, -⟩ := mem_headUpdates hcalls hu
        cases hcall
      · intro b hb
        exact ⟨b, by rw [hstore, hb], UInt64.le_refl _⟩
    · simp at hu

/-- Any other operation leaves the block state alone, and its updates are about that block. -/
theorem headUpdates_of_not_executes {k : Keeper} {op : Op} {w w' : World}
    {r : Outcome EvmError Response} (hop : op.executes = false) (h : op.Returns k w r w') :
    w'.store.blockState = w.store.blockState ∧
      ∀ u ∈ headUpdates (op.block k w) w w', w'.store.blockState = some u.block := by
  have hnot : ∀ eng ctx msg, op ≠ .executionPayload eng ctx msg := by
    rintro eng ctx msg rfl
    cases hop
  have hnames := Op.returns_names h
  obtain ⟨attempts, hrun, -⟩ := h
  have hsame := Op.run_sameBlockState k attempts op hnot w
  rw [hrun] at hsame
  refine ⟨hsame, fun u hu => ?_⟩
  obtain ⟨-, -, -, -, hblock⟩ := mem_headUpdates hnames hu
  cases op with
  | prepareProposal eng maxCosmosTxs ctx req => exact hsame.trans hblock
  | executionPayload eng ctx msg => exact absurd rfl (hnot eng ctx msg)
  | processProposal maxCosmosTxs ctx req => cases hblock
  | updateParams msg => cases hblock
  | exportGenesis => cases hblock

/-- **One steady step** keeps the heads in order. -/
theorem NodeStep.headsOrdered {k : Keeper} {a : Action} {s s' : NodeState} {x : Unit}
    (h : NodeStep k a s x s') (hsteady : Steady ⟨a, x, s, s'⟩) (hs : HeadsOrdered s) :
    HeadsOrdered s' := by
  cases h with
  | @consensus _ op r w' _ _ hreturns =>
    cases hop : op.executes with
    | true =>
      cases op with
      | executionPayload eng ctx msg =>
        obtain ⟨hlive, htaken, hmax⟩ := hsteady
        obtain ⟨hus, hup⟩ := executionPayload_headUpdates hlive htaken hmax hreturns
        exact hs.advance hus hup
      | _ => cases hop
    | false =>
      obtain ⟨hsame, hus⟩ := headUpdates_of_not_executes hop hreturns
      refine hs.advance hus fun b hb => ⟨b, hsame.trans hb, UInt64.le_refl _⟩
  | send hnext =>
    have hout := hs.outbox
    rw [hnext] at hout
    obtain ⟨hfirst, hrest⟩ := List.forall_mem_cons.mp hout
    obtain ⟨hbounded, hordered⟩ := hs.append (List.forall_mem_singleton.mpr hfirst)
    exact ⟨hrest, hbounded, hordered⟩
  | commit _ => exact ⟨hs.outbox, hs.bounded, hs.ordered⟩
  | probeRead _ => exact ⟨hs.outbox, hs.bounded, hs.ordered⟩
  | @probe _ eng env block w w' o _ hprobe =>
    have hblock : ∀ u ∈ headUpdates (some block) w w',
        s.working.store.blockState = some u.block := by
      intro u hu
      have hcalls := readinessChecksPhases_calls eng env block w
      rw [hprobe] at hcalls
      obtain ⟨-, -, -, -, hb⟩ := mem_headUpdates hcalls hu
      exact Eq.trans hsteady hb
    obtain ⟨hbounded, hordered⟩ := hs.append hblock
    exact ⟨hs.outbox, hbounded, hordered⟩

/-! ## A sample -/

section Sample

open Wire

/-- CometBFT is in sync and there is no trusted peer. -/
def readyEnv : ProbeEnv := ⟨some (.ok false), fun _ => .ok ()⟩

/-- The block of the sample genesis. -/
def genesisBlock : BlockState := ⟨hexToHash "0x01", 0, 0⟩

def cancunKeeper : Keeper := sampleKeeper defaultConfig cancunSpec (samplePayload []) []

/-- A probe that has read the block of the genesis. -/
def genesisProbe : Action := .probe (validEngine ⟨samplePayload [], []⟩) readyEnv genesisBlock

/-- The updates of that probe and of the first payload. -/
def genesisHead : HeadUpdate := ⟨forkchoiceAt genesisBlock.hash, genesisBlock⟩

def firstHead : HeadUpdate :=
  ⟨forkchoiceAt (samplePayload []).blockHash, (samplePayload []).blockState⟩

/-- A node at the genesis, with the probes that have read it and what was sent. -/
def atGenesis (probes : List BlockState) (heads : List HeadUpdate) : NodeState :=
  ⟨genesisWorld.store, genesisWorld, false, [], probes, heads⟩

/-- A node that has finalized the first payload. -/
def afterFirst (outbox : List HeadUpdate) (probes : List BlockState) (heads : List HeadUpdate) :
    NodeState :=
  ⟨genesisWorld.store, (sampleOp.run cancunKeeper 1 genesisWorld).2, true, outbox, probes, heads⟩

theorem blockState_genesisWorld : genesisWorld.store.blockState = some genesisBlock := by
  decide +kernel

theorem genesisWorld_probeRead (heads : List HeadUpdate) :
    NodeStep cancunKeeper .probeRead (atGenesis [] heads) () (atGenesis [genesisBlock] heads) :=
  .probeRead blockState_genesisWorld

theorem genesisWorld_finalize (probes : List BlockState) (heads : List HeadUpdate) :
    NodeStep cancunKeeper (.consensus sampleOp) (atGenesis probes heads) ()
      (afterFirst [firstHead] probes heads) := by
  obtain ⟨w', hrun, -, hlog⟩ :=
    sampleOp_run (checkExecutionPayload_samplePayload cancunSpec [] []) (w := genesisWorld)
  have hblock : sampleOp.block cancunKeeper genesisWorld = some (samplePayload []).blockState :=
    congrArg (fun r => r.toOption.map ExecutableData.blockState)
      (samplePlatform_unmarshalPayload (samplePayload []) [])
  have hus : headUpdates (sampleOp.block cancunKeeper genesisWorld) genesisWorld w' =
      [firstHead] := by
    unfold headUpdates
    rw [hblock, hlog]
    rfl
  unfold afterFirst
  rw [← cancunKeeper] at hrun
  rw [← hus, hrun]
  exact .consensus rfl (fun h => by cases h) ⟨1, hrun, by simp⟩

/-- The probe sends its block, in whatever state the node is. -/
theorem genesisProbe_sends {s : NodeState} (hs : s.probes = [genesisBlock]) :
    NodeStep cancunKeeper genesisProbe s ()
      { s with probes := [], heads := s.heads ++ [genesisHead] } := by
  have hus : headUpdates (some genesisBlock) genesisWorld
      (readinessChecksPhases (validEngine ⟨samplePayload [], []⟩) readyEnv genesisBlock
        genesisWorld).2 = [genesisHead] := rfl
  have hprobes : s.probes.erase genesisBlock = [] := by simp [hs]
  rw [← hus, ← hprobes]
  exact .probe (by simp [hs]) rfl

end Sample

/-- **The heads of a run.** Every forkchoice update of a node names its block as head, safe and
finalized block. In a run whose steps are steady, whatever the interleaving, no update names a
block below that of an earlier one. -/
theorem run_heads_ordered {k : Keeper} {w : World} {t : NodeState}
    {cs : List (Call Action Unit NodeState)} (hrun : Run (NodeStep k) (.start w) cs t) :
    (∀ u ∈ t.heads, u.Names) ∧
    ((∀ c ∈ cs, Steady c) → t.heads.Pairwise fun u u' => u.block.height ≤ u'.block.height) := by
  constructor
  · have hstart : AllNamed (.start w) := ⟨by simp [NodeState.start], by simp [NodeState.start]⟩
    exact (hrun.invariant hstart fun _ _ _ _ hs hstep => hstep.allNamed hs).2
  · intro hsteady
    have hstart : HeadsOrdered (.start w) :=
      ⟨by simp [NodeState.start], by simp [NodeState.start], by simp [NodeState.start]⟩
    have hend := hrun.invariant_of_mem hstart fun c hc hstep hs =>
      hstep.headsOrdered (hsteady c hc) hs
    exact hend.ordered

section Sample

open Wire

/-- A probe that sends before the first payload is finalized. -/
def freshProbe : List (Call Action Unit NodeState) :=
  [⟨.probeRead, (), atGenesis [] [], atGenesis [genesisBlock] []⟩,
    ⟨genesisProbe, (), atGenesis [genesisBlock] [], atGenesis [] [genesisHead]⟩,
    ⟨.consensus sampleOp, (), atGenesis [] [genesisHead], afterFirst [firstHead] [] [genesisHead]⟩,
    ⟨.send, (), afterFirst [firstHead] [] [genesisHead], afterFirst [] [] [genesisHead, firstHead]⟩]

theorem steady_finalize (probes : List BlockState) (heads : List HeadUpdate) :
    Steady ⟨.consensus sampleOp, (), atGenesis probes heads,
      afterFirst [firstHead] probes heads⟩ := by
  obtain ⟨w', hrun, -, hlog⟩ :=
    sampleOp_run (checkExecutionPayload_samplePayload cancunSpec [] []) (w := genesisWorld)
  rw [← cancunKeeper] at hrun
  refine ⟨rfl, ?_, fun b hb => ?_⟩
  · show LogsOnly _ genesisWorld (sampleOp.run cancunKeeper 1 genesisWorld).2
    rw [hrun]
    rw [List.append_assoc] at hlog
    exact ⟨_, hlog, by simp [EngineEvent.TakesHead]⟩
  · obtain rfl := Option.some.inj (blockState_genesisWorld.symm.trans hb)
    decide

theorem steady_freshProbe : ∀ c ∈ freshProbe, Steady c := by
  simp only [freshProbe, List.forall_mem_cons, List.not_mem_nil, false_imp_iff, implies_true,
    and_true]
  exact ⟨trivial, blockState_genesisWorld, steady_finalize [] [genesisHead], trivial⟩

/-- The heads of that run go up. -/
theorem run_heads_ordered_fresh :
    Run (NodeStep cancunKeeper) (.start genesisWorld) freshProbe
        (afterFirst [] [] [genesisHead, firstHead]) ∧
      [genesisHead, firstHead].Pairwise fun u u' => u.block.height ≤ u'.block.height := by
  have hrun : Run (NodeStep cancunKeeper) (.start genesisWorld) freshProbe
      (afterFirst [] [] [genesisHead, firstHead]) :=
    (((Run.nil.snoc (genesisWorld_probeRead [])).snoc (genesisProbe_sends rfl)).snoc
      (genesisWorld_finalize [] [genesisHead])).snoc (.send rfl)
  exact ⟨hrun, (run_heads_ordered hrun).2 steady_freshProbe⟩

/-- A probe that has read the block of the genesis sends it after the first payload was
finalized: the head goes back. -/
theorem run_heads_back :
    ∃ cs t, Run (NodeStep cancunKeeper) (.start genesisWorld) cs t ∧
      cs.map Call.op = [.probeRead, .consensus sampleOp, .send, genesisProbe] ∧
      t.heads = [firstHead, genesisHead] ∧
      ¬ t.heads.Pairwise fun u u' => u.block.height ≤ u'.block.height := by
  have hrun := (((Run.nil.snoc (genesisWorld_probeRead [])).snoc
    (genesisWorld_finalize [genesisBlock] [])).snoc (NodeStep.send rfl)).snoc
    (genesisProbe_sends rfl)
  refine ⟨_, _, hrun, rfl, rfl, ?_⟩
  show ¬ [firstHead, genesisHead].Pairwise fun u u' => u.block.height ≤ u'.block.height
  decide

end Sample

end NexusNode
