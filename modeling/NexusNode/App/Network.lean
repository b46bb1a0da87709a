import Mathlib.Data.List.Flatten
import Mathlib.Data.List.Forall2
import NexusNode.App.Chain
import NexusNode.App.FinalizeBlock
import NexusNode.App.Readiness
import NexusNode.Program.Replica

/-!
# A network of nodes

Nodes run the same application over engines of their own. The consensus decides one block after
the other, each after a node that had committed the blocks before it accepted it as a proposal.
Every node executes the decided blocks in its own time, each when the app hash in its header is
that of the node, prepares proposals and answers readiness probes in between, and may crash at any
time. What was executed and not committed is then lost, and executed again; calls to the engine
stay made. Nodes may be configured with different fee recipients and fork schedules.

## Main definitions

* `Network`, `Network.replication`: the nodes, and what they do with blocks
* `Network.Lenient`: no engine refuses anything
* `ChainCall`: calls about blocks of the decided chain

## Main results

* `network_agreement`: nodes never disagree
* `network_lockstep`: the execution chain of every node is that of the decided payloads
* `network_engine_logs`: what the engines are told
-/

namespace NexusNode

open Program Proc

variable {I R : Type}

/-- The nodes of a network. `engine i` are the ways in which the engine of a node may behave
during a call. -/
structure Network (I R : Type) where
  rules : Keeper
  recipient : I → EthAddress
  chainSpec : I → ChainSpec
  modules : Modules rules.platform R
  appHash : MultiStore R → Bytes
  maxCosmosTxs : Int
  engine : I → Engine → Prop

/-- The keeper of a node. -/
def Network.keeper (net : Network I R) (i : I) : Keeper where
  platform := net.rules.platform
  config := { net.rules.config with suggestedFeeRecipient := net.recipient i }
  chainSpec := net.chainSpec i
  authority := net.rules.authority

/-- The log grew from `l` to `l'`, by some of the calls that lead to `log`. -/
def Outside.Between (l : Outside) (log : List EngineEvent) (l' : Outside) : Prop :=
  l.log <+: l'.log ∧ l'.log <+: log

/-- What nodes do with blocks. Calls may be cut short, so that only the first of their calls to
the engine are made. -/
def Network.replication (net : Network I R) : Replication I Block (MultiStore R) Outside where
  accepts i n s b := b.header.height.toInt = n + 1 ∧ b.header.appHash = net.appHash s ∧
    ∃ ctx votes, ctx.header = b.header ∧ processProposal (net.keeper i) net.maxCosmosTxs ctx
      ⟨b.header.height, b.txs, votes⟩ s.evm = .ok .accept
  applies i b s l s' l' := b.header.appHash = net.appHash s ∧ ∃ eng attempts, net.engine i eng ∧
    finalizeBlock (net.keeper i) eng net.modules (finalizeCtx b.header) attempts b.txs ⟨s, l⟩ =
      (.ok (), ⟨s', l'⟩)
  stops i b s l l' := b.header.appHash = net.appHash s ∧ ∃ eng attempts, net.engine i eng ∧
    l.Between (finalizeBlock (net.keeper i) eng net.modules (finalizeCtx b.header) attempts b.txs
      ⟨s, l⟩).2.out.log l'
  works i s l l' := ∃ eng, net.engine i eng ∧
    ((∃ ctx attempts req, l.Between (makePrepareProposalHandler (net.keeper i) eng
        net.maxCosmosTxs ctx attempts req ⟨s.evm, l.log, l.clock⟩).2.log l') ∨
      ∃ env, l.Between
        (runReadinessChecks eng env (.ok s.evm) ⟨s.evm, l.log, l.clock⟩).2.log l')

/-- No engine refuses a block or a head. -/
def Network.Lenient (net : Network I R) : Prop := ∀ i eng, net.engine i eng → eng.Lenient

section Runs

variable [DecidableEq I] (net : Network I R)

/-- The runs of a network from one genesis state. -/
abbrev Network.Runs (s₀ : MultiStore R) (l₀ : I → Outside)
    (calls : List (Call (NetAction I Block) Unit (Net I Block (MultiStore R) Outside)))
    (n : Net I Block (MultiStore R) Outside) : Prop :=
  Run (NetStep net.replication) (Net.start s₀ l₀) calls n

end Runs

/-! ## One block -/

section Blocks

variable {net : Network I R}

/-- The recipient and the fork schedule do not matter to the validity of blocks. -/
theorem Block.Accepted.of_keeper {i j : I} {b : Block} {store : Store}
    (h : b.Accepted (net.keeper i) store) : b.Accepted (net.keeper j) store := by
  cases h with
  | first hh htxs => exact .first hh htxs
  | next hh htxs hcs he hs hv => exact .next hh htxs hcs he hs hv

theorem Network.accepted {i : I} (j : I) {n : ℕ} {s : MultiStore R} {b : Block}
    (h : net.replication.accepts i n s b) : b.Accepted (net.keeper j) s.evm := by
  obtain ⟨-, -, ctx, votes, hctx, haccept⟩ := h
  exact (accepted_of_processProposal hctx haccept).of_keeper

/-- Every node makes the same state of an accepted block. -/
theorem Network.next_of_applies (hlenient : net.Lenient) (i j : I) (n : ℕ) (b : Block)
    (s : MultiStore R) (l : Outside) (s' : MultiStore R) (l' : Outside)
    (haccepts : net.replication.accepts i n s b)
    (happlies : net.replication.applies j b s l s' l') : nextState net.modules b s = some s' := by
  obtain ⟨-, eng, attempts, heng, hrun⟩ := happlies
  exact finalizeBlock_next (k := net.keeper j) (m := net.modules) (s := ⟨s, l⟩) (t := ⟨s', l'⟩)
    (net.accepted j haccepts) (hlenient j eng heng) hrun

/-- A node whose engine takes everything executes an accepted block that can be sent. -/
theorem Network.exists_applies {i j : I} {eng : Engine} (hi : net.engine i eng)
    (heng : eng.AlwaysValid) {n : ℕ} {b : Block} {s : MultiStore R}
    (haccepts : net.replication.accepts j n s b) (hsend : b.Sendable net.rules.platform)
    (hnext : nextState net.modules b s ≠ none) (l : Outside) :
    ∃ s' l', net.replication.applies i b s l s' l' := by
  obtain ⟨t, ht⟩ := finalizeBlock_of_alwaysValid (k := net.keeper i) (m := net.modules)
    (s := ⟨s, l⟩) (net.accepted i haccepts) heng hsend hnext
  obtain ⟨-, happ, -⟩ := haccepts
  exact ⟨t.app, t.out, happ, eng, 1, hi, ht⟩

end Blocks

/-! ## Agreement -/

section Agreement

variable [DecidableEq I] {net : Network I R} {s₀ : MultiStore R} {l₀ : I → Outside}
  {calls : List (Call (NetAction I Block) Unit (Net I Block (MultiStore R) Outside))}
  {n : Net I Block (MultiStore R) Outside}

theorem Network.runs_replays (hlenient : net.Lenient) (hrun : net.Runs s₀ l₀ calls n) :
    n.Replays net.replication (nextState net.modules) s₀ :=
  Run.replays (net.next_of_applies hlenient) hrun

/-- **Nodes never disagree.** In every interleaving of proposals, probes, executions, commits
and crashes, with engines that may fail to answer but refuse nothing, nodes that have committed
equally many blocks are in the same state, a node that has executed the next block is in the
state that others have committed for it, and the app hash in the header of every decided block
is that of every node that is to execute it. -/
theorem network_agreement (hlenient : net.Lenient) (hrun : net.Runs s₀ l₀ calls n) :
    (∀ i j, (n.replica i).height = (n.replica j).height →
      (n.replica i).committed = (n.replica j).committed) ∧
    (∀ i j s, (n.replica i).working = some s →
      (n.replica j).height = (n.replica i).height + 1 → s = (n.replica j).committed) ∧
    ∀ i b, n.decided[(n.replica i).height]? = some b →
      b.header.appHash = net.appHash (n.replica i).committed := by
  have hreplays := net.runs_replays hlenient hrun
  refine ⟨fun i j => hreplays.agree, fun i j s hs hheight => ?_, fun i b hb => ?_⟩
  · -- both states come from the same decided blocks
    obtain ⟨b, hb, hnext⟩ := (hreplays.replica i).working s hs
    have hj := (hreplays.replica j).committed
    rw [hheight, replay_take_succ _ _ hb, (hreplays.replica i).committed] at hj
    exact Option.some.inj (hnext.symm.trans hj)
  · obtain ⟨j, -, happ, -⟩ := (hreplays.due_committed hb).accepted
    exact happ

end Agreement

section Sample

open Wire

/-- Modules that do nothing. -/
def idleModules (p : Platform) : Modules p Unit where
  beginBlock _ s := .ok s
  deliverTx _ _ s := s
  endBlock _ s := .ok s
  beginBlock_keeps h := by rw [Except.ok.inj h]
  deliverTx_keeps _ := rfl
  endBlock_keeps h := by rw [Except.ok.inj h]

/-- Two nodes with different fork schedules, whose engines take some time to answer. -/
def sampleNetwork : Network Bool Unit where
  rules := sampleKeeper defaultConfig cancunSpec (samplePayload []) []
  recipient _ := FixedBytes.ofBytes 20 []
  chainSpec i := if i then pragueSpec else cancunSpec
  modules := idleModules _
  appHash _ := [1]
  maxCosmosTxs := 1
  engine _ eng := eng = flakyEngine ∨ eng = validEngine ⟨samplePayload [], []⟩

def firstBlock : Block := ⟨⟨1, 1690000000, [1]⟩, []⟩

/-- The block of the sample payload. -/
def secondBlock : Block :=
  ⟨(sampleCtx .finalize).header, [encodePayloadTx (payloadMsg (samplePayload []))]⟩

def sampleApp : MultiStore Unit := ⟨sampleStore, ()⟩

theorem lenient_sampleNetwork : sampleNetwork.Lenient := by
  rintro i eng (rfl | rfl)
  · exact lenient_flakyEngine
  · exact (alwaysValid_validEngine _).lenient

theorem accepts_firstBlock (i : Bool) :
    sampleNetwork.replication.accepts i 0 sampleApp firstBlock :=
  ⟨rfl, rfl, ⟨firstBlock.header, .processProposal, .background, true⟩, [], rfl, rfl⟩

theorem accepts_secondBlock (i : Bool) :
    sampleNetwork.replication.accepts i 1 sampleApp secondBlock :=
  ⟨rfl, rfl, sampleCtx .processProposal, [⟨10, .commit⟩], rfl,
    processProposal_sampleKeeper 1 rfl (payloadValid_samplePayload [] []
      (if i then pragueSpec else cancunSpec) .processProposal) length_sampleTx (by decide)
      (by decide)⟩

theorem payload_secondBlock :
    secondBlock.payload sampleNetwork.rules.platform = some (samplePayload []) := by
  have hmsg := (payloadTx_samplePlatform (samplePayload []) []).payloadMessage
  have hdecode : (samplePlatform (samplePayload []) []).unmarshalPayload
      (payloadMsg (samplePayload [])).executionPayload = .ok (samplePayload []) :=
    samplePlatform_unmarshalPayload (samplePayload []) []
  unfold Block.payload secondBlock sampleNetwork sampleKeeper
  simp [hmsg, hdecode, Except.toOption]

theorem sendable_sample : ∀ b ∈ [firstBlock, secondBlock],
    b.Sendable sampleNetwork.rules.platform := by
  intro b hb payload hpayload
  rcases List.mem_pair.mp hb with rfl | rfl
  · cases hpayload
  · obtain rfl := Option.some.inj (payload_secondBlock.symm.trans hpayload)
    exact ⟨by decide, sendable_of_no_transactions _ rfl⟩

/-- The modules of the sample do not fail. -/
theorem nextState_sample_ne_none (b : Block) (s : MultiStore Unit) :
    nextState sampleNetwork.modules b s ≠ none := by
  simp [nextState, sampleNetwork, idleModules, Except.toOption]

theorem replay_sample_ne_none (ds : List Block) :
    replay (nextState sampleNetwork.modules) sampleApp ds ≠ none := by
  induction ds using List.reverseRecOn with
  | nil => simp
  | append_singleton ds b ih =>
    obtain ⟨s, hs⟩ := Option.ne_none_iff_exists'.mp ih
    rw [replay_concat, hs]
    exact nextState_sample_ne_none b s

/-- A node of the sample catches up with decided blocks among the two. -/
theorem exists_sample_caught_up {n : Net Bool Block (MultiStore Unit) Outside}
    (h : n.Replays sampleNetwork.replication (nextState sampleNetwork.modules) sampleApp)
    (hds : ∀ b ∈ n.decided, b ∈ [firstBlock, secondBlock]) (i : Bool) :
    ∃ calls n', Run (NetStep sampleNetwork.replication) n calls n' ∧ n'.decided = n.decided ∧
      (n'.replica i).height = n.decided.length := by
  refine h.exists_caught_up (sampleNetwork.next_of_applies lenient_sampleNetwork) ?_
    (replay_sample_ne_none _)
  intro m b s l hdue _ hne
  obtain ⟨j, hj⟩ := hdue.accepted
  exact sampleNetwork.exists_applies (.inr rfl) (alwaysValid_validEngine _) hj
    (sendable_sample b (hds b (List.mem_of_getElem? hdue.command))) hne l

/-- One node decides and executes the first block. -/
theorem exists_first_run : ∃ calls n, sampleNetwork.Runs sampleApp (fun _ => ⟨[], 0⟩) calls n ∧
    n.decided = [firstBlock] ∧ (n.replica false).height = 1 ∧
    (n.replica false).committed = sampleApp := by
  have hrun₁ : sampleNetwork.Runs sampleApp (fun _ => ⟨[], 0⟩) _ _ :=
    Run.nil.snoc (NetStep.decide (i := false) rfl (accepts_firstBlock false))
  obtain ⟨calls₂, n, hrun₂, hdecided, hheight⟩ := exists_sample_caught_up
    (sampleNetwork.runs_replays lenient_sampleNetwork hrun₁) (by simp [Net.start]) false
  have hrun := hrun₁.trans hrun₂
  have hcommitted := ((sampleNetwork.runs_replays lenient_sampleNetwork hrun).replica
    false).committed
  rw [hheight, hdecided] at hcommitted
  exact ⟨_, n, hrun, hdecided, hheight, (Option.some.inj hcommitted).symm⟩

/-- Both nodes come to execute both blocks. -/
theorem exists_sample_run : ∃ calls n, sampleNetwork.Runs sampleApp (fun _ => ⟨[], 0⟩) calls n ∧
    n.decided = [firstBlock, secondBlock] ∧ ∀ i, (n.replica i).height = 2 := by
  obtain ⟨calls₂, n₂, hrun₂, hdecided₂, hheight₂, hstate⟩ := exists_first_run
  have hrun₃ := hrun₂.snoc (NetStep.decide (i := false) (c := secondBlock)
    (by rw [hheight₂, hdecided₂]; rfl) (by
      rw [hdecided₂, hstate]
      exact accepts_secondBlock false))
  have hdecided₃ : n₂.decided ++ [secondBlock] = [firstBlock, secondBlock] := by
    rw [hdecided₂]
    rfl
  obtain ⟨calls₄, n₄, hrun₄, hdecided₄, hheight₄⟩ := exists_sample_caught_up
    (sampleNetwork.runs_replays lenient_sampleNetwork hrun₃) (by simp [hdecided₃]) false
  rw [hdecided₃] at hdecided₄ hheight₄
  have hrun₄ := hrun₃.trans hrun₄
  obtain ⟨calls₅, n₅, hrun₅, hdecided₅, hheight₅⟩ := exists_sample_caught_up
    (sampleNetwork.runs_replays lenient_sampleNetwork hrun₄) (by simp [hdecided₄]) true
  rw [hdecided₄] at hdecided₅ hheight₅
  have hrun₅' := hrun₄.trans hrun₅
  refine ⟨_, n₅, hrun₅', hdecided₅, fun i => ?_⟩
  cases i with
  | true => exact hheight₅
  | false =>
    have hle := ((sampleNetwork.runs_replays lenient_sampleNetwork hrun₅').replica false).height
    rw [hdecided₅] at hle
    exact Nat.le_antisymm hle (Nat.le_trans hheight₄.ge (hrun₅.height_mono false))

/-- The two nodes end in the same state. -/
theorem network_agreement_sample :
    ∃ calls n, sampleNetwork.Runs sampleApp (fun _ => ⟨[], 0⟩) calls n ∧
      n.decided = [firstBlock, secondBlock] ∧
      (n.replica false).committed = (n.replica true).committed := by
  obtain ⟨calls, n, hrun, hdecided, hheight⟩ := exists_sample_run
  exact ⟨calls, n, hrun, hdecided,
    (network_agreement lenient_sampleNetwork hrun).1 false true
      ((hheight false).trans (hheight true).symm)⟩

end Sample

/-! ## The execution chain -/

section Lockstep

variable {net : Network I R} {s₀ : MultiStore R} {ds : List Block} {b₀ : BlockState}

/-- The payloads of the first `h` decided blocks lead from the genesis block to the block state
after them. -/
structure ChainTo (p : Platform) (b₀ : BlockState) (ds : List Block) (h : ℕ) (s : MultiStore R)
    (ps : List ExecutableData) : Prop where
  payloads : ((ds.take h).drop 1).map (Block.payload p) = ps.map some
  linked : (b₀ :: ps.map ExecutableData.blockState).IsChain Extends
  last : s.evm.blockState = (b₀ :: ps.map ExecutableData.blockState).getLast?

/-- What a decided block does to the block state: the first one nothing, every other one sets it
to the block of its payload, which is valid after the blocks before. -/
theorem decided_cases {h : ℕ} {b : Block} {s : MultiStore R}
    (hdue : Due (nextState net.modules) s₀ net.replication ds h b s) :
    (h = 0 ∧ ∀ t, nextState net.modules b s = some t → t.evm.blockState = s.evm.blockState) ∨
      1 ≤ h ∧ ∃ i state payload, s.evm.blockState = some state ∧
        b.payload net.rules.platform = some payload ∧
        PayloadValid (net.keeper i) b.header state payload ∧
        ∀ t, nextState net.modules b s = some t → t.evm.blockState = some payload.blockState := by
  obtain ⟨i, hi⟩ := hdue.accepted
  have hb := net.accepted i hi
  have hheight : b.header.height.toInt = h + 1 := hi.1
  have hnext (t : MultiStore R) (ht : nextState net.modules b s = some t) :
      t.evm.blockState = (b.payload net.rules.platform).elim s.evm.blockState
        fun payload => some payload.blockState :=
    nextState_blockState (k := net.keeper i) (m := net.modules) hb ht
  cases hb with
  | first hone htxs =>
    rw [payload_of_no_txs htxs] at hnext
    refine .inl ⟨?_, hnext⟩
    rw [hone] at hheight
    have : (1 : Int64).toInt = 1 := rfl
    omega
  | @next cs e msg state payload hone htxs hcs he hs hv =>
    have hpayload : b.payload net.rules.platform = some payload :=
      payload_of_valid (k := net.keeper i) htxs he hv
    rw [hpayload] at hnext
    have hne : h ≠ 0 := by
      rintro rfl
      exact hone (Int64.toInt_inj.mp hheight)
    obtain ⟨-, -, hvalid⟩ := validatePayload_eq_ok_iff.mp hv
    exact .inr ⟨Nat.one_le_iff_ne_zero.mpr hne, i, state, payload, hs, hpayload, hvalid, hnext⟩

/-- A payload that is valid on the end of a chain continues it. -/
theorem isChain_concat_payload {k : Keeper} {hdr : Header} {state : BlockState}
    {payload : ExecutableData} {ps : List ExecutableData}
    (hlinked : (b₀ :: ps.map ExecutableData.blockState).IsChain Extends)
    (hlast : some state = (b₀ :: ps.map ExecutableData.blockState).getLast?)
    (hvalid : PayloadValid k hdr state payload) :
    (b₀ :: (ps ++ [payload]).map ExecutableData.blockState).IsChain Extends := by
  rw [List.map_append, ← List.cons_append, List.isChain_append]
  refine ⟨hlinked, List.isChain_singleton _, ?_⟩
  intro x hx y hy
  obtain rfl : payload.blockState = y := by simpa using hy
  rw [← hlast] at hx
  obtain rfl := Option.some.inj hx
  exact ⟨payload, hvalid.linked⟩

theorem getLast?_concat_payload (b₀ : BlockState) (ps : List ExecutableData)
    (payload : ExecutableData) :
    (b₀ :: (ps ++ [payload]).map ExecutableData.blockState).getLast? =
      some payload.blockState := by
  rw [List.map_append, ← List.cons_append, List.map_singleton, List.getLast?_concat]

/-- The end of a chain is as many blocks above its beginning as it has payloads. -/
theorem exists_chain_height {s : MultiStore R} {ps : List ExecutableData}
    (hlinked : (b₀ :: ps.map ExecutableData.blockState).IsChain Extends)
    (hlast : s.evm.blockState = (b₀ :: ps.map ExecutableData.blockState).getLast?)
    (hmax : b₀.height.toNat + ps.length < 2 ^ 64) :
    ∃ b, s.evm.blockState = some b ∧ b.height.toNat = b₀.height.toNat + ps.length := by
  have hsome := List.getLast?_eq_getLast_of_ne_nil
    (List.cons_ne_nil b₀ (ps.map ExecutableData.blockState))
  refine ⟨_, hlast.trans hsome, ?_⟩
  rw [chain_height hlinked (by rw [List.length_map]; exact hmax) hsome, List.length_map]

/-- One more decided block adds its payload to the chain, unless it is the first one. -/
theorem ChainTo.step {h : ℕ} {b : Block} {s t : MultiStore R} {ps : List ExecutableData}
    (hchain : ChainTo net.rules.platform b₀ ds h s ps)
    (hdue : Due (nextState net.modules) s₀ net.replication ds h b s)
    (hnext : nextState net.modules b s = some t) :
    ∃ ps', ChainTo net.rules.platform b₀ ds (h + 1) t ps' := by
  have htake : ds.take (h + 1) = ds.take h ++ [b] := by
    rw [List.take_add_one, hdue.command, Option.toList_some]
  rcases decided_cases hdue with
    ⟨rfl, hstate⟩ | ⟨hpos, i, state, payload, hs, hpayload, hvalid, hstate⟩
  · refine ⟨ps, ?_, hchain.linked, (hstate t hnext).trans hchain.last⟩
    have hps : ps = [] := by simpa using hchain.payloads
    rw [htake, hps]
    rfl
  · have hlength : 1 ≤ (ds.take h).length := by
      have hlt := (List.getElem?_eq_some_iff.mp hdue.command).1
      rw [List.length_take]
      omega
    refine ⟨ps ++ [payload], ?_, ?_, ?_⟩
    · rw [htake, List.drop_append_of_le_length hlength, List.map_append, hchain.payloads]
      simpa using hpayload
    · -- the state that the payload is valid on is the last one of the chain
      exact isChain_concat_payload hchain.linked (hs.symm.trans hchain.last) hvalid
    · rw [hstate t hnext, getLast?_concat_payload]

theorem exists_chainTo (hdue : AllDue (nextState net.modules) s₀ net.replication ds)
    (hs₀ : s₀.evm.blockState = some b₀) {h : ℕ} (hh : h ≤ ds.length) {s : MultiStore R}
    (hs : replay (nextState net.modules) s₀ (ds.take h) = some s) :
    ∃ ps, ChainTo net.rules.platform b₀ ds h s ps := by
  induction h generalizing s with
  | zero =>
    obtain rfl := Option.some.inj hs
    exact ⟨[], by simp, List.isChain_singleton _, by simpa using hs₀⟩
  | succ h ih =>
    have hb := List.getElem?_eq_getElem (Nat.lt_of_succ_le hh)
    obtain ⟨t, ht⟩ := hdue h _ hb
    rw [replay_take_succ _ _ hb, ht.state] at hs
    obtain ⟨ps, hps⟩ := ih (Nat.le_of_succ_le hh) ht.state
    exact hps.step ht hs

variable [DecidableEq I] {l₀ : I → Outside}
  {calls : List (Call (NetAction I Block) Unit (Net I Block (MultiStore R) Outside))}
  {n : Net I Block (MultiStore R) Outside}

/-- **The execution chain of every node.** With engines that refuse nothing, at every height the
block state of a node is the end of the chain that the payloads of the decided blocks after the
first one form, from the block of the genesis on. Every block but the first adds one to its height,
as long as the heights last. -/
theorem network_lockstep (hlenient : net.Lenient) (hrun : net.Runs s₀ l₀ calls n)
    (hs₀ : s₀.evm.blockState = some b₀) (i : I) :
    ∃ ps, ChainTo net.rules.platform b₀ n.decided (n.replica i).height
        (n.replica i).committed ps ∧
      ps.length = (n.replica i).height - 1 ∧
      (b₀.height.toNat + ((n.replica i).height - 1) < 2 ^ 64 →
        ∃ b, (n.replica i).committed.evm.blockState = some b ∧
          b.height.toNat = b₀.height.toNat + ((n.replica i).height - 1)) := by
  have hreplays := net.runs_replays hlenient hrun
  obtain ⟨hheight, hcommitted, -⟩ := hreplays.replica i
  obtain ⟨ps, hps⟩ := exists_chainTo hreplays.due hs₀ hheight hcommitted
  have hlength : ps.length = (n.replica i).height - 1 := by
    have := congrArg List.length hps.payloads
    simp only [List.length_map, List.length_drop, List.length_take] at this
    omega
  refine ⟨ps, hps, hlength, fun hmax => ?_⟩
  rw [← hlength] at hmax ⊢
  exact exists_chain_height hps.linked hps.last hmax

end Lockstep

/-- After two blocks the execution chain of both nodes has height 1. -/
theorem network_lockstep_sample :
    ∃ calls n, sampleNetwork.Runs sampleApp (fun _ => ⟨[], 0⟩) calls n ∧
      ∀ i, ∃ b, (n.replica i).committed.evm.blockState = some b ∧ b.height.toNat = 0 + (2 - 1) := by
  obtain ⟨calls, n, hrun, -, hheight⟩ := exists_sample_run
  refine ⟨calls, n, hrun, fun i => ?_⟩
  obtain ⟨ps, -, -, hlast⟩ := network_lockstep lenient_sampleNetwork hrun rfl i
  rw [hheight i] at hlast
  exact hlast (by decide)

/-! ## What the engines are told -/

/-- A call about the decided chain: a decided payload is sent under its header, a forkchoice
update names the block of the genesis or of a decided payload, and payloads are asked for. -/
inductive ChainCall (k : Keeper) (b₀ : BlockState) (ds : List Block) : EngineEvent → Prop
  | newPayload {b : Block} {payload : ExecutableData} {hashes : List Hash}
      {reply : Except RpcError PayloadStatusV1} : b ∈ ds → b.payload k.platform = some payload →
      ChainCall k b₀ ds (.newPayload (payloadCall k b.header payload hashes) reply)
  | head {b : Block} {payload : ExecutableData} {attrs : Option PayloadAttributes}
      {reply : Except RpcError ForkChoiceResponse} : b ∈ ds →
      b.payload k.platform = some payload →
      ChainCall k b₀ ds (.forkchoiceUpdated ⟨forkchoiceAt payload.blockHash, attrs⟩ reply)
  | genesis {attrs : Option PayloadAttributes} {reply : Except RpcError ForkChoiceResponse} :
      ChainCall k b₀ ds (.forkchoiceUpdated ⟨forkchoiceAt b₀.hash, attrs⟩ reply)
  | getPayload {call : GetPayloadCall} {reply : Except RpcError ExecutionPayloadEnvelope} :
      ChainCall k b₀ ds (.getPayload call reply)

theorem ChainCall.decide {k : Keeper} {b₀ : BlockState} {ds : List Block} {e : EngineEvent}
    (h : ChainCall k b₀ ds e) (b : Block) : ChainCall k b₀ (ds ++ [b]) e := by
  cases h with
  | newPayload hb hp => exact .newPayload (List.mem_append_left _ hb) hp
  | head hb hp => exact .head (List.mem_append_left _ hb) hp
  | genesis => exact .genesis
  | getPayload => exact .getPayload

/-- Since `log₀` the engine was told about the decided chain only, and was handed the payloads of
the first `m` blocks in their order. -/
def EngineTold (k : Keeper) (b₀ : BlockState) (log₀ : List EngineEvent) (ds : List Block) (m : ℕ)
    (l : Outside) : Prop :=
  ∃ es handed, l.log = log₀ ++ es ∧ (∀ e ∈ es, ChainCall k b₀ ds e) ∧
    List.Forall₂ (Block.DeliveredBy k) (ds.take m) handed ∧ handed.flatten.Sublist es

section Told

variable {k : Keeper} {b₀ : BlockState} {log₀ : List EngineEvent} {ds : List Block} {m : ℕ}
  {l l' : Outside}

theorem EngineTold.decide (h : EngineTold k b₀ log₀ ds m l) (hm : m ≤ ds.length) (b : Block) :
    EngineTold k b₀ log₀ (ds ++ [b]) m l := by
  obtain ⟨es, handed, hes, hcalls, hhanded, hsub⟩ := h
  refine ⟨es, handed, hes, fun e he => (hcalls e he).decide b, ?_, hsub⟩
  rw [List.take_append_of_le_length hm]
  exact hhanded

theorem EngineTold.forget (h : EngineTold k b₀ log₀ ds (m + 1) l) :
    EngineTold k b₀ log₀ ds m l := by
  obtain ⟨es, handed, hes, hcalls, hhanded, hsub⟩ := h
  refine ⟨es, handed.take m, hes, hcalls, ?_, (List.take_sublist m handed).flatten.trans hsub⟩
  have htake := List.forall₂_take m hhanded
  rwa [List.take_take, Nat.min_eq_left (Nat.le_succ m)] at htake

/-- More calls about the chain. -/
theorem EngineTold.add (h : EngineTold k b₀ log₀ ds m l) {es : List EngineEvent}
    (hlog : l'.log = l.log ++ es) (hes : ∀ e ∈ es, ChainCall k b₀ ds e) :
    EngineTold k b₀ log₀ ds m l' := by
  obtain ⟨es₀, handed, hes₀, hcalls, hhanded, hsub⟩ := h
  refine ⟨es₀ ++ es, handed, by rw [hlog, hes₀, List.append_assoc], ?_, hhanded,
    hsub.trans (List.sublist_append_left _ _)⟩
  exact List.forall_mem_append.mpr ⟨hcalls, hes⟩

/-- The payload of one more block. -/
theorem EngineTold.deliver (h : EngineTold k b₀ log₀ ds m l) {b : Block} (hb : ds[m]? = some b)
    {es handed : List EngineEvent} (hlog : l'.log = l.log ++ es)
    (hes : ∀ e ∈ es, ChainCall k b₀ ds e) (hhanded : b.DeliveredBy k handed)
    (hsub : handed.Sublist es) : EngineTold k b₀ log₀ ds (m + 1) l' := by
  obtain ⟨es₀, handed₀, hes₀, hcalls, hhanded₀, hsub₀⟩ := h
  refine ⟨es₀ ++ es, handed₀ ++ [handed], by rw [hlog, hes₀, List.append_assoc],
    List.forall_mem_append.mpr ⟨hcalls, hes⟩, ?_, ?_⟩
  · rw [List.take_add_one, hb, Option.toList_some]
    exact List.rel_append hhanded₀ (.cons hhanded .nil)
  · rw [List.flatten_append, List.flatten_singleton]
    exact hsub₀.append hsub

/-- Some of the calls that were about to be made. -/
theorem EngineTold.add_between {log es : List EngineEvent} (h : EngineTold k b₀ log₀ ds m l)
    (hbetween : l.Between log l') (hlog : log = l.log ++ es)
    (hes : ∀ e ∈ es, ChainCall k b₀ ds e) : EngineTold k b₀ log₀ ds m l' := by
  obtain ⟨⟨es₁, hes₁⟩, es₂, hes₂⟩ := hbetween
  refine h.add hes₁.symm fun e he => hes e ?_
  rw [hlog, ← hes₁, List.append_assoc] at hes₂
  rw [← List.append_cancel_left hes₂]
  exact List.mem_append_left _ he

end Told

section Logs

variable {net : Network I R} {s₀ : MultiStore R} {ds : List Block} {b₀ : BlockState}

/-- A forkchoice update to the block state of a node is one about the chain. -/
theorem chainCall_of_state (i : I)
    (hdue : AllDue (nextState net.modules) s₀ net.replication ds)
    (hs₀ : s₀.evm.blockState = some b₀) {h : ℕ} (hh : h ≤ ds.length) {s : MultiStore R}
    (hs : replay (nextState net.modules) s₀ (ds.take h) = some s) {state : BlockState}
    (hstate : s.evm.blockState = some state) (attrs : Option PayloadAttributes)
    (reply : Except RpcError ForkChoiceResponse) :
    ChainCall (net.keeper i) b₀ ds (.forkchoiceUpdated ⟨forkchoiceAt state.hash, attrs⟩ reply) := by
  obtain ⟨ps, hps⟩ := exists_chainTo hdue hs₀ hh hs
  have hmem : state ∈ b₀ :: ps.map ExecutableData.blockState :=
    List.mem_of_getLast? (hps.last.symm.trans hstate)
  rcases List.mem_cons.mp hmem with rfl | hmem
  · exact .genesis
  · obtain ⟨payload, hpayload, rfl⟩ := List.mem_map.mp hmem
    have hsome : some payload ∈ ((ds.take h).drop 1).map (Block.payload net.rules.platform) := by
      rw [hps.payloads]
      exact List.mem_map_of_mem hpayload
    obtain ⟨b, hb, hbp⟩ := List.mem_map.mp hsome
    exact .head (List.mem_of_mem_take (List.mem_of_mem_drop hb)) hbp

/-- The calls of a finalization are about the chain. -/
theorem chainCall_of_txCall {i : I} {h : ℕ} {b : Block} {s : MultiStore R}
    (hdue : Due (nextState net.modules) s₀ net.replication ds h b s) {e : EngineEvent}
    (he : TxCall (net.keeper i) b.header b.txs e) : ChainCall (net.keeper i) b₀ ds e := by
  obtain ⟨j, hj⟩ := hdue.accepted
  obtain ⟨payload, hpayload, hcall⟩ := he.of_accepted (net.accepted i hj)
  have hb : b ∈ ds := List.mem_of_getElem? hdue.command
  cases hcall with
  | send hashes reply => exact .newPayload hb hpayload
  | head reply => exact .head hb hpayload

/-- All steps of the network keep what the engines are told. -/
theorem Network.keeps_engineTold (hlenient : net.Lenient) (hs₀ : s₀.evm.blockState = some b₀)
    (l₀ : I → Outside) :
    net.replication.Keeps (nextState net.modules) s₀ fun i ds m l =>
      EngineTold (net.keeper i) b₀ (l₀ i).log ds m l where
  decide i ds m l b hm h := h.decide hm b
  forget i ds m l h := h.forget
  works i ds h m s l l' hdue hh hs hworks htold := by
    obtain ⟨eng, -, ⟨ctx, attempts, req, hbetween⟩ | ⟨env, hbetween⟩⟩ := hworks
    · obtain ⟨es, hes, hcalls⟩ := makePrepareProposalHandler_calls (net.keeper i) eng
        net.maxCosmosTxs ctx attempts req ⟨s.evm, l.log, l.clock⟩
      refine htold.add_between hbetween hes fun e he => ?_
      obtain ⟨state, hstate, hcall⟩ := hcalls e he
      cases hcall with
      | build reply => exact chainCall_of_state i hdue hs₀ hh hs hstate _ reply
      | get id reply => exact .getPayload
    · obtain ⟨es, hes, hcalls⟩ :=
        runReadinessChecks_calls eng env (.ok s.evm) ⟨s.evm, l.log, l.clock⟩
      refine htold.add_between hbetween hes fun e he => ?_
      obtain ⟨store, state, reply, hstore, hstate, rfl⟩ := hcalls e he
      obtain rfl := Except.ok.inj hstore
      exact chainCall_of_state i hdue hs₀ hh hs hstate none reply
  stops i ds h b s l l' hdue hstops htold := by
    obtain ⟨-, eng, attempts, -, hbetween⟩ := hstops
    obtain ⟨es, hes, hcalls⟩ := finalizeBlock_calls (net.keeper i) eng net.modules
      (finalizeCtx b.header) attempts b.txs ⟨s, l⟩
    exact htold.add_between hbetween hes fun e he => chainCall_of_txCall hdue (hcalls e he)
  applies i ds h b s l s' l' hdue happlies htold := by
    obtain ⟨-, eng, attempts, heng, hrun⟩ := happlies
    obtain ⟨j, hj⟩ := hdue.accepted
    obtain ⟨es, hes, hcalls⟩ := finalizeBlock_calls (net.keeper i) eng net.modules
      (finalizeCtx b.header) attempts b.txs ⟨s, l⟩
    obtain ⟨es', handed, hes', hhanded, hsub⟩ := finalizeBlock_delivers (k := net.keeper i)
      (m := net.modules) (s := ⟨s, l⟩) (net.accepted i hj) (hlenient i eng heng) hrun
    rw [hrun] at hes
    obtain rfl := List.append_cancel_left (hes.symm.trans hes')
    exact htold.deliver hdue.command hes (fun e he => chainCall_of_txCall hdue (hcalls e he))
      hhanded hsub

variable [DecidableEq I] {l₀ : I → Outside}
  {calls : List (Call (NetAction I Block) Unit (Net I Block (MultiStore R) Outside))}
  {n : Net I Block (MultiStore R) Outside}

/-- **What the engines are told.** In every interleaving, with engines that refuse nothing, the
engine of a node was handed the payloads of all blocks that the node has committed, in their order,
and answered each as a block with `VALID` or `SYNCING` and then did not refuse it as head. It is
told of nothing but the decided chain: no payload that is not one of a decided block is
sent, and no forkchoice update names another block than that of the genesis or of a decided
payload. -/
theorem network_engine_logs (hlenient : net.Lenient) (hrun : net.Runs s₀ l₀ calls n)
    (hs₀ : s₀.evm.blockState = some b₀) (i : I) :
    EngineTold (net.keeper i) b₀ (l₀ i).log n.decided (n.replica i).height
      (n.replica i).outside :=
  Run.outside (net.keeps_engineTold hlenient hs₀ l₀) (net.next_of_applies hlenient)
    (fun i => ⟨[], [], by simp, by simp, .nil, List.Sublist.refl _⟩) hrun i

end Logs

/-- Both engines of the sample were handed the payload of the second block. -/
theorem network_engine_logs_sample :
    ∃ calls n, sampleNetwork.Runs sampleApp (fun _ => ⟨[], 0⟩) calls n ∧
      ∀ i, EngineTold (sampleNetwork.keeper i) ⟨hexToHash "0x01", 0, 0⟩ []
        [firstBlock, secondBlock] 2 (n.replica i).outside := by
  obtain ⟨calls, n, hrun, hdecided, hheight⟩ := exists_sample_run
  refine ⟨calls, n, hrun, fun i => ?_⟩
  have htold := network_engine_logs lenient_sampleNetwork hrun rfl i
  rwa [hheight i, hdecided] at htold

end NexusNode
