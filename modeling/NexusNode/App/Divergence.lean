import NexusNode.App.Network
import NexusNode.Program.Divergence

/-!
# Engines that refuse a payload

An engine may refuse the payload of a decided block. The transaction of the payload then fails,
and the node commits the block all the same, with everything in it but the payload. From then on
its state is not that of the nodes whose engines took the payload. The header of the next block
has the app hash of one of the two states, and the nodes in the other one execute no block any
more: neither a restart nor an engine that has come to its senses helps them.

## Main definitions

* `Refused`: the engine has refused a payload
* `refusedState`: what a block does to the state where its payload is refused
* `Network.HashShows`: the app hash shows whether the payload of a block was recorded
* `Network.Parted`: two nodes of which one recorded the last payload
* `Recorded`: which payloads were recorded

## Main results

* `finalizeBlock_outcome`: the execution of an accepted block, whatever the engine answers
* `finalizeBlock_of_refused`: a payload that is refused is left out
* `network_divergence`: in which way nodes may disagree, and what comes of it
* `network_refusals`: the execution chain of a node, with what its engine has refused left out
-/

namespace NexusNode

open Program Proc

variable {I R : Type}

/-! ## Refusals -/

section Refusals

/-- The engine has refused the payload, as a block or as its head. -/
def Refused (k : Keeper) (hdr : Header) (payload : ExecutableData) (log : List EngineEvent) :
    Prop :=
  (∃ hashes status, .newPayload (payloadCall k hdr payload hashes) (.ok status) ∈ log ∧
    status.status ≠ .valid ∧ status.status ≠ .syncing) ∨
  ∃ response, .forkchoiceUpdated ⟨forkchoiceAt payload.blockHash, none⟩ (.ok response) ∈ log ∧
    response.payloadStatus.status = .invalid

variable {k : Keeper} {eng : Engine} {hdr : Header} {payload : ExecutableData} {attempts : ℕ}

theorem Refused.mono {log log' : List EngineEvent} (hlog : log <+: log')
    (h : Refused k hdr payload log) : Refused k hdr payload log' := by
  rcases h with ⟨hashes, status, hmem, hstatus⟩ | ⟨response, hmem, hstatus⟩
  · exact .inl ⟨hashes, status, hlog.subset hmem, hstatus⟩
  · exact .inr ⟨response, hlog.subset hmem, hstatus⟩

theorem newPayloadVerdict_eq_error {reply : Except RpcError PayloadStatusV1} {r : Stop EvmError}
    (h : newPayloadVerdict reply = .error r) :
    ∃ status, reply = .ok status ∧ status.status ≠ .valid ∧ status.status ≠ .syncing := by
  cases reply with
  | error e => cases h
  | ok status =>
    refine ⟨status, rfl, ?_⟩
    by_contra hstands
    rw [newPayloadVerdict, if_neg hstands] at h
    cases h

/-- Rounds that stop were refused. -/
theorem engineRounds_refused {w w' : World} {r : Stop EvmError} (hr : r ≠ .running)
    (h : engineRounds k eng (finalizeCtx hdr) attempts payload w = (.error r, w')) :
    Refused k hdr payload w'.log := by
  unfold engineRounds at h
  rcases bind_stop_cases h with h | ⟨-, v, -, h⟩
  · obtain ⟨u, -, hu⟩ := retry_stop_cases (I := fun _ => True) (by simp) trivial rfl hr h
    rcases newPayloadAttempt_cases k eng (finalizeCtx hdr) payload u with hno | ⟨hashes, -, hcall⟩
    · simp [hno] at hu
    · rw [hcall] at hu
      obtain ⟨hverdict, rfl⟩ := Prod.mk.inj hu
      obtain ⟨status, hreply, hstatus⟩ := newPayloadVerdict_eq_error hverdict
      refine .inl ⟨hashes, status, ?_, hstatus⟩
      rw [World.record_log, hreply]
      exact List.mem_append_right _ List.mem_cons_self
  · obtain ⟨u, -, hu⟩ := retry_stop_cases (I := fun _ => True) (by simp) trivial rfl hr h
    rw [forkchoiceAttempt_apply] at hu
    obtain ⟨hverdict, rfl⟩ := Prod.mk.inj hu
    obtain ⟨response, hreply, hstatus⟩ := forkchoiceVerdict_eq_error hverdict
    refine .inr ⟨response, ?_, hstatus⟩
    rw [World.record_log, hreply]
    exact List.mem_append_right _ List.mem_cons_self

/-- A payload that passes the checks and is not finalized was refused. -/
theorem executionPayload_refused {msg : MsgExecutionPayload} {w w' : World} {r : Stop EvmError}
    (hcheck : checkExecutionPayload k (finalizeCtx hdr) msg w.store = .ok payload)
    (hr : r ≠ .running)
    (h : executionPayload k eng (finalizeCtx hdr) attempts msg w = (.error r, w')) :
    Refused k hdr payload w'.log := by
  rw [executionPayload_eq, hcheck] at h
  dsimp only at h
  rcases hrounds : engineRounds k eng (finalizeCtx hdr) attempts payload w with ⟨q | ⟨⟩, w₁⟩ <;>
    rw [hrounds] at h
  · obtain ⟨hq, rfl⟩ := Prod.mk.inj h
    obtain rfl := Except.error.inj hq
    exact engineRounds_refused hr hrounds
  · simp [setBlockState_apply] at h

end Refusals

/-! ## One block -/

section Blocks

/-- What a block does to the state where its payload is refused: it is not recorded. -/
def refusedState {p : Platform} (m : Modules p R) (b : Block) (s : MultiStore R) :
    Option (MultiStore R) := do
  let s₁ ← (m.beginBlock b.header s).toOption
  (m.endBlock b.header (deliverTxs (m.deliverTx b.header) b.txs.dropLast s₁)).toOption

theorem refusedState_eq_some_iff {p : Platform} {m : Modules p R} {b : Block}
    {s t : MultiStore R} :
    refusedState m b s = some t ↔ ∃ s₁, m.beginBlock b.header s = .ok s₁ ∧
      m.endBlock b.header (deliverTxs (m.deliverTx b.header) b.txs.dropLast s₁) = .ok t := by
  unfold refusedState
  simp [Option.bind_eq_some_iff, except_toOption_eq_some_iff]

variable {k : Keeper} {eng : Engine} {m : Modules k.platform R} {attempts : ℕ} {b : Block}
  {s t : AppWorld R}

/-- What becomes of the transaction of a payload that passes the checks. -/
theorem payload_outcome {hdr : Header} {msg : MsgExecutionPayload} {payload : ExecutableData}
    {u : AppWorld R}
    (hcheck : checkExecutionPayload k (finalizeCtx hdr) msg s.app.evm = .ok payload)
    (h : discardFailed (onEvm (executionPayload k eng (finalizeCtx hdr) attempts msg)) s =
      (.ok (), u)) :
    u.app = s.app.record payload ∨ u.app = s.app ∧ Refused k hdr payload u.out.log := by
  rcases hexec : executionPayload k eng (finalizeCtx hdr) attempts msg s.world with ⟨o, w⟩
  have hev := onEvm_apply (executionPayload k eng (finalizeCtx hdr) attempts msg) s
  rw [hexec] at hev
  rcases discardFailed_eq_ok_iff.mp h with hok | ⟨r, v, hstop, hr, rfl⟩
  · rw [hev] at hok
    obtain ⟨rfl, rfl⟩ := Prod.mk.inj hok
    obtain ⟨q, hq, hstore⟩ := executionPayload_ok hexec
    obtain rfl := Except.ok.inj (hcheck.symm.trans hq)
    exact .inl (congrArg (fun st => { s.app with evm := st }) hstore)
  · -- what the transaction has written is thrown away, what the engine has answered is not
    rw [hev] at hstop
    obtain ⟨rfl, rfl⟩ := Prod.mk.inj hstop
    exact .inr ⟨rfl, executionPayload_refused hcheck hr hexec⟩

/-- **The execution of an accepted block**, whatever the engine answers: the payload is recorded
or was refused. -/
theorem finalizeBlock_outcome (hb : b.Accepted k s.app.evm)
    (h : finalizeBlock k eng m (finalizeCtx b.header) attempts b.txs s = (.ok (), t)) :
    nextState m b s.app = some t.app ∨ refusedState m b s.app = some t.app ∧
      ∃ payload, b.payload k.platform = some payload ∧
        Refused k b.header payload t.out.log := by
  rw [nextState_eq_some_iff, refusedState_eq_some_iff]
  cases hb with
  | first hh htxs =>
    rw [htxs] at h
    obtain ⟨s₁, hbegin, hend, -⟩ := finalizeBlock_nil_eq_ok_iff.mp h
    rw [payload_of_no_txs htxs, htxs]
    exact .inl ⟨s₁, hbegin, hend⟩
  | @next cs e msg state payload hh htxs hcs he hs hv =>
    rw [htxs] at h
    obtain ⟨s₁, u, hbegin, hrun, hend, hout⟩ := (finalizeBlock_eq_ok_iff hcs he).mp h
    have hcheck := checkExecutionPayload_of_valid (s := s) hcs hs hv hbegin
    rw [payload_of_valid htxs he hv, htxs, List.dropLast_concat, hout]
    rcases payload_outcome hcheck hrun with hu | ⟨hu, hrefused⟩ <;> rw [hu] at hend
    · exact .inl ⟨s₁, hbegin, hend⟩
    · exact .inr ⟨⟨s₁, hbegin, hend⟩, payload, rfl, hrefused⟩

/-- A payload that is refused leaves the block state as it was. -/
theorem refusedState_blockState (hb : b.Accepted k s.app.evm) {t : MultiStore R}
    (h : refusedState m b s.app = some t) : t.evm.blockState = s.app.evm.blockState := by
  obtain ⟨s₁, hbegin, hend⟩ := refusedState_eq_some_iff.mp h
  rw [m.endBlock_keeps hend]
  cases hb with
  | first hh htxs =>
    rw [htxs]
    exact m.beginBlock_keeps hbegin
  | next hh htxs hcs he hs hv =>
    rw [htxs, List.dropLast_concat, deliverTxs_blockState hcs]
    exact m.beginBlock_keeps hbegin

/-- The engine refuses every payload. -/
def Engine.Refuses (eng : Engine) : Prop :=
  ∀ log call, ∃ status, eng.newPayload log call = .ok status ∧ status.status ≠ .valid ∧
    status.status ≠ .syncing

/-- **A payload that is refused is left out**, and the block is executed all the same. -/
theorem finalizeBlock_of_refused (hb : b.Accepted k s.app.evm) (heng : eng.Refuses)
    (hsend : b.Sendable k.platform) {t : MultiStore R} (hstate : refusedState m b s.app = some t) :
    ∃ out, finalizeBlock k eng m (finalizeCtx b.header) 1 b.txs s = (.ok (), ⟨t, out⟩) := by
  obtain ⟨s₁, hbegin, hend⟩ := refusedState_eq_some_iff.mp hstate
  cases hb with
  | first hh htxs =>
    rw [htxs] at hend ⊢
    exact ⟨s.out, finalizeBlock_nil_eq_ok_iff.mpr ⟨s₁, hbegin, hend, rfl⟩⟩
  | @next cs e msg state payload hh htxs hcs he hs hv =>
    rw [htxs, List.dropLast_concat] at hend
    obtain ⟨happ, hashes, hhashes, hlen⟩ := hsend payload (payload_of_valid htxs he hv)
    let v : AppWorld R := ⟨deliverTxs (m.deliverTx b.header) cs s₁, s.out⟩
    have hcheck : checkExecutionPayload k (finalizeCtx b.header) msg v.world.store = .ok payload :=
      checkExecutionPayload_of_valid (s := s) hcs hs hv hbegin
    obtain ⟨status, hnew, hstatus⟩ := heng v.world.log (payloadCall k b.header payload hashes)
    have hexec := executionPayload_of_refused hcheck happ hhashes hlen hnew (if_pos hstatus) 0
    have hev := onEvm_apply (executionPayload k eng (finalizeCtx b.header) 1 msg) v
    rw [hexec] at hev
    have hdiscard := discardFailed_eq_ok_iff.mpr (.inr ⟨_, _, hev, by simp, rfl⟩)
    rw [htxs]
    exact ⟨_, (finalizeBlock_eq_ok_iff hcs he).mpr ⟨s₁, _, hbegin, hdiscard, hend, rfl⟩⟩

end Blocks

/-! ## The network -/

section Network

variable {net : Network I R}

/-- The app hash shows whether the payload of a block was recorded. -/
def Network.HashShows (net : Network I R) : Prop :=
  ∀ i b s t t', b.Accepted (net.keeper i) s.evm → nextState net.modules b s = some t →
    refusedState net.modules b s = some t' → net.appHash t = net.appHash t' → t = t'

/-- A block made `t` of `s` at a node that left `l` outside. -/
def Network.Makes (net : Network I R) (i : I) (b : Block) (s t : MultiStore R) (l : Outside) :
    Prop :=
  b.Accepted (net.keeper i) s.evm ∧ (nextState net.modules b s = some t ∨
    refusedState net.modules b s = some t ∧ ∃ payload,
      b.payload net.rules.platform = some payload ∧ Refused (net.keeper i) b.header payload l.log)

theorem Network.Makes.mono {i : I} {b : Block} {s t : MultiStore R} {l l' : Outside}
    (hlog : l.log <+: l'.log) (h : net.Makes i b s t l) : net.Makes i b s t l' := by
  obtain ⟨haccepted, hnext | ⟨hstate, payload, hpayload, hrefused⟩⟩ := h
  · exact ⟨haccepted, .inl hnext⟩
  · exact ⟨haccepted, .inr ⟨hstate, payload, hpayload, hrefused.mono hlog⟩⟩

/-- What a block makes of one state, the app hash tells apart. -/
theorem Network.Makes.eq_of_appHash (hshows : net.HashShows) {i j : I} {b : Block}
    {s t t' : MultiStore R} {l l' : Outside} (h : net.Makes i b s t l) (h' : net.Makes j b s t' l')
    (happ : net.appHash t = net.appHash t') : t = t' := by
  obtain ⟨haccepted, ht | ⟨ht, -⟩⟩ := h
  · obtain ⟨-, ht' | ⟨ht', -⟩⟩ := h'
    · exact Option.some.inj (ht.symm.trans ht')
    · exact hshows i b s t t' haccepted ht ht' happ
  · obtain ⟨-, ht' | ⟨ht', -⟩⟩ := h'
    · exact (hshows i b s t' t haccepted ht' ht happ.symm).symm
    · exact Option.some.inj (ht.symm.trans ht')

/-- Nodes execute the blocks that have their app hash. -/
theorem Network.checked (hshows : net.HashShows) :
    net.replication.Checked (fun b s => b.header.appHash = net.appHash s) net.Makes where
  accepts h := h.2.1
  applies h := h.1
  outcome {i j h b s l t l'} haccepts happlies := by
    obtain ⟨-, eng, attempts, -, hrun⟩ := happlies
    have hb := net.accepted i haccepts
    exact ⟨hb, finalizeBlock_outcome (k := net.keeper i) (m := net.modules) (s := ⟨s, l⟩)
      (t := ⟨t, l'⟩) hb hrun⟩
  apart h h' ht ht' := h.eq_of_appHash hshows h' (ht.symm.trans ht')
  applies_shows {i b s l t l' d u v} happlies h := by
    obtain ⟨-, eng, attempts, -, hrun⟩ := happlies
    have hcalls := finalizeBlock_calls (net.keeper i) eng net.modules (finalizeCtx b.header)
      attempts b.txs ⟨s, l⟩
    rw [hrun] at hcalls
    obtain ⟨es, hes, -⟩ := hcalls
    exact h.mono ⟨es, hes.symm⟩
  stops_shows hstops h := by
    obtain ⟨-, eng, attempts, -, hbetween⟩ := hstops
    exact h.mono hbetween.1
  works_shows hworks h := by
    obtain ⟨eng, -, ⟨ctx, attempts, req, hbetween⟩ | ⟨env, hbetween⟩⟩ := hworks
    · exact h.mono hbetween.1
    · exact h.mono hbetween.1

variable {s₀ : MultiStore R} {n : Net I Block (MultiStore R) Outside}

/-- The last block that two nodes have committed was the same for both, on the same state, but the
engine of the second one has refused its payload. -/
def Network.Parted (net : Network I R) (n : Net I Block (MultiStore R) Outside) (i j : I) : Prop :=
  ∃ h b s payload, (n.replica i).height = h + 1 ∧ n.decided[h]? = some b ∧
    b.payload net.rules.platform = some payload ∧
    nextState net.modules b s = some (n.replica i).committed ∧
    refusedState net.modules b s = some (n.replica j).committed ∧
    Refused (net.keeper j) b.header payload (n.replica j).outside.log

/-- Nodes at one height that are in different states have parted at the last block. -/
theorem Network.parted_of_ne (hshows : net.HashShows)
    (hn : n.Follows net.replication (fun b s => b.header.appHash = net.appHash s) net.Makes s₀)
    {i j : I} (hheight : (n.replica i).height = (n.replica j).height)
    (hne : (n.replica i).committed ≠ (n.replica j).committed) :
    net.Parted n i j ∨ net.Parted n j i := by
  have hi := (hn.replica i).committed
  have hj := (hn.replica j).committed
  rw [← hheight] at hj
  cases hh : (n.replica i).height with
  | zero =>
    rw [hh] at hi hj
    exact absurd (hi.eq_start.trans hj.eq_start.symm) hne
  | succ h =>
    rw [hh] at hi hj
    obtain ⟨b, s, hb, ⟨-, hi⟩, -, hj⟩ := hi.common (net.checked hshows) hj
    rcases hi with hi | ⟨hi, payload, hpayload, hrefused⟩
    · rcases hj with hj | ⟨hj, payload, hpayload, hrefused⟩
      · exact absurd (Option.some.inj (hi.symm.trans hj)) hne
      · exact .inl ⟨h, b, s, payload, hh, hb, hpayload, hi, hj, hrefused⟩
    · rcases hj with hj | ⟨hj, -⟩
      · exact .inr ⟨h, b, s, payload, hheight ▸ hh, hb, hpayload, hj, hi, hrefused⟩
      · exact absurd (Option.some.inj (hi.symm.trans hj)) hne

/-- **How nodes disagree.** Let the app hash show whether the payload of a block was recorded.
Whatever the engines answer, in every interleaving of proposals, probes, executions, commits and
crashes, nodes at one height that are in different states differ by the payload of the last block,
which the engine of one of them has refused, and at most one of them ever commits another block. A node whose app hash is not that of the next block commits none
any more, whatever happens. One whose app hash it is can do so, when the payload can be sent, the
modules do not fail and its engine takes everything. -/
theorem network_divergence [DecidableEq I] {l₀ : I → Outside}
    {calls : List (Call (NetAction I Block) Unit (Net I Block (MultiStore R) Outside))}
    (hshows : net.HashShows) (hrun : net.Runs s₀ l₀ calls n) :
    (∀ i j, (n.replica i).height = (n.replica j).height →
      (n.replica i).committed ≠ (n.replica j).committed →
      (net.Parted n i j ∨ net.Parted n j i) ∧
      ∀ calls' n', Run (NetStep net.replication) n calls' n' →
        (n'.replica i).height = (n.replica i).height ∨
          (n'.replica j).height = (n.replica j).height) ∧
    ∀ i b, n.decided[(n.replica i).height]? = some b →
      (b.header.appHash ≠ net.appHash (n.replica i).committed →
        ∀ calls' n', Run (NetStep net.replication) n calls' n' →
          (n'.replica i).height = (n.replica i).height ∧
            (n'.replica i).committed = (n.replica i).committed) ∧
      (b.header.appHash = net.appHash (n.replica i).committed →
        b.Sendable net.rules.platform → nextState net.modules b (n.replica i).committed ≠ none →
        (∃ eng, net.engine i eng ∧ eng.AlwaysValid) →
        ∃ calls' n', Run (NetStep net.replication) n calls' n' ∧
          (n'.replica i).height = (n.replica i).height + 1) := by
  have hP := net.checked hshows
  have hn : n.Follows net.replication (fun b s => b.header.appHash = net.appHash s) net.Makes s₀ :=
    Run.follows hP hrun
  refine ⟨fun i j hheight hne => ⟨net.parted_of_ne hshows hn hheight hne, fun calls' n' hrun' =>
    Run.one_moves hP hn hheight hne hrun'⟩, fun i b hb => ⟨fun happ calls' n' hrun' =>
      Run.stays hP hn hb happ hrun', fun happ hsend hnext ⟨eng, heng, hvalid⟩ => ?_⟩⟩
  refine hn.exists_moved hP hb happ fun j l haccepts => ?_
  exact net.exists_applies heng hvalid haccepts hsend hnext l

end Network

section Sample

open Wire

def refusingEngine : Engine where
  newPayload _ _ := .ok ⟨.invalid, none, none⟩
  forkchoiceUpdated _ _ := .ok ⟨⟨.invalid, none, none⟩, none⟩
  getPayload _ _ := .error ⟨"connection refused", ""⟩
  latency _ := 1

theorem refuses_refusingEngine : refusingEngine.Refuses :=
  fun _ _ => ⟨_, rfl, by decide, by decide⟩

/-- An app hash that shows the height of the execution block. -/
def heightHash (s : MultiStore Unit) : Bytes :=
  s.evm.blockState.elim [0] fun b => [1, b.height.toUInt8]

/-- Two nodes, one of them with an engine that takes and one with an engine that refuses every
payload. -/
def partedNetwork : Network Bool Unit where
  rules := sampleKeeper defaultConfig cancunSpec (samplePayload []) []
  recipient _ := FixedBytes.ofBytes 20 []
  chainSpec _ := cancunSpec
  modules := idleModules _
  appHash := heightHash
  maxCosmosTxs := 1
  engine i eng := eng = if i then refusingEngine else validEngine ⟨samplePayload [], []⟩

theorem refusedState_idleModules {p : Platform} (b : Block) (s : MultiStore Unit) :
    refusedState (idleModules p) b s = some s := by
  simp [refusedState, idleModules, deliverTxs, Except.toOption]

theorem nextState_idleModules {p : Platform} (b : Block) (s : MultiStore Unit) :
    nextState (idleModules p) b s = some ((b.payload p).elim s s.record) := by
  simp [nextState, idleModules, deliverTxs, Except.toOption]

/-- A payload that is recorded raises the height by one. -/
theorem hashShows_partedNetwork : partedNetwork.HashShows := by
  intro i b s t t' hb ht ht' happ
  obtain rfl := Option.some.inj ((nextState_idleModules b s).symm.trans ht)
  obtain rfl := Option.some.inj ((refusedState_idleModules b s).symm.trans ht')
  cases hb with
  | first hh htxs => rw [payload_of_no_txs htxs]; rfl
  | @next cs e msg state payload hh htxs hcs he hs hv =>
    have hpayload : b.payload partedNetwork.rules.platform = some payload :=
      payload_of_valid htxs he hv
    obtain ⟨-, -, hvalid⟩ := validatePayload_eq_ok_iff.mp hv
    rw [hpayload] at happ
    have hheight : heightHash (s.record payload) = heightHash s := happ
    simp [heightHash, MultiStore.record, hs, ExecutableData.blockState, hvalid.number] at hheight

def emptyBlock : Block := ⟨⟨1, 1690000000, [1, 0]⟩, []⟩

/-- A block with the sample payload, after the state before any payload. -/
def payloadBlock (height : Int64) : Block :=
  ⟨⟨height, 1700000000, [1, 0]⟩, [encodePayloadTx (payloadMsg (samplePayload []))]⟩

theorem payload_payloadBlock (height : Int64) :
    (payloadBlock height).payload partedNetwork.rules.platform = some (samplePayload []) :=
  payload_secondBlock

theorem accepts_emptyBlock (i : Bool) :
    partedNetwork.replication.accepts i 0 sampleApp emptyBlock :=
  ⟨rfl, rfl, ⟨emptyBlock.header, .processProposal, .background, true⟩, [], rfl, rfl⟩

theorem applies_emptyBlock (i : Bool) (l : Outside) :
    partedNetwork.replication.applies i emptyBlock sampleApp l sampleApp l :=
  ⟨rfl, _, 1, rfl, rfl⟩

theorem accepts_payloadBlock (i : Bool) {h : ℕ} {height : Int64} (hh : height.toInt = h + 1)
    (hheight : height = 2 ∨ height = 3) :
    partedNetwork.replication.accepts i h sampleApp (payloadBlock height) := by
  have hvalid : PayloadValid (sampleKeeper defaultConfig cancunSpec (samplePayload []) [])
      (payloadBlock height).header ⟨hexToHash "0x01", 0, 0⟩ (samplePayload []) := by
    have hsample := payloadValid_samplePayload [] [] cancunSpec .processProposal
    refine { hsample with height_nonneg := ?_, timestamp := ?_ } <;>
      rcases hheight with rfl | rfl <;> decide
  refine ⟨hh, rfl, ⟨(payloadBlock height).header, .processProposal, .background, true⟩,
    [⟨10, .commit⟩], rfl, ?_⟩
  refine processProposal_sampleKeeper 1 rfl hvalid length_sampleTx ?_ (by decide)
  rcases hheight with rfl | rfl <;> decide

theorem sendable_payloadBlock (height : Int64) :
    (payloadBlock height).Sendable partedNetwork.rules.platform := by
  intro payload hpayload
  obtain rfl := Option.some.inj ((payload_payloadBlock height).symm.trans hpayload)
  exact ⟨show bytesToHash [1, 0] ≠ zeroHash by decide, sendable_of_no_transactions _ rfl⟩

/-- The engine of one node takes the payload. -/
theorem exists_applies_taken (l : Outside) :
    ∃ l', partedNetwork.replication.applies false (payloadBlock 2) sampleApp l
      (sampleApp.record (samplePayload [])) l' := by
  have haccepts := accepts_payloadBlock false (h := 1) rfl (.inl rfl)
  have hvalid := alwaysValid_validEngine ⟨samplePayload [], []⟩
  obtain ⟨⟨app, l'⟩, ht⟩ := finalizeBlock_of_alwaysValid (m := partedNetwork.modules)
    (s := ⟨sampleApp, l⟩) (partedNetwork.accepted false haccepts) hvalid (sendable_payloadBlock 2)
    (nextState_sample_ne_none _ _)
  have hnext := finalizeBlock_next (m := partedNetwork.modules)
    (partedNetwork.accepted false haccepts) hvalid.lenient ht
  have hstate := (nextState_idleModules (payloadBlock 2) sampleApp).symm.trans hnext
  rw [payload_payloadBlock] at hstate
  obtain rfl : sampleApp.record (samplePayload []) = app := Option.some.inj hstate
  exact ⟨l', rfl, _, 1, rfl, ht⟩

/-- That of the other one refuses it. -/
theorem exists_applies_refused (l : Outside) :
    ∃ l', partedNetwork.replication.applies true (payloadBlock 2) sampleApp l sampleApp l' := by
  have haccepts := accepts_payloadBlock true (h := 1) rfl (.inl rfl)
  obtain ⟨l', hl'⟩ := finalizeBlock_of_refused (m := partedNetwork.modules) (s := ⟨sampleApp, l⟩)
    (partedNetwork.accepted true haccepts) refuses_refusingEngine (sendable_payloadBlock 2)
    (refusedState_idleModules _ _)
  exact ⟨l', rfl, refusingEngine, 1, rfl, hl'⟩

/-- Both nodes execute the next block, each in its own way. -/
theorem exists_both_executed {n : Net Bool Block (MultiStore Unit) Outside} {b : Block} {h : ℕ}
    {s : MultiStore Unit} {t : Bool → MultiStore Unit} (hn : ∀ i, (n.replica i).Rests h s)
    (hb : n.decided[h]? = some b)
    (happlies : ∀ i l, ∃ l', partedNetwork.replication.applies i b s l (t i) l') :
    ∃ calls n', Run (NetStep partedNetwork.replication) n calls n' ∧ n'.decided = n.decided ∧
      ∀ i, (n'.replica i).Rests (h + 1) (t i) := by
  have hone : ∀ (i : Bool) (m : Net Bool Block (MultiStore Unit) Outside),
      m.decided[h]? = some b → (m.replica i).Rests h s →
      ∃ calls m', Run (NetStep partedNetwork.replication) m calls m' ∧ m'.decided = m.decided ∧
        (m'.replica i).Rests (h + 1) (t i) ∧ ∀ j, j ≠ i → m'.replica j = m.replica j := by
    intro i m hm hrests
    obtain ⟨l', hl'⟩ := happlies i (m.replica i).outside
    rw [← hrests.height] at hm
    rw [← hrests.committed] at hl'
    obtain ⟨calls, m', hrun, hdecided, hi, hothers⟩ :=
      NetStep.exists_committed hm hrests.working hl'
    refine ⟨calls, m', hrun, hdecided, ?_, hothers⟩
    rw [hi, hrests.height]
    exact ⟨rfl, rfl, rfl⟩
  obtain ⟨_, n₁, hrun₁, hdecided₁, hfalse₁, hothers₁⟩ := hone false n hb (hn false)
  obtain ⟨_, n₂, hrun₂, hdecided₂, htrue₂, hothers₂⟩ := hone true n₁ (hdecided₁ ▸ hb)
    (hothers₁ true (by decide) ▸ hn true)
  refine ⟨_, n₂, hrun₁.trans hrun₂, hdecided₂.trans hdecided₁, fun i => ?_⟩
  cases i with
  | true => exact htrue₂
  | false => exact hothers₂ false (by decide) ▸ hfalse₁

/-- One node takes the payload of the second block and the other one refuses it. The third block
is that of the second node. -/
theorem exists_parted_run : ∃ calls n,
    partedNetwork.Runs sampleApp (fun _ => ⟨[], 0⟩) calls n ∧
      n.decided = [emptyBlock, payloadBlock 2, payloadBlock 3] ∧
      (n.replica false).Rests 2 (sampleApp.record (samplePayload [])) ∧
      (n.replica true).Rests 2 sampleApp := by
  let n₁ : Net Bool Block (MultiStore Unit) Outside :=
    ⟨fun _ => ⟨0, sampleApp, none, ⟨[], 0⟩⟩, [emptyBlock]⟩
  have hrun₁ : partedNetwork.Runs sampleApp (fun _ => ⟨[], 0⟩) _ n₁ :=
    Run.nil.snoc (NetStep.decide (i := true) rfl (accepts_emptyBlock true))
  obtain ⟨_, n₂, hrun₂, hdecided₂, hrests₂⟩ := exists_both_executed (n := n₁)
    (t := fun _ => sampleApp) (fun i => ⟨rfl, rfl, rfl⟩) rfl
    (fun i l => ⟨l, applies_emptyBlock i l⟩)
  have hrun₃ := (hrun₁.trans hrun₂).snoc (NetStep.decide (i := true) (c := payloadBlock 2)
    (by rw [(hrests₂ true).height, hdecided₂]; rfl) (by
      rw [hdecided₂, (hrests₂ true).committed]
      exact accepts_payloadBlock true rfl (.inl rfl)))
  obtain ⟨_, n₄, hrun₄, hdecided₄, hrests₄⟩ := exists_both_executed (b := payloadBlock 2)
    (n := { n₂ with decided := n₂.decided ++ [payloadBlock 2] })
    (t := fun i => if i then sampleApp else sampleApp.record (samplePayload [])) hrests₂
    (by rw [hdecided₂]; rfl) (fun i l => by
      cases i with
      | true => exact exists_applies_refused l
      | false => exact exists_applies_taken l)
  rw [hdecided₂] at hdecided₄
  have hrun₅ := (hrun₃.trans hrun₄).snoc (NetStep.decide (i := true) (c := payloadBlock 3)
    (by rw [(hrests₄ true).height, hdecided₄]; rfl) (by
      rw [hdecided₄, (hrests₄ true).committed]
      exact accepts_payloadBlock true rfl (.inr rfl)))
  refine ⟨_, _, hrun₅, ?_, hrests₄ false, hrests₄ true⟩
  rw [hdecided₄]
  rfl

/-- The node whose engine took the payload commits no block any more. -/
theorem network_divergence_parted : ∃ calls n,
    partedNetwork.Runs sampleApp (fun _ => ⟨[], 0⟩) calls n ∧ n.decided.length = 3 ∧
      (n.replica false).height = (n.replica true).height ∧
      (n.replica false).committed ≠ (n.replica true).committed ∧
      ∀ calls' n', Run (NetStep partedNetwork.replication) n calls' n' →
        (n'.replica false).height = 2 := by
  obtain ⟨calls, n, hrun, hdecided, hfalse, htrue⟩ := exists_parted_run
  refine ⟨calls, n, hrun, by rw [hdecided]; rfl, hfalse.height.trans htrue.height.symm, ?_,
    fun calls' n' hrun' => ?_⟩
  · rw [hfalse.committed, htrue.committed]
    intro heq
    exact absurd (congrArg heightHash heq) (by decide)
  · have hnext : n.decided[(n.replica false).height]? = some (payloadBlock 3) := by
      rw [hdecided, hfalse.height]
      rfl
    have happ : (payloadBlock 3).header.appHash ≠
        partedNetwork.appHash (n.replica false).committed := by
      rw [hfalse.committed]
      decide
    have hstays := ((network_divergence hashShows_partedNetwork hrun).2 false _ hnext).1 happ
    exact (hstays calls' n' hrun').1.trans hfalse.height

end Sample

/-! ## What a refusal costs -/

/-- Of the payloads of the blocks these were recorded, and the others were refused. -/
inductive Recorded (k : Keeper) (log : List EngineEvent) : List Block → List ExecutableData → Prop
  | nil : Recorded k log [] []
  | taken {bs : List Block} {ps : List ExecutableData} {b : Block} {payload : ExecutableData} :
      Recorded k log bs ps → b.payload k.platform = some payload →
      Recorded k log (bs ++ [b]) (ps ++ [payload])
  | refused {bs : List Block} {ps : List ExecutableData} {b : Block} {payload : ExecutableData} :
      Recorded k log bs ps → b.payload k.platform = some payload →
      Refused k b.header payload log → Recorded k log (bs ++ [b]) ps

section Chain

variable {net : Network I R} {s₀ : MultiStore R} {b₀ : BlockState} {ds : List Block} {i : I}
  {l : Outside}

/-- The recorded payloads lead from the genesis block to the block state. -/
structure RecordedTo (k : Keeper) (b₀ : BlockState) (log : List EngineEvent) (bs : List Block)
    (s : MultiStore R) (ps : List ExecutableData) : Prop where
  recorded : Recorded k log bs ps
  linked : (b₀ :: ps.map ExecutableData.blockState).IsChain Extends
  last : s.evm.blockState = (b₀ :: ps.map ExecutableData.blockState).getLast?

/-- What a block does to the block state at a node. -/
theorem Network.Makes.blockState_cases {b : Block} {s t : MultiStore R} (h : net.Makes i b s t l) :
    (b.header.height = 1 ∧ t.evm.blockState = s.evm.blockState) ∨
    b.header.height ≠ 1 ∧ ∃ state payload, s.evm.blockState = some state ∧
      b.payload (net.keeper i).platform = some payload ∧
      PayloadValid (net.keeper i) b.header state payload ∧
      (t.evm.blockState = some payload.blockState ∨
        t.evm.blockState = s.evm.blockState ∧ Refused (net.keeper i) b.header payload l.log) := by
  obtain ⟨hb, hmakes⟩ := h
  have hnext (ht : nextState net.modules b s = some t) :
      t.evm.blockState = (b.payload net.rules.platform).elim s.evm.blockState
        fun payload => some payload.blockState :=
    nextState_blockState (k := net.keeper i) (m := net.modules) hb ht
  have hrefused (ht : refusedState net.modules b s = some t) :
      t.evm.blockState = s.evm.blockState :=
    refusedState_blockState (k := net.keeper i) (m := net.modules) (s := ⟨s, l⟩) hb ht
  cases hb with
  | first hone htxs =>
    refine .inl ⟨hone, ?_⟩
    rcases hmakes with ht | ⟨ht, -⟩
    · rw [hnext ht, payload_of_no_txs htxs]
      rfl
    · exact hrefused ht
  | @next cs e msg state payload hone htxs hcs he hs hv =>
    have hpayload : b.payload net.rules.platform = some payload :=
      payload_of_valid (k := net.keeper i) htxs he hv
    obtain ⟨-, -, hvalid⟩ := validatePayload_eq_ok_iff.mp hv
    refine .inr ⟨hone, state, payload, hs, hpayload, hvalid, ?_⟩
    rcases hmakes with ht | ⟨ht, q, hq, hlog⟩
    · rw [hnext ht, hpayload]
      exact .inl rfl
    · obtain rfl := Option.some.inj (hpayload.symm.trans hq)
      exact .inr ⟨hrefused ht, hlog⟩

/-- One more block adds its payload to the chain, unless it is the first one or is refused. -/
theorem RecordedTo.step {h : ℕ} {b : Block} {s t : MultiStore R} {ps : List ExecutableData}
    (hchain : RecordedTo (net.keeper i) b₀ l.log ((ds.take h).drop 1) s ps)
    (hb : ds[h]? = some b) (hheight : b.header.height.toInt = h + 1)
    (hmakes : net.Makes i b s t l) :
    ∃ ps', RecordedTo (net.keeper i) b₀ l.log ((ds.take (h + 1)).drop 1) t ps' := by
  have htake : ds.take (h + 1) = ds.take h ++ [b] := by
    rw [List.take_add_one, hb, Option.toList_some]
  rcases hmakes.blockState_cases with
    ⟨hone, hstate⟩ | ⟨hone, state, payload, hs, hpayload, hvalid, hstate⟩
  · have hzero : h = 0 := by
      rw [hone] at hheight
      have : (1 : Int64).toInt = 1 := rfl
      omega
    subst hzero
    refine ⟨ps, ?_, hchain.linked, hstate.trans hchain.last⟩
    rw [htake]
    simpa using hchain.recorded
  · have hne : h ≠ 0 := by
      rintro rfl
      exact hone (Int64.toInt_inj.mp hheight)
    have hlength : 1 ≤ (ds.take h).length := by
      have hlt := (List.getElem?_eq_some_iff.mp hb).1
      rw [List.length_take]
      omega
    rw [htake, List.drop_append_of_le_length hlength]
    rcases hstate with hstate | ⟨hstate, hrefused⟩
    · refine ⟨ps ++ [payload], .taken hchain.recorded hpayload, ?_, ?_⟩
      · exact isChain_concat_payload hchain.linked (hs.symm.trans hchain.last) hvalid
      · rw [hstate, getLast?_concat_payload]
    · exact ⟨ps, .refused hchain.recorded hpayload hrefused, hchain.linked,
        hstate.trans hchain.last⟩

theorem exists_recordedTo
    (hheights : ∀ (h : ℕ) b, ds[h]? = some b → b.header.height.toInt = h + 1)
    (hs₀ : s₀.evm.blockState = some b₀) {h : ℕ} {s : MultiStore R}
    (hs : Arrives (fun b s => b.header.appHash = net.appHash s) net.Makes s₀ ds i l h s) :
    ∃ ps, RecordedTo (net.keeper i) b₀ l.log ((ds.take h).drop 1) s ps := by
  induction hs with
  | start => exact ⟨[], .nil, List.isChain_singleton _, hs₀⟩
  | next _ hb _ hmakes ih =>
    obtain ⟨ps, hps⟩ := ih
    exact hps.step hb (hheights _ _ hb) hmakes

variable [DecidableEq I] {l₀ : I → Outside}
  {calls : List (Call (NetAction I Block) Unit (Net I Block (MultiStore R) Outside))}
  {n : Net I Block (MultiStore R) Outside}

/-- **What a refusal costs.** Let the app hash show whether the payload of a block was recorded.
Whatever the engines answer, in every interleaving, the block state of a node is the end of a chain
from the genesis block on. Of the decided blocks after the first one that the node has committed,
the chain has the payloads in their order but for some, which its engine has refused, and its
height falls behind by one for each of these, as long as the heights last. -/
theorem network_refusals (hshows : net.HashShows) (hrun : net.Runs s₀ l₀ calls n)
    (hs₀ : s₀.evm.blockState = some b₀) (i : I) :
    ∃ ps, RecordedTo (net.keeper i) b₀ (n.replica i).outside.log
        ((n.decided.take (n.replica i).height).drop 1) (n.replica i).committed ps ∧
      (b₀.height.toNat + ps.length < 2 ^ 64 →
        ∃ b, (n.replica i).committed.evm.blockState = some b ∧
          b.height.toNat = b₀.height.toNat + ps.length) := by
  have hn : n.Follows net.replication (fun b s => b.header.appHash = net.appHash s) net.Makes s₀ :=
    Run.follows (net.checked hshows) hrun
  have hheights : ∀ (h : ℕ) b, n.decided[h]? = some b → b.header.height.toInt = h + 1 := by
    intro h b hb
    obtain ⟨j, l, s, -, haccepts⟩ := hn.accepted h b hb
    exact haccepts.1
  obtain ⟨ps, hps⟩ := exists_recordedTo hheights hs₀ (hn.replica i).committed
  exact ⟨ps, hps, exists_chain_height hps.linked hps.last⟩

end Chain

/-- The node whose engine refused the payload of the second block is still at the genesis block. -/
theorem network_refusals_parted : ∃ calls n,
    partedNetwork.Runs sampleApp (fun _ => ⟨[], 0⟩) calls n ∧ (n.replica true).height = 2 ∧
      ∃ ps, RecordedTo (partedNetwork.keeper true) ⟨hexToHash "0x01", 0, 0⟩
        (n.replica true).outside.log [payloadBlock 2] sampleApp ps := by
  obtain ⟨calls, n, hrun, hdecided, -, htrue⟩ := exists_parted_run
  obtain ⟨ps, hps, -⟩ := network_refusals hashShows_partedNetwork hrun rfl true
  rw [hdecided, htrue.height, htrue.committed] at hps
  exact ⟨calls, n, hrun, htrue.height, ps, hps⟩

end NexusNode
