import NexusNode.App.Agreement
import NexusNode.App.Network

/-!
# Progress of the network

A node that is behind executes the decided blocks it is missing. It gets through when all of
their payloads can be sent to the engine; a block that cannot is committed by no node, ever.
At the end of the decided chain, the block that an honest proposer prepares is accepted by every
node that has got there, so the chain goes on.

## Main definitions

* `BareCodec`: the laws of the codecs, with the transaction of a payload read back as bare

## Main results

* `network_catches_up_iff`: when a node can catch up, and what stops all of them
* `network_accepts_honest`: every node accepts the block of an honest proposer
-/

namespace NexusNode

open Program Proc

variable {I R : Type}

/-! ## Catching up -/

section CatchingUp

variable {net : Network I R} {s₀ : MultiStore R}

/-- The first `m` decided blocks can be sent. -/
def SendableUpTo (p : Platform) (ds : List Block) (m : ℕ) : Prop :=
  ∀ h b, h < m → ds[h]? = some b → b.Sendable p

/-- Nodes have executed only what can be sent. -/
theorem Network.keeps_sendable (hlenient : net.Lenient) :
    net.replication.Keeps (nextState net.modules) s₀ fun _ ds m _ =>
      SendableUpTo net.rules.platform ds m where
  decide i ds m l c hm h := by
    intro d b hd hb
    rw [List.getElem?_append_left (Nat.lt_of_lt_of_le hd hm)] at hb
    exact h d b hd hb
  forget i ds m l h := fun d b hd => h d b (Nat.lt_succ_of_lt hd)
  works _ _ _ _ _ _ _ _ _ _ _ h := h
  stops _ _ _ _ _ _ _ _ _ h := h
  applies i ds h b s l s' l' hdue happlies hsend := by
    intro d c hd hc
    rcases Nat.lt_succ_iff_lt_or_eq.mp hd with hlt | rfl
    · exact hsend d c hlt hc
    · obtain rfl := Option.some.inj (hdue.command.symm.trans hc)
      obtain ⟨-, eng, attempts, heng, hrun⟩ := happlies
      obtain ⟨j, hj⟩ := hdue.accepted
      by_contra hns
      exact finalizeBlock_ne_ok (k := net.keeper i) (m := net.modules) (s := ⟨s, l⟩)
        (net.accepted i hj) (hlenient i eng heng) hns _ hrun

variable [DecidableEq I] {l₀ : I → Outside}
  {calls : List (Call (NetAction I Block) Unit (Net I Block (MultiStore R) Outside))}
  {n : Net I Block (MultiStore R) Outside}

/-- **Catching up.** With engines that refuse nothing, and as long as the modules do not fail, a
node whose engine takes everything can commit all decided blocks, whatever has happened before,
exactly when the payloads of all of them can be sent. A decided block that cannot be sent is
committed by no node, whatever happens after. -/
theorem network_catches_up_iff (hlenient : net.Lenient) (hrun : net.Runs s₀ l₀ calls n)
    (hds : replay (nextState net.modules) s₀ n.decided ≠ none) {i : I}
    (hi : ∃ eng, net.engine i eng ∧ eng.AlwaysValid) :
    ((∃ calls' n', Run (NetStep net.replication) n calls' n' ∧
        n.decided.length ≤ (n'.replica i).height) ↔
      ∀ b ∈ n.decided, b.Sendable net.rules.platform) ∧
    ∀ h b, n.decided[h]? = some b → ¬ b.Sendable net.rules.platform →
      ∀ calls' n', Run (NetStep net.replication) n calls' n' →
        ∀ j, (n'.replica j).height ≤ h := by
  have hsent : ∀ {calls' n'}, Run (NetStep net.replication) n calls' n' → ∀ (j : I) h b,
      h < (n'.replica j).height → n.decided[h]? = some b → b.Sendable net.rules.platform := by
    intro calls' n' hrun' j h b hh hb
    have hup := Run.outside (net.keeps_sendable hlenient) (net.next_of_applies hlenient)
      (fun _ d b hd => absurd hd (Nat.not_lt_zero d)) (hrun.trans hrun') j
    obtain ⟨more, hmore⟩ := hrun'.decided_mono
    refine hup h b hh ?_
    rw [← hmore, List.getElem?_append_left (List.getElem?_eq_some_iff.mp hb).1, hb]
  refine ⟨⟨?_, fun hsend => ?_⟩, fun h b hb hns calls' n' hrun' j => ?_⟩
  · rintro ⟨calls', n', hrun', hheight⟩ b hb
    obtain ⟨h, hh⟩ := List.mem_iff_getElem?.mp hb
    have hlt := (List.getElem?_eq_some_iff.mp hh).1
    exact hsent hrun' i h b (Nat.lt_of_lt_of_le hlt hheight) hh
  · obtain ⟨eng, heng, hvalid⟩ := hi
    obtain ⟨calls', n', hrun', -, hheight⟩ :=
      (net.runs_replays hlenient hrun).exists_caught_up (i := i) (net.next_of_applies hlenient)
        (fun h b s l hdue _ hne => hdue.accepted.elim fun j hj => net.exists_applies heng hvalid hj
          (hsend b (List.mem_of_getElem? hdue.command)) hne l) hds
    exact ⟨calls', n', hrun', hheight.ge⟩
  · by_contra hgt
    exact hns (hsent hrun' j h b (Nat.lt_of_not_le hgt) hb)

end CatchingUp

/-- In the sample both blocks can be sent, so a node gets through them. -/
theorem network_catches_up_sample :
    ∃ calls n, sampleNetwork.Runs sampleApp (fun _ => ⟨[], 0⟩) calls n ∧
      n.decided = [firstBlock, secondBlock] ∧
      ∃ calls' n', Run (NetStep sampleNetwork.replication) n calls' n' ∧
        n.decided.length ≤ (n'.replica true).height := by
  obtain ⟨calls, n, hrun, hdecided, -⟩ := exists_sample_run
  refine ⟨calls, n, hrun, hdecided, ?_⟩
  refine (network_catches_up_iff (i := true) lenient_sampleNetwork hrun (replay_sample_ne_none _)
    ⟨_, .inr rfl, alwaysValid_validEngine _⟩).1.mpr ?_
  rw [hdecided]
  exact sendable_sample

/-! ## Honest proposers -/

/-- The laws of the codecs, with the transaction of a payload read back as a bare one. -/
structure BareCodec (p : Platform) : Prop extends Codec p where
  bare : ∀ msg built raw tx, p.buildTx msg = .ok built → p.txEncoder built = .ok raw →
    p.txDecoder raw = .ok tx → ∃ standardTx, tx.standard = some standardTx ∧ standardTx.Bare p

/-- The transaction of a payload carries the message of the module, and that the payload. -/
theorem payloadTx_of_codec {p : Platform} {payload : ExecutableData} {raw : Bytes}
    (hp : BareCodec p) (h : payloadTx p payload = .ok raw) :
    ∃ data, PayloadTx p raw ⟨p.accAddressString p.evmModuleAddress, data⟩ ∧
      p.unmarshalPayload data = .ok payload ∧ raw.length ≤ maxTxSize := by
  obtain ⟨⟨data, built, hdata, hbuilt, hraw⟩, hlength⟩ := payloadTx_eq_ok_iff.mp h
  obtain ⟨tx, hdec, hmsgs⟩ := hp.decode_encode _ _ _ hbuilt hraw
  obtain ⟨st, hst, hbare⟩ := hp.bare _ _ _ _ hbuilt hraw hdec
  exact ⟨data, ⟨tx, st, hdec, hmsgs, hst, hbare⟩, hp.unmarshal_marshal _ _ hdata, hlength⟩

section Honest

variable [DecidableEq I] {net : Network I R} {s₀ : MultiStore R} {l₀ : I → Outside}
  {calls : List (Call (NetAction I Block) Unit (Net I Block (MultiStore R) Outside))}
  {n : Net I Block (MultiStore R) Outside}

/-- **Honest proposals.** In a network whose engines refuse nothing and whose codecs read back what
they write, a node that has committed all decided blocks prepares the next one, the engine hands it
an honest payload, and the timestamp rule leaves room behind the stored one. If the transactions
it took from the mempool are small enough, every node that has committed all decided blocks, with
whatever recipient and fork schedule, accepts the block with enough votes, and it can be
decided. -/
theorem network_accepts_honest (hlenient : net.Lenient) (hrun : net.Runs s₀ l₀ calls n)
    (hcodec : BareCodec net.rules.platform) {i : I}
    (htip : (n.replica i).height = n.decided.length) (hsome : n.decided ≠ [])
    {eng : Engine} {ctx : SdkContext} {attempts : ℕ} {txs block : List Bytes} {w w' : World}
    (hheight : ctx.header.height.toInt = n.decided.length + 1)
    (happ : ctx.header.appHash = net.appHash (n.replica i).committed)
    (hw : w.store = (n.replica i).committed.evm)
    (hprepare : makePrepareProposalHandler (net.keeper i) eng net.maxCosmosTxs ctx attempts
      ⟨ctx.header.height, txs⟩ w = (.ok block, w'))
    (hhonest : ∀ state envelope made, w.store.blockState = some state →
      ObtainedBy (net.keeper i) ctx.header ctx.header.height.toUInt64 state envelope made →
      w'.log = w.log ++ made →
      HonestPayload (net.keeper i) ctx.header state envelope.executionPayload ∧
        TimestampRoom net.rules.config ctx.header.height.toUInt64 state.timestamp)
    (hsmall : ∀ raw ∈ eligibleTxs net.rules.platform net.maxCosmosTxs txs,
      raw.length ≤ maxTxSize)
    {votes : List VoteInfo} (hvotes : votingPowerOk votes = true) (j : I)
    (hj : (n.replica j).height = n.decided.length) :
    NetStep net.replication (.decide j ⟨ctx.header, block⟩) n ()
      { n with decided := n.decided ++ [⟨ctx.header, block⟩] } := by
  have hstates := (net.runs_replays hlenient hrun).agree (hj.trans htip.symm)
  have hpos : 0 < n.decided.length := List.length_pos_iff.mpr hsome
  have hne : ctx.header.height ≠ 1 := by
    intro hone
    rw [hone] at hheight
    have : (1 : Int64).toInt = 1 := rfl
    omega
  have hnonneg : 0 ≤ ctx.header.height := by
    rw [Int64.le_iff_toInt_le]
    have : (0 : Int64).toInt = 0 := rfl
    omega
  obtain ⟨e, hprepared, rfl⟩ := makePrepareProposalHandler_ok hne hprepare
  obtain ⟨state, envelope, made, e', hs, -, hmade, hlog, htx, he'⟩ :=
    prepareProposal_ok hne hprepared
  obtain rfl : e = e' := by simpa using he'
  obtain ⟨honest, hroom⟩ := hhonest state envelope made hs hmade hlog
  obtain ⟨data, hpayloadTx, hdecode, hlength⟩ := payloadTx_of_codec hcodec htx
  have hvalid : PayloadValid (net.keeper i) ctx.header state envelope.executionPayload :=
    (honest.payloadValid_iff hnonneg).mpr hroom
  have hchecked : validatePayload (net.keeper j) ctx
      ⟨net.rules.platform.accAddressString net.rules.platform.evmModuleAddress, data⟩ state =
      .ok envelope.executionPayload :=
    validatePayload_eq_ok_iff.mpr ⟨rfl, hdecode, hvalid.withdrawals, hvalid.blobGasUsed,
      hvalid.excessBlobGas, hvalid.witness, hvalid.parentHash, hvalid.number, hvalid.newer,
      hvalid.height_nonneg, hvalid.timestamp⟩
  have hform : BlockForm net.rules.platform net.maxCosmosTxs
      (eligibleTxs net.rules.platform net.maxCosmosTxs txs ++ [e]) _ :=
    (blockForm_eligibleTxs_iff hlength hpayloadTx).mpr hsmall
  refine NetStep.decide hj ⟨hheight, by rw [hstates]; exact happ, ctx, votes, rfl, ?_⟩
  refine (processProposal_eq_accept_iff hne).mpr ⟨hvotes, _, hform, ?_⟩
  refine proposalExecutionPayload_eq_ok_iff.mpr ⟨state, _, ?_, hchecked⟩
  rw [hstates, ← hw]
  exact hs

end Honest

section Sample

open Wire

theorem bareCodec_samplePlatform : BareCodec (samplePlatform (samplePayload []) []) where
  toCodec := codec_samplePlatform (samplePayload []) []
  bare msg built raw tx _ _ htx := by
    unfold samplePlatform at htx
    dsimp only at htx
    split_ifs at htx
    obtain rfl := Except.ok.inj htx
    exact ⟨_, rfl, rfl, rfl, rfl, rfl, rfl⟩

/-- The proposal of one node of the sample is accepted by it, after the first block. -/
theorem network_accepts_honest_sample :
    ∃ calls n, sampleNetwork.Runs sampleApp (fun _ => ⟨[], 0⟩) calls n ∧
      n.decided = [firstBlock] ∧
      NetStep sampleNetwork.replication (.decide false secondBlock) n ()
        { n with decided := n.decided ++ [secondBlock] } := by
  obtain ⟨calls, n, hrun, hdecided, hheight, hstate⟩ := exists_first_run
  refine ⟨calls, n, hrun, hdecided, ?_⟩
  have htx : payloadTx (sampleNetwork.keeper false).platform (samplePayload []) =
      .ok (encodePayloadTx (payloadMsg (samplePayload []))) := payloadTx_samplePayload []
  obtain ⟨w', hprepare, -, hlog⟩ :=
    prepareProposal_samplePayload htx [] [] (w := sampleWorld) rfl
  have htip : (n.replica false).height = n.decided.length := by
    rw [hheight, hdecided]
    rfl
  have hvotes : votingPowerOk [⟨10, .commit⟩] = true := by decide
  refine network_accepts_honest lenient_sampleNetwork hrun bareCodec_samplePlatform htip
    (by simp [hdecided]) (by rw [hdecided]; rfl) rfl (by rw [hstate]; rfl)
    (makePrepareProposalHandler_of_ok (by decide) hprepare) ?_ (by simp [eligibleTxs]) hvotes
    false htip
  rintro state envelope made hs ⟨fs, r, id, gs, rfl, -, -, -, -⟩ hmade
  obtain rfl := Option.some.inj hs
  have hlast := congrArg List.getLast? (hlog.symm.trans hmade)
  rw [List.getLast?_concat, ← List.append_assoc, ← List.append_assoc, List.getLast?_concat] at hlast
  obtain ⟨-, henvelope⟩ := EngineEvent.getPayload.inj (Option.some.inj hlast)
  obtain rfl := Except.ok.inj henvelope
  exact ⟨⟨rfl, rfl, rfl, rfl, by simp [samplePayload, emptyPayload],
    by simp [samplePayload, emptyPayload], rfl⟩, by decide⟩

end Sample

end NexusNode
