import NexusNode.App.Agreement
import NexusNode.Evm.Finalize

/-!
# From proposal to finalization

A block is checked twice: its transactions and the message of its payload when it is proposed,
and the message again when it is finalized, after the other transactions have run. What was
accepted passes the second check on the same block state. It is then handed to the engine,
with what the proposer's engine had built.

## Main definitions

* `deliverTxs`: the transactions of a block, run in order
* `Codec`: the laws of the codecs a payload passes on its way

## Main results

* `checkExecutionPayload_of_accepted`: what was accepted passes the checks of the finalization
* `executionPayload_of_accepted_iff`: an accepted block is finalized when its payload can be
  sent
* `payload_handed_back`: the finalizer hands back the payload of the proposer's engine
-/

namespace NexusNode

open Program Proc

/-! ## The second check -/

/-- The validation reads the height and the time of the header. -/
theorem validatePayload_congr {k : Keeper} {ctx ctx' : SdkContext} {msg : MsgExecutionPayload}
    {state : BlockState} (hheight : ctx'.header.height = ctx.header.height)
    (htime : ctx'.header.time = ctx.header.time) :
    validatePayload k ctx' msg state = validatePayload k ctx msg state := by
  unfold validatePayload checkPayload
  rw [hheight, htime]

/-- A message that is valid has a payload. -/
theorem executionPayload_ne_nil_of_valid {k : Keeper} {ctx : SdkContext} {state : BlockState}
    {msg : MsgExecutionPayload} {payload : ExecutableData}
    (h : validatePayload k ctx msg state = .ok payload) : msg.executionPayload ≠ [] := by
  intro hnil
  obtain ⟨-, hdecode, -⟩ := validatePayload_eq_ok_iff.mp h
  obtain ⟨e, he⟩ := k.platform.unmarshalPayload_nil
  rw [hnil, he] at hdecode
  simp at hdecode

/-- A message that the server of proposals accepts passes the checks of the other server, in
finalize mode, on the same block state and under the same height and time. -/
theorem checkExecutionPayload_of_proposal {k : Keeper} {ctx ctx' : SdkContext}
    {msg : MsgExecutionPayload} {store store' : Store}
    (h : proposalExecutionPayload k ctx msg store = .ok ()) (hmode : ctx'.execMode = .finalize)
    (hheight : ctx'.header.height = ctx.header.height) (htime : ctx'.header.time = ctx.header.time)
    (hstate : store'.blockState = store.blockState) :
    ∃ state payload, store.blockState = some state ∧
      validatePayload k ctx msg state = .ok payload ∧
      checkExecutionPayload k ctx' msg store' = .ok payload := by
  obtain ⟨state, payload, hs, hv⟩ := proposalExecutionPayload_eq_ok_iff.mp h
  refine ⟨state, payload, hs, hv, checkExecutionPayload_eq_ok_iff.mpr
    ⟨hmode, executionPayload_ne_nil_of_valid hv, state, hstate.trans hs, ?_⟩⟩
  rw [validatePayload_congr hheight htime, hv]

section Deliver

variable {S : Type}

/-- The transactions of a block run in order; `deliverTx` runs one, whether it succeeds or
fails. -/
def deliverTxs (deliverTx : Bytes → S → S) (txs : List Bytes) (s : S) : S :=
  txs.foldl (fun s tx => deliverTx tx s) s

/-- Transactions that do not write the store of the module leave it as it was. -/
theorem deliverTxs_keeps {deliverTx : Bytes → S → S} {evmStore : S → Store} {txs : List Bytes}
    (hkeep : ∀ tx ∈ txs, ∀ s, evmStore (deliverTx tx s) = evmStore s) (s : S) :
    evmStore (deliverTxs deliverTx txs s) = evmStore s := by
  unfold deliverTxs
  induction txs generalizing s with
  | nil => rfl
  | cons tx txs ih =>
    rw [List.foldl_cons, ih (fun t ht => hkeep t (by simp [ht])), hkeep tx (by simp)]

/-- **What was accepted passes the checks of the finalization.** When the transactions of an
accepted block run in finalize mode under the same height and time, and those before the
payload do not write the store of the module, the checks of the message server succeed for the
last one and yield the payload that was validated. -/
theorem checkExecutionPayload_of_accepted {k : Keeper} {maxCosmosTxs : Int}
    {ctx ctx' : SdkContext} {req : RequestProcessProposal} {deliverTx : Bytes → S → S}
    {evmStore : S → Store} {s : S}
    (hkeep : ∀ tx, CosmosTx k.platform tx → ∀ s, evmStore (deliverTx tx s) = evmStore s)
    (haccept : processProposal k maxCosmosTxs ctx req (evmStore s) = .ok .accept)
    (hh : 2 ≤ req.height) (hmode : ctx'.execMode = .finalize)
    (hheight : ctx'.header.height = ctx.header.height)
    (htime : ctx'.header.time = ctx.header.time) :
    ∃ cs e msg state payload, req.txs = cs ++ [e] ∧ PayloadTx k.platform e msg ∧
      (evmStore s).blockState = some state ∧ validatePayload k ctx msg state = .ok payload ∧
      checkExecutionPayload k ctx' msg (evmStore (deliverTxs deliverTx cs s)) = .ok payload := by
  have hne : req.height ≠ 1 := by
    intro h
    rw [h] at hh
    exact absurd hh (by decide)
  obtain ⟨-, msg, ⟨cs, e, htxs, -, -, hcs, hp⟩, hconsent⟩ :=
    (processProposal_eq_accept_iff hne).mp haccept
  have hstore := deliverTxs_keeps (fun tx htx => hkeep tx (hcs tx htx)) s
  obtain ⟨state, payload, hs, hv, hcheck⟩ := checkExecutionPayload_of_proposal hconsent hmode
    hheight htime (congrArg Store.blockState hstore)
  exact ⟨cs, e, msg, state, payload, htxs, hp, hs, hv, hcheck⟩

end Deliver

section Behind

open Wire

/-- A chain that counts its governance proposals beside the store of the module. Every other
transaction clears the block state. -/
def countProposals (tx : Bytes) (s : Store × ℕ) : Store × ℕ :=
  if tx = submitProposalTx [] then (s.1, s.2 + 1) else ({ s.1 with blockState := none }, s.2)

/-- The platform knows one transaction of the Cosmos modules. -/
theorem cosmosTx_govKeeper {tx : Bytes} (h : CosmosTx (govKeeper []).platform tx) :
    tx = submitProposalTx [] := by
  obtain ⟨decoded, type, body, hdecode, hmsgs, -⟩ := h
  by_contra hne
  rw [show (govKeeper []).platform.txDecoder tx = _ from if_neg hne] at hdecode
  unfold sampleKeeper samplePlatform at hdecode
  dsimp only at hdecode
  split_ifs at hdecode
  obtain rfl := Except.ok.inj hdecode
  cases hmsgs

/-- The block of a governance proposal and the sample payload is accepted. Behind the proposal,
which is counted, the payload passes the second check. -/
theorem checkExecutionPayload_of_accepted_behind :
    let k := govKeeper []
    let s := deliverTxs countProposals [submitProposalTx []] (sampleStore, 0)
    processProposal k 1 (sampleCtx .processProposal)
      ⟨2, [submitProposalTx [], encodePayloadTx (payloadMsg (samplePayload []))],
        [⟨10, .commit⟩]⟩ sampleStore = .ok .accept ∧
    s.2 = 1 ∧ ∃ state payload, sampleStore.blockState = some state ∧
      validatePayload k (sampleCtx .processProposal) (payloadMsg (samplePayload [])) state =
        .ok payload ∧
      checkExecutionPayload k (sampleCtx .finalize) (payloadMsg (samplePayload [])) s.1 =
        .ok payload := by
  intro k s
  have hkeep : ∀ tx, CosmosTx k.platform tx → ∀ s, (countProposals tx s).1 = s.1 := by
    intro tx htx s
    rw [countProposals, if_pos (cosmosTx_govKeeper htx)]
  obtain ⟨cs, e, msg, state, payload, htxs, hmsg, hstate, hvalid, hcheck⟩ :=
    @checkExecutionPayload_of_accepted _ k 1 _ (sampleCtx .finalize) _ countProposals Prod.fst
      (sampleStore, 0) hkeep processProposal_govKeeper (by decide) rfl rfl rfl
  have hblock : [submitProposalTx []] ++ [encodePayloadTx (payloadMsg (samplePayload []))] =
      cs ++ [e] := htxs
  obtain ⟨rfl, hlast⟩ := List.append_inj' hblock rfl
  obtain rfl := List.singleton_inj.mp hlast
  obtain rfl := hmsg.unique (payloadTx_govKeeper payloadTx_ne_submitProposalTx).1
  exact ⟨processProposal_govKeeper, congrArg Prod.snd (if_pos rfl), state, payload, hstate, hvalid,
    hcheck⟩

end Behind

/-! ## Finalization of an accepted block -/

/-- **An accepted block is finalized when its payload can be sent.** On the same state and
header, with a non-zero app hash and an engine that answers `VALID` to everything, the message
of an accepted block is finalized after finitely many attempts exactly when the transactions
of its payload decode with at most `maxBlobsPerBlock` blob hashes. Nothing in the acceptance
asks for that. -/
theorem executionPayload_of_accepted_iff {k : Keeper} {maxCosmosTxs : Int}
    {ctx ctx' : SdkContext} {req : RequestProcessProposal} {eng : Engine} {w : World}
    (haccept : processProposal k maxCosmosTxs ctx req w.store = .ok .accept)
    (hh : req.height ≠ 1) (hhdr : ctx'.header = ctx.header) (hmode : ctx'.execMode = .finalize)
    (happ : bytesToHash ctx.header.appHash ≠ zeroHash) (heng : eng.AlwaysValid) :
    ∃ msg payload, BlockForm k.platform maxCosmosTxs req.txs msg ∧
      k.platform.unmarshalPayload msg.executionPayload = .ok payload ∧
      ((∃ attempts, (executionPayload k eng ctx' attempts msg w).1 = .ok ()) ↔
        Sendable k.platform payload) := by
  obtain ⟨-, msg, hform, hconsent⟩ := (processProposal_eq_accept_iff hh).mp haccept
  obtain ⟨state, payload, -, hv, hcheck⟩ := checkExecutionPayload_of_proposal hconsent hmode
    (congrArg Header.height hhdr) (congrArg Header.time hhdr) rfl
  obtain ⟨-, hdecode, -⟩ := validatePayload_eq_ok_iff.mp hv
  exact ⟨msg, payload, hform, hdecode,
    executionPayload_exists_ok_iff heng (by rw [hhdr]; exact happ) hcheck⟩

section Wedge

open Wire

/-- The proposal of one payload transaction, with all votes. -/
def proposalOf (payload : ExecutableData) : RequestProcessProposal :=
  ⟨2, [encodePayloadTx (payloadMsg payload)], [⟨10, .commit⟩]⟩

/-- A block with a transaction of two blobs is accepted and finalized. -/
theorem executionPayload_of_accepted_blobs :
    processProposal (blobKeeper 2) 1 (sampleCtx .processProposal) (proposalOf (blobPayload 2))
      sampleWorld.store = .ok .accept ∧
    ∃ attempts, (executionPayload (blobKeeper 2) (validEngine ⟨blobPayload 2, []⟩)
      (sampleCtx .finalize) attempts (payloadMsg (blobPayload 2)) sampleWorld).1 = .ok () := by
  have haccept : processProposal (blobKeeper 2) 1 (sampleCtx .processProposal)
      (proposalOf (blobPayload 2)) sampleWorld.store = .ok .accept :=
    processProposal_sampleKeeper 1 rfl (payloadValid_samplePayload _ _ _ .processProposal)
      (by decide +kernel) (by decide) (by decide)
  obtain ⟨msg, payload, hform, hdecode, hiff⟩ :=
    @executionPayload_of_accepted_iff _ _ _ (sampleCtx .finalize) _ _ sampleWorld haccept
      (by decide) rfl rfl (by decide) (alwaysValid_validEngine ⟨blobPayload 2, []⟩)
  obtain rfl : msg = payloadMsg (blobPayload 2) :=
    @BlockForm.message _ _ [] _ _ _ hform (payloadTx_samplePlatform (blobPayload 2) _)
  obtain rfl : blobPayload 2 = payload :=
    Except.ok.inj ((samplePlatform_unmarshalPayload (blobPayload 2) _).symm.trans hdecode)
  exact ⟨haccept, hiff.mpr ⟨_, blobHashes_blobKeeper 2, by decide⟩⟩

/-- The block of a payload with an empty transaction is accepted. Its finalization never
returns: the transaction does not decode, and the failure is taken for one of the network. -/
theorem accepted_block_never_finalized :
    let k := sampleKeeper defaultConfig cancunSpec (samplePayload [[]]) []
    let msg := payloadMsg (samplePayload [[]])
    processProposal k 1 (sampleCtx .processProposal) (proposalOf (samplePayload [[]]))
        sampleWorld.store = .ok .accept ∧
      PayloadTx k.platform (encodePayloadTx msg) msg ∧
      bytesToHash (sampleCtx .finalize).header.appHash ≠ zeroHash ∧
      (validEngine ⟨samplePayload [[]], []⟩).AlwaysValid ∧
      ∀ attempts, (executionPayload k (validEngine ⟨samplePayload [[]], []⟩) (sampleCtx .finalize)
        attempts msg sampleWorld).1 = .error .running := by
  intro k msg
  have hcheck : checkExecutionPayload k (sampleCtx .finalize) msg sampleWorld.store =
      .ok (samplePayload [[]]) := checkExecutionPayload_samplePayload cancunSpec [[]] []
  have hns : ¬ Sendable k.platform (samplePayload [[]]) := by
    rintro ⟨hashes, hh, -⟩
    obtain ⟨tx, rest, htx, -, -⟩ := blobHashes_cons.mp hh
    simp [k, sampleKeeper, samplePlatform] at htx
  exact ⟨processProposal_sampleKeeper 1 rfl (payloadValid_samplePayload [[]] [] cancunSpec
      .processProposal) (by decide +kernel) (by decide) (by decide),
    payloadTx_samplePlatform (samplePayload [[]]) [], by decide, alwaysValid_validEngine _,
    fun attempts => executionPayload_running (fun _ => rfl) hcheck hns⟩

end Wedge

/-! ## What the finalizer hands back -/

/-- The laws of the codecs on the way of a payload: JSON loses nothing of it, and a
transaction decodes to the message it was built from. -/
structure Codec (p : Platform) : Prop where
  unmarshal_marshal : ∀ payload data, p.marshalPayload payload = .ok data →
    p.unmarshalPayload data = .ok payload
  decode_encode : ∀ msg tx raw, p.buildTx msg = .ok tx → p.txEncoder tx = .ok raw →
    ∃ tx', p.txDecoder raw = .ok tx' ∧ tx'.msgs = [msg]

/-- The transaction of a payload decodes to a message that decodes to the payload. -/
theorem payloadTx_decodes {p : Platform} {payload : ExecutableData} {raw : Bytes} (hp : Codec p)
    (h : payloadTx p payload = .ok raw) :
    ∃ tx msg, p.txDecoder raw = .ok tx ∧ tx.msgs = [.executionPayload msg] ∧
      p.unmarshalPayload msg.executionPayload = .ok payload := by
  obtain ⟨⟨data, built, hdata, hbuilt, hraw⟩, -⟩ := payloadTx_eq_ok_iff.mp h
  obtain ⟨tx, hdec, hmsgs⟩ := hp.decode_encode _ _ _ hbuilt hraw
  exact ⟨tx, _, hdec, hmsgs, hp.unmarshal_marshal _ _ hdata⟩

/-- **The finalizer hands back the payload of the proposer's engine.** When a proposal prepared
at a timestamp of Prague is finalized under the same header, on the same block state, every
`newPayload` call carries the payload of the envelope that `getPayload` returned, the beacon
root that was sent with the attributes of the build, and an empty list of execution requests.
So the requests are handed back exactly when the envelope has none. -/
theorem payload_handed_back {k : Keeper} {eng eng' : Engine} {ctx ctx' : SdkContext}
    {attempts attempts' : ℕ} {req : RequestPrepareProposal} {w w' u : World} {txs : List Bytes}
    {state : BlockState} {msg : MsgExecutionPayload} {tx : Tx} {raw : Bytes}
    (hp : Codec k.platform) (hh : req.height ≠ 1)
    (hprepare : prepareProposal k eng ctx attempts req w = (.ok txs, w'))
    (hstate : w.store.blockState = some state)
    (hprague : k.chainSpec.isPragueActive (calculateTimestamp k.config ctx.header.time
      ctx.header.height.toUInt64 state.timestamp) = true)
    (hhdr : ctx'.header = ctx.header) (hstate' : u.store.blockState = some state)
    (hraw : raw ∈ txs) (hdec : k.platform.txDecoder raw = .ok tx)
    (hmsg : tx.msgs = [.executionPayload msg]) :
    ∃ envelope calls, ObtainedBy k ctx.header ctx.header.height.toUInt64 state envelope calls ∧
      w'.log = w.log ++ calls ∧
      ∀ calls', (executionPayload k eng' ctx' attempts' msg u).2.log = u.log ++ calls' →
        ∀ call reply, .newPayload call reply ∈ calls' →
          call.params = envelope.executionPayload ∧
          call.beaconRoot =
            (payloadAttributes k ctx.header ctx.header.height.toUInt64 state).beaconRoot ∧
          4 ≤ call.version ∧ call.requests = some [] ∧
          (call.requests = some envelope.requests ↔ envelope.requests = []) := by
  obtain ⟨state₀, envelope, calls, tx₀, hs₀, -, hobtained, hlog, htx₀, rfl⟩ :=
    prepareProposal_ok hh hprepare
  obtain rfl := Option.some.inj (hs₀.symm.trans hstate)
  refine ⟨envelope, calls, hobtained, hlog, fun calls' hcalls' call reply hmem => ?_⟩
  obtain rfl := List.mem_singleton.mp hraw
  obtain ⟨tx', msg', hdec', hmsg', hdecode⟩ := payloadTx_decodes hp htx₀
  obtain rfl := Except.ok.inj (hdec.symm.trans hdec')
  obtain rfl : msg = msg' := by simpa using hmsg.symm.trans hmsg'
  cases hcheck : checkExecutionPayload k ctx' msg u.store with
  | error r =>
    rw [executionPayload_of_check_error hcheck] at hcalls'
    obtain rfl : calls' = [] := by simpa using hcalls'
    cases hmem
  | ok payload =>
    obtain ⟨-, -, state', hs', hv⟩ := checkExecutionPayload_eq_ok_iff.mp hcheck
    obtain rfl := Option.some.inj (hs'.symm.trans hstate')
    obtain ⟨-, hdecode', hvalid⟩ := validatePayload_eq_ok_iff.mp hv
    obtain rfl := Except.ok.inj (hdecode'.symm.trans hdecode)
    obtain ⟨es, hes, hcallOf⟩ := executionPayload_logsOnly eng' attempts' hcheck
    obtain rfl := List.append_cancel_left (hes.symm.trans hcalls')
    obtain ⟨hashes, -, rfl⟩ := hcallOf _ hmem call reply rfl
    have hversion : 4 ≤ k.chainSpec.newPayloadEngineRPCVersion
        envelope.executionPayload.timestamp := by
      rw [hvalid.timestamp, hhdr]
      unfold ChainSpec.newPayloadEngineRPCVersion
      split_ifs <;> simp_all
    have hrequests : (payloadCall k ctx'.header envelope.executionPayload hashes).requests =
        some [] := if_neg (by omega)
    refine ⟨rfl, by rw [payloadCall, hhdr]; rfl, hversion, hrequests, ?_⟩
    rw [hrequests, Option.some.injEq, eq_comm]

section Requests

open Wire

theorem codec_samplePlatform (payload : ExecutableData) (txs : List (Bytes × EvmTx)) :
    Codec (samplePlatform payload txs) where
  unmarshal_marshal p data h := by
    unfold samplePlatform at h
    dsimp only at h
    split_ifs at h with hp
    obtain rfl := Except.ok.inj h
    rw [hp]
    exact samplePlatform_unmarshalPayload payload txs
  decode_encode msg tx raw hbuild hencode := by
    obtain rfl := Except.ok.inj hbuild
    unfold samplePlatform bareTx at hencode
    dsimp only at hencode
    split at hencode
    · next m hm =>
      split_ifs at hencode with heq
      obtain rfl := Except.ok.inj hencode
      obtain rfl : msg = .executionPayload m := by simpa using hm
      rw [heq]
      exact ⟨_, samplePlatform_txDecoder payload txs, rfl⟩
    · simp at hencode

/-- The keeper of a network with Prague from the start. -/
def pragueKeeper : Keeper := sampleKeeper defaultConfig pragueSpec (samplePayload []) []

/-- The engine that built the sample payload with the given execution requests. -/
def requestsEngine (requests : List Bytes) : Engine := validEngine ⟨samplePayload [], requests⟩

theorem requestsEngine_eq (requests : List Bytes) :
    requestsEngine requests = validEngine ⟨samplePayload [], requests⟩ := rfl

/-- Without execution requests everything is handed back. -/
theorem payload_handed_back_without_requests :
    ∃ envelope calls, ObtainedBy pragueKeeper (sampleCtx .prepareProposal).header 2
        ⟨hexToHash "0x01", 0, 0⟩ envelope calls ∧
      (prepareProposal pragueKeeper (requestsEngine []) (sampleCtx .prepareProposal) 1 ⟨2, []⟩
        sampleWorld).2.log = [] ++ calls ∧
      ∀ calls', (executionPayload pragueKeeper (requestsEngine []) (sampleCtx .finalize) 1
          (payloadMsg (samplePayload [])) sampleWorld).2.log = [] ++ calls' →
        ∀ call reply, .newPayload call reply ∈ calls' →
          call.params = envelope.executionPayload ∧
          call.beaconRoot = (payloadAttributes pragueKeeper (sampleCtx .prepareProposal).header 2
            ⟨hexToHash "0x01", 0, 0⟩).beaconRoot ∧
          4 ≤ call.version ∧ call.requests = some [] ∧
          (call.requests = some envelope.requests ↔ envelope.requests = []) := by
  have hcodec : Codec pragueKeeper.platform := codec_samplePlatform (samplePayload []) []
  have htx : payloadTx pragueKeeper.platform (samplePayload []) =
      .ok (encodePayloadTx (payloadMsg (samplePayload []))) := payloadTx_samplePayload []
  obtain ⟨w', hprepare, -, -⟩ := prepareProposal_samplePayload htx [] [] (w := sampleWorld) rfl
  rw [← requestsEngine_eq] at hprepare
  have hdec : pragueKeeper.platform.txDecoder (encodePayloadTx (payloadMsg (samplePayload []))) =
      .ok (bareTx (.executionPayload (payloadMsg (samplePayload [])))) :=
    samplePlatform_txDecoder (samplePayload []) []
  rw [hprepare]
  exact payload_handed_back hcodec (by decide) hprepare rfl (by decide) rfl rfl
    (List.mem_singleton.mpr rfl) hdec rfl

/-- An execution request of the engine is dropped: `getPayload` returned it, and the
`newPayload` call carries none. -/
theorem execution_requests_dropped :
    let requests : List Bytes := [[1, 2]]
    let proposed := prepareProposal pragueKeeper (requestsEngine requests)
      (sampleCtx .prepareProposal) 1 ⟨2, []⟩ sampleWorld
    let finalized := executionPayload pragueKeeper (requestsEngine requests) (sampleCtx .finalize)
      1 (payloadMsg (samplePayload [])) sampleWorld
    proposed.1 = .ok [encodePayloadTx (payloadMsg (samplePayload []))] ∧
      proposed.2.log.getLast? = some (.getPayload ⟨4, FixedBytes.ofBytes 8 [1]⟩
        (.ok ⟨samplePayload [], requests⟩)) ∧
      finalized.2.log.head? = some (.newPayload
        ⟨4, samplePayload [], [], bytesToHash [1], some []⟩ (.ok ⟨.valid, none, none⟩)) ∧
      (some [] : Option (List Bytes)) ≠ some requests := by
  intro requests proposed finalized
  have htx : payloadTx pragueKeeper.platform (samplePayload []) =
      .ok (encodePayloadTx (payloadMsg (samplePayload []))) := payloadTx_samplePayload []
  obtain ⟨w', hprepare, -, hlog⟩ :=
    prepareProposal_samplePayload htx requests [] (w := sampleWorld) rfl
  rw [← requestsEngine_eq] at hprepare
  have hproposed : proposed = (.ok [encodePayloadTx (payloadMsg (samplePayload []))], w') :=
    hprepare
  obtain ⟨w₁, hrounds, hlog₁⟩ := @engineRounds_of_taken pragueKeeper (requestsEngine requests)
    (sampleCtx .finalize) (samplePayload []) [] (by decide) ⟨[], rfl, rfl⟩ (by decide) sampleWorld
    _ _ rfl rfl rfl rfl 0
  have hfinalized : finalized = setBlockState (samplePayload []).blockState w₁ :=
    executionPayload_of_rounds (checkExecutionPayload_samplePayload pragueSpec [] []) hrounds
  refine ⟨by rw [hproposed], ?_, ?_, by decide⟩
  · rw [hproposed]
    show w'.log.getLast? = _
    rw [hlog, List.getLast?_concat]
    rfl
  · rw [hfinalized, setBlockState_apply]
    show w₁.log.head? = _
    rw [hlog₁]
    rfl

end Requests

end NexusNode
