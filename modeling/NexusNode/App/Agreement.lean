import NexusNode.App.Proposal

/-!
# The two handlers on one block

The loop that fills a block from the mempool and the loop that checks a block are written
apart. Both classify transactions with `parseTx`, and both count the Cosmos transactions against
`maxCosmosTxs`. The checker also limits the size of every transaction. The filter leaves the
size of a mempool transaction alone, so a large one that is eligible ends up in the block and
has the block refused.

## Main definitions

* `eligible`: what the filter lets through
* `eligibleTxs`: the first `maxCosmosTxs` eligible transactions of a mempool

## Main results

* `selectCosmosTxs_eq`: the loop of the filter
* `makePrepareProposalHandler_ok`: what a prepared block is made of
* `prepared_block_accepted_iff`: when a prepared block is accepted
-/

namespace NexusNode

open Program Proc

/-- The filter lets a transaction through that parses and is not a payload transaction. -/
def eligible (p : Platform) (raw : Bytes) : Bool :=
  match parseTx p raw with
  | .ok parsed => !parsed.isEVM
  | .error _ => false

/-- The first `maxCosmosTxs` eligible transactions, in the order of the mempool. -/
def eligibleTxs (p : Platform) (maxCosmosTxs : Int) (txs : List Bytes) : List Bytes :=
  (txs.filter (eligible p)).take maxCosmosTxs.toNat

section Filter

variable {p : Platform} {raw : Bytes} {maxCosmosTxs : Int} {txs : List Bytes}

theorem eligible_iff : eligible p raw = true ↔ CosmosTx p raw := by
  rw [← parseTx_cosmos_iff]
  unfold eligible
  cases parseTx p raw <;> simp

theorem cosmosTx_of_mem_eligibleTxs (h : raw ∈ eligibleTxs p maxCosmosTxs txs) :
    CosmosTx p raw := by
  have hmem := List.mem_of_mem_take h
  exact eligible_iff.mp (List.mem_filter.mp hmem).2

theorem length_eligibleTxs_le :
    eligibleTxs p maxCosmosTxs txs = [] ∨
      ((eligibleTxs p maxCosmosTxs txs).length : Int) ≤ maxCosmosTxs := by
  by_cases h : 0 < maxCosmosTxs
  · right
    have hle : (eligibleTxs p maxCosmosTxs txs).length ≤ maxCosmosTxs.toNat :=
      List.length_take_le _ _
    omega
  · left
    have hzero : maxCosmosTxs.toNat = 0 := by omega
    simp [eligibleTxs, hzero]

/-- **The loop of the filter** appends the first eligible transactions to what it has. -/
theorem selectCosmosTxs_eq (p : Platform) (maxCosmosTxs : Int) (acc txs : List Bytes) :
    selectCosmosTxs p maxCosmosTxs acc txs =
      acc ++ (txs.filter (eligible p)).take (maxCosmosTxs - acc.length).toNat := by
  -- induction on the rest of the mempool, with the room that `acc` leaves
  induction txs generalizing acc with
  | nil => simp [selectCosmosTxs]
  | cons raw rest ih =>
    unfold selectCosmosTxs
    by_cases hfull : maxCosmosTxs ≤ acc.length
    · have hroom : (maxCosmosTxs - acc.length).toNat = 0 := by omega
      rw [if_pos hfull, hroom, List.take_zero, List.append_nil]
    rw [if_neg hfull]
    cases hq : parseTx p raw with
    | error e =>
      have he : ¬ eligible p raw = true := by simp [eligible, hq]
      dsimp only
      rw [ih, List.filter_cons_of_neg he]
    | ok parsed =>
      dsimp only
      by_cases hevm : parsed.isEVM = true
      · have he : ¬ eligible p raw = true := by simp [eligible, hq, hevm]
        rw [if_pos hevm, ih, List.filter_cons_of_neg he]
      · -- an eligible transaction takes one place of the room
        have he : eligible p raw = true := by simp [eligible, hq, hevm]
        have hroom : (maxCosmosTxs - acc.length).toNat =
            (maxCosmosTxs - (acc ++ [raw]).length).toNat + 1 := by
          simp only [List.length_append, List.length_singleton]
          omega
        rw [if_neg hevm, ih, List.filter_cons_of_pos he, hroom, List.take_succ_cons,
          List.append_assoc, List.singleton_append]

theorem selectCosmosTxs_nil (p : Platform) (maxCosmosTxs : Int) (txs : List Bytes) :
    selectCosmosTxs p maxCosmosTxs [] txs = eligibleTxs p maxCosmosTxs txs := by
  rw [selectCosmosTxs_eq]
  simp [eligibleTxs]

end Filter

section Handlers

variable {k : Keeper} {eng : Engine} {maxCosmosTxs : Int} {ctx : SdkContext} {attempts : ℕ}
  {req : RequestPrepareProposal} {w w' : World} {block : List Bytes}

/-- Past the first block, a prepared block has the eligible transactions and then the one
transaction of the keeper. -/
theorem makePrepareProposalHandler_ok (hh : req.height ≠ 1)
    (h : makePrepareProposalHandler k eng maxCosmosTxs ctx attempts req w = (.ok block, w')) :
    ∃ e, prepareProposal k eng ctx attempts req w = (.ok [e], w') ∧
      block = eligibleTxs k.platform maxCosmosTxs req.txs ++ [e] := by
  unfold makePrepareProposalHandler at h
  rw [if_neg hh] at h
  obtain ⟨evmTxs, u, hprepare, h⟩ := bind_eq_ok_iff.mp h
  obtain ⟨hblock, rfl⟩ := Prod.mk.inj h
  obtain ⟨-, -, -, e, -, -, -, -, -, rfl⟩ := prepareProposal_ok hh hprepare
  refine ⟨e, hprepare, ?_⟩
  rw [← selectCosmosTxs_nil]
  exact (Except.ok.inj hblock).symm

theorem makePrepareProposalHandler_of_ok (hh : req.height ≠ 1) {e : Bytes}
    (h : prepareProposal k eng ctx attempts req w = (.ok [e], w')) :
    makePrepareProposalHandler k eng maxCosmosTxs ctx attempts req w =
      (.ok (eligibleTxs k.platform maxCosmosTxs req.txs ++ [e]), w') := by
  unfold makePrepareProposalHandler
  rw [if_neg hh, bind_of_ok h, selectCosmosTxs_nil]
  rfl

/-- The eligible transactions and a payload transaction have the form of a block exactly when
they are small enough. -/
theorem blockForm_eligibleTxs_iff {p : Platform} {txs : List Bytes} {e : Bytes}
    {msg : MsgExecutionPayload} (hlen : e.length ≤ maxTxSize) (he : PayloadTx p e msg) :
    BlockForm p maxCosmosTxs (eligibleTxs p maxCosmosTxs txs ++ [e]) msg ↔
      ∀ raw ∈ eligibleTxs p maxCosmosTxs txs, raw.length ≤ maxTxSize := by
  constructor
  · rintro ⟨-, -, -, -, hsizes, -, -⟩ raw hraw
    exact hsizes raw (List.mem_append_left _ hraw)
  · intro hsizes
    refine ⟨_, e, rfl, length_eligibleTxs_le, ?_, fun c hc => cosmosTx_of_mem_eligibleTxs hc, he⟩
    intro raw hraw
    rcases List.mem_append.mp hraw with hraw | hraw
    · exact hsizes raw hraw
    · rw [List.mem_singleton.mp hraw]
      exact hlen

/-- A payload transaction carries one message. -/
theorem PayloadTx.unique {p : Platform} {raw : Bytes} {m m' : MsgExecutionPayload}
    (h : PayloadTx p raw m) (h' : PayloadTx p raw m') : m = m' := by
  obtain ⟨tx, -, hd, hm, -, -⟩ := h
  obtain ⟨tx', -, hd', hm', -, -⟩ := h'
  obtain rfl := Except.ok.inj (hd.symm.trans hd')
  simpa using hm.symm.trans hm'

/-- A block with a payload transaction at its end has the form for the message of that
transaction. -/
theorem BlockForm.message {p : Platform} {cs : List Bytes} {e : Bytes}
    {m msg : MsgExecutionPayload} (h : BlockForm p maxCosmosTxs (cs ++ [e]) m)
    (he : PayloadTx p e msg) : m = msg := by
  obtain ⟨cs', e', heq, -, -, -, he'⟩ := h
  obtain ⟨-, hlast⟩ := List.append_inj' heq rfl
  obtain rfl := List.singleton_inj.mp hlast
  exact he'.unique he

/-- A block is refused for the size of its first transaction before that is parsed. -/
theorem processProposal_of_tooLarge {height : Int64} {votes : List VoteInfo} {store : Store}
    {raw : Bytes} {rest : List Bytes} (hh : height ≠ 1) (hvotes : votingPowerOk votes = true)
    (hlong : maxTxSize < raw.length) :
    processProposal k maxCosmosTxs ctx ⟨height, raw :: rest, votes⟩ store =
      .ok (.reject (.tooLarge raw.length maxTxSize)) := by
  have hscan : scanBlock k.platform maxCosmosTxs (raw :: rest) =
      .error (.tooLarge raw.length maxTxSize) := by
    unfold scanBlock scanTxs scanTx
    rw [if_pos hlong]
  unfold processProposal makeProcessProposalHandler
  rw [if_neg hh, if_neg (by simp), if_neg (not_not.mpr hvotes), hscan]

end Handlers

section Sample

open Wire

/-- The transaction of a governance proposal with the given summary. -/
def submitProposalTx (summary : Bytes) : Bytes :=
  let any := field 1 (goBytes "/cosmos.gov.v1.MsgSubmitProposal") ++ field 2 (field 6 summary)
  field 1 (field 1 any) ++ field 2 (field 2 [])

theorem length_field_lt (number : ℕ) (b : Bytes) : b.length < (field number b).length := by
  simp only [field, List.cons_append, List.length_cons, List.length_append]
  omega

theorem length_submitProposalTx_lt (summary : Bytes) :
    summary.length < (submitProposalTx summary).length := by
  have hsummary := length_field_lt 6 summary
  have hvalue := length_field_lt 2 (field 6 summary)
  have hbody := length_field_lt 1 (field 1
    (field 1 (goBytes "/cosmos.gov.v1.MsgSubmitProposal") ++ field 2 (field 6 summary)))
  have hany := length_field_lt 1
    (field 1 (goBytes "/cosmos.gov.v1.MsgSubmitProposal") ++ field 2 (field 6 summary))
  simp only [submitProposalTx, List.length_append] at hbody hany ⊢
  omega

theorem length_submitProposalTx_nil : (submitProposalTx []).length = 46 := by decide +kernel

/-- A keeper that also decodes the governance proposal with the given summary. -/
def govKeeper (summary : Bytes) : Keeper :=
  let sample := sampleKeeper defaultConfig cancunSpec (samplePayload []) []
  { sample with platform :=
    { sample.platform with
      txDecoder := fun b =>
        if b = submitProposalTx summary then
          .ok ⟨[.cosmos .govSubmitProposal (field 6 summary)],
            some ⟨.ok [[1]], "", some [⟨"atnex", 1⟩], [2], none⟩⟩
        else sample.platform.txDecoder b } }

theorem eligible_submitProposalTx (summary : Bytes) :
    eligible (govKeeper summary).platform (submitProposalTx summary) = true := by
  have hdec : (govKeeper summary).platform.txDecoder (submitProposalTx summary) =
      .ok ⟨[.cosmos .govSubmitProposal (field 6 summary)],
        some ⟨.ok [[1]], "", some [⟨"atnex", 1⟩], [2], none⟩⟩ := if_pos rfl
  exact eligible_iff.mpr ⟨_, _, _, hdec, rfl, by simp [allowedMsgTypes]⟩

theorem eligibleTxs_submitProposalTx (summary : Bytes) :
    eligibleTxs (govKeeper summary).platform 1 [submitProposalTx summary] =
      [submitProposalTx summary] := by
  simp [eligibleTxs, eligible_submitProposalTx]

/-- The keeper prepares the proposal and the sample payload, whatever the summary. -/
theorem makePrepareProposalHandler_govKeeper (summary : Bytes) :
    ∃ w', makePrepareProposalHandler (govKeeper summary) (validEngine ⟨samplePayload [], []⟩) 1
        (sampleCtx .prepareProposal) 1 ⟨2, [submitProposalTx summary]⟩ sampleWorld =
      (.ok [submitProposalTx summary, encodePayloadTx (payloadMsg (samplePayload []))], w') := by
  have htx : payloadTx (govKeeper summary).platform (samplePayload []) =
      .ok (encodePayloadTx (payloadMsg (samplePayload []))) := payloadTx_samplePayload []
  obtain ⟨w', hprepare, -, -⟩ :=
    prepareProposal_samplePayload htx [] [submitProposalTx summary] (w := sampleWorld) rfl
  have hheight : (2 : Int64) ≠ 1 := by decide
  have hblock : makePrepareProposalHandler (govKeeper summary) _ 1 _ 1 _ sampleWorld = _ :=
    makePrepareProposalHandler_of_ok hheight hprepare
  rw [eligibleTxs_submitProposalTx] at hblock
  exact ⟨_, hblock⟩

/-- The keeper still takes the sample payload for a payload transaction that it accepts. -/
theorem payloadTx_govKeeper {summary : Bytes}
    (hne : encodePayloadTx (payloadMsg (samplePayload [])) ≠ submitProposalTx summary) :
    PayloadTx (govKeeper summary).platform (encodePayloadTx (payloadMsg (samplePayload [])))
        (payloadMsg (samplePayload [])) ∧
      proposalExecutionPayload (govKeeper summary) (sampleCtx .processProposal)
        (payloadMsg (samplePayload [])) sampleStore = .ok () := by
  constructor
  · have hdec : (govKeeper summary).platform.txDecoder
        (encodePayloadTx (payloadMsg (samplePayload []))) =
        .ok (bareTx (.executionPayload (payloadMsg (samplePayload [])))) :=
      (if_neg hne).trans (samplePlatform_txDecoder (samplePayload []) [])
    exact ⟨_, _, hdec, rfl, rfl, rfl, rfl, rfl, rfl, rfl⟩
  · have hsample := payloadValid_samplePayload [] [] cancunSpec .processProposal
    have hvalid : PayloadValid (govKeeper summary) (sampleCtx .processProposal).header
        ⟨hexToHash "0x01", 0, 0⟩ (samplePayload []) :=
      ⟨hsample.withdrawals, hsample.blobGasUsed, hsample.excessBlobGas, hsample.witness,
        hsample.parentHash, hsample.number, hsample.newer, hsample.height_nonneg,
        hsample.timestamp⟩
    have hcheck : validatePayload (govKeeper summary) (sampleCtx .processProposal)
        (payloadMsg (samplePayload [])) ⟨hexToHash "0x01", 0, 0⟩ = .ok (samplePayload []) :=
      validatePayload_eq_ok_iff.mpr ⟨(samplePlatform_accAddressString (samplePayload []) []).symm,
        samplePlatform_unmarshalPayload (samplePayload []) [], hvalid⟩
    exact proposalExecutionPayload_eq_ok_iff.mpr ⟨_, _, rfl, hcheck⟩

theorem payloadTx_ne_submitProposalTx :
    encodePayloadTx (payloadMsg (samplePayload [])) ≠ submitProposalTx [] := by
  intro heq
  have hlength := congrArg List.length heq
  rw [length_sampleTx_eq, length_submitProposalTx_nil] at hlength
  omega

theorem length_submitProposalTx_le : (submitProposalTx []).length ≤ maxTxSize := by
  rw [length_submitProposalTx_nil]
  decide

/-- The block of a proposal and the sample payload is accepted. -/
theorem processProposal_govKeeper :
    processProposal (govKeeper []) 1 (sampleCtx .processProposal)
      ⟨2, [submitProposalTx [], encodePayloadTx (payloadMsg (samplePayload []))],
        [⟨10, .commit⟩]⟩ sampleStore = .ok .accept := by
  obtain ⟨hpayload, haccept⟩ := payloadTx_govKeeper payloadTx_ne_submitProposalTx
  have hform := (@blockForm_eligibleTxs_iff 1 _ [submitProposalTx []] _ _ length_sampleTx
    hpayload).mpr
  rw [eligibleTxs_submitProposalTx] at hform
  refine (processProposal_eq_accept_iff (by decide)).mpr ⟨by decide, _, hform ?_, haccept⟩
  simpa using length_submitProposalTx_le

/-- A summary that alone is as long as a transaction may be. -/
def largeSummary : Bytes := List.replicate maxTxSize 120

theorem lt_length_largeTx : maxTxSize < (submitProposalTx largeSummary).length := by
  have hlen : largeSummary.length = maxTxSize := List.length_replicate
  have hlt := length_submitProposalTx_lt largeSummary
  omega

end Sample

section Agreement

variable {k : Keeper} {eng : Engine} {maxCosmosTxs : Int} {ctx : SdkContext} {attempts : ℕ}
  {req : RequestPrepareProposal} {w w' : World} {block : List Bytes}

/-- **The filter and the checker.** Past the first block, a prepared block is the first
`maxCosmosTxs` eligible transactions of the mempool, in its order, and the transaction of the
keeper. When that transaction is small enough, parses and carries a message that the message
server of proposals accepts, and the votes suffice, the block is accepted under the same limit
exactly when each of those mempool transactions is small enough. The first block is empty and
accepted. -/
theorem prepared_block_accepted_iff
    (hprepare : makePrepareProposalHandler k eng maxCosmosTxs ctx attempts req w = (.ok block, w'))
    {ctx' : SdkContext} {store : Store} {votes : List VoteInfo}
    (hvotes : votingPowerOk votes = true)
    (hpayload : req.height ≠ 1 → ∃ e parsed msg, block.getLast? = some e ∧
      e.length ≤ maxTxSize ∧ parseTx k.platform e = .ok parsed ∧ parsed.isEVM = true ∧
      parsed.tx.msgs.head? = some (.executionPayload msg) ∧
      proposalExecutionPayload k ctx' msg store = .ok ()) :
    (req.height ≠ 1 → ∃ e, block = eligibleTxs k.platform maxCosmosTxs req.txs ++ [e]) ∧
    (processProposal k maxCosmosTxs ctx' ⟨req.height, block, votes⟩ store = .ok .accept ↔
      req.height = 1 ∨
        ∀ raw ∈ eligibleTxs k.platform maxCosmosTxs req.txs, raw.length ≤ maxTxSize) := by
  by_cases hh : req.height = 1
  · -- the first block: both handlers return before they look at a transaction
    refine ⟨fun hne => absurd hh hne, iff_of_true ?_ (.inl hh)⟩
    unfold makePrepareProposalHandler at hprepare
    rw [if_pos hh] at hprepare
    obtain rfl := Except.ok.inj (Prod.mk.inj hprepare).1
    unfold processProposal makeProcessProposalHandler
    rw [if_pos hh]
    rfl
  obtain ⟨e, -, rfl⟩ := makePrepareProposalHandler_ok hh hprepare
  refine ⟨fun _ => ⟨e, rfl⟩, ?_⟩
  obtain ⟨e', parsed, msg, hlast, hlen, hparse, hevm, hhead, haccept⟩ := hpayload hh
  obtain rfl : e = e' := by simpa using hlast
  have he : PayloadTx k.platform e msg := parseTx_payload_iff.mp ⟨parsed, hparse, hevm, hhead⟩
  rw [processProposal_eq_accept_iff hh, ← blockForm_eligibleTxs_iff hlen he]
  constructor
  · rintro ⟨-, m, hform, -⟩
    have hm : m = msg := hform.message he
    exact .inr (hm ▸ hform)
  · intro hform
    exact ⟨hvotes, msg, hform.resolve_left hh, haccept⟩

end Agreement

open Wire in
/-- A short proposal of the mempool is prepared and accepted. -/
theorem prepared_block_accepted_short :
    let k := govKeeper []
    let block := [submitProposalTx [], encodePayloadTx (payloadMsg (samplePayload []))]
    (∃ w', makePrepareProposalHandler k (validEngine ⟨samplePayload [], []⟩) 1
      (sampleCtx .prepareProposal) 1 ⟨2, [submitProposalTx []]⟩ sampleWorld = (.ok block, w')) ∧
    processProposal k 1 (sampleCtx .processProposal) ⟨2, block, [⟨10, .commit⟩]⟩ sampleStore =
      .ok .accept := by
  obtain ⟨w', hprepare⟩ := makePrepareProposalHandler_govKeeper []
  obtain ⟨hpayload, haccept⟩ := payloadTx_govKeeper payloadTx_ne_submitProposalTx
  obtain ⟨parsed, hparse, hevm, hhead⟩ := parseTx_payload_iff.mpr hpayload
  have hsmall : ∀ raw ∈ eligibleTxs (govKeeper []).platform 1 [submitProposalTx []],
      raw.length ≤ maxTxSize := by
    rw [eligibleTxs_submitProposalTx]
    intro raw hraw
    rw [List.mem_singleton.mp hraw]
    exact length_submitProposalTx_le
  have hvotes : votingPowerOk [⟨10, .commit⟩] = true := by decide
  have hiff := (prepared_block_accepted_iff hprepare hvotes fun _ =>
    ⟨encodePayloadTx (payloadMsg (samplePayload [])), parsed, payloadMsg (samplePayload []),
      rfl, length_sampleTx, hparse, hevm, hhead, haccept⟩).2
  exact ⟨⟨w', hprepare⟩, hiff.mpr (.inr hsmall)⟩

open Wire in
/-- One large proposal of the mempool has the prepared block refused. -/
theorem prepared_block_refused_large :
    let e := encodePayloadTx (payloadMsg (samplePayload []))
    let block := [submitProposalTx largeSummary, e]
    (∃ w', makePrepareProposalHandler (govKeeper largeSummary)
      (validEngine ⟨samplePayload [], []⟩) 1 (sampleCtx .prepareProposal) 1
      ⟨2, [submitProposalTx largeSummary]⟩ sampleWorld = (.ok block, w')) ∧
    e.length ≤ maxTxSize ∧
    PayloadTx (govKeeper largeSummary).platform e (payloadMsg (samplePayload [])) ∧
    proposalExecutionPayload (govKeeper largeSummary) (sampleCtx .processProposal)
      (payloadMsg (samplePayload [])) sampleStore = .ok () ∧
    votingPowerOk [⟨10, .commit⟩] = true ∧
    processProposal (govKeeper largeSummary) 1 (sampleCtx .processProposal)
        ⟨2, block, [⟨10, .commit⟩]⟩ sampleStore =
      .ok (.reject (.tooLarge (submitProposalTx largeSummary).length maxTxSize)) := by
  have hlong := lt_length_largeTx
  have hne : encodePayloadTx (payloadMsg (samplePayload [])) ≠ submitProposalTx largeSummary :=
    fun heq => absurd (heq ▸ hlong) (Nat.not_lt.mpr length_sampleTx)
  obtain ⟨hpayload, haccept⟩ := payloadTx_govKeeper hne
  exact ⟨makePrepareProposalHandler_govKeeper largeSummary, length_sampleTx, hpayload, haccept,
    by decide, processProposal_of_tooLarge (by decide) (by decide) hlong⟩

end NexusNode
