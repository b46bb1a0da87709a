import Mathlib.Algebra.GroupWithZero.Nat
import Mathlib.Algebra.Order.BigOperators.Group.List
import Mathlib.Algebra.Order.Group.Nat
import NexusNode.App.Agreement

/-!
# The size of a prepared block

A request to prepare a block comes with a limit on the size of its transactions, and with a
mempool that keeps the limit. Neither handler reads the limit. The block has transactions of the
mempool and one transaction of the keeper, which has a limit of its own, so the block exceeds the
limit of the request by at most that one transaction.

## Main definitions

* `blockSize`: the bytes of a list of transactions
* `SizedRequest`: a request with its limit

## Main results

* `blockSize_eligibleTxs_le`: the Cosmos part of a block is within the mempool
* `prepared_block_size`: how large a prepared block is
-/

namespace NexusNode

open Program Proc

/-- The bytes of all transactions. -/
def blockSize (txs : List Bytes) : ℕ := (txs.map List.length).sum

/-- `RequestPrepareProposal` with `MaxTxBytes`, which the handlers leave alone. -/
structure SizedRequest extends RequestPrepareProposal where
  maxTxBytes : Int64

theorem blockSize_concat (txs : List Bytes) (tx : Bytes) :
    blockSize (txs ++ [tx]) = blockSize txs + tx.length := by
  simp [blockSize]

theorem blockSize_eligibleTxs_le (p : Platform) (maxCosmosTxs : Int) (txs : List Bytes) :
    blockSize (eligibleTxs p maxCosmosTxs txs) ≤ blockSize txs := by
  have hsub : (eligibleTxs p maxCosmosTxs txs).Sublist txs :=
    (List.take_sublist _ _).trans List.filter_sublist
  exact (hsub.map List.length).sum_le_sum fun _ _ => Nat.zero_le _

/-- **The size of a prepared block.** With a mempool within the limit, the first block is empty.
A later one has the eligible transactions, which are within the limit, and the transaction of a
payload that the engine handed out, which is within `maxTxSize`. So it exceeds the limit by at
most `maxTxSize`, and it keeps the limit exactly when the eligible transactions leave room for the
payload. They do when they leave `maxTxSize` bytes. -/
theorem prepared_block_size {k : Keeper} {eng : Engine} {maxCosmosTxs : Int} {ctx : SdkContext}
    {attempts : ℕ} {req : SizedRequest} {w w' : World} {block : List Bytes}
    (hmempool : (blockSize req.txs : ℤ) ≤ req.maxTxBytes.toInt)
    (h : makePrepareProposalHandler k eng maxCosmosTxs ctx attempts req.toRequestPrepareProposal w =
      (.ok block, w')) :
    (req.height = 1 → block = []) ∧
    (req.height ≠ 1 → ∃ state envelope calls tx, w.store.blockState = some state ∧
      ObtainedBy k ctx.header ctx.header.height.toUInt64 state envelope calls ∧
      w'.log = w.log ++ calls ∧ payloadTx k.platform envelope.executionPayload = .ok tx ∧
      block = eligibleTxs k.platform maxCosmosTxs req.txs ++ [tx] ∧
      ((blockSize block : ℤ) ≤ req.maxTxBytes.toInt ↔
        blockSize (eligibleTxs k.platform maxCosmosTxs req.txs) + (tx.length : ℤ) ≤
          req.maxTxBytes.toInt)) ∧
    (blockSize block : ℤ) ≤ req.maxTxBytes.toInt + maxTxSize ∧
    ((blockSize (eligibleTxs k.platform maxCosmosTxs req.txs) : ℤ) + maxTxSize ≤
        req.maxTxBytes.toInt →
      (blockSize block : ℤ) ≤ req.maxTxBytes.toInt) := by
  have hcosmos := blockSize_eligibleTxs_le k.platform maxCosmosTxs req.txs
  by_cases hh : req.height = 1
  · -- the first block: the handler returns before it looks at the mempool
    unfold makePrepareProposalHandler at h
    rw [if_pos hh] at h
    obtain rfl := Except.ok.inj (Prod.mk.inj h).1
    have hempty : blockSize [] = 0 := rfl
    rw [hempty]
    exact ⟨fun _ => rfl, fun hne => absurd hh hne, by omega, fun _ => by omega⟩
  · obtain ⟨e, hprepare, rfl⟩ := makePrepareProposalHandler_ok hh h
    obtain ⟨state, envelope, calls, tx, hs, -, hobtained, hlog, htx, he⟩ :=
      prepareProposal_ok hh hprepare
    obtain rfl := List.singleton_inj.mp he
    have hlen := (payloadTx_eq_ok_iff.mp htx).2
    have hsize := blockSize_concat (eligibleTxs k.platform maxCosmosTxs req.txs) e
    refine ⟨fun heq => absurd heq hh, fun _ => ?_, by omega, fun hroom => by omega⟩
    refine ⟨state, envelope, calls, e, hs, hobtained, hlog, htx, rfl, ?_⟩
    rw [hsize]
    push_cast
    exact Iff.rfl

section Sample

open Wire

theorem blockSize_submitProposalTx_nil : blockSize [submitProposalTx []] = 46 := by
  simp [blockSize, length_submitProposalTx_nil]

/-- A short proposal and the sample payload together fit into 21 MiB. -/
theorem prepared_block_size_short :
    let req : SizedRequest := ⟨⟨2, [submitProposalTx []]⟩, 22020096⟩
    let block := [submitProposalTx [], encodePayloadTx (payloadMsg (samplePayload []))]
    (blockSize req.txs : ℤ) ≤ req.maxTxBytes.toInt ∧
    (∃ w', makePrepareProposalHandler (govKeeper []) (validEngine ⟨samplePayload [], []⟩) 1
      (sampleCtx .prepareProposal) 1 req.toRequestPrepareProposal sampleWorld = (.ok block, w')) ∧
    (blockSize block : ℤ) ≤ req.maxTxBytes.toInt := by
  intro req block
  have htxs : req.txs = [submitProposalTx []] := rfl
  have hlimit : req.maxTxBytes.toInt = 22020096 := by decide
  have hmempool : (blockSize req.txs : ℤ) ≤ req.maxTxBytes.toInt := by
    rw [htxs, hlimit, blockSize_submitProposalTx_nil]
    decide
  obtain ⟨w', hprepare⟩ := makePrepareProposalHandler_govKeeper []
  have hreq : req.toRequestPrepareProposal = ⟨2, [submitProposalTx []]⟩ := rfl
  rw [← hreq] at hprepare
  obtain ⟨-, -, -, hfits⟩ := prepared_block_size hmempool hprepare
  refine ⟨hmempool, ⟨w', hprepare⟩, hfits ?_⟩
  rw [htxs, eligibleTxs_submitProposalTx, hlimit, blockSize_submitProposalTx_nil]
  decide

/-- A mempool that takes up the whole limit leaves no room for the payload. -/
theorem prepared_block_exceeds_limit :
    let req : SizedRequest :=
      ⟨⟨2, [submitProposalTx []]⟩, Int64.ofNat (submitProposalTx []).length⟩
    let block := [submitProposalTx [], encodePayloadTx (payloadMsg (samplePayload []))]
    (blockSize req.txs : ℤ) ≤ req.maxTxBytes.toInt ∧
    (∃ w', makePrepareProposalHandler (govKeeper []) (validEngine ⟨samplePayload [], []⟩) 1
      (sampleCtx .prepareProposal) 1 req.toRequestPrepareProposal sampleWorld = (.ok block, w')) ∧
    ¬ (blockSize block : ℤ) ≤ req.maxTxBytes.toInt := by
  intro req block
  have hlimit : req.maxTxBytes.toInt = 46 := by
    show (Int64.ofNat (submitProposalTx []).length).toInt = 46
    rw [length_submitProposalTx_nil]
    decide
  have hblock : blockSize block = 46 + 1297 := by
    rw [show block = [submitProposalTx []] ++ [encodePayloadTx (payloadMsg (samplePayload []))]
      from rfl, blockSize_concat, blockSize_submitProposalTx_nil, length_sampleTx_eq]
  have hreq : req.toRequestPrepareProposal = ⟨2, [submitProposalTx []]⟩ := rfl
  refine ⟨?_, ?_, ?_⟩
  · rw [hlimit, show req.txs = [submitProposalTx []] from rfl, blockSize_submitProposalTx_nil]
    decide
  · rw [hreq]
    exact makePrepareProposalHandler_govKeeper []
  · rw [hlimit, hblock]
    decide

end Sample

end NexusNode
