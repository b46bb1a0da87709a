import NexusNode.GlobalFee.Ante

/-!
# Ante handler

Execution payloads carry no signature and no fee, so the ante handler lets them through without
checks when a block is executed, and rejects them when they come from outside, through the
mempool. It recognises them by the only message of the transaction. A payload beside another
message is not recognised: it goes through the checks of an ordinary transaction.

## Main definitions

* `newAnteHandler`: the handler
* `FromMempool`, `HasPayload`: where a transaction comes from, and what it carries

## Main results

* `newAnteHandler_eq`: only a lone payload skips the checks
* `newAnteHandler_rejects_iff`: which payloads from the mempool are rejected
-/

namespace NexusNode

open Program GlobalFee

variable {σ : Type}

/-- `newAnteHandler`, with the ante chain of the SDK. -/
def newAnteHandler (m : SdkMath) (sdkAnteHandler : AnteHandler σ) : AnteHandler σ :=
  fun ctx tx simulate =>
    match tx.msgs with
    | [.executionPayload _] =>
      if ctx.isCheckTx || ctx.isReCheckTx then
        .ok (ctx, some "MsgExecutionPayload cannot be submitted directly")
      else .ok (ctx, none)
    | _ => anteHandle m ctx tx simulate sdkAnteHandler

/-- The transaction is checked for the mempool. -/
def FromMempool (ctx : AnteContext σ) : Prop := ctx.isCheckTx = true ∨ ctx.isReCheckTx = true

/-- One of the messages is an execution payload. -/
def HasPayload (tx : AnteTx) : Prop := ∃ msg, .executionPayload msg ∈ tx.msgs

/-- The only message is an execution payload. -/
def LonePayload (tx : AnteTx) : Prop := ∃ msg, tx.msgs = [.executionPayload msg]

theorem lonePayload_iff {tx : AnteTx} (h : HasPayload tx) :
    LonePayload tx ↔ tx.msgs.length = 1 := by
  constructor
  · rintro ⟨msg, hmsgs⟩
    rw [hmsgs]
    rfl
  · intro hlength
    obtain ⟨msg, hmem⟩ := h
    obtain ⟨only, honly⟩ := List.length_eq_one_iff.mp hlength
    rw [honly] at hmem
    exact ⟨msg, honly.trans (congrArg ([·]) (List.mem_singleton.mp hmem).symm)⟩

/-- Every other transaction goes through the minimum gas price and the chain of the SDK. -/
theorem newAnteHandler_eq (m : SdkMath) (sdkAnteHandler : AnteHandler σ) (ctx : AnteContext σ)
    {tx : AnteTx} (simulate : Bool) (h : ¬LonePayload tx) :
    newAnteHandler m sdkAnteHandler ctx tx simulate =
      anteHandle m ctx tx simulate sdkAnteHandler := by
  unfold newAnteHandler
  split
  · rename_i msg hmsgs
    exact absurd ⟨msg, hmsgs⟩ h
  · rfl

theorem newAnteHandler_lone (m : SdkMath) (sdkAnteHandler : AnteHandler σ)
    {ctx : AnteContext σ} {tx : AnteTx} (simulate : Bool) (hctx : FromMempool ctx)
    (h : LonePayload tx) : ¬Accepts (newAnteHandler m sdkAnteHandler ctx tx simulate) := by
  obtain ⟨msg, hmsgs⟩ := h
  have hmode : (ctx.isCheckTx || ctx.isReCheckTx) = true := Bool.or_eq_true_iff.mpr hctx
  rintro ⟨ctx', hctx'⟩
  simp [newAnteHandler, hmsgs, hmode] at hctx'

/-- **Payloads from the mempool.** A transaction with an execution payload is rejected exactly
when the payload is its only message, or when the minimum gas price or the chain of the SDK
rejects it. In every mode the checks are skipped for a lone payload only. -/
theorem newAnteHandler_rejects_iff (m : SdkMath) (sdkAnteHandler : AnteHandler σ)
    (ctx : AnteContext σ) (tx : AnteTx) (simulate : Bool) :
    (FromMempool ctx → HasPayload tx →
      (¬Accepts (newAnteHandler m sdkAnteHandler ctx tx simulate) ↔
        tx.msgs.length = 1 ∨ ¬Accepts (anteHandle m ctx tx simulate acceptAll) ∨
          ¬Accepts (sdkAnteHandler ctx tx simulate))) ∧
    (¬LonePayload tx → newAnteHandler m sdkAnteHandler ctx tx simulate =
      anteHandle m ctx tx simulate sdkAnteHandler) := by
  constructor
  · intro hctx hpayload
    by_cases hlone : LonePayload tx
    · have hrejected := newAnteHandler_lone m sdkAnteHandler simulate hctx hlone
      exact iff_of_true hrejected (.inl ((lonePayload_iff hpayload).mp hlone))
    · have hlength := mt (lonePayload_iff hpayload).mpr hlone
      rw [newAnteHandler_eq m sdkAnteHandler ctx simulate hlone, accepts_anteHandle_iff,
        not_and_or]
      exact (or_iff_right hlength).symm
  · exact newAnteHandler_eq m sdkAnteHandler ctx simulate

/-- A transfer with a payload behind it, in a transaction with the given gas and no fee. -/
def besideTransfer (gas : UInt64) : AnteTx :=
  ⟨[.cosmos .bankSend [], .executionPayload ⟨"nexus1sender", []⟩], some ⟨gas, []⟩, []⟩

/-- A lone payload is rejected by any chain, and one beside a transfer by a chain that misses a
signature. -/
theorem newAnteHandler_rejects_both :
    ¬Accepts (newAnteHandler sampleMath acceptAll (⟨true, false, none, ()⟩ : AnteContext Unit)
      ⟨[.executionPayload ⟨"nexus1sender", []⟩], none, []⟩ false) ∧
    ¬Accepts (newAnteHandler sampleMath (fun ctx _ _ => .ok (ctx, some "no signatures supplied"))
      (⟨true, false, none, ()⟩ : AnteContext Unit) (besideTransfer 200000) false) := by
  constructor
  · exact ((newAnteHandler_rejects_iff sampleMath acceptAll _ _ false).1 (.inl rfl)
      ⟨_, List.mem_cons_self⟩).mpr (.inl rfl)
  · refine ((newAnteHandler_rejects_iff sampleMath _ _ _ false).1 (.inl rfl)
      ⟨_, List.mem_cons_of_mem _ List.mem_cons_self⟩).mpr (.inr (.inr ?_))
    rintro ⟨ctx, hctx⟩
    cases hctx

/-- A payload behind a bank transfer is accepted for the mempool by a chain that accepts it. -/
theorem payload_enters_mempool :
    ∃ (ctx : AnteContext Unit) (tx : AnteTx), FromMempool ctx ∧ HasPayload tx ∧
      Accepts (newAnteHandler sampleMath acceptAll ctx tx false) :=
  ⟨⟨true, false, none, ()⟩, besideTransfer 200000, .inl rfl,
    ⟨_, List.mem_cons_of_mem _ List.mem_cons_self⟩, _, rfl⟩

end NexusNode
