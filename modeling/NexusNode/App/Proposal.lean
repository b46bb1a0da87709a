import NexusNode.Evm.Prepare
import NexusNode.Evm.Wire

/-!
# The proposal handlers

`PrepareProposal` puts permitted mempool transactions before the payload transaction of the
keeper. `ProcessProposal` checks a block in one pass: every transaction is small enough,
decodes and carries one permitted message, the payload transaction is the last one and the
only one of its kind, and there are at most `maxCosmosTxs` others. The message of the payload
transaction then goes to the message server of proposals.

## Main definitions

* `parseTx`: decode and classify a transaction
* `scanTxs`: the loop of `ProcessProposal` over the transactions
* `makePrepareProposalHandler`, `makeProcessProposalHandler`: the handlers
* `CosmosTx`, `PayloadTx`, `BlockForm`: the grammar of blocks

## Main results

* `parseTx_cosmos_iff`, `parseTx_payload_iff`: what `parseTx` accepts
* `scanTxs_eq_ok_iff`: the loop accepts exactly the grammar
* `processProposal_eq_accept_iff`: so does the handler
-/

namespace NexusNode

open Program Proc

/-! ## Transactions -/

/-- The reasons the handlers log for refusing a transaction or a block. -/
inductive ProposalError where
  | decode (msg : String)
  | oneMessage
  | notPermitted (goType : String)
  | notStandard
  | getSignatures (msg : String)
  | signatures
  | memo
  | fee
  | feePayer
  | feeGranter
  | initialBlock
  | noTransactions
  | votingPower
  | tooLarge (got max : ℕ)
  | payloadNotLast
  | lastNotPayload
  | tooManyCosmosTxs (max : Int)
  | notPayloadMessage
  | noHandler
  | handler (e : EvmError)
  deriving DecidableEq

def ProposalError.text : ProposalError → String
  | .decode msg => msg
  | .oneMessage => "expected exactly one message"
  | .notPermitted goType => "message type " ++ goType ++ " not permitted"
  | .notStandard => "expected standard transaction"
  | .getSignatures msg => msg
  | .signatures => "expected no signatures"
  | .memo => "expected no memo"
  | .fee => "expected no fee"
  | .feePayer => "expected fee payer to be the evm module"
  | .feeGranter => "expected no fee granter"
  | .initialBlock => "initial block cannot have transactions"
  | .noTransactions => "block must contain at least one transaction"
  | .votingPower => "reject blocks with less than (or equal to) 2/3 of the voting power"
  | .tooLarge got max => s!"transaction too large: {got} bytes exceeds maximum of {max} bytes"
  | .payloadNotLast => "EVM payload must be the last transaction"
  | .lastNotPayload => "last transaction must be the EVM payload"
  | .tooManyCosmosTxs max => s!"too many cosmos transactions: max {max}"
  | .notPayloadMessage => "expected EVM payload message"
  | .noHandler => "expected handler"
  | .handler e => e.text

structure ParsedTx where
  raw : Bytes
  tx : Tx
  isEVM : Bool

def allowedMsgTypes : List MsgType :=
  [.govSubmitProposal, .govVote, .govVoteWeighted, .govDeposit, .bankSend, .softwareUpgrade,
    .cancelUpgrade]

def validateMsgAllowed (tx : Tx) : Except ProposalError Unit :=
  match tx.msgs with
  | [.executionPayload _] => .ok ()
  | [.cosmos type _] =>
    if type ∈ allowedMsgTypes then .ok () else .error (.notPermitted type.goType)
  | _ => .error .oneMessage

def validateTx (p : Platform) (tx : Tx) : Except ProposalError Unit :=
  if tx.msgs.length ≠ 1 then .error .oneMessage
  else
    match tx.standard with
    | none => .error .notStandard
    | some standardTx =>
      match standardTx.signatures with
      | .error e => .error (.getSignatures e)
      | .ok signatures =>
        if signatures.length ≠ 0 then .error .signatures
        else if standardTx.memo ≠ "" then .error .memo
        else if standardTx.fee ≠ none then .error .fee
        else if standardTx.feePayer ≠ p.evmModuleAddress then .error .feePayer
        else if standardTx.feeGranter ≠ none then .error .feeGranter
        else .ok ()

/-- Whether the first message is an execution payload. -/
def Tx.isEVM (tx : Tx) : Bool :=
  match tx.msgs with
  | .executionPayload _ :: _ => true
  | _ => false

def parseTx (p : Platform) (raw : Bytes) : Except ProposalError ParsedTx :=
  match p.txDecoder raw with
  | .error e => .error (.decode e)
  | .ok tx => do
    validateMsgAllowed tx
    -- a Cosmos transaction may have signatures, a memo and fees
    (if tx.isEVM then validateTx p tx else .ok ())
    return ⟨raw, tx, tx.isEVM⟩

/-! ## Preparing a block -/

/-- The loop over the mempool: the first `maxCosmosTxs` permitted transactions, behind `acc`. -/
def selectCosmosTxs (p : Platform) (maxCosmosTxs : Int) : List Bytes → List Bytes → List Bytes
  | acc, [] => acc
  | acc, rawTx :: rest =>
    if maxCosmosTxs ≤ acc.length then acc
    else
      match parseTx p rawTx with
      -- what is not permitted is skipped, not counted
      | .error _ => selectCosmosTxs p maxCosmosTxs acc rest
      | .ok parsed =>
        if parsed.isEVM then selectCosmosTxs p maxCosmosTxs acc rest
        else selectCosmosTxs p maxCosmosTxs (acc ++ [rawTx]) rest

/-- `makePrepareProposalHandler` -/
def makePrepareProposalHandler (k : Keeper) (eng : Engine) (maxCosmosTxs : Int)
    (ctx : SdkContext) (attempts : ℕ) (req : RequestPrepareProposal) : Evm (List Bytes) :=
  if req.height = 1 then pure []
  else do
    let evmTxs ← prepareProposal k eng ctx attempts req
    return selectCosmosTxs k.platform maxCosmosTxs [] req.txs ++ evmTxs

/-- The handler does not write the store. -/
theorem makePrepareProposalHandler_sameStore (k : Keeper) (eng : Engine) (maxCosmosTxs : Int)
    (ctx : SdkContext) (attempts : ℕ) (req : RequestPrepareProposal) :
    Within SameStore (makePrepareProposalHandler k eng maxCosmosTxs ctx attempts req) := by
  unfold makePrepareProposalHandler
  split_ifs
  · exact Within.pure _
  · exact Within.bind (prepareProposal_sameStore _ _ _ _ _) fun _ => Within.pure _

/-! ## Checking a block -/

inductive BlockIDFlag where
  | unknown
  | absent
  | commit
  | nil
  deriving DecidableEq

structure VoteInfo where
  power : Int64
  blockIdFlag : BlockIDFlag
  deriving DecidableEq

/-- The fields of `RequestProcessProposal` that the handler reads; `votes` are those of
`ProposedLastCommit`. -/
structure RequestProcessProposal where
  height : Int64
  txs : List Bytes
  votes : List VoteInfo

/-- The total and the committed voting power. -/
def tallyVotes (votes : List VoteInfo) : Int64 × Int64 :=
  votes.foldl (fun power vote =>
    (power.1 + vote.power,
      if vote.blockIdFlag = .commit then power.2 + vote.power else power.2)) (0, 0)

/-- The committed power exceeds two thirds of the total, in machine arithmetic. -/
def votingPowerOk (votes : List VoteInfo) : Bool :=
  let power := tallyVotes votes
  !decide (power.2 ≤ power.1 * 2 / 3)

/-- The variables of the loop over the transactions. -/
structure Scan where
  evmMsg : Option MsgExecutionPayload
  cosmosTxCount : ℕ
  deriving DecidableEq

/-- The body of the loop, for the transaction at index `i` of `n`. -/
def scanTx (p : Platform) (maxCosmosTxs : Int) (n i : ℕ) (s : Scan) (rawTx : Bytes) :
    Except ProposalError Scan :=
  if maxTxSize < rawTx.length then .error (.tooLarge rawTx.length maxTxSize)
  else
    match parseTx p rawTx with
    | .error e => .error e
    | .ok parsed =>
      let isLast := i == n - 1
      if parsed.isEVM ∧ ¬ isLast then .error .payloadNotLast
      else if ¬ parsed.isEVM ∧ isLast then .error .lastNotPayload
      else if ¬ parsed.isEVM then
        if maxCosmosTxs < s.cosmosTxCount + 1 then .error (.tooManyCosmosTxs maxCosmosTxs)
        else .ok { s with cosmosTxCount := s.cosmosTxCount + 1 }
      else
        match parsed.tx.msgs.head? with
        | some (.executionPayload msg) => .ok { s with evmMsg := some msg }
        | _ => .error .notPayloadMessage

/-- The loop, from index `i` on. -/
def scanTxs (p : Platform) (maxCosmosTxs : Int) (n : ℕ) :
    ℕ → Scan → List Bytes → Except ProposalError Scan
  | _, s, [] => .ok s
  | i, s, rawTx :: rest =>
    match scanTx p maxCosmosTxs n i s rawTx with
    | .error e => .error e
    | .ok s' => scanTxs p maxCosmosTxs n (i + 1) s' rest

/-- The loop over a whole block. -/
def scanBlock (p : Platform) (maxCosmosTxs : Int) (txs : List Bytes) : Except ProposalError Scan :=
  scanTxs p maxCosmosTxs txs.length 0 ⟨none, 0⟩ txs

/-- A handler of the router; its message is a pointer and may be nil. -/
abbrev ProposalHandler :=
  SdkContext → Option MsgExecutionPayload → Store → Outcome EvmError Unit

/-- The router of `makeProcessProposalRouter`, which has the message server of proposals for
payload messages. Reading a field of a nil message panics. -/
def makeProcessProposalRouter (k : Keeper) : Option ProposalHandler :=
  some fun ctx evmMsg store =>
    match evmMsg with
    | none => .error (.panic (.ext "invalid memory address or nil pointer dereference"))
    | some msg => proposalExecutionPayload k ctx msg store

inductive ProposalStatus where
  | accept
  | reject (reason : ProposalError)
  deriving DecidableEq

/-- `makeProcessProposalHandler` over a router -/
def makeProcessProposalHandler (router : Option ProposalHandler) (p : Platform)
    (maxCosmosTxs : Int) (ctx : SdkContext) (req : RequestProcessProposal) (store : Store) :
    Outcome EvmError ProposalStatus :=
  if req.height = 1 then
    if 0 < req.txs.length then .ok (.reject .initialBlock) else .ok .accept
  else if req.txs.length = 0 then .ok (.reject .noTransactions)
  else if ¬ votingPowerOk req.votes then .ok (.reject .votingPower)
  else
    match scanBlock p maxCosmosTxs req.txs with
    | .error e => .ok (.reject e)
    | .ok scan =>
      match router with
      | none => .ok (.reject .noHandler)
      | some handler =>
        match handler ctx scan.evmMsg store with
        | .error (.error e) => .ok (.reject (.handler e))
        -- a panic of the handler is one of `ProcessProposal`
        | .error r => .error r
        | .ok () => .ok .accept

/-- `ProcessProposal` of the application: the handler over its router. -/
def processProposal (k : Keeper) (maxCosmosTxs : Int) (ctx : SdkContext)
    (req : RequestProcessProposal) (store : Store) : Outcome EvmError ProposalStatus :=
  makeProcessProposalHandler (makeProcessProposalRouter k) k.platform maxCosmosTxs ctx req store

/-! ## The grammar of blocks -/

/-- Nothing beside the message: no signatures, memo, fee or fee granter, and the EVM module
as fee payer. -/
structure StandardTx.Bare (p : Platform) (tx : StandardTx) : Prop where
  signatures : tx.signatures = .ok []
  memo : tx.memo = ""
  fee : tx.fee = none
  feePayer : tx.feePayer = p.evmModuleAddress
  feeGranter : tx.feeGranter = none

/-- A transaction with one message of an allowed type. -/
def CosmosTx (p : Platform) (raw : Bytes) : Prop :=
  ∃ tx type body, p.txDecoder raw = .ok tx ∧ tx.msgs = [.cosmos type body] ∧
    type ∈ allowedMsgTypes

/-- A transaction with one payload message and nothing else. -/
def PayloadTx (p : Platform) (raw : Bytes) (msg : MsgExecutionPayload) : Prop :=
  ∃ tx standardTx, p.txDecoder raw = .ok tx ∧ tx.msgs = [.executionPayload msg] ∧
    tx.standard = some standardTx ∧ standardTx.Bare p

/-- The grammar of blocks: allowed transactions, at most `maxCosmosTxs` of them when there
are any, and then the payload transaction. -/
def BlockForm (p : Platform) (maxCosmosTxs : Int) (txs : List Bytes)
    (msg : MsgExecutionPayload) : Prop :=
  ∃ cs e, txs = cs ++ [e] ∧ (cs = [] ∨ (cs.length : Int) ≤ maxCosmosTxs) ∧
    (∀ raw ∈ txs, raw.length ≤ maxTxSize) ∧ (∀ c ∈ cs, CosmosTx p c) ∧ PayloadTx p e msg

section Grammar

variable {p : Platform} {raw : Bytes} {tx : Tx} {msg : MsgExecutionPayload}

theorem validateTx_eq_ok_iff (h : tx.msgs.length = 1) :
    validateTx p tx = .ok () ↔ ∃ standardTx, tx.standard = some standardTx ∧ standardTx.Bare p := by
  unfold validateTx
  rw [if_neg (not_not.mpr h)]
  cases tx.standard with
  | none => simp
  | some st =>
    constructor
    · intro hv
      dsimp only at hv
      cases hs : st.signatures with
      | error e => simp [hs] at hv
      | ok signatures =>
        simp only [hs] at hv
        split_ifs at hv with h₁ h₂ h₃ h₄ h₅
        simp only [not_not] at h₁ h₂ h₃ h₄ h₅
        exact ⟨st, rfl, by rw [hs, List.length_eq_zero_iff.mp h₁], h₂, h₃, h₄, h₅⟩
    · rintro ⟨_, hst, hb⟩
      obtain rfl := Option.some.inj hst
      simp [hb.signatures, hb.memo, hb.fee, hb.feePayer, hb.feeGranter]

/-- A transaction is classified as a Cosmos transaction exactly when it is one. -/
theorem parseTx_cosmos_iff :
    (∃ q, parseTx p raw = .ok q ∧ q.isEVM = false) ↔ CosmosTx p raw := by
  constructor
  · rintro ⟨q, hq, hevm⟩
    unfold parseTx at hq
    cases hd : p.txDecoder raw with
    | error e => simp [hd] at hq
    | ok tx =>
      simp only [hd, except_bind_eq_ok_iff] at hq
      obtain ⟨⟨⟩, hallowed, -, -, hq⟩ := hq
      obtain rfl := Except.ok.inj hq
      unfold validateMsgAllowed at hallowed
      split at hallowed
      · next m hm => simp [Tx.isEVM, hm] at hevm
      · -- one message that is not a payload: its type is on the list
        next type body hm =>
        split_ifs at hallowed with ht
        exact ⟨tx, type, body, hd, hm, ht⟩
      · simp at hallowed
  · rintro ⟨tx, type, body, hd, hm, ht⟩
    have hevm : tx.isEVM = false := by simp [Tx.isEVM, hm]
    refine ⟨⟨raw, tx, false⟩, ?_, rfl⟩
    simp [parseTx, hd, validateMsgAllowed, hm, ht, hevm, bind, Except.bind, pure, Except.pure]

/-- A transaction is classified as a payload transaction exactly when it is one. -/
theorem parseTx_payload_iff :
    (∃ q, parseTx p raw = .ok q ∧ q.isEVM = true ∧ q.tx.msgs.head? = some (.executionPayload msg)) ↔
      PayloadTx p raw msg := by
  constructor
  · rintro ⟨q, hq, hevm, hmsg⟩
    unfold parseTx at hq
    cases hd : p.txDecoder raw with
    | error e => simp [hd] at hq
    | ok tx =>
      simp only [hd, except_bind_eq_ok_iff] at hq
      obtain ⟨⟨⟩, hallowed, ⟨⟩, hvalid, hq⟩ := hq
      obtain rfl := Except.ok.inj hq
      unfold validateMsgAllowed at hallowed
      split at hallowed
      · -- one payload message: the transaction went through `validateTx`
        next m hm =>
        obtain rfl : m = msg := by simpa [hm] using hmsg
        rw [if_pos hevm] at hvalid
        obtain ⟨st, hst, hb⟩ := (validateTx_eq_ok_iff (by simp [hm])).mp hvalid
        exact ⟨tx, st, hd, hm, hst, hb⟩
      · next type body hm => simp [Tx.isEVM, hm] at hevm
      · simp at hallowed
  · rintro ⟨tx, st, hd, hm, hst, hb⟩
    have hevm : tx.isEVM = true := by simp [Tx.isEVM, hm]
    have hvalid := (validateTx_eq_ok_iff (p := p) (by simp [hm])).mpr ⟨st, hst, hb⟩
    refine ⟨⟨raw, tx, true⟩, ?_, rfl, by simp [hm]⟩
    simp [parseTx, hd, validateMsgAllowed, hm, hevm, hvalid, bind, Except.bind, pure, Except.pure]

theorem CosmosTx.not_payloadTx (h : CosmosTx p raw) : ¬ PayloadTx p raw msg := by
  rintro ⟨tx', st, hd', hm', -, -⟩
  obtain ⟨tx, type, body, hd, hm, -⟩ := h
  obtain rfl := Except.ok.inj (hd.symm.trans hd')
  simp [hm] at hm'

/-- **The step of the loop**: before the last index an allowed transaction is counted, at the
last index the message of the payload transaction is kept. -/
theorem scanTx_eq_ok_iff {maxCosmosTxs : Int} {n i : ℕ} {s s' : Scan} :
    scanTx p maxCosmosTxs n i s raw = .ok s' ↔ raw.length ≤ maxTxSize ∧
      ((i ≠ n - 1 ∧ CosmosTx p raw ∧ (s.cosmosTxCount : Int) + 1 ≤ maxCosmosTxs ∧
          s' = { s with cosmosTxCount := s.cosmosTxCount + 1 }) ∨
        (i = n - 1 ∧ ∃ msg, PayloadTx p raw msg ∧ s' = { s with evmMsg := some msg })) := by
  unfold scanTx
  by_cases hlen : maxTxSize < raw.length
  · simp [hlen, Nat.not_le.mpr hlen]
  rw [if_neg hlen]
  simp only [Nat.not_lt.mp hlen, true_and]
  rcases hq : parseTx p raw with e | q
  · -- what is not parsed is of neither kind
    have hc : ¬ CosmosTx p raw := fun h => by simpa [hq] using parseTx_cosmos_iff.mpr h
    have hp : ∀ msg, ¬ PayloadTx p raw msg := fun msg h => by
      simpa [hq] using parseTx_payload_iff.mpr h
    simp [hc, hp]
  dsimp only
  cases hevm : q.isEVM with
  | false =>
    have hc : CosmosTx p raw := parseTx_cosmos_iff.mp ⟨q, hq, hevm⟩
    have hp : ∀ msg, ¬ PayloadTx p raw msg := fun msg => hc.not_payloadTx
    by_cases hi : i = n - 1
    · simp [hi, hp]
    · by_cases hmax : maxCosmosTxs < s.cosmosTxCount + 1
      · simp [hi, hmax, Int.not_le.mpr hmax]
      · simp [hi, hmax, Int.not_lt.mp hmax, hc, eq_comm (a := s')]
  | true =>
    have hc : ¬ CosmosTx p raw := fun h => by
      obtain ⟨q', hq', hevm'⟩ := parseTx_cosmos_iff.mpr h
      obtain rfl := Except.ok.inj (hq.symm.trans hq')
      simp [hevm] at hevm'
    by_cases hi : i = n - 1
    · have hmsg (msg) : PayloadTx p raw msg ↔ q.tx.msgs.head? = some (.executionPayload msg) := by
        rw [← parseTx_payload_iff]
        simp [hq, hevm]
      rcases hhead : q.tx.msgs.head? with _ | (m | ⟨type, body⟩) <;>
        simp [hi, hmsg, hhead, eq_comm (a := s')]
    · simp [hi, hc]

variable {maxCosmosTxs : Int} {txs : List Bytes}

theorem scanTxs_cons_eq_ok_iff {n i : ℕ} {s s' : Scan} :
    scanTxs p maxCosmosTxs n i s (raw :: txs) = .ok s' ↔
      ∃ t, scanTx p maxCosmosTxs n i s raw = .ok t ∧
        scanTxs p maxCosmosTxs n (i + 1) t txs = .ok s' := by
  cases h : scanTx p maxCosmosTxs n i s raw <;> simp [scanTxs, h]

/-- At the last index the loop takes a payload transaction and ends. -/
theorem scanTxs_last_iff {n i : ℕ} {s s' : Scan} (hi : i = n - 1) :
    scanTxs p maxCosmosTxs n i s [raw] = .ok s' ↔ raw.length ≤ maxTxSize ∧
      ∃ msg, PayloadTx p raw msg ∧ s' = { s with evmMsg := some msg } := by
  rw [scanTxs_cons_eq_ok_iff]
  constructor
  · rintro ⟨t, ht, hs⟩
    obtain rfl := Except.ok.inj hs
    obtain ⟨hlen, ⟨hi', -⟩ | ⟨-, hpayload⟩⟩ := scanTx_eq_ok_iff.mp ht
    · exact absurd hi hi'
    · exact ⟨hlen, hpayload⟩
  · rintro ⟨hlen, hpayload⟩
    exact ⟨s', scanTx_eq_ok_iff.mpr ⟨hlen, .inr ⟨hi, hpayload⟩⟩, rfl⟩

/-- Before the last index the loop counts a Cosmos transaction and goes on. -/
theorem scanTxs_next_iff {n i : ℕ} {s s' : Scan} (hi : i ≠ n - 1) :
    scanTxs p maxCosmosTxs n i s (raw :: txs) = .ok s' ↔ raw.length ≤ maxTxSize ∧
      CosmosTx p raw ∧ (s.cosmosTxCount : Int) + 1 ≤ maxCosmosTxs ∧
      scanTxs p maxCosmosTxs n (i + 1) { s with cosmosTxCount := s.cosmosTxCount + 1 } txs =
        .ok s' := by
  rw [scanTxs_cons_eq_ok_iff]
  constructor
  · rintro ⟨t, ht, hs⟩
    obtain ⟨hlen, ⟨-, hcosmos, hmax, rfl⟩ | ⟨hi', -⟩⟩ := scanTx_eq_ok_iff.mp ht
    · exact ⟨hlen, hcosmos, hmax, hs⟩
    · exact absurd hi' hi
  · rintro ⟨hlen, hcosmos, hmax, hs⟩
    exact ⟨_, scanTx_eq_ok_iff.mpr ⟨hlen, .inl ⟨hi, hcosmos, hmax, rfl⟩⟩, hs⟩

/-- **The loop accepts the grammar**, from any index on, and counts behind what it has counted
before. -/
theorem scanTxs_eq_ok_iff {n i : ℕ} {s s' : Scan} (hne : txs ≠ []) (hn : i + txs.length = n) :
    scanTxs p maxCosmosTxs n i s txs = .ok s' ↔
      ∃ cs e msg, txs = cs ++ [e] ∧
        (cs = [] ∨ (s.cosmosTxCount : Int) + cs.length ≤ maxCosmosTxs) ∧
        (∀ raw ∈ txs, raw.length ≤ maxTxSize) ∧ (∀ c ∈ cs, CosmosTx p c) ∧ PayloadTx p e msg ∧
        s' = ⟨some msg, s.cosmosTxCount + cs.length⟩ := by
  -- induction on the rest of the block, with the index and the count of what is behind
  induction txs generalizing i s with
  | nil => exact absurd rfl hne
  | cons raw rest ih =>
    cases rest with
    | nil =>
      have hi : i = n - 1 := by simp only [List.length_singleton] at hn; omega
      rw [scanTxs_last_iff hi]
      constructor
      · rintro ⟨hlen, msg, hp, rfl⟩
        exact ⟨[], raw, msg, rfl, .inl rfl, by simpa using hlen, by simp, hp, rfl⟩
      · rintro ⟨cs, e, msg, htxs, -, hlen, -, hp, rfl⟩
        obtain ⟨rfl, he⟩ := List.append_eq_singleton_iff.mp htxs.symm |>.resolve_right (by simp)
        obtain rfl := List.singleton_inj.mp he
        exact ⟨hlen e (by simp), msg, hp, rfl⟩
    | cons r rs =>
      have hi : i ≠ n - 1 := by simp only [List.length_cons] at hn; omega
      have hn' : i + 1 + (r :: rs).length = n := by
        simp only [List.length_cons] at hn ⊢
        omega
      rw [scanTxs_next_iff hi, ih (by simp) hn']
      constructor
      · rintro ⟨hlen, hc, hmax, cs, e, msg, htxs, hcount, hlens, hcs, hp, rfl⟩
        refine ⟨raw :: cs, e, msg, by rw [htxs]; rfl, .inr ?_, ?_, ?_, hp, ?_⟩
        · -- the bound of the rest, or the comparison made for this transaction
          rcases hcount with rfl | hcount
          · simpa using hmax
          · push_cast [List.length_cons] at hcount ⊢
            omega
        · simpa [hlen] using hlens
        · simpa [hc] using hcs
        · simp only [List.length_cons, Scan.mk.injEq, true_and]
          omega
      · rintro ⟨cs, e, msg, htxs, hcount, hlens, hcs, hp, rfl⟩
        cases cs with
        | nil => simp at htxs
        | cons c cs =>
          obtain ⟨rfl, hrest⟩ := List.cons.inj htxs
          have hcount := hcount.resolve_left (by simp)
          push_cast [List.length_cons] at hcount
          refine ⟨hlens raw (by simp), hcs raw (by simp), by omega, cs, e, msg, hrest, .inr ?_,
            fun b hb => hlens b (by simp [hb]), fun b hb => hcs b (by simp [hb]), hp, ?_⟩
          · push_cast
            omega
          · simp only [List.length_cons, Scan.mk.injEq, true_and]
            omega

/-- The loop over a block keeps the message of its payload transaction. -/
theorem scanBlock_eq_ok_iff {s : Scan} (hne : txs ≠ []) :
    scanBlock p maxCosmosTxs txs = .ok s ↔
      ∃ msg, BlockForm p maxCosmosTxs txs msg ∧ s = ⟨some msg, txs.length - 1⟩ := by
  unfold scanBlock
  rw [scanTxs_eq_ok_iff hne (by simp)]
  constructor
  · rintro ⟨cs, e, msg, rfl, hcount, hlen, hcs, hp, rfl⟩
    exact ⟨msg, ⟨cs, e, rfl, by simpa using hcount, hlen, hcs, hp⟩, by simp⟩
  · rintro ⟨msg, ⟨cs, e, rfl, hcount, hlen, hcs, hp⟩, rfl⟩
    exact ⟨cs, e, msg, rfl, by simpa using hcount, hlen, hcs, hp, by simp⟩

theorem BlockForm.ne_nil (h : BlockForm p maxCosmosTxs txs msg) : txs ≠ [] := by
  obtain ⟨cs, e, rfl, -⟩ := h
  simp

end Grammar

/-- The handler past the first block: it accepts what has the votes, the grammar and the
consent of the message server. -/
theorem processProposal_eq_accept_iff {k : Keeper} {maxCosmosTxs : Int} {ctx : SdkContext}
    {req : RequestProcessProposal} {store : Store} (hh : req.height ≠ 1) :
    processProposal k maxCosmosTxs ctx req store = .ok .accept ↔
      votingPowerOk req.votes = true ∧ ∃ msg, BlockForm k.platform maxCosmosTxs req.txs msg ∧
        proposalExecutionPayload k ctx msg store = .ok () := by
  unfold processProposal makeProcessProposalHandler makeProcessProposalRouter
  rw [if_neg hh]
  by_cases hne : req.txs = []
  · simp only [hne, List.length_nil, if_true]
    constructor
    · simp
    · rintro ⟨-, msg, hform, -⟩
      exact absurd rfl hform.ne_nil
  rw [if_neg (by simpa using hne)]
  by_cases hv : votingPowerOk req.votes
  · simp only [hv, not_true_eq_false, if_false, true_and]
    cases hs : scanBlock k.platform maxCosmosTxs req.txs with
    | error e =>
      constructor
      · simp
      · rintro ⟨msg, hform, -⟩
        have := (scanBlock_eq_ok_iff hne).mpr ⟨msg, hform, rfl⟩
        simp [hs] at this
    | ok scan =>
      obtain ⟨msg, hform, rfl⟩ := (scanBlock_eq_ok_iff hne).mp hs
      -- a block has the form for one message only, the one that the loop kept
      have hmsg : ∀ m, BlockForm k.platform maxCosmosTxs req.txs m → m = msg := fun m hm => by
        have := (scanBlock_eq_ok_iff hne).mpr ⟨m, hm, rfl⟩
        simpa [hs, eq_comm] using this
      have hconsent : (∃ m, BlockForm k.platform maxCosmosTxs req.txs m ∧
          proposalExecutionPayload k ctx m store = .ok ()) ↔
          proposalExecutionPayload k ctx msg store = .ok () :=
        ⟨fun ⟨m, hm, h⟩ => hmsg m hm ▸ h, fun h => ⟨msg, hform, h⟩⟩
      rw [hconsent]
      rcases hp : proposalExecutionPayload k ctx msg store with (e | e | _) | ⟨⟩ <;> simp [hp]
  · simp [hv]

/-- A transaction with a payload message among its messages. -/
def CarriesPayload (p : Platform) (raw : Bytes) : Prop :=
  ∃ tx msg, p.txDecoder raw = .ok tx ∧ .executionPayload msg ∈ tx.msgs

theorem PayloadTx.carriesPayload {p : Platform} {raw : Bytes} {msg : MsgExecutionPayload}
    (h : PayloadTx p raw msg) : CarriesPayload p raw := by
  obtain ⟨tx, st, hd, hm, -, -⟩ := h
  exact ⟨tx, msg, hd, by simp [hm]⟩

theorem CosmosTx.not_carriesPayload {p : Platform} {raw : Bytes} (h : CosmosTx p raw) :
    ¬ CarriesPayload p raw := by
  rintro ⟨tx', msg, hd', hmem⟩
  obtain ⟨tx, type, body, hd, hm, -⟩ := h
  obtain rfl := Except.ok.inj (hd.symm.trans hd')
  simp [hm] at hmem

/-- Handlers that agree on messages give the same verdicts: none is called without one. -/
theorem makeProcessProposalHandler_congr {h h' : ProposalHandler}
    (hh : ∀ ctx msg store, h ctx (some msg) store = h' ctx (some msg) store) (p : Platform)
    (maxCosmosTxs : Int) (ctx : SdkContext) (req : RequestProcessProposal) (store : Store) :
    makeProcessProposalHandler (some h) p maxCosmosTxs ctx req store =
      makeProcessProposalHandler (some h') p maxCosmosTxs ctx req store := by
  unfold makeProcessProposalHandler
  by_cases hne : req.txs = []
  · simp [hne]
  cases hs : scanBlock p maxCosmosTxs req.txs with
  | error e => rfl
  | ok scan =>
    obtain ⟨msg, -, rfl⟩ := (scanBlock_eq_ok_iff hne).mp hs
    simp only [hh]

section Sample

open Wire

theorem length_sampleTx_eq :
    (encodePayloadTx (payloadMsg (samplePayload []))).length = 1297 := by
  decide +kernel

theorem length_sampleTx :
    (encodePayloadTx (payloadMsg (samplePayload []))).length ≤ maxTxSize := by
  rw [length_sampleTx_eq]
  decide

theorem payloadTx_samplePayload (txs : List (Bytes × EvmTx)) :
    payloadTx (samplePlatform (samplePayload []) txs) (samplePayload []) =
      .ok (encodePayloadTx (payloadMsg (samplePayload []))) := by
  refine payloadTx_eq_ok_iff.mpr
    ⟨⟨jsonPayload (samplePayload []), _, if_pos rfl, rfl, ?_⟩, length_sampleTx⟩
  rw [samplePlatform_accAddressString]
  exact if_pos rfl

/-- The block on which the sample payload is built. -/
def sampleHead : BlockState := ⟨hexToHash "0x01", 0, 0⟩

/-- A keeper that can wrap the sample payload proposes it. -/
theorem prepareProposal_samplePayload {k : Keeper} {e : Bytes}
    (htx : payloadTx k.platform (samplePayload []) = .ok e) (requests txs : List Bytes)
    {w : World} (hw : w.store.blockState = some sampleHead) :
    let hdr := (sampleCtx .prepareProposal).header
    let id : PayloadID := FixedBytes.ofBytes 8 [1]
    ∃ w', prepareProposal k (validEngine ⟨samplePayload [], requests⟩)
        (sampleCtx .prepareProposal) 1 ⟨2, txs⟩ w = (.ok [e], w') ∧
      w'.store = w.store ∧
      w'.log = w.log ++
        [.forkchoiceUpdated (buildCall k hdr 2 sampleHead) (.ok ⟨⟨.valid, none, none⟩, some id⟩)] ++
        [.getPayload (getCall k hdr 2 sampleHead id) (.ok ⟨samplePayload [], requests⟩)] := by
  have hh : (2 : Int64) ≠ 1 := by decide
  refine prepareProposal_of_replies hh (by decide) hw rfl rfl rfl (fun d hd => ?_) rfl htx 0
  have hearly : ¬ w.clock + prepareTimeout ≤ w.clock + 1 + d := by
    unfold buildDelay at hd
    unfold prepareTimeout
    omega
  exact if_neg hearly

theorem payloadTx_samplePlatform (payload : ExecutableData) (txs : List (Bytes × EvmTx)) :
    PayloadTx (samplePlatform payload txs) (encodePayloadTx (payloadMsg payload))
      (payloadMsg payload) :=
  ⟨_, _, samplePlatform_txDecoder payload txs, rfl, rfl, rfl, rfl, rfl, rfl, rfl⟩

/-- A platform that knows a valid payload accepts the block of its transaction alone, whatever
the limit on the other transactions. -/
theorem processProposal_sampleKeeper {config : Config} {chainSpec : ChainSpec}
    {payload : ExecutableData} {txs : List (Bytes × EvmTx)} {ctx : SdkContext} {state : BlockState}
    {store : Store} {height : Int64} {votes : List VoteInfo} (maxCosmosTxs : Int)
    (hstore : store.blockState = some state)
    (hvalid : PayloadValid (sampleKeeper config chainSpec payload txs) ctx.header state payload)
    (hlen : (encodePayloadTx (payloadMsg payload)).length ≤ maxTxSize) (hh : height ≠ 1)
    (hvotes : votingPowerOk votes = true) :
    processProposal (sampleKeeper config chainSpec payload txs) maxCosmosTxs ctx
      ⟨height, [encodePayloadTx (payloadMsg payload)], votes⟩ store = .ok .accept := by
  rw [processProposal_eq_accept_iff hh]
  refine ⟨hvotes, payloadMsg payload, ⟨[], _, rfl, .inl rfl, by simpa using hlen, by simp,
    payloadTx_samplePlatform payload txs⟩, ?_⟩
  rw [proposalExecutionPayload_eq_ok_iff]
  refine ⟨state, payload, hstore, validatePayload_eq_ok_iff.mpr ⟨?_, ?_, hvalid⟩⟩
  · exact (samplePlatform_accAddressString payload txs).symm
  · exact samplePlatform_unmarshalPayload payload txs

end Sample

/-- **`ProcessProposal` accepts exactly the grammar of blocks.** An accepted block has one
payload transaction, the last one, and the handler of payload messages is never called
without a message. -/
theorem processProposal_grammar (k : Keeper) (maxCosmosTxs : Int) (ctx : SdkContext)
    (req : RequestProcessProposal) (store : Store) :
    (processProposal k maxCosmosTxs ctx req store = .ok .accept ↔
      if req.height = 1 then req.txs = []
      else votingPowerOk req.votes = true ∧ ∃ msg, BlockForm k.platform maxCosmosTxs req.txs msg ∧
        proposalExecutionPayload k ctx msg store = .ok ()) ∧
    (req.height ≠ 1 ∧ processProposal k maxCosmosTxs ctx req store = .ok .accept →
      ∃ cs e, req.txs = cs ++ [e] ∧ CarriesPayload k.platform e ∧
        ∀ c ∈ cs, ¬ CarriesPayload k.platform c) ∧
    ∀ h h' : ProposalHandler,
      (∀ ctx msg store, h ctx (some msg) store = h' ctx (some msg) store) →
        makeProcessProposalHandler (some h) k.platform maxCosmosTxs ctx req store =
          makeProcessProposalHandler (some h') k.platform maxCosmosTxs ctx req store := by
  refine ⟨?_, ?_, fun h h' hh => makeProcessProposalHandler_congr hh _ _ _ _ _⟩
  · split_ifs with hh
    · unfold processProposal makeProcessProposalHandler
      rw [if_pos hh]
      cases req.txs <;> simp
    · exact processProposal_eq_accept_iff hh
  · rintro ⟨hh, haccept⟩
    obtain ⟨-, msg, ⟨cs, e, htxs, -, -, hcs, hp⟩, -⟩ :=
      (processProposal_eq_accept_iff hh).mp haccept
    exact ⟨cs, e, htxs, hp.carriesPayload, fun c hc => (hcs c hc).not_carriesPayload⟩

open Wire in
/-- With a negative limit the block of the payload transaction alone is still accepted: the
counter is compared only when a Cosmos transaction has been counted. -/
theorem processProposal_accept_below_zero :
    processProposal (sampleKeeper defaultConfig cancunSpec (samplePayload []) []) (-1)
        (sampleCtx .processProposal)
        ⟨2, [encodePayloadTx (payloadMsg (samplePayload []))], [⟨10, .commit⟩]⟩ sampleStore =
      .ok .accept ∧
    ¬ ∃ cs e, [encodePayloadTx (payloadMsg (samplePayload []))] = cs ++ [e] ∧
      (0 : Int) ≤ cs.length ∧ (cs.length : Int) ≤ -1 := by
  constructor
  · exact processProposal_sampleKeeper (-1) rfl (payloadValid_samplePayload _ _ _ _)
      length_sampleTx (by decide) (by decide)
  · rintro ⟨cs, e, -, h, h'⟩
    omega

end NexusNode
