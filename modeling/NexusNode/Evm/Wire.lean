import NexusNode.Evm.Keeper

/-!
# The wire format of payload transactions

The encodings that third-party packages give to the values of a block: execution payloads as
JSON, the payload transaction as protobuf, blob transactions as RLP. From them
`samplePlatform` builds an instance of `Platform` that behaves as these packages do on one
payload and a table of EVM transactions, and refuses other input.

## Main definitions

* `jsonPayload`: `json.Marshal` of an `ExecutableData`
* `encodePayloadTx`: the protobuf encoding of the transaction that carries one message
* `blobTxBytes`: the binary encoding of a blob transaction
* `samplePlatform payload txs`: a platform that knows the payload and the transactions
* `emptyPayload`, `sampleKeeper`: a payload without gas and a keeper on that platform
-/

namespace NexusNode.Wire

/-! ## JSON -/

def hexDigits (b : Bytes) : Bytes :=
  b.flatMap fun x => [x / 16, x % 16].map fun d => if d < 10 then 48 + d else 87 + d

def quote (b : Bytes) : Bytes := 34 :: b ++ [34]

/-- A byte string as JSON. -/
def hexData (b : Bytes) : Bytes := quote (goBytes "0x" ++ hexDigits b)

/-- A number as JSON, without leading zeros. -/
def hexQuantity (n : ℕ) : Bytes :=
  quote (goBytes "0x" ++ (Nat.toDigits 16 n).map fun c => c.toNat.toUInt8)

def jsonList (xs : List Bytes) : Bytes := 91 :: (xs.intersperse [44]).flatten ++ [93]

def jsonObject (fields : List (String × Bytes)) : Bytes :=
  123 :: ((fields.map fun f => quote (goBytes f.1) ++ 58 :: f.2).intersperse [44]).flatten ++ [125]

/-- Nil renders as `null`. -/
def orNull {α : Type} (render : α → Bytes) : Option α → Bytes
  | none => goBytes "null"
  | some a => render a

def jsonWithdrawal (w : Withdrawal) : Bytes :=
  jsonObject [("index", hexQuantity w.index.toNat),
    ("validatorIndex", hexQuantity w.validator.toNat),
    ("address", hexData w.address.bytes), ("amount", hexQuantity w.amount.toNat)]

/-- `json.Marshal` of an execution payload. The witness is omitted when it is nil. -/
def jsonPayload (p : ExecutableData) : Bytes :=
  jsonObject <|
    [("parentHash", hexData p.parentHash.bytes), ("feeRecipient", hexData p.feeRecipient.bytes),
      ("stateRoot", hexData p.stateRoot.bytes), ("receiptsRoot", hexData p.receiptsRoot.bytes),
      ("logsBloom", hexData p.logsBloom), ("prevRandao", hexData p.random.bytes),
      ("blockNumber", hexQuantity p.number.toNat), ("gasLimit", hexQuantity p.gasLimit.toNat),
      ("gasUsed", hexQuantity p.gasUsed.toNat), ("timestamp", hexQuantity p.timestamp.toNat),
      ("extraData", hexData p.extraData), ("baseFeePerGas", hexQuantity p.baseFeePerGas),
      ("blockHash", hexData p.blockHash.bytes),
      ("transactions", jsonList (p.transactions.map hexData)),
      ("withdrawals", orNull (fun ws => jsonList (ws.map jsonWithdrawal)) p.withdrawals),
      ("blobGasUsed", orNull (fun n => hexQuantity n.toNat) p.blobGasUsed),
      ("excessBlobGas", orNull (fun n => hexQuantity n.toNat) p.excessBlobGas)] ++
    (p.executionWitness.map fun w => ("executionWitness", w)).toList

theorem jsonPayload_ne_nil (p : ExecutableData) : jsonPayload p ≠ [] := by
  simp [jsonPayload, jsonObject]

/-! ## Protobuf -/

/-- The base-128 encoding of a number, at most `fuel` bytes of it. -/
def varint (fuel n : ℕ) : Bytes :=
  match fuel with
  | 0 => []
  | fuel + 1 => if n < 128 then [n.toUInt8] else (n % 128 + 128).toUInt8 :: varint fuel (n / 128)

/-- A length-delimited field. -/
def field (number : ℕ) (b : Bytes) : Bytes :=
  (number * 8 + 2).toUInt8 :: varint 10 b.length ++ b

/-- The transaction that carries one message, with an empty fee and nothing else set. -/
def encodePayloadTx (m : MsgExecutionPayload) : Bytes :=
  let value := field 1 (goBytes m.authority) ++ field 2 m.executionPayload
  let any := field 1 (goBytes "/nexus.evm.v1.MsgExecutionPayload") ++ field 2 value
  field 1 (field 1 any) ++ field 2 (field 2 [])

/-! ## RLP -/

/-- The big-endian bytes of a number below `2 ^ 16`. -/
def bigEndian (n : ℕ) : Bytes :=
  if n < 256 then [n.toUInt8] else [(n / 256).toUInt8, (n % 256).toUInt8]

def rlpHeader (offset n : ℕ) : Bytes :=
  if n ≤ 55 then [(offset + n).toUInt8]
  else (offset + 55 + (bigEndian n).length).toUInt8 :: bigEndian n

def rlpString (b : Bytes) : Bytes :=
  if b.length = 1 ∧ b.all (· < 128) then b else rlpHeader 128 b.length ++ b

def rlpList (items : List Bytes) : Bytes := rlpHeader 192 items.flatten.length ++ items.flatten

/-- A blob transaction on chain 1 from nonce 0, with the given blob hashes. -/
def blobTxBytes (hashes : List Hash) : Bytes :=
  3 :: rlpList [rlpString [1], rlpString [], rlpString [], rlpString [1], rlpString [82, 8],
    rlpString (List.replicate 20 1), rlpString [], rlpString [], rlpList [], rlpString [1],
    rlpList (hashes.map fun h => rlpString h.bytes), rlpString [], rlpString [1], rlpString [1]]

/-! ## A platform -/

/-- `authtypes.NewModuleAddress("evm")` -/
def evmAddress : Bytes :=
  [96, 56, 113, 194, 221, 212, 28, 38, 238, 119, 73, 94, 46, 49, 230, 222, 127, 153, 87, 224]

def evmAddressString : String := "nexus1vqu8rska6swzdmnhf90zuv0xmelej4lqdn964m"

/-- The message that carries the payload. -/
def payloadMsg (payload : ExecutableData) : MsgExecutionPayload :=
  ⟨evmAddressString, jsonPayload payload⟩

/-- A transaction with one message and nothing else: its fee payer is its signer. -/
def bareTx (m : Msg) : Tx where
  msgs := [m]
  standard := some ⟨.ok [], "", none, evmAddress, none⟩

/-- A platform that knows one payload and a table of EVM transactions. -/
def samplePlatform (payload : ExecutableData) (txs : List (Bytes × EvmTx)) : Platform where
  txDecoder b :=
    if b = encodePayloadTx (payloadMsg payload) then
      .ok (bareTx (.executionPayload (payloadMsg payload)))
    else .error "tx parse error"
  txEncoder tx :=
    match tx.msgs with
    | [.executionPayload m] =>
      if m = payloadMsg payload then .ok (encodePayloadTx m) else .error "unknown message"
    | _ => .error "unknown message"
  buildTx m := .ok (bareTx m)
  marshalPayload p := if p = payload then .ok (jsonPayload p) else .error "unknown payload"
  unmarshalPayload b :=
    if b = jsonPayload payload then .ok payload else .error "unexpected end of JSON input"
  unmarshalPayload_nil := ⟨_, if_neg (jsonPayload_ne_nil payload).symm⟩
  unmarshalBinary b :=
    match txs.lookup b with
    | some tx => .ok tx
    | none => .error "typed transaction too short"
  evmModuleAddress := evmAddress
  accAddressString b := if b = evmAddress then evmAddressString else ""
  stringToBytes s := if s = evmAddressString then .ok evmAddress else .error "decoding failed"

/-- The logs bloom of a block without logs. -/
def emptyBloom : Bytes := List.replicate 256 0

/-- A payload that uses no gas. -/
def emptyPayload (parentHash blockHash : Hash) (number timestamp : UInt64)
    (transactions : List Bytes) : ExecutableData where
  parentHash := parentHash
  feeRecipient := FixedBytes.ofBytes 20 []
  stateRoot := zeroHash
  receiptsRoot := zeroHash
  logsBloom := emptyBloom
  random := parentHash
  number := number
  gasLimit := 30000000
  gasUsed := 0
  timestamp := timestamp
  extraData := []
  baseFeePerGas := 7
  blockHash := blockHash
  transactions := transactions
  withdrawals := some []
  blobGasUsed := some 0
  excessBlobGas := some 0
  executionWitness := none

/-- `authtypes.NewModuleAddress("gov")`, the default authority of the keeper. -/
def govAddress : Bytes :=
  [123, 95, 226, 43, 84, 70, 247, 198, 46, 162, 123, 139, 215, 28, 239, 148, 224, 63, 61, 242]

def sampleKeeper (config : Config) (chainSpec : ChainSpec) (payload : ExecutableData)
    (txs : List (Bytes × EvmTx)) : Keeper :=
  ⟨samplePlatform payload txs, config, chainSpec, govAddress⟩

/-- The configuration of a node without a configuration file. -/
def defaultConfig : Config := ⟨FixedBytes.ofBytes 20 [], none, 0⟩

/-- No fork is scheduled. -/
def cancunSpec : ChainSpec := ⟨none, none, none⟩

/-- The store of a fresh chain on the execution block with hash 1. -/
def sampleStore : Store := ⟨some {}, some ⟨hexToHash "0x01", 0, 0⟩⟩

/-- The first payload on that block, with the given transactions. -/
def samplePayload (transactions : List Bytes) : ExecutableData :=
  emptyPayload (hexToHash "0x01") (hexToHash "0x02") 1 1700000000 transactions

/-- The context in which block 2 of the chain is handled. -/
def sampleCtx (execMode : ExecMode) : SdkContext :=
  ⟨⟨2, 1700000000, [1]⟩, execMode, .background, true⟩

def sampleWorld : World := ⟨sampleStore, [], 0⟩

/-- An engine that takes every block and hands out `envelope`. -/
def validEngine (envelope : ExecutionPayloadEnvelope) : Engine where
  newPayload _ _ := .ok ⟨.valid, none, none⟩
  forkchoiceUpdated _ _ := .ok ⟨⟨.valid, none, none⟩, some (FixedBytes.ofBytes 8 [1])⟩
  getPayload _ _ := .ok envelope
  latency _ := 1

theorem payloadValid_samplePayload (transactions : List Bytes) (txs : List (Bytes × EvmTx))
    (chainSpec : ChainSpec) (execMode : ExecMode) :
    PayloadValid (sampleKeeper defaultConfig chainSpec (samplePayload transactions) txs)
      (sampleCtx execMode).header ⟨hexToHash "0x01", 0, 0⟩ (samplePayload transactions) where
  withdrawals := rfl
  blobGasUsed := Option.some_ne_none 0
  excessBlobGas := Option.some_ne_none 0
  witness := rfl
  parentHash := rfl
  number := rfl
  newer := show (0 : UInt64) < 1700000000 by decide
  height_nonneg := show (0 : Int64) ≤ 2 by decide
  timestamp := show (1700000000 : UInt64) =
    calculateTimestamp defaultConfig 1700000000 2 0 by decide

variable (payload : ExecutableData) (txs : List (Bytes × EvmTx))

@[simp] theorem samplePlatform_unmarshalPayload :
    (samplePlatform payload txs).unmarshalPayload (jsonPayload payload) = .ok payload := if_pos rfl

@[simp] theorem samplePlatform_txDecoder :
    (samplePlatform payload txs).txDecoder (encodePayloadTx (payloadMsg payload)) =
      .ok (bareTx (.executionPayload (payloadMsg payload))) := if_pos rfl

@[simp] theorem samplePlatform_accAddressString :
    (samplePlatform payload txs).accAddressString (samplePlatform payload txs).evmModuleAddress =
      evmAddressString := by
  simp [samplePlatform]

/-- The message of the sample payload passes the checks of the finalization. -/
theorem checkExecutionPayload_samplePayload (chainSpec : ChainSpec) (transactions : List Bytes)
    (txs : List (Bytes × EvmTx)) :
    checkExecutionPayload (sampleKeeper defaultConfig chainSpec (samplePayload transactions) txs)
      (sampleCtx .finalize) (payloadMsg (samplePayload transactions)) sampleStore =
      .ok (samplePayload transactions) :=
  checkExecutionPayload_eq_ok_iff.mpr ⟨rfl, jsonPayload_ne_nil _, _, rfl,
    validatePayload_eq_ok_iff.mpr ⟨(samplePlatform_accAddressString _ txs).symm,
      samplePlatform_unmarshalPayload _ txs, payloadValid_samplePayload _ _ _ _⟩⟩

/-- The one transaction a platform knows decodes to its blob hashes. -/
theorem blobHashes_samplePlatform (b : Bytes) (tx : EvmTx) :
    BlobHashes (samplePlatform payload [(b, tx)]) [b] tx.blobHashes :=
  ⟨[tx], by simp [samplePlatform], by simp⟩

theorem sendable_of_no_transactions {p : Platform} (h : payload.transactions = []) :
    Sendable p payload := by
  refine ⟨[], ?_, Nat.zero_le _⟩
  rw [h]
  exact ⟨[], rfl, rfl⟩

end NexusNode.Wire
