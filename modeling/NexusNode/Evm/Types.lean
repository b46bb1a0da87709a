import Mathlib.Data.List.Basic
import NexusNode.Program.Proc

/-!
# The data of the consensus client

The values the EVM module and the proposal handlers pass around: byte strings and hashes, the
stored `BlockState`, the genesis record, the Engine API messages, the transactions of a block
and the request context. A hash carries the proof of its length, and a context the proof that
it never becomes live again.

What the node takes from third-party packages without looking inside is collected in
`Platform`: the transaction codec, the JSON codec of execution payloads, the decoder of EVM
transactions and the address codec.

## Main definitions

* `FixedBytes n`, `bytesToHash`, `hexToHash`: byte arrays of a fixed length
* `BlockState`, `GenesisState`, `Store`: what the module stores and imports
* `ExecutableData`, `ExecutionPayloadEnvelope`, `ForkChoiceResponse`: Engine API messages
* `Msg`, `Tx`: the transactions of a block
* `GoContext`, `SdkContext`: cancellation, header and execution mode of a call
* `EvmError`: the errors of the module, with `EvmError.text` their messages
* `Platform`: the code the node takes from outside
-/

namespace NexusNode

/-! ## Bytes and hashes -/

abbrev Bytes := List UInt8

/-- A byte array of length `n`. -/
structure FixedBytes (n : ℕ) where
  bytes : Bytes
  length_eq : bytes.length = n
  deriving DecidableEq

/-- Go's `SetBytes`: crop from the left what is too long, pad on the left what is too short. -/
def FixedBytes.ofBytes (n : ℕ) (b : Bytes) : FixedBytes n where
  bytes := List.replicate (n - b.length) 0 ++ b.drop (b.length - n)
  length_eq := by simp only [List.length_append, List.length_replicate, List.length_drop]; omega

/-- `common.Hash` -/
abbrev Hash := FixedBytes 32

/-- `common.Address` -/
abbrev EthAddress := FixedBytes 20

/-- `common.BytesToHash` -/
def bytesToHash (b : Bytes) : Hash := FixedBytes.ofBytes 32 b

/-- The zero value `common.Hash{}`. -/
def zeroHash : Hash := bytesToHash []

/-- The bytes of a Go string. -/
@[irreducible] def goBytes (s : String) : Bytes := s.toUTF8.data.toList

/-- The value of a hexadecimal digit. -/
def fromHexChar (c : UInt8) : Option UInt8 :=
  if 48 ≤ c ∧ c ≤ 57 then some (c - 48)
  else if 97 ≤ c ∧ c ≤ 102 then some (c - 87)
  else if 65 ≤ c ∧ c ≤ 70 then some (c - 55)
  else none

/-- `hex.DecodeString` with its error dropped: the bytes before the first malformed pair. -/
def hex2Bytes : Bytes → Bytes
  | a :: b :: rest =>
    match fromHexChar a, fromHexChar b with
    | some x, some y => (x * 16 + y) :: hex2Bytes rest
    | _, _ => []
  | _ => []

def has0xPrefix : Bytes → Bool
  | a :: b :: _ => a == 48 && (b == 120 || b == 88)
  | _ => false

/-- `common.FromHex` -/
def fromHex (s : Bytes) : Bytes :=
  let s := if has0xPrefix s then s.drop 2 else s
  -- an odd number of digits gets a leading zero
  let s := if s.length % 2 = 1 then 48 :: s else s
  hex2Bytes s

/-- `common.HexToHash` -/
def hexToHash (s : String) : Hash := bytesToHash (fromHex (goBytes s))

/-- `common.HexToAddress` -/
def hexToAddress (s : String) : EthAddress := FixedBytes.ofBytes 20 (fromHex (goBytes s))

/-- `common.IsHexAddress` -/
def isHexAddress (s : String) : Bool :=
  let b := goBytes s
  let b := if has0xPrefix b then b.drop 2 else b
  b.length == 40 && b.all fun c => (fromHexChar c).isSome

def hexDigit (n : UInt8) : Char :=
  if n < 10 then Char.ofNat (48 + n.toNat) else Char.ofNat (87 + n.toNat)

/-- `Hash.Hex`: the `0x`-prefixed lower-case rendering. -/
def FixedBytes.hex {n : ℕ} (h : FixedBytes n) : String :=
  String.ofList ('0' :: 'x' :: h.bytes.flatMap fun b => [hexDigit (b / 16), hexDigit (b % 16)])

/-! ## The stored state and the genesis record -/

/-- The module parameters; the message has no fields. -/
structure Params where
  deriving DecidableEq, Repr

structure BlockState where
  hash : Hash
  height : UInt64
  timestamp : UInt64
  deriving DecidableEq

/-- The two items of the module's store, absent until they are first set. -/
structure Store where
  params : Option Params
  blockState : Option BlockState
  deriving DecidableEq

structure GenesisState where
  params : Params
  genesisExecutionBlockHash : String
  currentBlockHash : String
  currentBlockHeight : UInt64
  currentBlockTimestamp : UInt64
  deriving DecidableEq

def defaultGenesis : GenesisState where
  params := {}
  genesisExecutionBlockHash :=
    "0x0000000000000000000000000000000000000000000000000000000000000000"
  currentBlockHash := ""
  currentBlockHeight := 0
  currentBlockTimestamp := 0

/-! ## Engine API messages -/

structure Withdrawal where
  index : UInt64
  validator : UInt64
  address : EthAddress
  amount : UInt64
  deriving DecidableEq

/-- `engine.ExecutableData`. Pointers and nilable slices the node tests for nil are options;
of the execution witness only its presence is read. -/
structure ExecutableData where
  parentHash : Hash
  feeRecipient : EthAddress
  stateRoot : Hash
  receiptsRoot : Hash
  logsBloom : Bytes
  random : Hash
  number : UInt64
  gasLimit : UInt64
  gasUsed : UInt64
  timestamp : UInt64
  extraData : Bytes
  baseFeePerGas : ℕ
  blockHash : Hash
  transactions : List Bytes
  withdrawals : Option (List Withdrawal)
  blobGasUsed : Option UInt64
  excessBlobGas : Option UInt64
  executionWitness : Option Bytes
  deriving DecidableEq

/-- The status string of an engine reply. -/
inductive Status where
  | valid
  | invalid
  | syncing
  | accepted
  | other (text : String)
  deriving DecidableEq

def Status.text : Status → String
  | .valid => "VALID"
  | .invalid => "INVALID"
  | .syncing => "SYNCING"
  | .accepted => "ACCEPTED"
  | .other s => s

abbrev PayloadID := FixedBytes 8

structure PayloadStatusV1 where
  status : Status
  latestValidHash : Option Hash := none
  validationError : Option String := none
  deriving DecidableEq

structure ForkChoiceResponse where
  payloadStatus : PayloadStatusV1
  payloadID : Option PayloadID
  deriving DecidableEq

structure ForkchoiceStateV1 where
  headBlockHash : Hash
  safeBlockHash : Hash
  finalizedBlockHash : Hash
  deriving DecidableEq

structure PayloadAttributes where
  timestamp : UInt64
  random : Hash
  suggestedFeeRecipient : EthAddress
  withdrawals : List Withdrawal
  beaconRoot : Hash
  deriving DecidableEq

/-- `engine.ExecutionPayloadEnvelope`, without the block value and the blobs bundle, which
the node never reads. -/
structure ExecutionPayloadEnvelope where
  executionPayload : ExecutableData
  requests : List Bytes
  deriving DecidableEq

/-! ## Messages and transactions -/

structure MsgExecutionPayload where
  authority : String
  executionPayload : Bytes
  deriving DecidableEq

structure MsgUpdateParams where
  authority : String
  params : Params
  deriving DecidableEq

/-- The Go types of the messages other than `MsgExecutionPayload`. -/
inductive MsgType where
  | govSubmitProposal
  | govVote
  | govVoteWeighted
  | govDeposit
  | bankSend
  | softwareUpgrade
  | cancelUpgrade
  | other (goType : String)
  deriving DecidableEq

/-- The rendering of a message type by the format verb `%T`. -/
def MsgType.goType : MsgType → String
  | .govSubmitProposal => "*v1.MsgSubmitProposal"
  | .govVote => "*v1.MsgVote"
  | .govVoteWeighted => "*v1.MsgVoteWeighted"
  | .govDeposit => "*v1.MsgDeposit"
  | .bankSend => "*types.MsgSend"
  | .softwareUpgrade => "*types.MsgSoftwareUpgrade"
  | .cancelUpgrade => "*types.MsgCancelUpgrade"
  | .other s => s

inductive Msg where
  | executionPayload (m : MsgExecutionPayload)
  | cosmos (type : MsgType) (body : Bytes)
  deriving DecidableEq

structure Coin where
  denom : String
  amount : ℕ
  deriving DecidableEq

/-- The part of `signing.Tx` that `validateTx` reads. The fee and the fee granter are nil or
not; the signatures may fail to decode. -/
structure StandardTx where
  signatures : Except String (List Bytes)
  memo : String
  fee : Option (List Coin)
  feePayer : Bytes
  feeGranter : Option Bytes

/-- `sdk.Tx`; `standard` is the result of the type assertion to `signing.Tx`. -/
structure Tx where
  msgs : List Msg
  standard : Option StandardTx

/-- The decoded EVM transaction, of which only `BlobHashes` is read: empty for every type
other than a blob transaction. -/
structure EvmTx where
  blobHashes : List Hash
  deriving DecidableEq

/-! ## Contexts -/

structure Header where
  height : Int64
  /-- `BlockTime().Unix()` -/
  time : Int64
  appHash : Bytes
  deriving DecidableEq

inductive ExecMode where
  | check
  | reCheck
  | simulate
  | prepareProposal
  | processProposal
  | voteExtension
  | verifyVoteExtension
  | finalize
  deriving DecidableEq

inductive CtxErr where
  | canceled
  | deadlineExceeded
  deriving DecidableEq

/-- A `context.Context` as `ctx.Err` over the milliseconds of an abstract clock. -/
structure GoContext where
  err : ℕ → Option CtxErr
  /-- a context that is done stays done -/
  stays_done : ∀ {m n : ℕ}, m ≤ n → (err m).isSome → (err n).isSome

/-- `context.Background`: never done. -/
def GoContext.background : GoContext where
  err _ := none
  stays_done := by simp

/-- `context.WithTimeout` called at time `now`: the parent, until the deadline. -/
def GoContext.withTimeout (c : GoContext) (now timeout : ℕ) : GoContext where
  err t :=
    if now + timeout ≤ t then some ((c.err (now + timeout)).getD .deadlineExceeded) else c.err t
  stays_done := by
    intro m n hmn h
    -- past the deadline the context is done, before it the parent decides
    by_cases hn : now + timeout ≤ n
    · simp [hn]
    · have hm : ¬ now + timeout ≤ m := by omega
      simp only [hn, hm, if_false] at h ⊢
      exact c.stays_done hmn h

/-- What a handler reads of `sdk.Context`. `preferDone` decides a `select` in which both the
timer and `ctx.Done` are ready. -/
structure SdkContext where
  header : Header
  execMode : ExecMode
  goCtx : GoContext
  preferDone : Bool := true

/-! ## Errors -/

/-- A failed RPC call: the error and the rendering of the response read so far. -/
structure RpcError where
  err : String
  response : String
  deriving DecidableEq

/-- The errors of the EVM module and of the proposal handlers. -/
inductive EvmError where
  /-- an error of a third-party package, passed on -/
  | ext (msg : String)
  | ctx (e : CtxErr)
  | negative (val : Int)
  | itemNotFound
  | notFinalize
  | emptyPayload
  | getBlockState (e : EvmError)
  | invalidAuthority (expected got : String)
  | invalidAddress (msg : String)
  | invalidSigner (expected got : String)
  | invalidPayload (msg : String)
  | withdrawals
  | missingFields
  | witness
  | parentHash (expected got : Hash)
  | blockNumber (expected got : UInt64)
  | oldTimestamp (previous got : UInt64)
  | timestamp (expected got : UInt64)
  | emptyAppHash
  | decodeTx (msg : String)
  | tooManyBlobs (got max : ℕ)
  | payloadStatus (s : Status)
  | forkchoiceStatus (s : Status)
  | newPayloadCall (version : ℕ) (e : RpcError)
  | forkchoiceCall (e : RpcError)
  | getPayloadCall (version : ℕ) (e : RpcError)
  | unexpectedAccepted (response : ForkChoiceResponse)
  | nilPayloadID
  | stillUnknown (attempts : ℕ) (height : UInt64) (version : ℕ) (id : PayloadID) (e : EvmError)
  | txTooLarge (got max : ℕ)
  | genesisHashRequired
  | updateParamsInProposal
  deriving DecidableEq

/-- The whole seconds that many retry delays take. -/
def seconds (attempts : ℕ) : ℕ := attempts * 10 / 1000

/-- The message of an error. Of a response that is rendered into a message only the status is
kept. -/
def EvmError.text : EvmError → String
  | .ext msg => msg
  | .ctx .canceled => "context canceled"
  | .ctx .deadlineExceeded => "context deadline exceeded"
  | .negative val => s!"expected non-negative value, got: {val}"
  | .itemNotFound => "collections: not found"
  | .notFinalize => "execution payload can only be submitted in finalize mode"
  | .emptyPayload => "execution payload cannot be empty"
  | .getBlockState e => "failed to get block state: " ++ e.text
  | .invalidAuthority expected got => s!"invalid authority; expected {expected}, got {got}"
  | .invalidAddress msg => "invalid authority address: " ++ msg
  | .invalidSigner expected got =>
    s!"invalid authority; expected {expected}, got {got}: " ++
      "expected gov account as only signer for proposal message"
  | .invalidPayload msg => "invalid execution payload: " ++ msg
  | .withdrawals => "withdrawals are not supported"
  | .missingFields => "withdrawals, blob gas used, and excess blob gas are required"
  | .witness => "execution witness is not supported"
  | .parentHash expected got =>
    "invalid parent hash: expected " ++ expected.hex ++ ", got " ++ got.hex
  | .blockNumber expected got => s!"invalid block number: expected {expected}, got {got}"
  | .oldTimestamp previous got => s!"invalid timestamp: expected > {previous}, got {got}"
  | .timestamp expected got => s!"invalid timestamp: expected {expected}, got {got}"
  | .emptyAppHash => "app hash is empty"
  | .decodeTx msg => "decode tx: " ++ msg
  | .tooManyBlobs got max => s!"too many blobs in block: {got} > {max}"
  | .payloadStatus s => "payload is not valid with status: " ++ s.text
  | .forkchoiceStatus s => "forkchoice not updated with status: " ++ s.text
  | .newPayloadCall version e =>
    s!"new payload v{version}: " ++ e.err ++ ", response: " ++ e.response
  | .forkchoiceCall e => "forkchoice updated v3: " ++ e.err ++ ", response: " ++ e.response
  | .getPayloadCall version e =>
    s!"get payload v{version}: " ++ e.err ++ ", response: " ++ e.response
  | .unexpectedAccepted r => "unexpected status accepted: " ++ r.payloadStatus.status.text
  | .nilPayloadID => "payload ID is nil"
  | .stillUnknown attempts height version id e =>
    s!"PrepareProposal: engine getPayload still unknown after ~{seconds attempts}s of polling " ++
      s!"({attempts} attempts, 10ms between attempts; height={height} " ++
      s!"get_payload_rpc_version={version} payload_id=" ++ id.hex ++ "): " ++ e.text
  | .txTooLarge got max => s!"transaction too large: {got} bytes exceeds maximum of {max} bytes"
  | .genesisHashRequired => "genesis execution block hash is required"
  | .updateParamsInProposal => "UpdateParams should not be called during ProcessProposal"

/-- `Params.Validate` accepts everything. -/
def Params.validate (_ : Params) : Except EvmError Unit := .ok ()

/-! ## What comes from outside -/

/-- Third-party code the node calls without looking inside, each function under the name of
the package that provides it. -/
structure Platform where
  /-- `txConfig.TxDecoder()` -/
  txDecoder : Bytes → Except String Tx
  /-- `txConfig.TxEncoder()` -/
  txEncoder : Tx → Except String Bytes
  /-- `txConfig.NewTxBuilder()` with one message set -/
  buildTx : Msg → Except String Tx
  /-- `json.Marshal` of an execution payload -/
  marshalPayload : ExecutableData → Except String Bytes
  /-- `json.Unmarshal` into an execution payload -/
  unmarshalPayload : Bytes → Except String ExecutableData
  /-- `json.Unmarshal` refuses the empty input -/
  unmarshalPayload_nil : ∃ e, unmarshalPayload [] = .error e
  /-- `Transaction.UnmarshalBinary` -/
  unmarshalBinary : Bytes → Except String EvmTx
  /-- `authtypes.NewModuleAddress` of the EVM module -/
  evmModuleAddress : Bytes
  /-- `AccAddress.String`, and `addressCodec.BytesToString` -/
  accAddressString : Bytes → String
  /-- `addressCodec.StringToBytes` -/
  stringToBytes : String → Except String Bytes

end NexusNode
