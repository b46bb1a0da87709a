import NexusNode.Evm.Types
import NexusNode.Program.WireSchema

/-!
# The messages of the EVM module on the wire

The messages as the generated code writes and reads them. A string is any sequence of bytes
here. The parameters have no fields, but are written with every message that has them.

## Main definitions

* `ConsensusRequests`, `MsgUpdateParams`, `MsgExecutionPayload`, `GenesisState`, and the messages
  in them, each with its `fields` and its `schema`
* `PayloadField`: what a record of a payload message may be

## Main results

* `messages_restored`: every message is read back as it was written
* `unmarshal_executionPayload_iff`: the payload messages that are accepted, and what is read
-/

namespace NexusNode.Proto

open Program

/-! ## The messages -/

structure WithdrawalRequest where
  sourceAddress : Bytes := []
  validatorPubkey : Bytes := []
  amount : UInt64 := 0

def WithdrawalRequest.fields (m : WithdrawalRequest) : Fields :=
  .optBytes 1 m.sourceAddress (.optBytes 2 m.validatorPubkey (.optVarint 3 m.amount .nil))

def WithdrawalRequest.schema : Schema WithdrawalRequest where
  name := "WithdrawalRequest"
  reader
    | 1 => some (.bytes "SourceAddress" fun b m => .ok { m with sourceAddress := b })
    | 2 => some (.bytes "ValidatorPubkey" fun b m => .ok { m with validatorPubkey := b })
    | 3 => some (.uint64 "Amount" fun v m => { m with amount := v })
    | _ => none

structure DepositRequest where
  pubkey : Bytes := []
  withdrawalCredentials : Bytes := []
  amount : UInt64 := 0
  signature : Bytes := []
  index : UInt64 := 0

def DepositRequest.fields (m : DepositRequest) : Fields :=
  .optBytes 1 m.pubkey (.optBytes 2 m.withdrawalCredentials (.optVarint 3 m.amount
    (.optBytes 4 m.signature (.optVarint 5 m.index .nil))))

def DepositRequest.schema : Schema DepositRequest where
  name := "DepositRequest"
  reader
    | 1 => some (.bytes "Pubkey" fun b m => .ok { m with pubkey := b })
    | 2 => some (.bytes "WithdrawalCredentials" fun b m =>
        .ok { m with withdrawalCredentials := b })
    | 3 => some (.uint64 "Amount" fun v m => { m with amount := v })
    | 4 => some (.bytes "Signature" fun b m => .ok { m with signature := b })
    | 5 => some (.uint64 "Index" fun v m => { m with index := v })
    | _ => none

structure ConsensusRequests where
  deposits : List DepositRequest := []
  withdrawals : List WithdrawalRequest := []

def ConsensusRequests.fields (m : ConsensusRequests) : Fields :=
  .repeated 1 (m.deposits.map DepositRequest.fields)
    (.repeated 2 (m.withdrawals.map WithdrawalRequest.fields) .nil)

def ConsensusRequests.schema : Schema ConsensusRequests where
  name := "ConsensusRequests"
  reader
    | 1 => some (.bytes "Deposits" fun b m => (DepositRequest.schema.unmarshal b {}).map
        fun d => { m with deposits := m.deposits ++ [d] })
    | 2 => some (.bytes "Withdrawals" fun b m => (WithdrawalRequest.schema.unmarshal b {}).map
        fun w => { m with withdrawals := m.withdrawals ++ [w] })
    | _ => none

def paramsFields (_ : Params) : Fields := .nil

def paramsSchema : Schema Params where
  name := "Params"
  reader _ := none

structure MsgUpdateParams where
  authority : Bytes := []
  params : Params := {}

def MsgUpdateParams.fields (m : MsgUpdateParams) : Fields :=
  .optBytes 1 m.authority (.message 2 (paramsFields m.params) .nil)

def MsgUpdateParams.schema : Schema MsgUpdateParams where
  name := "MsgUpdateParams"
  reader
    | 1 => some (.bytes "Authority" fun b m => .ok { m with authority := b })
    | 2 => some (.bytes "Params" fun b m => (paramsSchema.unmarshal b m.params).map
        fun p => { m with params := p })
    | _ => none

structure MsgExecutionPayload where
  authority : Bytes := []
  executionPayload : Bytes := []

def MsgExecutionPayload.fields (m : MsgExecutionPayload) : Fields :=
  .optBytes 1 m.authority (.optBytes 2 m.executionPayload .nil)

def MsgExecutionPayload.schema : Schema MsgExecutionPayload where
  name := "MsgExecutionPayload"
  reader
    | 1 => some (.bytes "Authority" fun b m => .ok { m with authority := b })
    | 2 => some (.bytes "ExecutionPayload" fun b m => .ok { m with executionPayload := b })
    | _ => none

structure GenesisState where
  params : Params := {}
  genesisExecutionBlockHash : Bytes := []
  currentBlockHash : Bytes := []
  currentBlockHeight : UInt64 := 0
  currentBlockTimestamp : UInt64 := 0

def GenesisState.fields (m : GenesisState) : Fields :=
  .message 1 (paramsFields m.params) (.optBytes 2 m.genesisExecutionBlockHash
    (.optBytes 3 m.currentBlockHash (.optVarint 4 m.currentBlockHeight
      (.optVarint 5 m.currentBlockTimestamp .nil))))

def GenesisState.schema : Schema GenesisState where
  name := "GenesisState"
  reader
    | 1 => some (.bytes "Params" fun b m => (paramsSchema.unmarshal b m.params).map
        fun p => { m with params := p })
    | 2 => some (.bytes "GenesisExecutionBlockHash" fun b m =>
        .ok { m with genesisExecutionBlockHash := b })
    | 3 => some (.bytes "CurrentBlockHash" fun b m => .ok { m with currentBlockHash := b })
    | 4 => some (.uint64 "CurrentBlockHeight" fun v m => { m with currentBlockHeight := v })
    | 5 => some (.uint64 "CurrentBlockTimestamp" fun v m =>
        { m with currentBlockTimestamp := v })
    | _ => none

/-! ## Reading what was written -/

theorem restores_withdrawalRequest (m : WithdrawalRequest) :
    WithdrawalRequest.schema.Restores m.fields {} m := by
  refine .optBytes (by decide) rfl rfl (fun h => by simp [h]) ?_
  refine .optBytes (by decide) rfl rfl (fun h => by simp [h]) ?_
  exact .optVarint (by decide) rfl (fun h => by simp [h]) .nil

theorem restores_depositRequest (m : DepositRequest) :
    DepositRequest.schema.Restores m.fields {} m := by
  refine .optBytes (by decide) rfl rfl (fun h => by simp [h]) ?_
  refine .optBytes (by decide) rfl rfl (fun h => by simp [h]) ?_
  refine .optVarint (by decide) rfl (fun h => by simp [h]) ?_
  refine .optBytes (by decide) rfl rfl (fun h => by simp [h]) ?_
  exact .optVarint (by decide) rfl (fun h => by simp [h]) .nil

/-- A nested message is read back in the place where it stands. -/
theorem unmarshal_encode {M : Type} {S : Schema M} {fs : Fields} {m m' : M}
    (h : S.Restores fs m m') (hlength : fs.encode.length < 2 ^ 63) :
    S.unmarshal fs.encode m = .ok m' :=
  (Schema.unmarshal_eq_ok_iff hlength).mpr (h hlength)

theorem foldl_deposits (ds : List DepositRequest) (m : ConsensusRequests) :
    ds.foldl (fun m d => { m with deposits := m.deposits ++ [d] }) m =
      { m with deposits := m.deposits ++ ds } := by
  induction ds generalizing m with
  | nil => simp
  | cons d ds ih => simp [ih]

theorem foldl_withdrawals (ws : List WithdrawalRequest) (m : ConsensusRequests) :
    ws.foldl (fun m w => { m with withdrawals := m.withdrawals ++ [w] }) m =
      { m with withdrawals := m.withdrawals ++ ws } := by
  induction ws generalizing m with
  | nil => simp
  | cons w ws ih => simp [ih]

theorem restores_consensusRequests (m : ConsensusRequests) :
    ConsensusRequests.schema.Restores m.fields {} m := by
  have hdeposit (d : DepositRequest) (hd : d.fields.encode.length < 2 ^ 63)
      (m : ConsensusRequests) : ((DepositRequest.schema.unmarshal d.fields.encode {}).map
        fun d => { m with deposits := m.deposits ++ [d] }) =
          .ok { m with deposits := m.deposits ++ [d] } := by
    rw [unmarshal_encode (restores_depositRequest d) hd]
    rfl
  have hwithdrawal (w : WithdrawalRequest) (hw : w.fields.encode.length < 2 ^ 63)
      (m : ConsensusRequests) : ((WithdrawalRequest.schema.unmarshal w.fields.encode {}).map
        fun w => { m with withdrawals := m.withdrawals ++ [w] }) =
          .ok { m with withdrawals := m.withdrawals ++ [w] } := by
    rw [unmarshal_encode (restores_withdrawalRequest w) hw]
    rfl
  refine .repeated (by decide) rfl (fun d _ => hdeposit d) ?_
  rw [foldl_deposits]
  refine .repeated (by decide) rfl (fun w _ => hwithdrawal w) ?_
  rw [foldl_withdrawals]
  exact .nil

theorem restores_params (p : Params) : paramsSchema.Restores (paramsFields p) {} p := .nil

theorem restores_msgUpdateParams (m : MsgUpdateParams) :
    MsgUpdateParams.schema.Restores m.fields {} m := by
  refine .optBytes (by decide) rfl rfl (fun h => by simp [h]) ?_
  refine .message (by decide) rfl (fun hp => ?_) .nil
  dsimp only
  rw [unmarshal_encode (restores_params m.params) hp]
  rfl

theorem restores_msgExecutionPayload (m : MsgExecutionPayload) :
    MsgExecutionPayload.schema.Restores m.fields {} m := by
  refine .optBytes (by decide) rfl rfl (fun h => by simp [h]) ?_
  exact .optBytes (by decide) rfl rfl (fun h => congrArg (MsgExecutionPayload.mk m.authority) h)
    .nil

theorem restores_genesisState (m : GenesisState) :
    GenesisState.schema.Restores m.fields {} m := by
  have hparams (hp : (paramsFields m.params).encode.length < 2 ^ 63) :
      ((paramsSchema.unmarshal (paramsFields m.params).encode {}).map
        fun p => ({ params := p } : GenesisState)) = .ok { params := m.params } := by
    rw [unmarshal_encode (restores_params m.params) hp]
    rfl
  refine .message (by decide) rfl hparams ?_
  refine .optBytes (by decide) rfl rfl (fun h => by simp [h]) ?_
  refine .optBytes (by decide) rfl rfl (fun h => by simp [h]) ?_
  refine .optVarint (by decide) rfl (fun h => by simp [h]) ?_
  exact .optVarint (by decide) rfl (fun h => by simp [h]) .nil

/-- A message is written without a stop into a buffer of its size, and read back from there. -/
def Survives {M : Type} (S : Schema M) (fields : M → Fields) (zero m : M) : Prop :=
  ∃ data, (fields m).marshal = some data ∧ data.length = (fields m).size ∧
    S.unmarshal data zero = .ok m

/-- **Every message survives the wire.** Each message of the module whose size an index can reach
is written exactly into a buffer of the size that was computed for it, and is read back from
there into an empty message as it was. -/
theorem messages_restored :
    (∀ m : WithdrawalRequest, m.fields.size < 2 ^ 63 →
      Survives WithdrawalRequest.schema WithdrawalRequest.fields {} m) ∧
    (∀ m : DepositRequest, m.fields.size < 2 ^ 63 →
      Survives DepositRequest.schema DepositRequest.fields {} m) ∧
    (∀ m : ConsensusRequests, m.fields.size < 2 ^ 63 →
      Survives ConsensusRequests.schema ConsensusRequests.fields {} m) ∧
    (∀ m : MsgUpdateParams, m.fields.size < 2 ^ 63 →
      Survives MsgUpdateParams.schema MsgUpdateParams.fields {} m) ∧
    (∀ m : MsgExecutionPayload, m.fields.size < 2 ^ 63 →
      Survives MsgExecutionPayload.schema MsgExecutionPayload.fields {} m) ∧
    ∀ m : GenesisState, m.fields.size < 2 ^ 63 →
      Survives GenesisState.schema GenesisState.fields {} m :=
  ⟨fun m => (restores_withdrawalRequest m).unmarshal_marshal,
    fun m => (restores_depositRequest m).unmarshal_marshal,
    fun m => (restores_consensusRequests m).unmarshal_marshal,
    fun m => (restores_msgUpdateParams m).unmarshal_marshal,
    fun m => (restores_msgExecutionPayload m).unmarshal_marshal,
    fun m => (restores_genesisState m).unmarshal_marshal⟩

/-- Two requests survive. -/
theorem messages_restored_sample :
    Survives ConsensusRequests.schema ConsensusRequests.fields {}
      ⟨[{ pubkey := [1, 2], index := 3 }], [{ amount := 5 }]⟩ :=
  messages_restored.2.2.1 _ (by
    simp [Fields.size_eq, ConsensusRequests.fields, DepositRequest.fields,
      WithdrawalRequest.fields, Fields.repeated, Fields.optBytes, Fields.optVarint, Fields.encode,
      lengthVarint, varint_of_lt])

/-! ## The payload messages that are accepted -/

/-- What a record of a payload message is to it. -/
inductive PayloadField where
  | authority (b : Bytes)
  | executionPayload (b : Bytes)
  | unknown

/-- How such a record may be written. Only 32 bits of the number of a field count, and of a record
that is not known only that it can be skipped. -/
inductive PayloadField.Written : PayloadField → Bytes → Prop
  | authority {t d b : Bytes} {n : ℕ} : IsVarint 10 t n → fieldNumber (.ofNat n) = 1 → n % 8 = 2 →
      Delimited b d → Written (.authority b) (t ++ d)
  | executionPayload {t d b : Bytes} {n : ℕ} : IsVarint 10 t n → fieldNumber (.ofNat n) = 2 →
      n % 8 = 2 → Delimited b d → Written (.executionPayload b) (t ++ d)
  | unknown {n : ℕ} {bs : Bytes} : Record n bs → 0 < fieldNumber (.ofNat n) →
      fieldNumber (.ofNat n) ≠ 1 → fieldNumber (.ofNat n) ≠ 2 → Written .unknown bs

def PayloadField.authority? : PayloadField → Option Bytes
  | .authority b => some b
  | _ => none

def PayloadField.executionPayload? : PayloadField → Option Bytes
  | .executionPayload b => some b
  | _ => none

/-- The message with the value of the field. -/
def PayloadField.set (m : MsgExecutionPayload) (f : PayloadField) : MsgExecutionPayload where
  authority := f.authority?.getD m.authority
  executionPayload := f.executionPayload?.getD m.executionPayload

theorem reads_executionPayload_iff {bs : Bytes} {m m' : MsgExecutionPayload} :
    MsgExecutionPayload.schema.Reads bs m m' ↔ ∃ f : PayloadField, f.Written bs ∧ m' = f.set m := by
  constructor
  · intro h
    cases h with
    | uint64 ht hpos hreader =>
      unfold MsgExecutionPayload.schema at hreader
      dsimp only at hreader
      split at hreader <;> cases hreader
    | bytes ht hpos hreader hn hd hset =>
      unfold MsgExecutionPayload.schema at hreader
      dsimp only at hreader
      split at hreader
      · next hone =>
        obtain ⟨-, rfl⟩ := Reader.bytes.inj (Option.some.inj hreader)
        exact ⟨.authority _, .authority ht hone hn hd, (Except.ok.inj hset).symm⟩
      · next htwo =>
        obtain ⟨-, rfl⟩ := Reader.bytes.inj (Option.some.inj hreader)
        exact ⟨.executionPayload _, .executionPayload ht htwo hn hd, (Except.ok.inj hset).symm⟩
      · cases hreader
    | unknown hrecord hpos hreader =>
      unfold MsgExecutionPayload.schema at hreader
      dsimp only at hreader
      split at hreader
      · cases hreader
      · cases hreader
      · next hone htwo => exact ⟨.unknown, .unknown hrecord hpos hone htwo, rfl⟩
  · rintro ⟨f, hf, rfl⟩
    cases hf with
    | authority ht hone hn hd =>
      exact .bytes ht (by rw [hone]; decide) (by rw [hone]; rfl) hn hd rfl
    | executionPayload ht htwo hn hd =>
      exact .bytes ht (by rw [htwo]; decide) (by rw [htwo]; rfl) hn hd rfl
    | unknown hrecord hpos hone htwo =>
      refine .unknown hrecord hpos ?_
      unfold MsgExecutionPayload.schema
      dsimp only
      split
      · exact absurd ‹_› hone
      · exact absurd ‹_› htwo
      · rfl

/-- The last value of a field, or what was there before. -/
def lastValue (value? : PayloadField → Option Bytes) (rs : List (PayloadField × Bytes))
    (before : Bytes) : Bytes :=
  (rs.filterMap fun r => value? r.1).getLast?.getD before

theorem lastValue_cons (value? : PayloadField → Option Bytes) (r : PayloadField × Bytes)
    (rs : List (PayloadField × Bytes)) (before : Bytes) :
    lastValue value? (r :: rs) before = lastValue value? rs ((value? r.1).getD before) := by
  unfold lastValue
  rw [List.filterMap_cons]
  cases value? r.1 with
  | none => rfl
  | some b =>
    rw [List.getLast?_cons]
    rfl

theorem readsAll_executionPayload_iff {data : Bytes} {m msg : MsgExecutionPayload} :
    MsgExecutionPayload.schema.ReadsAll data m msg ↔
      ∃ rs : List (PayloadField × Bytes), data = (rs.map Prod.snd).flatten ∧
        (∀ r ∈ rs, r.1.Written r.2) ∧
        msg.authority = lastValue PayloadField.authority? rs m.authority ∧
        msg.executionPayload = lastValue PayloadField.executionPayload? rs m.executionPayload := by
  constructor
  · intro h
    induction h with
    | nil => exact ⟨[], rfl, by simp, rfl, rfl⟩
    | @cons bs cs m m₁ msg hreads _ ih =>
      obtain ⟨f, hf, rfl⟩ := reads_executionPayload_iff.mp hreads
      obtain ⟨rs, rfl, hrs, hauthority, hpayload⟩ := ih
      refine ⟨(f, bs) :: rs, rfl, List.forall_mem_cons.mpr ⟨hf, hrs⟩, ?_, ?_⟩
      · rw [lastValue_cons, hauthority]
        rfl
      · rw [lastValue_cons, hpayload]
        rfl
  · rintro ⟨rs, rfl, hrs, hauthority, hpayload⟩
    induction rs generalizing m with
    | nil =>
      obtain ⟨authority, payload⟩ := msg
      obtain rfl : authority = m.authority := hauthority
      obtain rfl : payload = m.executionPayload := hpayload
      exact .nil
    | cons r rs ih =>
      obtain ⟨hr, hrs⟩ := List.forall_mem_cons.mp hrs
      rw [lastValue_cons] at hauthority hpayload
      rw [List.map_cons, List.flatten_cons]
      exact .cons (reads_executionPayload_iff.mpr ⟨r.1, hr, rfl⟩) (ih hrs hauthority hpayload)

/-- **The payload messages that are accepted.** Bytes are accepted as a payload message exactly
when they are records one after the other, each of them an authority, a payload or a record with
another number. The last of each field counts, and a field that is missing is empty. -/
theorem unmarshal_executionPayload_iff {data : Bytes} (hdata : data.length < 2 ^ 63)
    (msg : MsgExecutionPayload) :
    MsgExecutionPayload.schema.unmarshal data {} = .ok msg ↔
      ∃ rs : List (PayloadField × Bytes), data = (rs.map Prod.snd).flatten ∧
        (∀ r ∈ rs, r.1.Written r.2) ∧
        msg.authority = lastValue PayloadField.authority? rs [] ∧
        msg.executionPayload = lastValue PayloadField.executionPayload? rs [] :=
  (Schema.unmarshal_eq_ok_iff hdata).trans readsAll_executionPayload_iff

/-- Of two authorities the second is read. -/
theorem unmarshal_executionPayload_two :
    MsgExecutionPayload.schema.unmarshal [0x0a, 1, 7, 0x0a, 1, 8] {} = .ok ⟨[8], []⟩ := by
  refine (unmarshal_executionPayload_iff (by decide) _).mpr
    ⟨[(.authority [7], [0x0a, 1, 7]), (.authority [8], [0x0a, 1, 8])], rfl, ?_, rfl, rfl⟩
  have hone (b : UInt8) : PayloadField.Written (.authority [b]) [0x0a, 1, b] :=
    .authority (t := [0x0a]) (.last (by decide)) (by decide) (by decide)
      (.mk (l := [1]) (.last (by decide)) rfl)
  simp [hone]

end NexusNode.Proto
