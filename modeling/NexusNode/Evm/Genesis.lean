import NexusNode.Evm.Keeper

/-!
# Genesis records, and the round trip of an export

A chain is exported as a genesis record in which the head of the execution chain stands twice, as
hexadecimal text: as the current block and as the block that the next chain starts from. On import
the current block wins, unless its text is empty. The text of a hash never is, also that of the
zero hash, and it reads back as the hash it was written from. So an import rebuilds the exported
store.

## Main definitions

* `GenesisState.validate`: the checks of a record
* `normalizeGenesisState`: the defaults for records of older releases

## Main results

* `hexToHash_hex`: the text of a hash reads back as the hash
* `equalFold_hexToHash`: a hexadecimal text is the text of the hash it is read as
* `initGenesis_stores_head`: what is stored for a record that passes the checks
* `GenesisState.validate_exported`: the text of a hash passes the checks
* `exportGenesis_import`: the round trip
-/

namespace NexusNode

open Program Proc

/-! ## Hexadecimal text -/

theorem goBytes_ofList (cs : List Char) :
    goBytes (String.ofList cs) = cs.flatMap String.utf8EncodeChar := by
  unfold goBytes
  simp [List.utf8Encode]

/-- The byte of a hexadecimal digit. -/
def hexByte (n : UInt8) : UInt8 := if n < 10 then 48 + n else 87 + n

/-- What holds of the sixteen digits holds of every byte below sixteen. -/
theorem forall_digit {P : UInt8 → Prop} (h : ∀ m < 16, P (UInt8.ofNat m)) {n : UInt8}
    (hn : n < 16) : P n := by
  have := h n.toNat (UInt8.lt_iff_toNat_lt.mp hn)
  rwa [UInt8.ofNat_toNat] at this

theorem utf8EncodeChar_hexDigit {n : UInt8} (h : n < 16) :
    String.utf8EncodeChar (hexDigit n) = [hexByte n] :=
  forall_digit (P := fun n => String.utf8EncodeChar (hexDigit n) = [hexByte n]) (by decide) h

theorem fromHexChar_hexByte {n : UInt8} (h : n < 16) : fromHexChar (hexByte n) = some n :=
  forall_digit (P := fun n => fromHexChar (hexByte n) = some n) (by decide) h

/-- The two digits of a byte. -/
def hexPair (b : UInt8) : Bytes := [hexByte (b / 16), hexByte (b % 16)]

theorem div_lt_sixteen (b : UInt8) : b / 16 < 16 := by
  have := b.toNat_lt
  rw [UInt8.lt_iff_toNat_lt, UInt8.toNat_div, show (16 : UInt8).toNat = 16 from rfl]
  omega

theorem mod_lt_sixteen (b : UInt8) : b % 16 < 16 := by
  rw [UInt8.lt_iff_toNat_lt, UInt8.toNat_mod, show (16 : UInt8).toNat = 16 from rfl]
  omega

/-- A byte is put together from its digits. -/
theorem digits_eq (b : UInt8) : b / 16 * 16 + b % 16 = b := by
  have := b.toNat_lt
  apply UInt8.toNat.inj
  rw [UInt8.toNat_add, UInt8.toNat_mul, UInt8.toNat_div, UInt8.toNat_mod,
    show (16 : UInt8).toNat = 16 from rfl]
  omega

/-- **The text of a hash**, in bytes: the prefix and two digits for each byte. -/
theorem goBytes_hex {n : ℕ} (h : FixedBytes n) :
    goBytes h.hex = 48 :: 120 :: h.bytes.flatMap hexPair := by
  have hdigits : ∀ bs : Bytes,
      (bs.flatMap fun b => [hexDigit (b / 16), hexDigit (b % 16)]).flatMap
        String.utf8EncodeChar = bs.flatMap hexPair := by
    intro bs
    induction bs with
    | nil => rfl
    | cons b bs ih =>
      simp only [List.flatMap_cons, List.flatMap_append, List.flatMap_nil, List.append_nil, ih,
        utf8EncodeChar_hexDigit (div_lt_sixteen b), utf8EncodeChar_hexDigit (mod_lt_sixteen b),
        hexPair, List.singleton_append]
  have hprefix : String.utf8EncodeChar '0' ++ String.utf8EncodeChar 'x' = [48, 120] := by decide
  unfold FixedBytes.hex
  rw [goBytes_ofList, List.flatMap_cons, List.flatMap_cons, ← List.append_assoc, hprefix,
    hdigits]
  rfl

theorem length_flatMap_hexPair (bs : Bytes) : (bs.flatMap hexPair).length = 2 * bs.length := by
  induction bs with
  | nil => rfl
  | cons b bs ih =>
    simp only [List.flatMap_cons, List.length_append, ih, hexPair, List.length_cons,
      List.length_nil]
    omega

theorem hex2Bytes_flatMap_hexPair (bs : Bytes) : hex2Bytes (bs.flatMap hexPair) = bs := by
  induction bs with
  | nil => rfl
  | cons b bs ih =>
    have hfirst := fromHexChar_hexByte (div_lt_sixteen b)
    have hsecond := fromHexChar_hexByte (mod_lt_sixteen b)
    simp only [List.flatMap_cons, hexPair, List.cons_append, List.nil_append, hex2Bytes, hfirst,
      hsecond, ih, digits_eq]

/-- Reading the text of a byte array gives its bytes. -/
theorem fromHex_hex {n : ℕ} (h : FixedBytes n) : fromHex (goBytes h.hex) = h.bytes := by
  have heven : (h.bytes.flatMap hexPair).length % 2 ≠ 1 := by
    rw [length_flatMap_hexPair]
    omega
  rw [goBytes_hex]
  simp only [fromHex, has0xPrefix, BEq.rfl, Bool.true_or, Bool.and_self, if_true,
    List.drop_succ_cons, List.drop_zero, if_neg heven]
  exact hex2Bytes_flatMap_hexPair h.bytes

theorem FixedBytes.ofBytes_bytes {n : ℕ} (h : FixedBytes n) : FixedBytes.ofBytes n h.bytes = h := by
  obtain ⟨bytes, rfl⟩ := h
  simp [FixedBytes.ofBytes]

/-- **The text of a hash reads back as the hash.** -/
theorem hexToHash_hex (h : Hash) : hexToHash h.hex = h := by
  unfold hexToHash bytesToHash
  rw [fromHex_hex, FixedBytes.ofBytes_bytes]

theorem hex_ne_empty {n : ℕ} (h : FixedBytes n) : h.hex ≠ "" := by
  intro hempty
  have hbytes := goBytes_hex h
  rw [hempty, ← String.ofList_nil, goBytes_ofList] at hbytes
  cases hbytes

/-! ## The checks of a record -/

inductive GenesisError where
  | params (e : EvmError)
  | hashRequired
  | hashFormat (hash : String)
  | currentHashFormat (hash : String)
  deriving DecidableEq

def GenesisError.text : GenesisError → String
  | .params e => e.text
  | .hashRequired => "genesis execution block hash is required"
  | .hashFormat hash =>
    "genesis execution block hash must be 66 characters long hex string with 0x prefix: " ++ hash
  | .currentHashFormat hash =>
    "current block hash must be 66 characters long hex string with 0x prefix: " ++ hash

/-- The length and the prefix of a hash in a record. That its digits are hexadecimal is not
looked at. -/
def hasHashFormat (s : String) : Bool :=
  (goBytes s).length == 66 && (goBytes s).take 2 == [48, 120]

/-- `GenesisState.Validate` -/
def GenesisState.validate (gs : GenesisState) : Except GenesisError Unit :=
  match gs.params.validate with
  | .error e => .error (.params e)
  | .ok () =>
    if gs.genesisExecutionBlockHash = "" then .error .hashRequired
    else if ¬ hasHashFormat gs.genesisExecutionBlockHash then
      .error (.hashFormat gs.genesisExecutionBlockHash)
    -- the current block is optional
    else if gs.currentBlockHash ≠ "" ∧ ¬ hasHashFormat gs.currentBlockHash then
      .error (.currentHashFormat gs.currentBlockHash)
    else .ok ()

/-- `NormalizeGenesisState` -/
def normalizeGenesisState (gs : GenesisState) : GenesisState :=
  if gs.genesisExecutionBlockHash = "" then
    { gs with genesisExecutionBlockHash := defaultGenesis.genesisExecutionBlockHash }
  else gs

theorem hasHashFormat_hex (h : Hash) : hasHashFormat h.hex = true := by
  have hlen : (h.bytes.flatMap hexPair).length = 64 := by
    rw [length_flatMap_hexPair, h.length_eq]
  unfold hasHashFormat
  rw [goBytes_hex]
  simp [hlen]

/-! ## The head that a record names -/

/-- The lower case of an ASCII letter. -/
def lowerByte (c : UInt8) : UInt8 := if 65 ≤ c ∧ c ≤ 90 then c + 32 else c

/-- The same text up to the case of its letters. -/
def EqualFold (s t : String) : Prop := (goBytes s).map lowerByte = (goBytes t).map lowerByte

instance (s t : String) : Decidable (EqualFold s t) := inferInstanceAs (Decidable (_ = _))

/-- The text behind the prefix has only hexadecimal digits. -/
def isHexHash (s : String) : Bool := ((goBytes s).drop 2).all fun c => (fromHexChar c).isSome

/-- The hash that a record is imported from: of the current block if there is one. -/
def GenesisState.headHash (gs : GenesisState) : String :=
  if gs.currentBlockHash ≠ "" then gs.currentBlockHash else gs.genesisExecutionBlockHash

/-- A digit is written as it was read, in lower case. -/
theorem hexByte_of_fromHexChar {c x : UInt8} (h : fromHexChar c = some x) :
    x < 16 ∧ hexByte x = lowerByte c := by
  unfold fromHexChar at h
  unfold hexByte lowerByte
  split_ifs at h <;> obtain rfl := Option.some.inj h
  · grind
  · grind
  · grind

/-- The digits of a byte are those it was put together from. -/
theorem hexPair_digits {x y : UInt8} (hx : x < 16) (hy : y < 16) :
    hexPair (x * 16 + y) = [hexByte x, hexByte y] := by
  rw [UInt8.lt_iff_toNat_lt, show (16 : UInt8).toNat = 16 from rfl] at hx hy
  have hhigh : (x * 16 + y) / 16 = x := by
    apply UInt8.toNat.inj
    rw [UInt8.toNat_div, UInt8.toNat_add, UInt8.toNat_mul, show (16 : UInt8).toNat = 16 from rfl]
    omega
  have hlow : (x * 16 + y) % 16 = y := by
    apply UInt8.toNat.inj
    rw [UInt8.toNat_mod, UInt8.toNat_add, UInt8.toNat_mul, show (16 : UInt8).toNat = 16 from rfl]
    omega
  unfold hexPair
  rw [hhigh, hlow]

/-- Bytes read from hexadecimal digits are written as these digits, in lower case. -/
theorem flatMap_hexPair_hex2Bytes : ∀ {ds : Bytes}, ds.length % 2 = 0 →
    (∀ c ∈ ds, (fromHexChar c).isSome) → (hex2Bytes ds).flatMap hexPair = ds.map lowerByte
  | [], _, _ => rfl
  | [c], hlen, _ => by simp at hlen
  | a :: b :: rest, hlen, hhex => by
    obtain ⟨x, hx⟩ := Option.isSome_iff_exists.mp (hhex a (by simp))
    obtain ⟨y, hy⟩ := Option.isSome_iff_exists.mp (hhex b (by simp))
    obtain ⟨hx16, hxa⟩ := hexByte_of_fromHexChar hx
    obtain ⟨hy16, hyb⟩ := hexByte_of_fromHexChar hy
    have hrest : rest.length % 2 = 0 := by
      simp only [List.length_cons] at hlen
      omega
    have ih := flatMap_hexPair_hex2Bytes hrest fun c hc => hhex c (by simp [hc])
    simp only [hex2Bytes, hx, hy, List.flatMap_cons, hexPair_digits hx16 hy16, ih, hxa, hyb,
      List.map_cons, List.cons_append, List.nil_append]

/-- The text of a hash that was read from hexadecimal digits is the text it was read from, up to
the case of its letters. -/
theorem equalFold_hexToHash {s : String} (hformat : hasHashFormat s = true)
    (hhex : isHexHash s = true) : EqualFold (hexToHash s).hex s := by
  obtain ⟨hlen, htake⟩ : (goBytes s).length = 66 ∧ (goBytes s).take 2 = [48, 120] := by
    simpa [hasHashFormat] using hformat
  have hsplit : goBytes s = 48 :: 120 :: (goBytes s).drop 2 := by
    conv_lhs => rw [← List.take_append_drop 2 (goBytes s), htake]
    rfl
  have hdigits : ∀ c ∈ (goBytes s).drop 2, (fromHexChar c).isSome := List.all_eq_true.mp hhex
  have hlen64 : ((goBytes s).drop 2).length = 64 := by rw [List.length_drop, hlen]
  generalize (goBytes s).drop 2 = ds at hsplit hdigits hlen64
  have hpairs := flatMap_hexPair_hex2Bytes (by rw [hlen64]) hdigits
  have hread : fromHex (goBytes s) = hex2Bytes ds := by
    rw [hsplit]
    simp [fromHex, has0xPrefix, hlen64]
  have hbytes : (hexToHash s).bytes = hex2Bytes ds := by
    have hcount := congrArg List.length hpairs
    rw [length_flatMap_hexPair, List.length_map, hlen64] at hcount
    have h32 : (hex2Bytes ds).length = 32 := by omega
    simp [hexToHash, bytesToHash, FixedBytes.ofBytes, hread, h32]
  unfold EqualFold
  rw [goBytes_hex, hbytes, hpairs, hsplit]
  simp only [List.map_cons, List.map_map]
  congr 2
  apply List.map_congr_left
  intro c _
  show lowerByte (lowerByte c) = lowerByte c
  unfold lowerByte
  grind

/-- A record that passes the checks names a head in the right format. -/
theorem GenesisState.hasHashFormat_headHash {gs : GenesisState} (h : gs.validate = .ok ()) :
    gs.genesisExecutionBlockHash ≠ "" ∧ hasHashFormat gs.headHash = true := by
  unfold GenesisState.validate at h
  unfold GenesisState.headHash
  split at h
  · simp at h
  · split_ifs at h with hempty hformat hcurrent
    refine ⟨hempty, ?_⟩
    split_ifs with hne
    · by_contra hbad
      exact hcurrent ⟨hne, hbad⟩
    · exact hformat

/-- **The head of a valid record.** A record that passes the checks is imported. The stored hash
is the one that the record names, if that is hexadecimal. The stored height and timestamp are the
current ones if the record has a current block, and zero otherwise. -/
theorem initGenesis_stores_head {gs : GenesisState} (hvalid : gs.validate = .ok ()) (w : World) :
    ∃ b w', initGenesis gs w = (.ok (), w') ∧ w'.store.blockState = some b ∧
      (isHexHash gs.headHash = true → EqualFold b.hash.hex gs.headHash) ∧
      (gs.currentBlockHash ≠ "" →
        b.height = gs.currentBlockHeight ∧ b.timestamp = gs.currentBlockTimestamp) ∧
      (gs.currentBlockHash = "" → b.height = 0 ∧ b.timestamp = 0) := by
  obtain ⟨hrequired, hformat⟩ := GenesisState.hasHashFormat_headHash hvalid
  unfold initGenesis
  rw [if_neg hrequired]
  by_cases hcurrent : gs.currentBlockHash = ""
  · rw [if_neg (not_not.mpr hcurrent)]
    refine ⟨_, _, rfl, rfl, fun hhex => ?_, fun hne => absurd hcurrent hne, fun _ => ⟨rfl, rfl⟩⟩
    have hhead : gs.headHash = gs.genesisExecutionBlockHash := if_neg (not_not.mpr hcurrent)
    rw [hhead] at hformat hhex ⊢
    exact equalFold_hexToHash hformat hhex
  · rw [if_pos hcurrent]
    refine ⟨_, _, rfl, rfl, fun hhex => ?_, fun _ => ⟨rfl, rfl⟩, fun h => absurd h hcurrent⟩
    have hhead : gs.headHash = gs.currentBlockHash := if_pos hcurrent
    rw [hhead] at hformat hhex ⊢
    exact equalFold_hexToHash hformat hhex

/-- A record of a chain at height 123, whose current hash is written with capitals. -/
def capitalGenesis : GenesisState where
  params := {}
  genesisExecutionBlockHash := "0x1234567890abcdef1234567890abcdef1234567890abcdef1234567890abcdef"
  currentBlockHash := "0xABCDEF1234567890ABCDEF1234567890ABCDEF1234567890ABCDEF1234567890"
  currentBlockHeight := 123
  currentBlockTimestamp := 1234567890

/-- The capitals are the only difference between the record and what is stored. -/
theorem initGenesis_stores_head_capitals :
    capitalGenesis.validate = .ok () ∧
      ∃ b w', initGenesis capitalGenesis ⟨⟨none, none⟩, [], 0⟩ = (.ok (), w') ∧
        w'.store.blockState = some b ∧ EqualFold b.hash.hex capitalGenesis.currentBlockHash ∧
        b.height = 123 ∧ b.timestamp = 1234567890 := by
  have hvalid : capitalGenesis.validate = .ok () := by decide +kernel
  obtain ⟨b, w', hinit, hb, hhash, hcurrent, -⟩ :=
    initGenesis_stores_head hvalid ⟨⟨none, none⟩, [], 0⟩
  obtain ⟨hheight, htime⟩ := hcurrent (by decide)
  exact ⟨hvalid, b, w', hinit, hb, hhash (by decide +kernel), hheight, htime⟩

/-- A record with a height and a timestamp but no current hash. -/
def halfFilledGenesis : GenesisState :=
  { capitalGenesis with currentBlockHash := "" }

/-- A record whose hash has the right length and prefix, and no hexadecimal digit. -/
def nonHexGenesis : GenesisState where
  params := {}
  genesisExecutionBlockHash := "0xzzzzzzzzzzzzzzzzzzzzzzzzzzzzzzzzzzzzzzzzzzzzzzzzzzzzzzzzzzzzzzzz"
  currentBlockHash := ""
  currentBlockHeight := 0
  currentBlockTimestamp := 0

/-- Two records that pass the checks and are not stored as written: the height and the timestamp
of a record without a current hash are dropped, and a hash that is not hexadecimal is stored as
the zero hash. -/
theorem initGenesis_not_as_written :
    (halfFilledGenesis.validate = .ok () ∧
      ∃ b w', initGenesis halfFilledGenesis ⟨⟨none, none⟩, [], 0⟩ = (.ok (), w') ∧
        w'.store.blockState = some b ∧ b.height ≠ halfFilledGenesis.currentBlockHeight ∧
        b.timestamp ≠ halfFilledGenesis.currentBlockTimestamp) ∧
    (nonHexGenesis.validate = .ok () ∧
      ∃ b w', initGenesis nonHexGenesis ⟨⟨none, none⟩, [], 0⟩ = (.ok (), w') ∧
        w'.store.blockState = some b ∧ b.hash = zeroHash ∧
        ¬ EqualFold b.hash.hex nonHexGenesis.headHash) :=
  ⟨⟨by decide +kernel, _, _, rfl, rfl, by decide, by decide⟩,
    by decide +kernel, _, _, rfl, rfl, by decide +kernel, by decide +kernel⟩

/-! ## The round trip -/

/-- The record that a store with this head is exported as. -/
def exportedGenesis (params : Params) (b : BlockState) : GenesisState :=
  ⟨params, b.hash.hex, b.hash.hex, b.height, b.timestamp⟩

theorem exportGenesis_apply {w : World} {params : Params} {b : BlockState}
    (h : w.store = ⟨some params, some b⟩) :
    exportGenesis w = (.ok (exportedGenesis params b), w) := by
  obtain ⟨store, log, clock⟩ := w
  obtain rfl : store = ⟨some params, some b⟩ := h
  rfl

theorem GenesisState.validate_exported (params : Params) (b : BlockState) :
    (exportedGenesis params b).validate = .ok () := by
  simp [GenesisState.validate, exportedGenesis, Params.validate, hex_ne_empty,
    hasHashFormat_hex]

theorem normalizeGenesisState_exported (params : Params) (b : BlockState) :
    normalizeGenesisState (exportedGenesis params b) = exportedGenesis params b :=
  if_neg (hex_ne_empty b.hash)

/-- An exported record is imported as the head that it was written from. -/
theorem initGenesis_exported (params : Params) (b : BlockState) (w : World) :
    initGenesis (exportedGenesis params b) w =
      (.ok (), { w with store := ⟨some params, some b⟩ }) := by
  have hgenesis : (exportedGenesis params b).genesisExecutionBlockHash ≠ "" := hex_ne_empty b.hash
  have hcurrent : (exportedGenesis params b).currentBlockHash ≠ "" := hex_ne_empty b.hash
  have hhash : hexToHash (exportedGenesis params b).currentBlockHash = b.hash :=
    hexToHash_hex b.hash
  unfold initGenesis
  rw [if_neg hgenesis, if_pos hcurrent, hhash]
  rfl

/-- **Export and import.** A store with any parameters and any head is exported as a record that
passes the checks and needs no defaults. Imported into an empty store, the record rebuilds the
store, and exporting that gives the same record. -/
theorem exportGenesis_import (params : Params) (b : BlockState) (log log₀ : List EngineEvent)
    (clock clock₀ : ℕ) :
    ∃ gs w, exportGenesis ⟨⟨some params, some b⟩, log, clock⟩ =
        (.ok gs, ⟨⟨some params, some b⟩, log, clock⟩) ∧
      gs.validate = .ok () ∧ normalizeGenesisState gs = gs ∧
      initGenesis gs ⟨⟨none, none⟩, log₀, clock₀⟩ = (.ok (), w) ∧
      w.store = ⟨some params, some b⟩ ∧ exportGenesis w = (.ok gs, w) := by
  refine ⟨exportedGenesis params b, ⟨⟨some params, some b⟩, log₀, clock₀⟩,
    exportGenesis_apply rfl, ?_, ?_, ?_, rfl, exportGenesis_apply rfl⟩
  · exact GenesisState.validate_exported params b
  · exact normalizeGenesisState_exported params b
  · exact initGenesis_exported params b _

/-- The zero hash is written out and is not taken for a missing one. -/
example : zeroHash.hex = defaultGenesis.genesisExecutionBlockHash := by decide +kernel

end NexusNode
