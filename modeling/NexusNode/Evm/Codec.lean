import NexusNode.Evm.Genesis
import NexusNode.Program.JsonText

/-!
# The codec of the block state

The store holds the block state as a JSON text: an object with the hash in hexadecimal and the
height and the timestamp as decimals. The type writes and reads itself, through a record with the
hash as a string, and the two pairs of functions of the codec are the same.

## Main definitions

* `goRunes`: the characters of bytes
* `BlockState.marshal`, `BlockState.unmarshal`: the text of a block state
* `BlockStateValue.encode`, `BlockStateValue.decode` and their like for JSON: the codec

## Main results

* `goRunes_goBytes`: the bytes of a string have its characters
* `parseUint_toString`: decimals below `2 ^ 64` are read back
* `blockStateValue_lossless`: both pairs of functions lose nothing
-/

namespace NexusNode

open Program

/-! ## Bytes and characters -/

/-- At most `n` characters of bytes; a byte that begins no character is replaced. -/
def runes : ℕ → Bytes → List Char
  | 0, _ => []
  | _, [] => []
  | n + 1, b :: bs =>
    match (b :: bs).toByteArray.utf8DecodeChar? 0 with
    | some c => c :: runes n ((b :: bs).drop c.utf8Size)
    | none => Char.ofNat 0xFFFD :: runes n bs

/-- The characters of bytes. -/
def goRunes (b : Bytes) : List Char := runes b.length b

theorem runes_utf8EncodeChar (c : Char) (rest : Bytes) (n : ℕ) :
    runes (n + 1) (String.utf8EncodeChar c ++ rest) = c :: runes n rest := by
  obtain ⟨b, bs, hbs⟩ := List.exists_cons_of_ne_nil (String.utf8EncodeChar_ne_nil (c := c))
  have hdecode : (String.utf8EncodeChar c ++ rest).toByteArray.utf8DecodeChar? 0 = some c := by
    rw [List.toByteArray_append]
    exact ByteArray.utf8DecodeChar?_utf8EncodeChar_append
  have hdrop : (String.utf8EncodeChar c ++ rest).drop c.utf8Size = rest := by
    rw [← String.length_utf8EncodeChar, List.drop_left]
  rw [hbs, List.cons_append] at hdecode hdrop ⊢
  simp only [runes, hdecode, hdrop]

/-- **The bytes of a string have its characters.** -/
theorem goRunes_goBytes (s : String) : goRunes (goBytes s) = s.toList := by
  have hruns : ∀ (cs : List Char) (n : ℕ), cs.length ≤ n →
      runes n (cs.flatMap String.utf8EncodeChar) = cs := by
    intro cs
    induction cs with
    | nil => intro n _; cases n <;> rfl
    | cons c cs ih =>
      intro n hn
      obtain ⟨n, rfl⟩ : ∃ m, n = m + 1 := ⟨n - 1, by simp only [List.length_cons] at hn; omega⟩
      rw [List.flatMap_cons, runes_utf8EncodeChar, ih n (by simpa using hn)]
  have hlen : ∀ cs : List Char, cs.length ≤ (cs.flatMap String.utf8EncodeChar).length := by
    intro cs
    induction cs with
    | nil => simp
    | cons c cs ih =>
      have hpos := List.length_pos_of_ne_nil (String.utf8EncodeChar_ne_nil (c := c))
      simp only [List.flatMap_cons, List.length_append, List.length_cons]
      omega
  have hs : s = String.ofList s.toList := (String.ofList_toList (s := s)).symm
  unfold goRunes
  rw [hs, goBytes_ofList]
  simpa using hruns s.toList _ (hlen s.toList)

/-! ## Decimals -/

/-- A digit is one byte. -/
theorem utf8EncodeChar_of_isDigit {c : Char} (h : c.isDigit = true) :
    String.utf8EncodeChar c = [UInt8.ofNat c.toNat] ∧ 48 ≤ c.toNat ∧ c.toNat ≤ 57 := by
  have hrange : 48 ≤ c.toNat ∧ c.toNat ≤ 57 := Char.isDigit_iff_toNat.mp h
  have hsize : c.utf8Size = 1 := by
    rw [Char.utf8Size_eq_one_iff, UInt32.le_iff_toNat_le]
    show c.toNat ≤ 127
    omega
  exact ⟨String.utf8EncodeChar_eq_singleton hsize, hrange⟩

/-- The bytes of digits write the number of the digits. -/
theorem decimalValue_digits {ds : List Char} (hds : ∀ c ∈ ds, c.isDigit = true) (n : ℕ) :
    (∀ b ∈ ds.flatMap String.utf8EncodeChar, 48 ≤ b ∧ b ≤ 57) ∧
      decimalValue n (ds.flatMap String.utf8EncodeChar) = Nat.ofDigitChars 10 ds n := by
  induction ds generalizing n with
  | nil => simp [decimalValue]
  | cons c ds ih =>
    obtain ⟨hc, hlow, hhigh⟩ := utf8EncodeChar_of_isDigit (hds c (by simp))
    have hnat : (UInt8.ofNat c.toNat).toNat = c.toNat := by
      rw [UInt8.toNat_ofNat']
      omega
    obtain ⟨hrange, hvalue⟩ := ih (fun c' hc' => hds c' (by simp [hc'])) (n * 10 + (c.toNat - 48))
    rw [List.flatMap_cons, hc, List.singleton_append, List.forall_mem_cons]
    refine ⟨⟨?_, hrange⟩, ?_⟩
    · rw [UInt8.le_iff_toNat_le, UInt8.le_iff_toNat_le, hnat]
      exact ⟨hlow, hhigh⟩
    · rw [Nat.ofDigitChars_cons, Nat.mul_comm 10 n]
      unfold decimalValue at hvalue ⊢
      rw [List.foldl_cons, hnat]
      exact hvalue

/-- **Decimals below `2 ^ 64` are read back.** -/
theorem parseUint_toString (n : UInt64) : parseUint (toString n.toNat) = .ok n := by
  have hdigit : ∀ c ∈ Nat.toDigits 10 n.toNat, c.isDigit = true := fun c hc =>
    Nat.isDigit_of_mem_toDigits (by omega) (by omega) hc
  have hvalue : Nat.ofDigitChars 10 (Nat.toDigits 10 n.toNat) 0 = n.toNat :=
    Nat.ofDigitChars_ten_toDigits
  have hbytes : goBytes (toString n.toNat) =
      (Nat.toDigits 10 n.toNat).flatMap String.utf8EncodeChar := by
    rw [Nat.toString_eq_ofList_toDigits, goBytes_ofList]
  obtain ⟨hrange, hdecimal⟩ := decimalValue_digits hdigit 0
  rw [← hbytes] at hrange hdecimal
  have hloop : parseUintLoop 0 (goBytes (toString n.toNat)) = .ok n.toNat :=
    (parseUintLoop_eq_ok_iff (by omega)).mpr
      ⟨hrange, by rw [hdecimal, hvalue]; exact n.toNat_lt, by rw [hdecimal, hvalue]⟩
  have hne : goBytes (toString n.toNat) ≠ [] := by
    intro hnil
    have hchars := goRunes_goBytes (toString n.toNat)
    rw [hnil, Nat.toString_eq_ofList_toDigits, String.toList_ofList] at hchars
    exact Nat.toDigits_ne_nil hchars.symm
  unfold parseUint
  rw [if_neg hne, hloop]
  simp [Except.map]

/-! ## The codec -/

/-- The deepest nesting that is read. -/
def maxNestingDepth : ℕ := 10000

/-- The value of a JSON text in bytes. -/
def jsonText (data : Bytes) : Except String Json :=
  match parseText maxNestingDepth (goRunes data) with
  | none => .error "invalid JSON"
  | some j => .ok j

/-- The text of a readable value has that value. -/
theorem jsonText_render {j : Json} (h : j.Readable maxNestingDepth) :
    jsonText (goBytes (.ofList j.render)) = .ok j := by
  unfold jsonText
  rw [goRunes_goBytes, String.toList_ofList, parseText_render h]

/-- An unsigned 64-bit integer of JSON: a literal of digits only, in range. -/
def uint64Decoder : Decoder UInt64
  | .null, n => .ok ⟨n, none⟩
  | .num literal, n =>
    match parseUint literal with
    | .error _ => .ok ⟨n, some (.mismatch ("number " ++ literal) "uint64")⟩
    | .ok v => .ok ⟨v, none⟩
  | j, n => Decoder.skip "uint64" j n

/-- The record that a block state is written and read through. -/
structure BlockStateFields where
  hash : String
  height : UInt64
  timestamp : UInt64

def blockStateFieldsDecoder : Decoder BlockStateFields :=
  .struct "struct"
    [("hash", .field BlockStateFields.hash (fun h s => { s with hash := h }) .string),
      ("height", .field BlockStateFields.height (fun h s => { s with height := h }) uint64Decoder),
      ("timestamp", .field BlockStateFields.timestamp (fun t s => { s with timestamp := t })
        uint64Decoder)]

namespace BlockState

/-- The value that a block state is written as. -/
def value (bs : BlockState) : Json :=
  .obj [("hash", .str bs.hash.hex), ("height", .num (toString bs.height.toNat)),
    ("timestamp", .num (toString bs.timestamp.toNat))]

/-- `BlockState.MarshalJSON` -/
def marshalJSON (bs : BlockState) : List Char := bs.value.render

/-- `BlockState.UnmarshalJSON`, of a text with the value `j`. -/
def unmarshalJSON (j : Json) : Except JsonError BlockState :=
  match Program.unmarshal blockStateFieldsDecoder (.ok j) ⟨"", 0, 0⟩ with
  | .error e => .error e
  | .ok temp => .ok ⟨hexToHash temp.hash, temp.height, temp.timestamp⟩

/-- `json.Marshal` of a block state: the text that the type writes is checked and compacted. -/
def toJSON (bs : BlockState) : Except JsonError Bytes :=
  match parseText maxNestingDepth bs.marshalJSON with
  | none => .error (.malformed "json: error calling MarshalJSON for type types.BlockState")
  | some _ => .ok (goBytes (.ofList (compactText false false bs.marshalJSON)))

/-- `json.Unmarshal` into a block state: the type reads the text itself. -/
def ofJSON (data : Bytes) : Except JsonError BlockState :=
  Program.unmarshal (.custom unmarshalJSON) (jsonText data) ⟨zeroHash, 0, 0⟩

def marshal (bs : BlockState) : Except JsonError Bytes := bs.toJSON

def unmarshal (data : Bytes) : Except JsonError BlockState := ofJSON data

end BlockState

namespace BlockStateValue

def encode (value : BlockState) : Except JsonError Bytes := value.marshal

def decode (b : Bytes) : Except JsonError BlockState := BlockState.unmarshal b

def encodeJSON (value : BlockState) : Except JsonError Bytes := value.toJSON

def decodeJSON (b : Bytes) : Except JsonError BlockState := BlockState.ofJSON b

end BlockStateValue

/-! ## The text of a block state -/

/-- The text of a block state: its hash in hexadecimal and two decimals. -/
def blockStateText (bs : BlockState) : String :=
  "\x7b\"hash\":\"" ++ bs.hash.hex ++ "\",\"height\":" ++ toString bs.height.toNat ++
    ",\"timestamp\":" ++ toString bs.timestamp.toNat ++ "\x7d"

/-- The characters of hexadecimal texts. -/
def hexAlphabet : List Char := "0123456789abcdefx".toList

theorem mem_hexAlphabet {n : ℕ} {h : FixedBytes n} {c : Char} (hc : c ∈ h.hex.toList) :
    c ∈ hexAlphabet := by
  have hdigit {d : UInt8} (hd : d < 16) : hexDigit d ∈ hexAlphabet :=
    forall_digit (P := fun d => hexDigit d ∈ hexAlphabet) (by decide) hd
  unfold FixedBytes.hex at hc
  rw [String.toList_ofList] at hc
  simp only [List.mem_cons, List.mem_flatMap, List.not_mem_nil, or_false] at hc
  rcases hc with rfl | rfl | ⟨b, -, rfl | rfl⟩
  · decide
  · decide
  · exact hdigit (div_lt_sixteen b)
  · exact hdigit (mod_lt_sixteen b)

/-- A character that stands in JSON texts for itself. -/
def Plain (c : Char) : Prop :=
  escapeChar c = [c] ∧ isBlank c = false ∧ isHtmlSpecial c = false

instance (c : Char) : Decidable (Plain c) := inferInstanceAs (Decidable (_ ∧ _))

-- checked along the list: a quantifier over characters would be decided over all of them
theorem plain_of_mem_hexAlphabet : ∀ c ∈ hexAlphabet, Plain c := by
  have hall : hexAlphabet.all (fun c => Plain c) = true := by decide
  intro c hc
  exact of_decide_eq_true (List.all_eq_true.mp hall c hc)

theorem plain_of_isDigit {c : Char} (h : c.isDigit = true) : Plain c := by
  obtain ⟨-, hlow, hhigh⟩ := utf8EncodeChar_of_isDigit h
  have hdigit : ∀ m < 10, Char.ofNat (48 + m) ∈ hexAlphabet := by decide
  have hmem := hdigit (c.toNat - 48) (by omega)
  rw [Nat.add_sub_cancel' hlow, Char.ofNat_toNat] at hmem
  exact plain_of_mem_hexAlphabet c hmem

theorem flatMap_escapeChar_of_plain {cs : List Char} (h : ∀ c ∈ cs, Plain c) :
    cs.flatMap escapeChar = cs := by
  induction cs with
  | nil => rfl
  | cons c cs ih =>
    rw [List.flatMap_cons, (h c (by simp)).1, ih fun c' hc' => h c' (by simp [hc'])]
    rfl

/-- The text that the type writes. -/
theorem marshalJSON_eq (bs : BlockState) : bs.marshalJSON = (blockStateText bs).toList := by
  have hkey : ∀ key ∈ ["hash", "height", "timestamp"],
      key.toList.flatMap escapeChar = key.toList := by decide
  have hhash := flatMap_escapeChar_of_plain fun c hc =>
    plain_of_mem_hexAlphabet c (mem_hexAlphabet (h := bs.hash) hc)
  unfold BlockState.marshalJSON BlockState.value blockStateText
  simp only [Json.render, renderMembers, renderString, hhash, hkey "hash" (by simp),
    hkey "height" (by simp), hkey "timestamp" (by simp)]
  simp

theorem readable_value (bs : BlockState) : bs.value.Readable maxNestingDepth := by
  have hnum (n : ℕ) : IsLiteral (toString n).toList := by
    rw [Nat.toString_eq_ofList_toDigits, String.toList_ofList]
    exact isLiteral_toDigits n
  refine @Json.Readable.obj 9999 _ ?_
  simp only [List.forall_mem_cons]
  exact ⟨.str _, .num (hnum _), .num (hnum _), by simp⟩

theorem unmarshalJSON_value (bs : BlockState) : BlockState.unmarshalJSON bs.value = .ok bs := by
  have hheight := parseUint_toString bs.height
  have htime := parseUint_toString bs.timestamp
  have hhash := hexToHash_hex bs.hash
  have hne : foldName "hash" ≠ foldName "height" ∧ foldName "hash" ≠ foldName "timestamp" ∧
      foldName "height" ≠ foldName "timestamp" := by decide
  unfold BlockState.unmarshalJSON BlockState.value blockStateFieldsDecoder
  simp only [Program.unmarshal, Decoder.struct, Decoder.members, Decoder.member, Decoder.field,
    Decoder.string, uint64Decoder, List.find?, decide_true, hne, decide_false, hheight, htime,
    Except.map]
  show Except.ok (BlockState.mk (hexToHash bs.hash.hex) bs.height bs.timestamp) = Except.ok bs
  rw [hhash]

/-- The text of a block state has nothing to compact. -/
theorem plain_blockStateText (bs : BlockState) : ∀ c ∈ (blockStateText bs).toList,
    isBlank c = false ∧ isHtmlSpecial c = false := by
  have hfixed : ["\x7b\"hash\":\"", "\",\"height\":", ",\"timestamp\":", "\x7d"].all
      (fun piece => piece.toList.all fun c => !isBlank c && !isHtmlSpecial c) = true := by decide
  simp only [List.all_eq_true, Bool.and_eq_true, Bool.not_eq_true'] at hfixed
  have hnum (n : ℕ) : ∀ c ∈ (toString n).toList, isBlank c = false ∧ isHtmlSpecial c = false := by
    intro c hc
    rw [Nat.toString_eq_ofList_toDigits, String.toList_ofList] at hc
    exact (plain_of_isDigit (Nat.isDigit_of_mem_toDigits (by omega) (by omega) hc)).2
  intro c hc
  unfold blockStateText at hc
  simp only [String.toList_append, List.mem_append] at hc
  rcases hc with (((((hc | hc) | hc) | hc) | hc) | hc) | hc
  · exact hfixed _ (by simp) c hc
  · exact (plain_of_mem_hexAlphabet c (mem_hexAlphabet hc)).2
  · exact hfixed _ (by simp) c hc
  · exact hnum _ c hc
  · exact hfixed _ (by simp) c hc
  · exact hnum _ c hc
  · exact hfixed _ (by simp) c hc

/-- What is written is read back. -/
theorem ofJSON_of_toJSON (bs : BlockState) :
    bs.toJSON = .ok (goBytes (blockStateText bs)) ∧
      BlockState.ofJSON (goBytes (blockStateText bs)) = .ok bs := by
  have hread : parseText maxNestingDepth (blockStateText bs).toList = some bs.value := by
    rw [← marshalJSON_eq]
    exact parseText_render (readable_value bs)
  constructor
  · have hcompact : compactText false false bs.marshalJSON = bs.marshalJSON := by
      rw [marshalJSON_eq]
      exact compactText_of_plain (plain_blockStateText bs) false false
    unfold BlockState.toJSON
    rw [hcompact, marshalJSON_eq, hread, String.ofList_toList]
  · unfold BlockState.ofJSON jsonText
    rw [goRunes_goBytes, hread]
    simp [Program.unmarshal, Decoder.custom, unmarshalJSON_value, Except.map]

/-- **The codec loses nothing.** A block state is written as the text with its hash and the two
decimals, by both encoders. Both decoders read it back, and different block states have different
encodings. -/
theorem blockStateValue_lossless :
    (∀ bs, BlockStateValue.encode bs = .ok (goBytes (blockStateText bs)) ∧
      BlockStateValue.encode bs >>= BlockStateValue.decode = .ok bs) ∧
    (∀ bs, BlockStateValue.encodeJSON bs = .ok (goBytes (blockStateText bs)) ∧
      BlockStateValue.encodeJSON bs >>= BlockStateValue.decodeJSON = .ok bs) ∧
    Function.Injective BlockStateValue.encode := by
  have hround (bs : BlockState) : BlockStateValue.encode bs = .ok (goBytes (blockStateText bs)) ∧
      BlockStateValue.encode bs >>= BlockStateValue.decode = .ok bs := by
    obtain ⟨hwrite, hread⟩ := ofJSON_of_toJSON bs
    have hencode : BlockStateValue.encode bs = .ok (goBytes (blockStateText bs)) := hwrite
    exact ⟨hencode, by rw [hencode]; exact hread⟩
  refine ⟨hround, hround, fun bs bs' heq => ?_⟩
  have hdecode := (hround bs).2
  rw [heq, (hround bs').2] at hdecode
  exact (Except.ok.inj hdecode).symm

/-- The largest height and timestamp. -/
example : blockStateText ⟨zeroHash, 2 ^ 64 - 1, 0⟩ =
    "\x7b\"hash\":\"0x0000000000000000000000000000000000000000000000000000000000000000\"," ++
      "\"height\":18446744073709551615,\"timestamp\":0\x7d" := by decide +kernel

end NexusNode
