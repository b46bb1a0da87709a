import NexusNode.Evm.Genesis
import NexusNode.Program.Trim

/-!
# The secret of the engine connection

The consensus client signs its calls of the execution client with a secret that both read from a
file. The file has 64 hexadecimal digits, in either case, with or without `0x` before them, and
may have spaces at both ends.

## Main definitions

* `bytesTrimSpace`, `trimPrefix`, `decodeString`: functions of the standard library on bytes
* `loadJWTSecret`, `loadJWTSecretFromEnv`: the secret of a file
* `SecretText`: the texts of a secret

## Main results

* `decodeString_eq_ok_iff`: what is decoded is written as the digits, in lower case
* `jwtSecret_loaded_iff`: which files give which secret
-/

namespace NexusNode

open Program

/-! ## Bytes -/

/-- The characters of `unicode.IsSpace`, in UTF-8. -/
def spaceEncodings : List Bytes :=
  ([0x09, 0x0A, 0x0B, 0x0C, 0x0D, 0x20, 0x85, 0xA0, 0x1680, 0x2000, 0x2001, 0x2002, 0x2003, 0x2004,
    0x2005, 0x2006, 0x2007, 0x2008, 0x2009, 0x200A, 0x2028, 0x2029, 0x202F, 0x205F, 0x3000].map
      Char.ofNat).map String.utf8EncodeChar

/-- `bytes.TrimSpace` -/
def bytesTrimSpace (s : Bytes) : Bytes := trim spaceEncodings s

/-- `bytes.TrimPrefix` -/
def trimPrefix (s start : Bytes) : Bytes := if start <+: s then s.drop start.length else s

inductive HexError where
  | invalidByte (b : UInt8)
  | oddLength
  deriving DecidableEq

/-- `strconv.IsPrint`, below 256 -/
def isPrint (b : UInt8) : Bool := (0x20 ≤ b && b < 0x7F) || (0xA1 ≤ b && b != 0xAD)

/-- A byte by the format `%#U`. -/
def runeText (b : UInt8) : String :=
  let digit (n : UInt8) : Char := Char.toUpper (hexDigit n)
  "U+00" ++ .ofList [digit (b / 16), digit (b % 16)] ++
    (if isPrint b then " '" ++ .singleton (Char.ofNat b.toNat) ++ "'" else "")

def HexError.text : HexError → String
  | .invalidByte b => "encoding/hex: invalid byte: " ++ runeText b
  | .oddLength => "encoding/hex: odd length hex string"

/-- `hex.DecodeString` -/
def decodeString : Bytes → Except HexError Bytes
  | p :: q :: rest =>
    match fromHexChar p, fromHexChar q with
    | none, _ => .error (.invalidByte p)
    | some _, none => .error (.invalidByte q)
    | some a, some b => (decodeString rest).map fun bs => (a * 16 + b) :: bs
  | [p] => .error (if fromHexChar p = none then .invalidByte p else .oddLength)
  | [] => .ok []

/-! ## The secret -/

structure JwtSecret where
  secret : Bytes
  deriving DecidableEq

def newJwtSecret (secret : Bytes) : JwtSecret := ⟨secret⟩

inductive JwtError where
  /-- an error of `os.ReadFile` -/
  | file (e : String)
  | length (n : ℕ)
  | hex (e : HexError)
  | notSet
  deriving DecidableEq

def grpcJWTSecretPathEnvVar : String := "GRPC_JWT_SECRET_PATH"

def JwtError.text : JwtError → String
  | .file e => e
  | .length n => s!"jwt secret must be 64 hex chars, got {n}"
  | .hex e => e.text
  | .notSet => grpcJWTSecretPathEnvVar ++ " environment variable not set"

section Load

variable (readFile : String → Except String Bytes) (getenv : String → String)

def loadJWTSecret (path : String) : Except JwtError JwtSecret := do
  let secret ← (readFile path).mapError JwtError.file
  let secret := bytesTrimSpace secret
  let secret := trimPrefix secret [48, 120]
  if secret.length ≠ 64 then .error (.length secret.length)
  else do
    let secretBytes ← (decodeString secret).mapError JwtError.hex
    pure (newJwtSecret secretBytes)

def loadJWTSecretFromEnv : Except JwtError JwtSecret :=
  let secretPath := getenv grpcJWTSecretPathEnvVar
  if secretPath = "" then .error .notSet else loadJWTSecret readFile secretPath

end Load

/-- The texts of a secret: its digits, in either case, with or without `0x`, between spaces. -/
structure SecretText (secret content : Bytes) : Prop where
  exists_eq : ∃ before start digits after, content = before ++ (start ++ digits) ++ after ∧
    Tokens spaceEncodings before ∧ Tokens spaceEncodings after ∧
    (start = [] ∨ start = [48, 120]) ∧ digits.map lowerByte = secret.flatMap hexPair
  length_eq : secret.length = 32

/-! ## Digits -/

theorem fromHexChar_eq_some_iff {c x : UInt8} :
    fromHexChar c = some x ↔ x < 16 ∧ hexByte x = lowerByte c := by
  constructor
  · exact hexByte_of_fromHexChar
  · rintro ⟨hx, h⟩
    unfold hexByte lowerByte at h
    unfold fromHexChar
    grind

/-- A byte is decoded from the digits that it is written with. -/
theorem map_lowerByte_pair_iff {p q b : UInt8} :
    [lowerByte p, lowerByte q] = hexPair b ↔
      ∃ x y, fromHexChar p = some x ∧ fromHexChar q = some y ∧ x * 16 + y = b := by
  constructor
  · intro h
    obtain ⟨hp, hq⟩ : lowerByte p = hexByte (b / 16) ∧ lowerByte q = hexByte (b % 16) := by
      simpa [hexPair] using h
    exact ⟨b / 16, b % 16, fromHexChar_eq_some_iff.mpr ⟨div_lt_sixteen b, hp.symm⟩,
      fromHexChar_eq_some_iff.mpr ⟨mod_lt_sixteen b, hq.symm⟩, digits_eq b⟩
  · rintro ⟨x, y, hp, hq, rfl⟩
    obtain ⟨hx, hp⟩ := hexByte_of_fromHexChar hp
    obtain ⟨hy, hq⟩ := hexByte_of_fromHexChar hq
    rw [hexPair_digits hx hy, hp, hq]

theorem decodeString_cons_eq_ok_iff {p q : UInt8} {rest bs : Bytes} :
    decodeString (p :: q :: rest) = .ok bs ↔ ∃ b bs', bs = b :: bs' ∧
      [lowerByte p, lowerByte q] = hexPair b ∧ decodeString rest = .ok bs' := by
  simp only [map_lowerByte_pair_iff]
  constructor
  · intro h
    rw [decodeString] at h
    split at h
    next => cases h
    next => cases h
    next x y hp hq =>
      obtain ⟨bs', hrest, rfl⟩ := except_map_eq_ok_iff.mp h
      exact ⟨_, bs', rfl, ⟨x, y, hp, hq, rfl⟩, hrest⟩
  · rintro ⟨b, bs', rfl, ⟨x, y, hp, hq, rfl⟩, hrest⟩
    simp only [decodeString, hp, hq, hrest, Except.map]

/-- **Decoding.** What is decoded is written as the digits, in lower case. -/
theorem decodeString_eq_ok_iff : ∀ {ds bs : Bytes},
    decodeString ds = .ok bs ↔ ds.map lowerByte = bs.flatMap hexPair
  | [], bs => by cases bs <;> simp [decodeString, hexPair]
  | [p], bs => by cases bs <;> simp [decodeString, hexPair]
  | p :: q :: rest, bs => by
    rw [decodeString_cons_eq_ok_iff]
    constructor
    · rintro ⟨b, bs', rfl, hpair, hrest⟩
      rw [List.flatMap_cons, ← hpair, ← decodeString_eq_ok_iff.mp hrest]
      rfl
    · intro h
      cases bs with
      | nil => cases h
      | cons b bs' =>
        have happend : [lowerByte p, lowerByte q] ++ rest.map lowerByte =
            hexPair b ++ bs'.flatMap hexPair := h
        obtain ⟨hpair, hrest⟩ := List.append_inj happend rfl
        exact ⟨b, bs', rfl, hpair, decodeString_eq_ok_iff.mpr hrest⟩

/-- The bytes of a text that decodes are digits. -/
theorem fromHexChar_isSome_of_mem {ds bs : Bytes} (h : ds.map lowerByte = bs.flatMap hexPair)
    {c : UInt8} (hc : c ∈ ds) : (fromHexChar c).isSome := by
  have hmem : lowerByte c ∈ bs.flatMap hexPair := h ▸ List.mem_map_of_mem hc
  obtain ⟨b, -, hb⟩ := List.mem_flatMap.mp hmem
  rcases List.mem_pair.mp hb with hdigit | hdigit
  · exact Option.isSome_iff_exists.mpr
      ⟨_, fromHexChar_eq_some_iff.mpr ⟨div_lt_sixteen b, hdigit.symm⟩⟩
  · exact Option.isSome_iff_exists.mpr
      ⟨_, fromHexChar_eq_some_iff.mpr ⟨mod_lt_sixteen b, hdigit.symm⟩⟩

/-! ## Spaces -/

theorem prefixFree_spaceEncodings : PrefixFree spaceEncodings := ⟨by decide, by decide⟩

theorem prefixFree_spaceEncodings_reverse : PrefixFree (spaceEncodings.map List.reverse) :=
  ⟨by decide, by decide⟩

/-- No byte of a space is a visible ASCII character. -/
theorem spaceEncodings_bytes : ∀ t ∈ spaceEncodings, ∀ c ∈ t, c ≤ 32 ∨ 128 ≤ c := by
  decide +kernel

/-- Spaces around a visible text are all that is dropped. -/
theorem bytesTrimSpace_eq {before mid after : Bytes} (hbefore : Tokens spaceEncodings before)
    (hafter : Tokens spaceEncodings after) (hne : mid ≠ [])
    (hmid : ∀ c ∈ mid, 32 < c ∧ c < 128) : bytesTrimSpace (before ++ mid ++ after) = mid := by
  have hnot : ∀ t ∈ spaceEncodings, ∀ c ∈ t, c ∉ mid := by
    intro t ht c hc hcmid
    have hspace := spaceEncodings_bytes t ht c hc
    have hvisible := hmid c hcmid
    grind
  apply trim_eq prefixFree_spaceEncodings prefixFree_spaceEncodings_reverse hbefore hafter hne
  · intro t ht heq
    obtain ⟨c, hc⟩ := List.exists_mem_of_ne_nil t (prefixFree_spaceEncodings.ne_nil t ht)
    rw [List.head?_eq_some_head (List.ne_nil_of_mem hc)] at heq
    exact hnot t ht _ (List.head_mem _) (List.mem_of_mem_head? heq.symm)
  · intro t ht heq
    obtain ⟨c, hc⟩ := List.exists_mem_of_ne_nil t (prefixFree_spaceEncodings.ne_nil t ht)
    rw [List.getLast?_eq_some_getLast (List.ne_nil_of_mem hc)] at heq
    exact hnot t ht _ (List.getLast_mem _) (List.mem_of_getLast? heq.symm)

/-! ## Files -/

theorem length_of_map_lowerByte {ds bs : Bytes} (h : ds.map lowerByte = bs.flatMap hexPair) :
    ds.length = 2 * bs.length := by
  rw [← length_flatMap_hexPair, ← h, List.length_map]

/-- Digits do not start with `0x`. -/
theorem trimPrefix_digits {start ds bs : Bytes} (hstart : start = [] ∨ start = [48, 120])
    (h : ds.map lowerByte = bs.flatMap hexPair) : trimPrefix (start ++ ds) [48, 120] = ds := by
  rcases hstart with rfl | rfl
  · refine if_neg fun hprefixed => ?_
    obtain ⟨rest, rfl⟩ := hprefixed
    have hx := fromHexChar_isSome_of_mem h (c := 120) (by simp)
    exact absurd hx (by decide)
  · simp [trimPrefix]

theorem exists_trimPrefix (s : Bytes) :
    ∃ start, (start = [] ∨ start = [48, 120]) ∧ s = start ++ trimPrefix s [48, 120] := by
  unfold trimPrefix
  split_ifs with h
  · exact ⟨[48, 120], .inr rfl, (List.prefix_iff_eq_append.mp h).symm⟩
  · exact ⟨[], .inl rfl, rfl⟩

/-- The texts of a secret are those that are trimmed to 64 digits and decode to it. -/
theorem secretText_iff {secret content : Bytes} : SecretText secret content ↔
    (trimPrefix (bytesTrimSpace content) [48, 120]).length = 64 ∧
      decodeString (trimPrefix (bytesTrimSpace content) [48, 120]) = .ok secret := by
  constructor
  · rintro ⟨⟨before, start, digits, after, rfl, hbefore, hafter, hstart, hdigits⟩, hlen⟩
    have hlength : digits.length = 64 := by rw [length_of_map_lowerByte hdigits, hlen]
    have hvisible : ∀ c ∈ start ++ digits, 32 < c ∧ c < 128 := by
      intro c hc
      rcases List.mem_append.mp hc with hc | hc
      · rcases hstart with rfl | rfl
        · cases hc
        · rcases List.mem_pair.mp hc with rfl | rfl <;> decide
      · have hdigit := fromHexChar_isSome_of_mem hdigits hc
        unfold fromHexChar at hdigit
        grind
    have hne : start ++ digits ≠ [] := by
      intro hnil
      rw [(List.append_eq_nil_iff.mp hnil).2] at hlength
      cases hlength
    rw [bytesTrimSpace_eq hbefore hafter hne hvisible, trimPrefix_digits hstart hdigits]
    exact ⟨hlength, decodeString_eq_ok_iff.mpr hdigits⟩
  · rintro ⟨hlength, hdecode⟩
    have hdigits := decodeString_eq_ok_iff.mp hdecode
    obtain ⟨before, after, hbefore, hafter, hcontent⟩ :=
      exists_trim prefixFree_spaceEncodings.ne_nil content
    obtain ⟨start, hstart, htrim⟩ := exists_trimPrefix (bytesTrimSpace content)
    refine ⟨⟨before, start, _, after, ?_, hbefore, hafter, hstart, hdigits⟩, ?_⟩
    · rw [← htrim]
      exact hcontent
    · rw [length_of_map_lowerByte hdigits] at hlength
      omega

theorem loadJWTSecret_eq_ok_iff {readFile : String → Except String Bytes} {path : String}
    {s : JwtSecret} : loadJWTSecret readFile path = .ok s ↔
      ∃ content, readFile path = .ok content ∧ SecretText s.secret content := by
  simp only [loadJWTSecret, except_bind_eq_ok_iff, except_mapError_eq_ok_iff, secretText_iff]
  refine exists_congr fun content => and_congr_right fun _ => ?_
  split_ifs with hlength
  · simp [hlength]
  · rw [not_not] at hlength
    simp only [except_bind_eq_ok_iff, except_mapError_eq_ok_iff, hlength, true_and]
    constructor
    · rintro ⟨bytes, hdecode, hs⟩
      obtain rfl := Except.ok.inj hs
      exact hdecode
    · exact fun hdecode => ⟨_, hdecode, rfl⟩

/-- **The secret.** A file gives a secret exactly when its content is a text of it: the 64 digits
of 32 bytes, in either case, at most one `0x` before them and spaces at both ends. The same holds
of the file that the environment names, if it names one. -/
theorem jwtSecret_loaded_iff (readFile : String → Except String Bytes) (getenv : String → String)
    (path : String) (s : JwtSecret) :
    (loadJWTSecret readFile path = .ok s ↔
      ∃ content, readFile path = .ok content ∧ SecretText s.secret content) ∧
    (loadJWTSecretFromEnv readFile getenv = .ok s ↔ getenv grpcJWTSecretPathEnvVar ≠ "" ∧
      ∃ content, readFile (getenv grpcJWTSecretPathEnvVar) = .ok content ∧
        SecretText s.secret content) := by
  refine ⟨loadJWTSecret_eq_ok_iff, ?_⟩
  unfold loadJWTSecretFromEnv
  dsimp only
  split_ifs with hset
  · simp [hset]
  · rw [loadJWTSecret_eq_ok_iff]
    simp [hset]

-- the prefix goes, and so does a line break
example : loadJWTSecret (fun _ => .ok ([48, 120] ++ List.replicate 64 65 ++ [13, 10])) "jwt.hex" =
    .ok ⟨List.replicate 32 0xAA⟩ := by decide

-- only a lower-case prefix does
example : loadJWTSecret (fun _ => .ok ([48, 88] ++ List.replicate 64 65)) "jwt.hex" =
    .error (.length 66) := by decide

end NexusNode
