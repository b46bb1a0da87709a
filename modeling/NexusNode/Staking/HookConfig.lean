import NexusNode.Evm.Config
import NexusNode.Staking.Hooks

/-!
# The parameters of the hooks

The hooks of a node stand in its configuration file. The parameters of a hook are any YAML value
there. They are parsed when the node starts, and what does not parse is a panic.

## Main definitions

* `YamlValue`: a decoded YAML value
* `decodeBase64`: `base64.StdEncoding.DecodeString`
* `parsePubKey`, `parseAddValidatorHook`: the parameters of an `add_validator` hook
* `parseUnjailHook`, `parseRemoveValidatorHook`: those of the hooks with optional fields
* `YamlValue.validator`: the validator that parameters name

## Main results

* `parseAddValidatorHook_ok`, `parseUnjailHook_ok`, `parseRemoveValidatorHook_ok`: what is known
  of accepted parameters
-/

namespace NexusNode

open Program

/-- A decoded YAML value, as far as the hooks look at it: texts, truth values, maps from texts,
and all others. -/
inductive YamlValue where
  | str (s : String)
  | bool (b : Bool)
  | map (fields : List (String × YamlValue))
  | other

/-! ## Fields -/

def expectParamsIsMap (raw : YamlValue) (action : String) :
    Except String (List (String × YamlValue)) :=
  match raw with
  | .map fields => .ok fields
  | _ => .error ("failed to read " ++ action ++ " params as map")

def requireValueIsString (value : YamlValue) (field : String) : Except String String :=
  match value with
  | .str s => .ok s
  | _ => .error (field ++ " field is not type string")

/-- The field of the parameters, which has to be there. -/
def requireField (params : List (String × YamlValue)) (key : String) : Except String YamlValue :=
  match params.lookup key with
  | some value => .ok value
  | none => .error ("failed to read " ++ key ++ " field from params")

def requireFieldIsString (params : List (String × YamlValue)) (key : String) :
    Except String String := do
  let value ← requireField params key
  requireValueIsString value key

/-- `parseInt` of the hooks: a text that holds a 64-bit integer. -/
def YamlValue.parseInt (value : YamlValue) (field : String) : Except String ℤ := do
  let strValue ← requireValueIsString value field
  match NexusNode.parseInt strValue with
  | .error e =>
    .error ("failed to parse " ++ field ++ " as int64: " ++ e.parseIntText strValue)
  | .ok intValue => .ok intValue.toInt

/-- A field that may be left out. -/
def optionalField {α : Type} (params : List (String × YamlValue)) (key : String) (default : α)
    (parse : YamlValue → Except String α) : Except String α :=
  match params.lookup key with
  | some raw => parse raw
  | none => .ok default

/-- The text of the field `validator`, if the parameters have one. -/
def YamlValue.validator : YamlValue → Option String
  | .map fields =>
    match fields.lookup "validator" with
    | some (.str s) => some s
    | _ => none
  | _ => none

/-- A parser that reads the field `validator` reads the text there. -/
theorem YamlValue.validator_eq {raw : YamlValue} {action s : String}
    {params : List (String × YamlValue)} (hmap : expectParamsIsMap raw action = .ok params)
    (hs : requireFieldIsString params "validator" = .ok s) : raw.validator = some s := by
  obtain ⟨value, hvalue, hs⟩ := except_bind_eq_ok_iff.mp hs
  cases raw with
  | map fields =>
    obtain rfl := Except.ok.inj hmap
    unfold requireField at hvalue
    split at hvalue
    · next v hv =>
      obtain rfl := Except.ok.inj hvalue
      cases v with
      | str t =>
        obtain rfl := Except.ok.inj hs
        simp [YamlValue.validator, hv]
      | _ => cases hs
    · cases hvalue
  | _ => cases hmap

/-! ## Public keys -/

/-- The value of a character of the standard alphabet. -/
def base64Value (c : UInt8) : Option ℕ :=
  if 65 ≤ c ∧ c ≤ 90 then some (c.toNat - 65)
  else if 97 ≤ c ∧ c ≤ 122 then some (c.toNat - 97 + 26)
  else if 48 ≤ c ∧ c ≤ 57 then some (c.toNat - 48 + 52)
  else if c = 43 then some 62
  else if c = 47 then some 63
  else none

/-- The first bytes of a quantum of four values, of which those that are missing count as zero. -/
def quantumBytes (values : List ℕ) : Bytes :=
  let n := values.getD 0 0 * 2 ^ 18 + values.getD 1 0 * 2 ^ 12 + values.getD 2 0 * 2 ^ 6 +
    values.getD 3 0
  [UInt8.ofNat (n / 2 ^ 16), UInt8.ofNat (n / 2 ^ 8), UInt8.ofNat n].take (values.length - 1)

def isNewline (c : UInt8) : Bool := c = 10 || c = 13

/-- The end of a text behind the padding, at `pos`: only line breaks may follow. -/
def base64End (values : List ℕ) (pos : ℕ) (rest : Bytes) : Except ℕ Bytes :=
  match rest.dropWhile isNewline with
  | [] => .ok (quantumBytes values)
  | left => .error (pos + (rest.length - left.length))

/-- The bytes from `pos` on, behind the values of an unfinished quantum. The error is the offset
of the byte that is refused. -/
def base64Loop (values : List ℕ) (pos : ℕ) : Bytes → Except ℕ Bytes
  | [] => if values = [] then .ok [] else .error (pos - values.length)
  | c :: rest =>
    match base64Value c with
    | some v =>
      if values.length = 3 then (quantumBytes (values ++ [v]) ++ ·) <$> base64Loop [] (pos + 1) rest
      else base64Loop (values ++ [v]) (pos + 1) rest
    | none =>
      if isNewline c then base64Loop values (pos + 1) rest
      else if c ≠ 61 ∨ values.length < 2 then .error pos
      else if values.length = 3 then base64End values (pos + 1) rest
      else
        -- two values are followed by two characters of padding
        match rest.dropWhile isNewline with
        | [] => .error (pos + 1 + rest.length)
        | d :: left =>
          if d ≠ 61 then .error (pos + (rest.length - (left.length + 1)))
          else base64End values (pos + 1 + (rest.length - left.length)) left

/-- `base64.StdEncoding.DecodeString` -/
def decodeBase64 (s : String) : Except String Bytes :=
  match base64Loop [] 0 (goBytes s) with
  | .error offset => .error ("illegal base64 data at input byte " ++ toString offset)
  | .ok b => .ok b

/-- The functions on texts that go by the tables of Unicode. -/
structure UnicodeText where
  /-- `strings.ToLower` -/
  toLower : String → String
  /-- `strconv.Quote` -/
  quote : String → String

/-- `ed25519.KeyType` -/
def ed25519KeyType : String := "ed25519"

/-- `ed25519.PubKeySize` -/
def pubKeySize : ℕ := 32

/-- The key in the parameters of a hook. -/
def parsePubKey (text : UnicodeText) (value : YamlValue) : Except String PubKey := do
  let pubKeyMap ← expectParamsIsMap value "pub_key"
  let type ← requireFieldIsString pubKeyMap "type"
  let keyType := if text.toLower type = "" then ed25519KeyType else text.toLower type
  let rawValue ← requireFieldIsString pubKeyMap "value"
  match decodeBase64 rawValue with
  | .error e => .error ("failed to decode pub_key value: " ++ e)
  | .ok decoded =>
    if keyType = text.toLower ed25519KeyType ∨ keyType = "tendermint/pubkeyed25519" then
      if decoded.length ≠ pubKeySize then
        .error ("invalid ed25519 pubkey size: " ++ toString decoded.length)
      else .ok ⟨decoded⟩
    else .error ("unsupported pub_key type " ++ text.quote keyType)

/-- An accepted key has the size of one. -/
theorem parsePubKey_length {text : UnicodeText} {value : YamlValue} {pubKey : PubKey}
    (h : parsePubKey text value = .ok pubKey) : pubKey.key.length = pubKeySize := by
  obtain ⟨pubKeyMap, -, h⟩ := except_bind_eq_ok_iff.mp h
  obtain ⟨type, -, h⟩ := except_bind_eq_ok_iff.mp h
  obtain ⟨rawValue, -, h⟩ := except_bind_eq_ok_iff.mp h
  generalize (if text.toLower type = "" then ed25519KeyType else text.toLower type) = keyType at h
  split at h
  · cases h
  · split_ifs at h with htype hsize
    obtain rfl := Except.ok.inj h
    exact Decidable.not_not.mp hsize

/-! ## Adding a validator -/

/-- The parameters of an `add_validator` hook, or the message of the panic. -/
def parseAddValidatorHook (text : UnicodeText) (params : YamlValue) :
    Except String HookParams := do
  let paramsMap ← expectParamsIsMap params "add_validator"
  let validatorStr ← requireFieldIsString paramsMap "validator"
  let pubKeyRaw ← requireField paramsMap "pub_key"
  let minSelfDelegationRaw ← requireField paramsMap "min_self_delegation"
  let pubKey ← parsePubKey text pubKeyRaw
  let minSelfDelegation ← minSelfDelegationRaw.parseInt "min_self_delegation"
  let initialTokensRaw ← requireField paramsMap "initial_tokens"
  let initialTokens ← initialTokensRaw.parseInt "initial_tokens"
  if ¬ 0 < initialTokens then
    .error ("initial_tokens must be positive, got " ++ toString initialTokens)
  else
    .ok (.addValidator validatorStr
      (some ⟨some pubKey, some initialTokens, some minSelfDelegation⟩))

/-- **Accepted parameters** have a key of the right size, positive initial tokens and a minimum of
any sign. -/
theorem parseAddValidatorHook_ok {text : UnicodeText} {raw : YamlValue} {params : HookParams}
    (h : parseAddValidatorHook text raw = .ok params) :
    ∃ validator pubKey n m, params = .addValidator validator (some ⟨some pubKey, some n, some m⟩) ∧
      pubKey.key.length = pubKeySize ∧ 0 < n := by
  obtain ⟨paramsMap, -, h⟩ := except_bind_eq_ok_iff.mp h
  obtain ⟨validator, -, h⟩ := except_bind_eq_ok_iff.mp h
  obtain ⟨pubKeyRaw, -, h⟩ := except_bind_eq_ok_iff.mp h
  obtain ⟨minRaw, -, h⟩ := except_bind_eq_ok_iff.mp h
  obtain ⟨pubKey, hkey, h⟩ := except_bind_eq_ok_iff.mp h
  obtain ⟨m, -, h⟩ := except_bind_eq_ok_iff.mp h
  obtain ⟨tokensRaw, -, h⟩ := except_bind_eq_ok_iff.mp h
  obtain ⟨n, -, h⟩ := except_bind_eq_ok_iff.mp h
  split_ifs at h with hn
  · exact ⟨validator, pubKey, n, m, (Except.ok.inj h).symm, parsePubKey_length hkey, hn⟩

/-- The validator of accepted parameters is the text of their field, as it stands there. -/
theorem parseAddValidatorHook_validator {text : UnicodeText} {raw : YamlValue}
    {params : HookParams} (h : parseAddValidatorHook text raw = .ok params) :
    ∃ validator options, params = .addValidator validator options ∧
      raw.validator = some validator := by
  obtain ⟨validator, pubKey, n, m, rfl, -⟩ := parseAddValidatorHook_ok h
  obtain ⟨paramsMap, hmap, h⟩ := except_bind_eq_ok_iff.mp h
  obtain ⟨validatorStr, hvalidator, h⟩ := except_bind_eq_ok_iff.mp h
  obtain ⟨pubKeyRaw, -, h⟩ := except_bind_eq_ok_iff.mp h
  obtain ⟨minRaw, -, h⟩ := except_bind_eq_ok_iff.mp h
  obtain ⟨key, -, h⟩ := except_bind_eq_ok_iff.mp h
  obtain ⟨minimum, -, h⟩ := except_bind_eq_ok_iff.mp h
  obtain ⟨tokensRaw, -, h⟩ := except_bind_eq_ok_iff.mp h
  obtain ⟨tokens, -, h⟩ := except_bind_eq_ok_iff.mp h
  split_ifs at h
  obtain ⟨rfl, -⟩ := HookParams.addValidator.inj (Except.ok.inj h)
  exact ⟨validatorStr, _, rfl, YamlValue.validator_eq hmap hvalidator⟩

/-! ## Unjailing a validator -/

/-- The parameters of an `unjail` hook. A target has to be positive. -/
def parseUnjailHook (params : YamlValue) : Except String HookParams := do
  let paramsMap ← expectParamsIsMap params "unjail"
  let validator ← requireFieldIsString paramsMap "validator"
  let targetTokens ← optionalField paramsMap "target_tokens" none fun raw => do
    let target ← raw.parseInt "target_tokens"
    if ¬ 0 < target then .error ("target_tokens must be positive, got " ++ toString target)
    else .ok (some target)
  .ok (.unjail validator targetTokens)

/-- **Accepted parameters** have a positive target or none. -/
theorem parseUnjailHook_ok {raw : YamlValue} {params : HookParams}
    (h : parseUnjailHook raw = .ok params) :
    ∃ validator target, params = .unjail validator target ∧ raw.validator = some validator ∧
      ∀ n, target = some n → 0 < n := by
  obtain ⟨paramsMap, hmap, h⟩ := except_bind_eq_ok_iff.mp h
  obtain ⟨validator, hvalidator, h⟩ := except_bind_eq_ok_iff.mp h
  obtain ⟨target, htarget, h⟩ := except_bind_eq_ok_iff.mp h
  refine ⟨validator, target, (Except.ok.inj h).symm, YamlValue.validator_eq hmap hvalidator, ?_⟩
  rintro n rfl
  unfold optionalField at htarget
  split at htarget
  · obtain ⟨m, -, htarget⟩ := except_bind_eq_ok_iff.mp htarget
    split_ifs at htarget with hm
    · obtain rfl := Option.some.inj (Except.ok.inj htarget)
      exact hm
  · cases htarget

/-! ## Removing a validator -/

/-- `strconv.ParseBool` -/
def parseBoolText (s : String) : Option Bool :=
  if s ∈ ["1", "t", "T", "true", "TRUE", "True"] then some true
  else if s ∈ ["0", "f", "F", "false", "FALSE", "False"] then some false
  else none

/-- `parseBool` of the hooks: a truth value, or a text that holds one. -/
def YamlValue.parseBool (text : UnicodeText) (value : YamlValue) (field : String) :
    Except String Bool :=
  match value with
  | .bool b => .ok b
  | .str s =>
    match parseBoolText s with
    | some b => .ok b
    | none =>
      .error ("failed to parse " ++ field ++ " as bool: strconv.ParseBool: parsing " ++
        text.quote s ++ ": invalid syntax")
  | _ => .error (field ++ " field is not a bool or string")

/-- The recipient of the tokens, with `acc` for `sdk.AccAddressFromBech32`. -/
def parseRecipientAddress (acc : String → Except String AccAddress) (raw : YamlValue) :
    Except String (Option AccAddress) := do
  let recipientStr ← requireValueIsString raw "token_recipient"
  match acc recipientStr with
  | .error e => .error ("invalid token_recipient address: " ++ e)
  | .ok recipientAddr => .ok (some recipientAddr)

/-- The parameters of a `remove_validator` hook. -/
def parseRemoveValidatorHook (text : UnicodeText) (acc : String → Except String AccAddress)
    (params : YamlValue) : Except String HookParams := do
  let paramsMap ← expectParamsIsMap params "remove_validator"
  let validatorStr ← requireFieldIsString paramsMap "validator"
  let burnTokens ← optionalField paramsMap "burn_tokens" false fun raw =>
    raw.parseBool text "burn_tokens"
  let tokenRecipient ← optionalField paramsMap "token_recipient" none (parseRecipientAddress acc)
  .ok (.removeValidator validatorStr (some ⟨burnTokens, tokenRecipient⟩))

theorem parseRemoveValidatorHook_ok {text : UnicodeText}
    {acc : String → Except String AccAddress} {raw : YamlValue} {params : HookParams}
    (h : parseRemoveValidatorHook text acc raw = .ok params) :
    ∃ validator options, params = .removeValidator validator (some options) ∧
      raw.validator = some validator := by
  obtain ⟨paramsMap, hmap, h⟩ := except_bind_eq_ok_iff.mp h
  obtain ⟨validator, hvalidator, h⟩ := except_bind_eq_ok_iff.mp h
  obtain ⟨burnTokens, -, h⟩ := except_bind_eq_ok_iff.mp h
  obtain ⟨tokenRecipient, -, h⟩ := except_bind_eq_ok_iff.mp h
  exact ⟨validator, _, (Except.ok.inj h).symm, YamlValue.validator_eq hmap hvalidator⟩

end NexusNode
