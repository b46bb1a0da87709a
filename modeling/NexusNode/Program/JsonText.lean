import NexusNode.Program.Json

/-!
# JSON texts

A reader of JSON texts and the writer of an encoder that escapes what must not stand in HTML. The
reader keeps the literals of numbers and the order of members, replaces surrogates that stand alone
and refuses values nested deeper than its bound. Texts are sequences of characters; what makes them
out of bytes is not looked at here.

## Main definitions

* `parseText depth cs`: the value of a text whose values are nested at most `depth` deep
* `Json.render`: the text of a value, without blanks
* `compactText`: a text without its blanks
* `IsLiteral`: a literal that is read back as it is
* `Json.Readable depth j`: the literals of `j` are literals, and it is nested at most `depth` deep

## Main results

* `parseText_render`: the text of a readable value reads back as the value
* `isLiteral_toDigits`: decimals are literals
-/

namespace Program

/-! ## Reading -/

/-- Blanks between tokens. -/
def isBlank (c : Char) : Bool := c == ' ' || c == '\t' || c == '\n' || c == '\r'

def skipBlanks (cs : List Char) : List Char := cs.dropWhile isBlank

/-- The character of an escape of one letter. -/
def unescape (c : Char) : Option Char :=
  if c = '"' ∨ c = '\\' ∨ c = '/' then some c
  else if c = 'b' then some '\x08'
  else if c = 'f' then some '\x0c'
  else if c = 'n' then some '\n'
  else if c = 'r' then some '\r'
  else if c = 't' then some '\t'
  else none

def hexValue (c : Char) : Option ℕ :=
  if '0' ≤ c ∧ c ≤ '9' then some (c.toNat - 48)
  else if 'a' ≤ c ∧ c ≤ 'f' then some (c.toNat - 87)
  else if 'A' ≤ c ∧ c ≤ 'F' then some (c.toNat - 55)
  else none

/-- Four hexadecimal digits. -/
def hexFour : List Char → Option (ℕ × List Char)
  | a :: b :: c :: d :: rest => do
    let a ← hexValue a
    let b ← hexValue b
    let c ← hexValue c
    let d ← hexValue d
    return (a * 4096 + b * 256 + c * 16 + d, rest)
  | _ => none

/-- The second half of a surrogate pair, if it follows. -/
def lowSurrogate : List Char → Option (ℕ × List Char)
  | '\\' :: 'u' :: rest => do
    let (n, rest) ← hexFour rest
    if 0xDC00 ≤ n ∧ n < 0xE000 then return (n, rest) else none
  | _ => none

/-- The character of an escape with its code. Two surrogates are one character, and one that has
no second half is replaced. -/
def unicodeEscape (cs : List Char) : Option (Char × List Char) := do
  let (n, rest) ← hexFour cs
  if n < 0xD800 ∨ 0xE000 ≤ n then return (Char.ofNat n, rest)
  else
    match if n < 0xDC00 then lowSurrogate rest else none with
    | some (m, rest) => return (Char.ofNat (0x10000 + (n - 0xD800) * 1024 + (m - 0xDC00)), rest)
    | none => return (Char.ofNat 0xFFFD, rest)

/-- The next character of a string. -/
def nextChar : List Char → Option (Char × List Char)
  | [] => none
  | c :: rest =>
    if c = '\\' then
      match rest with
      | [] => none
      | e :: rest => if e = 'u' then unicodeEscape rest else (unescape e).map (·, rest)
    -- control characters have to be escaped
    else if c.toNat < 0x20 then none
    else some (c, rest)

/-- A string behind its opening quote, of at most `n` characters. -/
def parseString : ℕ → List Char → Option (List Char × List Char)
  | 0, _ => none
  | n + 1, cs =>
    if cs.head? = some '"' then some ([], cs.tail)
    else do
      let (c, rest) ← nextChar cs
      let (s, rest) ← parseString n rest
      return (c :: s, rest)

/-- At least one digit. -/
def scanDigits (cs : List Char) : Option (List Char × List Char) :=
  if cs.takeWhile Char.isDigit = [] then none
  else some (cs.takeWhile Char.isDigit, cs.dropWhile Char.isDigit)

/-- The digits before the point, without leading zeros. -/
def scanInt : List Char → Option (List Char × List Char)
  | '0' :: rest => some (['0'], rest)
  | cs => scanDigits cs

def scanFraction : List Char → Option (List Char × List Char)
  | '.' :: rest => (scanDigits rest).map fun (ds, rest) => ('.' :: ds, rest)
  | cs => some ([], cs)

def scanExponent : List Char → Option (List Char × List Char)
  | [] => some ([], [])
  | e :: rest =>
    if e = 'e' ∨ e = 'E' then
      match rest with
      | '+' :: rest => (scanDigits rest).map fun (ds, rest) => (e :: '+' :: ds, rest)
      | '-' :: rest => (scanDigits rest).map fun (ds, rest) => (e :: '-' :: ds, rest)
      | rest => (scanDigits rest).map fun (ds, rest) => (e :: ds, rest)
    else some ([], e :: rest)

/-- The literal of a number without its sign. -/
def scanUnsigned (cs : List Char) : Option (List Char × List Char) := do
  let (int, rest) ← scanInt cs
  let (fraction, rest) ← scanFraction rest
  let (exponent, rest) ← scanExponent rest
  return (int ++ fraction ++ exponent, rest)

def scanNumber : List Char → Option (List Char × List Char)
  | '-' :: rest => (scanUnsigned rest).map fun (ds, rest) => ('-' :: ds, rest)
  | cs => scanUnsigned cs

/-- The rest of a text behind a fixed word. -/
def stripWord (word : List Char) (j : Json) (cs : List Char) : Option (Json × List Char) :=
  if cs.take word.length = word then some (j, cs.drop word.length) else none

/-- A key with its colon. -/
def parseKey (cs : List Char) : Option (String × List Char) :=
  match skipBlanks cs with
  | [] => none
  | c :: rest =>
    if c = '"' then do
      let (key, rest) ← parseString (rest.length + 1) rest
      if (skipBlanks rest).head? = some ':' then return (.ofList key, (skipBlanks rest).tail)
      else none
    else none

mutual

/-- The value at the start of a text, with at most `n` nested calls and values nested at most
`depth` deep. -/
def parseValue : ℕ → ℕ → List Char → Option (Json × List Char)
  | 0, _, _ => none
  | n + 1, depth, cs =>
    match skipBlanks cs with
    | [] => none
    | c :: rest =>
      if c = '"' then do
        let (s, rest) ← parseString (rest.length + 1) rest
        return (.str (.ofList s), rest)
      else if c = '{' then
        if depth = 0 then none
        else if (skipBlanks rest).head? = some '}' then some (.obj [], (skipBlanks rest).tail)
        else do
          let (ms, rest) ← parseMembers n (depth - 1) rest
          return (.obj ms, rest)
      else if c = '[' then
        if depth = 0 then none
        else if (skipBlanks rest).head? = some ']' then some (.arr [], (skipBlanks rest).tail)
        else do
          let (js, rest) ← parseItems n (depth - 1) rest
          return (.arr js, rest)
      else if c = 't' then stripWord ['r', 'u', 'e'] (.bool true) rest
      else if c = 'f' then stripWord ['a', 'l', 's', 'e'] (.bool false) rest
      else if c = 'n' then stripWord ['u', 'l', 'l'] .null rest
      else do
        let (literal, rest) ← scanNumber (c :: rest)
        return (.num (.ofList literal), rest)

/-- The members of an object, up to its end. -/
def parseMembers : ℕ → ℕ → List Char → Option (List (String × Json) × List Char)
  | 0, _, _ => none
  | n + 1, depth, cs => do
    let (key, rest) ← parseKey cs
    let (v, rest) ← parseValue n depth rest
    match skipBlanks rest with
    | ',' :: rest => do
      let (ms, rest) ← parseMembers n depth rest
      return ((key, v) :: ms, rest)
    | '}' :: rest => return ([(key, v)], rest)
    | _ => none

/-- The items of an array, up to its end. -/
def parseItems : ℕ → ℕ → List Char → Option (List Json × List Char)
  | 0, _, _ => none
  | n + 1, depth, cs => do
    let (v, rest) ← parseValue n depth cs
    match skipBlanks rest with
    | ',' :: rest => do
      let (js, rest) ← parseItems n depth rest
      return (v :: js, rest)
    | ']' :: rest => return ([v], rest)
    | _ => none

end

/-- The value of a text: one value and blanks around it. -/
def parseText (depth : ℕ) (cs : List Char) : Option Json := do
  let (j, rest) ← parseValue (cs.length + 1) depth cs
  if skipBlanks rest = [] then return j else none

/-! ## Writing -/

/-- A hexadecimal digit, in lower case. -/
def hexChar (n : ℕ) : Char := if n < 10 then Char.ofNat (48 + n) else Char.ofNat (87 + n)

/-- The characters that are escaped in texts for HTML. -/
def isHtmlSpecial (c : Char) : Bool := c ∈ ['<', '>', '&', '\u2028', '\u2029']

/-- The escape of a character by its code. -/
def escapeCode (c : Char) : List Char :=
  ['\\', 'u', hexChar (c.toNat / 4096), hexChar (c.toNat / 256 % 16), hexChar (c.toNat / 16 % 16),
    hexChar (c.toNat % 16)]

/-- A character inside a string. What must not stand in HTML is escaped like the control
characters. -/
def escapeChar (c : Char) : List Char :=
  if c = '"' ∨ c = '\\' then ['\\', c]
  else if c = '\x08' then ['\\', 'b']
  else if c = '\x0c' then ['\\', 'f']
  else if c = '\n' then ['\\', 'n']
  else if c = '\r' then ['\\', 'r']
  else if c = '\t' then ['\\', 't']
  else if c.toNat < 0x20 ∨ isHtmlSpecial c then escapeCode c
  else [c]

def renderString (s : String) : List Char := '"' :: s.toList.flatMap escapeChar ++ ['"']

mutual

/-- The text of a value, without blanks. -/
def Json.render : Json → List Char
  | .null => ['n', 'u', 'l', 'l']
  | .bool true => ['t', 'r', 'u', 'e']
  | .bool false => ['f', 'a', 'l', 's', 'e']
  | .num literal => literal.toList
  | .str s => renderString s
  | .arr js => '[' :: renderItems js
  | .obj ms => '{' :: renderMembers ms

/-- The items of an array, with its end. -/
def renderItems : List Json → List Char
  | [] => [']']
  | [j] => j.render ++ [']']
  | j :: js => j.render ++ ',' :: renderItems js

/-- The members of an object, with its end. -/
def renderMembers : List (String × Json) → List Char
  | [] => ['}']
  | [(key, v)] => renderString key ++ ':' :: v.render ++ ['}']
  | (key, v) :: ms => renderString key ++ ':' :: v.render ++ ',' :: renderMembers ms

end

/-- A text without the blanks between its tokens, and with the characters escaped that must not
stand in HTML. The flags say whether it is inside a string, and behind a backslash there. -/
def compactText : Bool → Bool → List Char → List Char
  | _, _, [] => []
  | inString, escaped, c :: cs =>
    let out := if isHtmlSpecial c then escapeCode c else if !inString && isBlank c then [] else [c]
    out ++ compactText (if c = '"' ∧ ¬ escaped then !inString else inString)
      (inString && c = '\\' && !escaped) cs

/-! ## Strings read back -/

theorem hexValue_hexChar : ∀ n < 16, hexValue (hexChar n) = some n := by decide

theorem hexFour_hexChar {n : ℕ} (h : n < 65536) (rest : List Char) :
    hexFour (hexChar (n / 4096) :: hexChar (n / 256 % 16) :: hexChar (n / 16 % 16) ::
      hexChar (n % 16) :: rest) = some (n, rest) := by
  have h₁ := hexValue_hexChar (n / 4096) (by omega)
  have h₂ := hexValue_hexChar (n / 256 % 16) (by omega)
  have h₃ := hexValue_hexChar (n / 16 % 16) (by omega)
  have h₄ := hexValue_hexChar (n % 16) (by omega)
  have hsum : n / 4096 * 4096 + n / 256 % 16 * 256 + n / 16 % 16 * 16 + n % 16 = n := by omega
  simp [hexFour, h₁, h₂, h₃, h₄, hsum]

/-- An escape is read as the character it was written for, and does not begin with a quote. -/
theorem nextChar_escapeChar (c : Char) (rest : List Char) :
    nextChar (escapeChar c ++ rest) = some (c, rest) ∧
      (escapeChar c ++ rest).head? ≠ some '"' := by
  unfold escapeChar
  split_ifs with hquote hb hf hn hr ht hunicode
  · rcases hquote with rfl | rfl <;> simp [nextChar, unescape]
  · subst hb; simp [nextChar, unescape]
  · subst hf; simp [nextChar, unescape]
  · subst hn; simp [nextChar, unescape]
  · subst hr; simp [nextChar, unescape]
  · subst ht; simp [nextChar, unescape]
  · have hlow : c.toNat < 0xD800 := by
      rcases hunicode with h | h
      · omega
      · simp only [isHtmlSpecial, List.mem_cons, List.not_mem_nil, or_false,
          decide_eq_true_eq] at h
        rcases h with rfl | rfl | rfl | rfl | rfl <;> decide
    have hfour := hexFour_hexChar (show c.toNat < 65536 by omega) rest
    simp [escapeCode, nextChar, unicodeEscape, hfour, hlow, Char.ofNat_toNat]
  · obtain ⟨hne, hbs⟩ := not_or.mp hquote
    have hprint : ¬ c.toNat < 0x20 := fun h => hunicode (.inl h)
    simp [nextChar, hbs, hprint, hne]

theorem parseString_escape (s : List Char) {n : ℕ} (hn : s.length < n) (rest : List Char) :
    parseString n (s.flatMap escapeChar ++ '"' :: rest) = some (s, rest) := by
  induction s generalizing n with
  | nil =>
    obtain ⟨n, rfl⟩ : ∃ m, n = m + 1 := ⟨n - 1, by omega⟩
    simp [parseString]
  | cons c s ih =>
    obtain ⟨n, rfl⟩ : ∃ m, n = m + 1 := ⟨n - 1, by omega⟩
    obtain ⟨hnext, hhead⟩ := nextChar_escapeChar c (s.flatMap escapeChar ++ '"' :: rest)
    rw [List.flatMap_cons, List.append_assoc]
    unfold parseString
    rw [if_neg hhead, hnext]
    simp [ih (by simpa using hn)]

theorem length_le_escape (s : List Char) : s.length ≤ (s.flatMap escapeChar).length := by
  induction s with
  | nil => simp
  | cons c s ih =>
    have hpos : 0 < (escapeChar c).length := by
      unfold escapeChar
      split_ifs <;> simp [escapeCode]
    simp only [List.flatMap_cons, List.length_append, List.length_cons]
    omega

/-- The text of a string reads back behind its opening quote. -/
theorem parseString_render (s : String) (rest : List Char) :
    parseString ((s.toList.flatMap escapeChar ++ '"' :: rest).length + 1)
      (s.toList.flatMap escapeChar ++ '"' :: rest) = some (s.toList, rest) := by
  apply parseString_escape
  have := length_le_escape s.toList
  simp only [List.length_append, List.length_cons]
  omega

/-- A text without blanks and without characters to escape is compact. -/
theorem compactText_of_plain {cs : List Char}
    (h : ∀ c ∈ cs, isBlank c = false ∧ isHtmlSpecial c = false) (inString escaped : Bool) :
    compactText inString escaped cs = cs := by
  induction cs generalizing inString escaped with
  | nil => rfl
  | cons c cs ih =>
    obtain ⟨hblank, hhtml⟩ := h c (by simp)
    simp [compactText, hblank, hhtml, ih fun c' hc' => h c' (by simp [hc'])]

/-! ## Literals read back -/

/-- The characters that may continue a number. -/
def continuesNumber (c : Char) : Bool := c.isDigit || c == '.' || c == 'e' || c == 'E'

/-- What may follow a number. -/
def EndsNumber (rest : List Char) : Prop := ∀ c, rest.head? = some c → continuesNumber c = false

/-- A literal is read back as it is, whatever follows it. -/
def IsLiteral (literal : List Char) : Prop :=
  ∀ rest, EndsNumber rest → scanNumber (literal ++ rest) = some (literal, rest)

theorem endsNumber_nil : EndsNumber [] := by
  intro c hc
  simp at hc

theorem endsNumber_cons {c : Char} (hc : continuesNumber c = false) (rest : List Char) :
    EndsNumber (c :: rest) := by
  intro c' hc'
  obtain rfl := Option.some.inj hc'
  exact hc

theorem EndsNumber.head_ne {c : Char} {rest : List Char} (h : EndsNumber (c :: rest)) :
    c.isDigit = false ∧ c ≠ '.' ∧ c ≠ 'e' ∧ c ≠ 'E' := by
  have := h c rfl
  simpa [continuesNumber, and_assoc] using this

theorem scanDigits_append {ds rest : List Char} (hne : ds ≠ [])
    (hds : ∀ c ∈ ds, c.isDigit = true) (hrest : EndsNumber rest) :
    scanDigits (ds ++ rest) = some (ds, rest) := by
  have hstop : rest.takeWhile Char.isDigit = [] ∧ rest.dropWhile Char.isDigit = rest := by
    cases rest with
    | nil => simp
    | cons c rest => simp [hrest.head_ne.1]
  unfold scanDigits
  rw [List.takeWhile_append_of_pos hds, List.dropWhile_append_of_pos hds, hstop.1, hstop.2,
    List.append_nil, if_neg hne]

theorem scanFraction_of_ends {rest : List Char} (h : EndsNumber rest) :
    scanFraction rest = some ([], rest) := by
  cases rest with
  | nil => rfl
  | cons c rest =>
    unfold scanFraction
    split
    · next heq => exact absurd (List.cons.inj heq).1 h.head_ne.2.1
    · rfl

theorem scanExponent_of_ends {rest : List Char} (h : EndsNumber rest) :
    scanExponent rest = some ([], rest) := by
  cases rest with
  | nil => rfl
  | cons c rest =>
    obtain ⟨-, -, he, hE⟩ := h.head_ne
    simp [scanExponent, he, hE]

/-- A positive decimal does not begin with a zero. -/
theorem head_toDigits_ne_zero {n : ℕ} (hn : 0 < n) : (Nat.toDigits 10 n).head? ≠ some '0' := by
  -- strong induction: the first digit of `n` is that of `n / 10`
  induction n using Nat.strongRecOn with
  | ind n ih =>
    rw [Nat.toDigits_eq_if (by omega)]
    split_ifs with h
    · have hdigit : ∀ m < 10, 0 < m → m.digitChar ≠ '0' := by decide
      simpa using hdigit n h hn
    · obtain ⟨d, ds, hds⟩ :=
        List.exists_cons_of_ne_nil (Nat.toDigits_ne_nil (n := n / 10) (b := 10))
      have := ih (n / 10) (by omega) (by omega)
      rw [hds] at this ⊢
      exact this

/-- **Decimals are literals.** -/
theorem isLiteral_toDigits (n : ℕ) : IsLiteral (Nat.toDigits 10 n) := by
  intro rest hrest
  have hdigit : ∀ c ∈ Nat.toDigits 10 n, c.isDigit = true := fun c hc =>
    Nat.isDigit_of_mem_toDigits (by omega) (by omega) hc
  have hscan := scanDigits_append Nat.toDigits_ne_nil hdigit hrest
  obtain ⟨d, ds, hds⟩ := List.exists_cons_of_ne_nil (Nat.toDigits_ne_nil (n := n) (b := 10))
  have hint : scanInt (Nat.toDigits 10 n ++ rest) = some (Nat.toDigits 10 n, rest) := by
    rcases Nat.eq_zero_or_pos n with rfl | hn
    · rfl
    · have hne : d ≠ '0' := by
        have := head_toDigits_ne_zero hn
        simpa [hds] using this
      rw [hds] at hscan ⊢
      unfold scanInt
      split
      · next heq => exact absurd (List.cons.inj heq).1 hne
      · exact hscan
  have hsign : d ≠ '-' := by
    rintro rfl
    exact absurd (hdigit '-' (by simp [hds])) (by decide)
  have hunsigned : scanUnsigned (Nat.toDigits 10 n ++ rest) = some (Nat.toDigits 10 n, rest) := by
    simp [scanUnsigned, hint, scanFraction_of_ends hrest, scanExponent_of_ends hrest]
  rw [hds] at hunsigned ⊢
  unfold scanNumber
  split
  · next heq => exact absurd (List.cons.inj heq).1 hsign
  · exact hunsigned

/-- A literal begins with a sign or a digit. -/
theorem IsLiteral.head {literal : List Char} (h : IsLiteral literal) :
    ∃ c cs, literal = c :: cs ∧ (c = '-' ∨ c.isDigit = true) := by
  have hscan := h [] endsNumber_nil
  rw [List.append_nil] at hscan
  cases literal with
  | nil => simp [scanNumber, scanUnsigned, scanInt, scanDigits] at hscan
  | cons c cs =>
    refine ⟨c, cs, rfl, ?_⟩
    by_contra hcon
    obtain ⟨hsign, hdigit⟩ := not_or.mp hcon
    have hzero : c ≠ '0' := by
      rintro rfl
      exact hdigit (by decide)
    have hint : scanInt (c :: cs) = none := by
      unfold scanInt
      split
      · next heq => exact absurd (List.cons.inj heq).1 hzero
      · simp [scanDigits, hdigit]
    have hnone : scanNumber (c :: cs) = none := by
      unfold scanNumber
      split
      · next heq => exact absurd (List.cons.inj heq).1 hsign
      · simp [scanUnsigned, hint]
    rw [hnone] at hscan
    cases hscan

/-! ## Values read back -/

/-- The literals of the value are literals, and it is nested at most `depth` deep. -/
inductive Json.Readable : ℕ → Json → Prop
  | null {depth : ℕ} : Readable depth .null
  | bool {depth : ℕ} (b : Bool) : Readable depth (.bool b)
  | num {depth : ℕ} {literal : String} (h : IsLiteral literal.toList) :
      Readable depth (.num literal)
  | str {depth : ℕ} (s : String) : Readable depth (.str s)
  | arr {depth : ℕ} {js : List Json} (h : ∀ j ∈ js, Readable depth j) :
      Readable (depth + 1) (.arr js)
  | obj {depth : ℕ} {ms : List (String × Json)} (h : ∀ m ∈ ms, Readable depth m.2) :
      Readable (depth + 1) (.obj ms)

/-- The value is read from its text, with a call for each of its characters, in front of all
that may follow a number. -/
def ReadsBack (depth : ℕ) (j : Json) : Prop :=
  ∀ n rest, j.render.length ≤ n → EndsNumber rest →
    parseValue n depth (j.render ++ rest) = some (j, rest)

theorem skipBlanks_cons {c : Char} (h : isBlank c = false) (cs : List Char) :
    skipBlanks (c :: cs) = c :: cs := by
  simp [skipBlanks, h]

theorem readsBack_str (depth : ℕ) (s : String) : ReadsBack depth (.str s) := by
  intro n rest hn _
  obtain ⟨n, rfl⟩ : ∃ m, n = m + 1 := ⟨n - 1, by
    simp only [Json.render, renderString, List.length_append, List.length_cons] at hn
    omega⟩
  have hblank : isBlank '"' = false := by decide
  simp only [Json.render, renderString, List.cons_append, List.append_assoc, List.nil_append]
  unfold parseValue
  rw [skipBlanks_cons hblank]
  dsimp only
  rw [if_pos rfl, parseString_render]
  simp

theorem isBlank_of_isDigit {c : Char} (h : c.isDigit = true) : isBlank c = false := by
  have hne (b : Char) (hb : b.isDigit = false) : c ≠ b := by
    rintro rfl
    rw [hb] at h
    cases h
  simp [isBlank, hne]

theorem readsBack_num (depth : ℕ) {literal : String} (h : IsLiteral literal.toList) :
    ReadsBack depth (.num literal) := by
  intro n rest hn hrest
  have hscan := h rest hrest
  obtain ⟨c, cs, hc, hhead⟩ := h.head
  obtain ⟨n, rfl⟩ : ∃ m, n = m + 1 := ⟨n - 1, by
    simp only [Json.render, hc, List.length_cons] at hn
    omega⟩
  -- no other kind of value begins with a sign or a digit
  have hother : isBlank c = false ∧ c ≠ '"' ∧ c ≠ '{' ∧ c ≠ '[' ∧ c ≠ 't' ∧ c ≠ 'f' ∧ c ≠ 'n' := by
    rcases hhead with rfl | hdigit
    · decide
    · refine ⟨isBlank_of_isDigit hdigit, ?_, ?_, ?_, ?_, ?_, ?_⟩
      all_goals
        rintro rfl
        exact absurd hdigit (by decide)
  obtain ⟨hblank, hquote, hbrace, hbracket, ht, hf, hnull⟩ := hother
  simp only [Json.render]
  rw [hc, List.cons_append] at hscan ⊢
  unfold parseValue
  rw [skipBlanks_cons hblank]
  simp only [hquote, hbrace, hbracket, ht, hf, hnull, if_false, hscan]
  simp [← hc]

/-- A text of a readable value begins with neither a blank nor the end of an array. -/
theorem Json.Readable.render_head {depth : ℕ} {j : Json} (h : j.Readable depth) :
    ∃ c cs, j.render = c :: cs ∧ isBlank c = false ∧ c ≠ ']' := by
  cases h with
  | null => exact ⟨_, _, rfl, by decide, by decide⟩
  | bool b => cases b <;> exact ⟨_, _, rfl, by decide, by decide⟩
  | num h =>
    obtain ⟨c, cs, hc, hhead⟩ := h.head
    refine ⟨c, cs, hc, ?_⟩
    rcases hhead with rfl | hdigit
    · decide
    · exact ⟨isBlank_of_isDigit hdigit, fun heq => absurd hdigit (by rw [heq]; decide)⟩
  | str s => exact ⟨_, _, rfl, by decide, by decide⟩
  | arr h => exact ⟨_, _, by rw [Json.render], by decide, by decide⟩
  | obj h => exact ⟨_, _, by rw [Json.render], by decide, by decide⟩

/-- Items that read back are read up to the end of their array. -/
theorem parseItems_render {depth : ℕ} {js : List Json} (hne : js ≠ [])
    (hjs : ∀ j ∈ js, ReadsBack depth j) {n : ℕ} (hn : (renderItems js).length ≤ n)
    (rest : List Char) : parseItems n depth (renderItems js ++ rest) = some (js, rest) := by
  have hcomma : isBlank ',' = false := by decide
  have hend : isBlank ']' = false := by decide
  -- induction on the items; the last one is followed by the end, the others by a comma
  induction js generalizing n with
  | nil => exact absurd rfl hne
  | cons j js ih =>
    cases js with
    | nil =>
      simp only [renderItems, List.length_append, List.length_cons, List.length_nil] at hn
      obtain ⟨n, rfl⟩ : ∃ m, n = m + 1 := ⟨n - 1, by omega⟩
      have hj := hjs j (by simp) n (']' :: rest) (by omega) (endsNumber_cons (by decide) rest)
      simp only [renderItems, List.append_assoc, List.cons_append, List.nil_append]
      unfold parseItems
      simp [hj, skipBlanks_cons hend]
    | cons j' js =>
      simp only [renderItems, List.length_append, List.length_cons] at hn
      obtain ⟨n, rfl⟩ : ∃ m, n = m + 1 := ⟨n - 1, by omega⟩
      have hj := hjs j (by simp) n (',' :: (renderItems (j' :: js) ++ rest)) (by omega)
        (endsNumber_cons (by decide) _)
      have hrest := ih (by simp) (fun k hk => hjs k (by simp [hk])) (n := n) (by omega)
      simp only [renderItems, List.append_assoc, List.cons_append]
      unfold parseItems
      simp [hj, skipBlanks_cons hcomma, hrest]

theorem parseKey_render (key : String) (rest : List Char) :
    parseKey (renderString key ++ ':' :: rest) = some (key, rest) := by
  have hquote : isBlank '"' = false := by decide
  have hcolon : isBlank ':' = false := by decide
  simp only [renderString, List.append_assoc, List.cons_append, List.nil_append]
  unfold parseKey
  rw [skipBlanks_cons hquote]
  dsimp only
  rw [if_pos rfl, parseString_render]
  simp [skipBlanks_cons hcolon]

/-- Members whose values read back are read up to the end of their object. -/
theorem parseMembers_render {depth : ℕ} {ms : List (String × Json)} (hne : ms ≠ [])
    (hms : ∀ m ∈ ms, ReadsBack depth m.2) {n : ℕ} (hn : (renderMembers ms).length ≤ n)
    (rest : List Char) : parseMembers n depth (renderMembers ms ++ rest) = some (ms, rest) := by
  have hcomma : isBlank ',' = false := by decide
  have hend : isBlank '}' = false := by decide
  induction ms generalizing n with
  | nil => exact absurd rfl hne
  | cons m ms ih =>
    obtain ⟨key, v⟩ := m
    cases ms with
    | nil =>
      simp only [renderMembers, List.length_append, List.length_cons, List.length_nil] at hn
      obtain ⟨n, rfl⟩ : ∃ m, n = m + 1 := ⟨n - 1, by omega⟩
      have hv : parseValue n depth (v.render ++ '}' :: rest) = some (v, '}' :: rest) :=
        hms (key, v) (by simp) n _ (by dsimp only; omega) (endsNumber_cons (by decide) rest)
      simp only [renderMembers, List.append_assoc, List.cons_append, List.nil_append]
      unfold parseMembers
      rw [parseKey_render]
      simp [hv, skipBlanks_cons hend]
    | cons m' ms =>
      simp only [renderMembers, List.length_append, List.length_cons] at hn
      obtain ⟨n, rfl⟩ : ∃ m, n = m + 1 := ⟨n - 1, by omega⟩
      have hv : parseValue n depth (v.render ++ ',' :: (renderMembers (m' :: ms) ++ rest)) =
          some (v, ',' :: (renderMembers (m' :: ms) ++ rest)) :=
        hms (key, v) (by simp) n _ (by dsimp only; omega) (endsNumber_cons (by decide) _)
      have hrest := ih (by simp) (fun k hk => hms k (by simp [hk])) (n := n) (by omega)
      simp only [renderMembers, List.append_assoc, List.cons_append]
      unfold parseMembers
      rw [parseKey_render]
      simp [hv, skipBlanks_cons hcomma, hrest]

/-- The items of an array begin as the first of them. -/
theorem renderItems_head {depth : ℕ} {j : Json} (h : j.Readable depth) (js : List Json) :
    ∃ c cs, renderItems (j :: js) = c :: cs ∧ isBlank c = false ∧ c ≠ ']' := by
  obtain ⟨c, cs, hc, hblank, hne⟩ := h.render_head
  cases js with
  | nil => exact ⟨c, cs ++ [']'], by simp [renderItems, hc], hblank, hne⟩
  | cons j' js =>
    exact ⟨c, cs ++ ',' :: renderItems (j' :: js), by simp [renderItems, hc], hblank, hne⟩

/-- The members of an object begin with the quote of the first key. -/
theorem renderMembers_head (m : String × Json) (ms : List (String × Json)) :
    ∃ cs, renderMembers (m :: ms) = '"' :: cs := by
  rw [← List.head?_eq_some_iff]
  cases ms <;> simp [renderMembers, renderString]

theorem readsBack_arr {depth : ℕ} {js : List Json} (hjs : ∀ j ∈ js, j.Readable depth)
    (ih : ∀ j ∈ js, ReadsBack depth j) : ReadsBack (depth + 1) (.arr js) := by
  intro n rest hn _
  simp only [Json.render, List.length_cons] at hn
  obtain ⟨n, rfl⟩ : ∃ m, n = m + 1 := ⟨n - 1, by omega⟩
  have hbracket : isBlank '[' = false := by decide
  have hend : isBlank ']' = false := by decide
  simp only [Json.render, List.cons_append]
  unfold parseValue
  rw [skipBlanks_cons hbracket]
  cases js with
  | nil => simp [renderItems, skipBlanks_cons hend]
  | cons j js =>
    have hitems := parseItems_render (by simp) ih (n := n) (by omega) rest
    obtain ⟨c, cs, hc, hblank, hne⟩ := renderItems_head (hjs j (by simp)) js
    have hhead : (skipBlanks (renderItems (j :: js) ++ rest)).head? ≠ some ']' := by
      rw [hc, List.cons_append, skipBlanks_cons hblank]
      simpa using hne
    simp [hhead, hitems]

theorem readsBack_obj {depth : ℕ} {ms : List (String × Json)}
    (ih : ∀ m ∈ ms, ReadsBack depth m.2) : ReadsBack (depth + 1) (.obj ms) := by
  intro n rest hn _
  simp only [Json.render, List.length_cons] at hn
  obtain ⟨n, rfl⟩ : ∃ m, n = m + 1 := ⟨n - 1, by omega⟩
  have hbrace : isBlank '{' = false := by decide
  have hquote : isBlank '"' = false := by decide
  have hend : isBlank '}' = false := by decide
  simp only [Json.render, List.cons_append]
  unfold parseValue
  rw [skipBlanks_cons hbrace]
  cases ms with
  | nil => simp [renderMembers, skipBlanks_cons hend]
  | cons m ms =>
    have hmembers := parseMembers_render (by simp) ih (n := n) (by omega) rest
    obtain ⟨cs, hcs⟩ := renderMembers_head m ms
    have hhead : (skipBlanks (renderMembers (m :: ms) ++ rest)).head? ≠ some '}' := by
      rw [hcs, List.cons_append, skipBlanks_cons hquote]
      simp
    simp [hhead, hmembers]

/-- A word of the language is read from its text. -/
theorem readsBack_word (depth : ℕ) {j : Json} (h : j = .null ∨ ∃ b, j = .bool b) :
    ReadsBack depth j := by
  intro n rest hn _
  have hn' : isBlank 'n' = false ∧ isBlank 't' = false ∧ isBlank 'f' = false := by decide
  obtain ⟨n, rfl⟩ : ∃ m, n = m + 1 := ⟨n - 1, by
    rcases h with rfl | ⟨b | b, rfl⟩ <;>
      simp only [Json.render, List.length_cons] at hn <;> omega⟩
  rcases h with rfl | ⟨b | b, rfl⟩ <;>
    simp [Json.render, parseValue, skipBlanks_cons, hn', stripWord]

/-- **Readable values read back**, in front of all that may follow a number. -/
theorem Json.Readable.readsBack {depth : ℕ} {j : Json} (h : j.Readable depth) :
    ReadsBack depth j := by
  -- induction on the value; arrays and objects read back by that of their parts
  induction h with
  | null => exact readsBack_word _ (.inl rfl)
  | bool b => exact readsBack_word _ (.inr ⟨b, rfl⟩)
  | num h => exact readsBack_num _ h
  | str s => exact readsBack_str _ s
  | arr h ih => exact readsBack_arr h ih
  | obj h ih => exact readsBack_obj ih

/-- **The text of a readable value reads back as the value.** -/
theorem parseText_render {depth : ℕ} {j : Json} (h : j.Readable depth) :
    parseText depth j.render = some j := by
  have hread := h.readsBack (j.render.length + 1) [] (Nat.le_succ _) endsNumber_nil
  rw [List.append_nil] at hread
  unfold parseText
  rw [hread, Option.bind_eq_bind, Option.bind_some]
  exact if_pos rfl

end Program
