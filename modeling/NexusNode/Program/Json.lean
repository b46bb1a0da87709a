import Mathlib.Data.List.Forall2
import NexusNode.Program.Proc

/-!
# Decoding JSON into existing values

A decoder with static types walks a JSON value and a value of its type together and overwrites
what the JSON gives. What is missing stays as it was, `null` changes nothing but a pointer,
unknown keys are skipped, keys are matched without regard to case, and a repeated key is decoded
again over the result of the first time. A value of the wrong kind is noted and decoding goes on;
an error of a type that decodes itself ends it. Either makes the whole call fail.

## Main definitions

* `Json`: parsed texts, with the members of an object in the order of the text
* `Decoder α`: what decoding does to a value of type `α`
* `Decoder.struct`, `Decoder.field`, `Decoder.pointer`, `Decoder.custom`: the composite decoders
* `unmarshal`: a whole call
* `Decoder.Keeps I dec`: the decoder preserves `I`
* `Decoder.Accepts dec T`: the decoder takes the values in `T`

## Main results

* `unmarshal_eq_ok_iff`: a call succeeds when nothing was noted
* `Decoder.Keeps.struct`, `Decoder.Keeps.field`: invariants of composite decoders
* `Decoder.Accepts.struct`, `Decoder.Accepts.pointer`: the values that composite decoders take
-/

namespace Program

variable {α β : Type}

/-- A parsed JSON text. A number keeps its literal, and an object its members in the order of the
text, repeated keys included. -/
inductive Json where
  | null
  | bool (b : Bool)
  | num (literal : String)
  | str (s : String)
  | arr (items : List Json)
  | obj (members : List (String × Json))

/-- The kind of a value, as messages name it. -/
def Json.kind : Json → String
  | .null => "null"
  | .bool _ => "bool"
  | .num _ => "number"
  | .str _ => "string"
  | .arr _ => "array"
  | .obj _ => "object"

inductive JsonError where
  /-- the text is no JSON -/
  | malformed (message : String)
  /-- a type that decodes itself failed -/
  | custom (message : String)
  /-- a value does not have the kind of its type -/
  | mismatch (value type : String)
  deriving DecidableEq, Repr

/-- The message of an error, of a mismatch without the field it is about. -/
def JsonError.text : JsonError → String
  | .malformed message => message
  | .custom message => message
  | .mismatch value type => "json: cannot unmarshal " ++ value ++ " into Go value of type " ++ type

/-- The value decoded so far, and the first mismatch met. -/
structure Decoded (α : Type) where
  value : α
  mismatch : Option JsonError

/-- What decoding a JSON value does to a value of type `α`. An error ends the whole call. -/
abbrev Decoder (α : Type) := Json → α → Except JsonError (Decoded α)

/-- Letters fold to upper case, and with them the two other characters that do. -/
def foldChar (c : Char) : Char :=
  if c = 'ſ' then 'S' else if c = 'K' then 'K' else c.toUpper

/-- Keys are the same if they fold to the same name. -/
def foldName (name : String) : List Char := name.toList.map foldChar

namespace Decoder

/-- Note a mismatch and leave the value as it is. -/
def skip (type : String) : Decoder α := fun j a =>
  .ok ⟨a, some (.mismatch j.kind type)⟩

def string : Decoder String
  | .null, s => .ok ⟨s, none⟩
  | .str s, _ => .ok ⟨s, none⟩
  | j, s => skip "string" j s

def bool : Decoder Bool
  | .null, b => .ok ⟨b, none⟩
  | .bool b, _ => .ok ⟨b, none⟩
  | j, b => skip "bool" j b

/-- A type that decodes itself, also from `null`. -/
def custom (f : Json → Except JsonError α) : Decoder α := fun j _ =>
  (f j).map fun a => ⟨a, none⟩

/-- The value itself, not decoded further. -/
def raw : Decoder Json := custom .ok

/-- A pointer: `null` clears it, and any other value is decoded into what it points to, which is
`zero` if it points to nothing. -/
def pointer (zero : α) (dec : Decoder α) : Decoder (Option α)
  | .null, _ => .ok ⟨none, none⟩
  | j, a => (dec j (a.getD zero)).map fun d => ⟨some d.value, d.mismatch⟩

/-- A part of a value. -/
def field (get : α → β) (set : β → α → α) (dec : Decoder β) : Decoder α := fun j a =>
  (dec j (get a)).map fun d => ⟨set d.value a, d.mismatch⟩

/-- One member of an object: the field with its name, if there is one, is decoded. -/
def member (fields : List (String × Decoder α)) (d : Decoded α) (m : String × Json) :
    Except JsonError (Decoded α) :=
  match fields.find? fun f => foldName f.1 = foldName m.1 with
  | none => .ok d
  | some (_, dec) => (dec m.2 d.value).map fun d' => ⟨d'.value, d.mismatch <|> d'.mismatch⟩

/-- The members of an object, in their order. -/
def members (fields : List (String × Decoder α)) :
    List (String × Json) → Decoded α → Except JsonError (Decoded α)
  | [], d => .ok d
  | m :: rest, d => member fields d m >>= members fields rest

def struct (type : String) (fields : List (String × Decoder α)) : Decoder α
  | .null, a => .ok ⟨a, none⟩
  | .obj ms, a => members fields ms ⟨a, none⟩
  | j, a => skip type j a

end Decoder

/-- A whole call: the text is parsed first, and a mismatch fails at the end. -/
def unmarshal (dec : Decoder α) (text : Except String Json) (a : α) : Except JsonError α :=
  match text with
  | .error message => .error (.malformed message)
  | .ok j =>
    match dec j a with
    | .error e => .error e
    | .ok ⟨_, some e⟩ => .error e
    | .ok ⟨v, none⟩ => .ok v

theorem unmarshal_eq_ok_iff {dec : Decoder α} {text : Except String Json} {a v : α} :
    unmarshal dec text a = .ok v ↔ ∃ j, text = .ok j ∧ dec j a = .ok ⟨v, none⟩ := by
  cases text with
  | error message => simp [unmarshal]
  | ok j =>
    rcases hdec : dec j a with e | ⟨v', _ | e⟩ <;> simp [unmarshal, hdec]

namespace Decoder

/-! ## Invariants -/

/-- The decoder preserves `I`, whatever it decodes. -/
def Keeps (I : α → Prop) (dec : Decoder α) : Prop :=
  ∀ j a d, I a → dec j a = .ok d → I d.value

theorem Keeps.field {I : α → Prop} {J : β → Prop} {get : α → β} {set : β → α → α}
    {dec : Decoder β} (h : Keeps J dec) (hget : ∀ a, I a → J (get a))
    (hset : ∀ b a, I a → J b → I (set b a)) : Keeps I (field get set dec) := by
  intro j a d ha hd
  obtain ⟨d', hdec, rfl⟩ := except_map_eq_ok_iff.mp hd
  exact hset _ _ ha (h j (get a) d' (hget a ha) hdec)

theorem Keeps.member {I : α → Prop} {fields : List (String × Decoder α)}
    (h : ∀ f ∈ fields, Keeps I f.2) {d d' : Decoded α} {m : String × Json} (hd : I d.value)
    (hm : member fields d m = .ok d') : I d'.value := by
  unfold Decoder.member at hm
  split at hm
  · cases hm
    exact hd
  · rename_i name dec hfind
    obtain ⟨d'', hdec, rfl⟩ := except_map_eq_ok_iff.mp hm
    exact h _ (List.mem_of_find?_eq_some hfind) m.2 d.value d'' hd hdec

theorem Keeps.struct {I : α → Prop} {type : String} {fields : List (String × Decoder α)}
    (h : ∀ f ∈ fields, Keeps I f.2) : Keeps I (struct type fields) := by
  intro j a d ha hd
  have hmembers : ∀ (ms : List (String × Json)) (d₀ : Decoded α), I d₀.value →
      members fields ms d₀ = .ok d → I d.value := by
    intro ms
    induction ms with
    | nil =>
      intro d₀ hd₀ hms
      cases hms
      exact hd₀
    | cons m rest ih =>
      intro d₀ hd₀ hms
      obtain ⟨d₁, hd₁, hrest⟩ := except_bind_eq_ok_iff.mp hms
      exact ih d₁ (Keeps.member h hd₀ hd₁) hrest
  cases j with
  | obj ms => exact hmembers ms _ ha hd
  | _ =>
    cases hd
    exact ha

/-- What every value the type makes of JSON has is preserved. -/
theorem Keeps.custom {I : α → Prop} {f : Json → Except JsonError α}
    (h : ∀ j a, f j = .ok a → I a) : Keeps I (custom f) := by
  intro j a d _ hd
  obtain ⟨v, hf, rfl⟩ := except_map_eq_ok_iff.mp hd
  exact h j v hf

/-! ## Accepted values -/

/-- The values that the decoder takes without noting a mismatch are those in `T`. -/
def Accepts (dec : Decoder α) (T : Json → Prop) : Prop :=
  ∀ j a, (∃ v, dec j a = .ok ⟨v, none⟩) ↔ T j

theorem accepts_bool : Accepts bool fun j => j = .null ∨ ∃ b, j = .bool b := by
  intro j b
  cases j <;> simp [bool, skip]

theorem accepts_raw : Accepts raw fun _ => True := by
  intro j a
  simp [raw, custom, Except.map]

theorem Accepts.pointer {zero : α} {dec : Decoder α} {T : Json → Prop} (h : Accepts dec T)
    (hnull : T .null) : Accepts (pointer zero dec) T := by
  intro j a
  have hmap : (∃ v, (dec j (a.getD zero)).map (fun d => (⟨some d.value, d.mismatch⟩ :
      Decoded (Option α))) = .ok ⟨v, none⟩) ↔ T j := by
    rw [← h j (a.getD zero)]
    rcases dec j (a.getD zero) with e | ⟨v, m⟩ <;> simp [Except.map]
  cases j with
  | null => simpa [Decoder.pointer] using hnull
  | _ => simpa [Decoder.pointer] using hmap

theorem Accepts.field {get : α → β} {set : β → α → α} {dec : Decoder β} {T : Json → Prop}
    (h : Accepts dec T) : Accepts (field get set dec) T := by
  intro j a
  rw [← h j (get a)]
  unfold Decoder.field
  rcases dec j (get a) with e | ⟨v, m⟩ <;> simp [Except.map]

/-- The members whose keys name a field have a value that the field takes. -/
def MembersIn (types : List (String × (Json → Prop))) (ms : List (String × Json)) : Prop :=
  ∀ m ∈ ms, ∀ t, (types.find? fun f => foldName f.1 = foldName m.1) = some t → t.2 m.2

/-- Fields whose decoders take the values of the types with the same names. -/
def FieldTypes (fields : List (String × Decoder α)) (types : List (String × (Json → Prop))) :
    Prop :=
  List.Forall₂ (fun f t => f.1 = t.1 ∧ Accepts f.2 t.2) fields types

theorem FieldTypes.nil : FieldTypes ([] : List (String × Decoder α)) [] := List.Forall₂.nil

theorem FieldTypes.field {name : String} {get : α → β} {set : β → α → α} {dec : Decoder β}
    {T : Json → Prop} {fields : List (String × Decoder α)}
    {types : List (String × (Json → Prop))} (h : Accepts dec T) (hs : FieldTypes fields types) :
    FieldTypes ((name, field get set dec) :: fields) ((name, T) :: types) :=
  List.Forall₂.cons ⟨rfl, h.field⟩ hs

/-- A key names a field of both lists, or of none. -/
theorem FieldTypes.find? {fields : List (String × Decoder α)}
    {types : List (String × (Json → Prop))} (h : FieldTypes fields types) (key : String) :
    ((fields.find? fun f => foldName f.1 = foldName key) = none ∧
      (types.find? fun t => foldName t.1 = foldName key) = none) ∨
    ∃ f t, (fields.find? fun f => foldName f.1 = foldName key) = some f ∧
      (types.find? fun t => foldName t.1 = foldName key) = some t ∧ Accepts f.2 t.2 := by
  induction h with
  | nil => exact .inl ⟨rfl, rfl⟩
  | @cons f t fields types hft _ ih =>
    by_cases hkey : foldName f.1 = foldName key
    · exact .inr ⟨f, t, by simp [hkey], by simp [← hft.1, hkey], hft.2⟩
    · simpa [List.find?_cons, hkey, ← hft.1] using ih

theorem member_accepts {fields : List (String × Decoder α)}
    {types : List (String × (Json → Prop))} (h : FieldTypes fields types) (a : α)
    (m : String × Json) :
    (∃ v, member fields ⟨a, none⟩ m = .ok ⟨v, none⟩) ↔
      ∀ t, (types.find? fun f => foldName f.1 = foldName m.1) = some t → t.2 m.2 := by
  unfold Decoder.member
  rcases h.find? m.1 with ⟨hf, ht⟩ | ⟨f, t, hf, ht, hacc⟩
  · simp [hf, ht]
  · rw [hf, ht]
    dsimp only
    have hmap := hacc m.2 a
    rcases hdec : f.2 m.2 a with e | ⟨v, mis⟩ <;> rw [hdec] at hmap <;>
      simpa [Except.map] using hmap

/-- A mismatch that was noted stays. -/
theorem members_mismatch {fields : List (String × Decoder α)} {ms : List (String × Json)}
    {d d' : Decoded α} (hd : d.mismatch ≠ none) (h : members fields ms d = .ok d') :
    d'.mismatch ≠ none := by
  induction ms generalizing d with
  | nil =>
    cases h
    exact hd
  | cons m ms ih =>
    obtain ⟨d₁, hd₁, hrest⟩ := except_bind_eq_ok_iff.mp h
    refine ih ?_ hrest
    unfold Decoder.member at hd₁
    split at hd₁
    · cases hd₁
      exact hd
    · obtain ⟨d₂, -, rfl⟩ := except_map_eq_ok_iff.mp hd₁
      cases hm : d.mismatch with
      | none => exact absurd hm hd
      | some e => simp

theorem members_accepts {fields : List (String × Decoder α)}
    {types : List (String × (Json → Prop))} (h : FieldTypes fields types)
    (ms : List (String × Json)) (a : α) :
    (∃ v, members fields ms ⟨a, none⟩ = .ok ⟨v, none⟩) ↔ MembersIn types ms := by
  induction ms generalizing a with
  | nil => simp [members, MembersIn]
  | cons m ms ih =>
    unfold MembersIn at ih ⊢
    rw [List.forall_mem_cons, ← member_accepts h a m]
    constructor
    · rintro ⟨v, hv⟩
      obtain ⟨⟨v₁, mis⟩, hfirst, hrest⟩ := except_bind_eq_ok_iff.mp hv
      cases mis with
      | none => exact ⟨⟨v₁, hfirst⟩, (ih v₁).mp ⟨v, hrest⟩⟩
      | some e => exact absurd rfl (members_mismatch (by simp) hrest)
    · rintro ⟨⟨v₁, hfirst⟩, hms⟩
      obtain ⟨v, hrest⟩ := (ih v₁).mpr hms
      exact ⟨v, except_bind_eq_ok_iff.mpr ⟨_, hfirst, hrest⟩⟩

theorem Accepts.struct {type : String} {fields : List (String × Decoder α)}
    {types : List (String × (Json → Prop))} (h : FieldTypes fields types) :
    Accepts (struct type fields) fun j => j = .null ∨ ∃ ms, j = .obj ms ∧ MembersIn types ms := by
  intro j a
  cases j with
  | obj ms => simpa [Decoder.struct] using members_accepts h ms a
  | _ => simp [Decoder.struct, skip]

end Decoder

end Program
