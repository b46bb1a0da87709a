import NexusNode.Program.WireParser

/-!
# Messages with a schema

A message is read field by field: a field that the message has changes it, any other record is
skipped. What is written of a message is read back.

## Main definitions

* `Schema`, `Schema.unmarshal`: the fields that a message has, and its parser
* `Schema.Reads`, `Schema.ReadsAll`: what records do to a message
* `Schema.Restores`: what is written leads from one message to another

## Main results

* `Schema.unmarshal_eq_ok_iff`: the messages that are accepted, and what is read
* `Schema.Restores.unmarshal_marshal`: what is written is read back
-/

namespace Program

variable {M : Type}

/-- What is done with the value of a field. -/
inductive Reader (M : Type) where
  | uint64 (name : String) (set : UInt64 → M → M)
  | bytes (name : String) (set : List UInt8 → M → Except String M)

/-- The name of a message, and the fields that it has. -/
structure Schema (M : Type) where
  name : String
  reader : Int32 → Option (Reader M)

/-- The number of a field, of which only 32 bits are looked at. -/
def fieldNumber (wire : UInt64) : Int32 := (wire >>> 3).toUInt32.toInt32

/-- The value after a tag: the index after it, and the message with it. A record that is not
known is skipped from its tag on. -/
def readValue (reader : Option (Reader M)) (data : List UInt8) (preIndex wireType i : ℕ) (m : M) :
    Except String (ℕ × M) :=
  match reader with
  | some (.uint64 name set) =>
    if wireType ≠ 0 then
      .error ("proto: wrong wireType = " ++ toString wireType ++ " for field " ++ name)
    else (readVarint data i).map fun (v, i) => (i, set v m)
  | some (.bytes name set) =>
    if wireType ≠ 2 then
      .error ("proto: wrong wireType = " ++ toString wireType ++ " for field " ++ name)
    else do
      let (b, i) ← readBytes data i
      (set b m).map fun m => (i, m)
  | none => do
    let skippy ← skip (data.drop preIndex)
    if 2 ^ 63 ≤ preIndex + skippy then .error errInvalidLength
    else if data.length < preIndex + skippy then .error errUnexpectedEOF
    else .ok (preIndex + skippy, m)

section Value

variable {data : List UInt8} {preIndex wireType i j : ℕ} {m m' : M} {name : String}

theorem readValue_uint64_eq_ok_iff {set : UInt64 → M → M} :
    readValue (some (.uint64 name set)) data preIndex wireType i m = .ok (j, m') ↔
      wireType = 0 ∧ ∃ v, readVarint data i = .ok (v, j) ∧ set v m = m' := by
  unfold readValue
  dsimp only
  by_cases hw : wireType = 0
  · rw [if_neg (not_not.mpr hw), except_map_eq_ok_iff]
    simp [hw]
  · simp [hw]

theorem readValue_bytes_eq_ok_iff {set : List UInt8 → M → Except String M} :
    readValue (some (.bytes name set)) data preIndex wireType i m = .ok (j, m') ↔
      wireType = 2 ∧ ∃ b, readBytes data i = .ok (b, j) ∧ set b m = .ok m' := by
  unfold readValue
  dsimp only
  by_cases hw : wireType = 2
  · rw [if_neg (not_not.mpr hw), except_bind_eq_ok_iff]
    simp [hw, except_map_eq_ok_iff]
  · simp [hw]

theorem readValue_none_eq_ok_iff (hdata : data.length < 2 ^ 63) :
    readValue none data preIndex wireType i m = .ok (j, m') ↔
      m = m' ∧ ∃ bs tl n, data.drop preIndex = bs ++ tl ∧ j = preIndex + bs.length ∧
        Record n bs := by
  unfold readValue
  dsimp only
  rw [except_bind_eq_ok_iff]
  constructor
  · rintro ⟨k, hskip, h⟩
    split_ifs at h with hlimit hend
    obtain ⟨rfl, rfl⟩ := Prod.mk.inj (Except.ok.inj h)
    have hk : k ≤ (data.drop preIndex).length := by
      rw [List.length_drop]
      omega
    obtain ⟨-, bs, tl, n, hdrop, rfl, hrecord⟩ := (skip_eq_ok_iff hk).mp hskip
    exact ⟨rfl, bs, tl, n, hdrop, rfl, hrecord⟩
  · rintro ⟨rfl, bs, tl, n, hdrop, rfl, hrecord⟩
    obtain ⟨t, rest, rfl, ht, -⟩ := hrecord.tag
    have hend := add_length_le hdrop (List.append_ne_nil_of_left_ne_nil ht.ne_nil rest)
    have hk : (t ++ rest).length ≤ (data.drop preIndex).length := by
      rw [List.length_drop]
      omega
    refine ⟨_, (skip_eq_ok_iff hk).mpr ⟨by omega, t ++ rest, tl, n, hdrop, rfl, hrecord⟩, ?_⟩
    rw [if_neg (by omega), if_neg (by omega)]

end Value

namespace Schema

/-- One field: the index after it, and the message with its value. -/
def readField (S : Schema M) (data : List UInt8) (preIndex : ℕ) (m : M) :
    Except String (ℕ × M) := do
  let (wire, i) ← readVarint data preIndex
  let fieldNum := fieldNumber wire
  let wireType := (wire &&& 7).toNat
  if wireType = 4 then .error ("proto: " ++ S.name ++ ": wiretype end group for non-group")
  else if fieldNum ≤ 0 then
    .error ("proto: " ++ S.name ++ ": illegal tag " ++ toString fieldNum ++ " (wire type " ++
      toString wire ++ ")")
  else readValue (S.reader fieldNum) data preIndex wireType i m

/-- What a record does to a message. -/
inductive Reads (S : Schema M) : List UInt8 → M → M → Prop
  | uint64 {t v : List UInt8} {n k : ℕ} {name : String} {set : UInt64 → M → M} {m : M} :
      IsVarint 10 t n → 0 < fieldNumber (.ofNat n) →
      S.reader (fieldNumber (.ofNat n)) = some (.uint64 name set) → n % 8 = 0 →
      IsVarint 10 v k → S.Reads (t ++ v) m (set (.ofNat k) m)
  | bytes {t d b : List UInt8} {n : ℕ} {name : String} {set : List UInt8 → M → Except String M}
      {m m' : M} :
      IsVarint 10 t n → 0 < fieldNumber (.ofNat n) →
      S.reader (fieldNumber (.ofNat n)) = some (.bytes name set) → n % 8 = 2 →
      Delimited b d → set b m = .ok m' → S.Reads (t ++ d) m m'
  | unknown {n : ℕ} {bs : List UInt8} {m : M} : Record n bs → 0 < fieldNumber (.ofNat n) →
      S.reader (fieldNumber (.ofNat n)) = none → S.Reads bs m m

theorem Reads.ne_nil {S : Schema M} {bs : List UInt8} {m m' : M} (h : S.Reads bs m m') :
    bs ≠ [] := by
  cases h with
  | uint64 ht => exact List.append_ne_nil_of_left_ne_nil ht.ne_nil _
  | bytes ht => exact List.append_ne_nil_of_left_ne_nil ht.ne_nil _
  | unknown hrecord =>
    obtain ⟨t, rest, rfl, ht, -⟩ := hrecord.tag
    exact List.append_ne_nil_of_left_ne_nil ht.ne_nil _

theorem readField_eq_ok_iff_value {S : Schema M} {data : List UInt8} {i j : ℕ} {m m' : M} :
    S.readField data i m = .ok (j, m') ↔ ∃ t tl n, data.drop i = t ++ tl ∧ IsVarint 10 t n ∧
      n % 8 ≠ 4 ∧ 0 < fieldNumber (.ofNat n) ∧
      readValue (S.reader (fieldNumber (.ofNat n))) data i (n % 8) (i + t.length) m =
        .ok (j, m') := by
  unfold readField
  rw [except_bind_eq_ok_iff]
  constructor
  · rintro ⟨⟨wire, i'⟩, hread, h⟩
    obtain ⟨t, tl, n, hdrop, ht, rfl, rfl⟩ := readVarint_eq_ok_iff.mp hread
    dsimp only at h
    rw [toNat_and_seven] at h
    by_cases hstop : n % 8 = 4
    · rw [if_pos hstop] at h
      cases h
    by_cases hnum : fieldNumber (.ofNat n) ≤ 0
    · rw [if_neg hstop, if_pos hnum] at h
      cases h
    · rw [if_neg hstop, if_neg hnum] at h
      exact ⟨t, tl, n, hdrop, ht, hstop, Int32.not_le.mp hnum, h⟩
  · rintro ⟨t, tl, n, hdrop, ht, hstop, hpos, h⟩
    refine ⟨_, readVarint_eq_ok_iff.mpr ⟨t, tl, n, hdrop, ht, rfl, rfl⟩, ?_⟩
    dsimp only
    rw [toNat_and_seven, if_neg hstop, if_neg (Int32.not_le.mpr hpos)]
    exact h

/-- One field is read where a record stands that the message can read. -/
theorem readField_eq_ok_iff {S : Schema M} {data : List UInt8} {i j : ℕ} {m m' : M}
    (hdata : data.length < 2 ^ 63) :
    S.readField data i m = .ok (j, m') ↔
      ∃ bs tl, data.drop i = bs ++ tl ∧ j = i + bs.length ∧ S.Reads bs m m' := by
  rw [readField_eq_ok_iff_value]
  constructor
  · rintro ⟨t, tl, n, hdrop, ht, hstop, hpos, h⟩
    have hrest := drop_add_length hdrop
    rcases hreader : S.reader (fieldNumber (.ofNat n)) with _ | ⟨name, set⟩ | ⟨name, set⟩
    · rw [hreader] at h
      obtain ⟨rfl, bs, tl', k, hdrop', rfl, hrecord⟩ := (readValue_none_eq_ok_iff hdata).mp h
      have hsame : UInt64.ofNat k = UInt64.ofNat n := by
        obtain ⟨t', rest, rfl, ht', -⟩ := hrecord.tag
        rw [List.append_assoc] at hdrop'
        have hread := readVarint_eq_ok_iff.mpr ⟨t, tl, n, hdrop, ht, rfl, rfl⟩
        have hread' := readVarint_eq_ok_iff.mpr ⟨t', rest ++ tl', k, hdrop', ht', rfl, rfl⟩
        exact (Prod.mk.inj (Except.ok.inj (hread'.symm.trans hread))).1
      rw [← hsame] at hpos hreader
      exact ⟨bs, tl', hdrop', rfl, .unknown hrecord hpos hreader⟩
    · rw [hreader] at h
      obtain ⟨hn, v, hread, rfl⟩ := readValue_uint64_eq_ok_iff.mp h
      obtain ⟨hd, tl', k, hdrop', hv, rfl, rfl⟩ := readVarint_eq_ok_iff.mp hread
      rw [hrest] at hdrop'
      refine ⟨t ++ hd, tl', ?_, ?_, .uint64 ht hpos hreader hn hv⟩
      · rw [hdrop, hdrop', List.append_assoc]
      · rw [List.length_append, Nat.add_assoc]
    · rw [hreader] at h
      obtain ⟨hn, b, hread, hset⟩ := readValue_bytes_eq_ok_iff.mp h
      obtain ⟨-, hd, tl', hdrop', hb, rfl⟩ := readBytes_eq_ok_iff.mp hread
      rw [hrest] at hdrop'
      refine ⟨t ++ hd, tl', ?_, ?_, .bytes ht hpos hreader hn hb hset⟩
      · rw [hdrop, hdrop', List.append_assoc]
      · rw [List.length_append, Nat.add_assoc]
  · rintro ⟨bs, tl, hdrop, rfl, hreads⟩
    have hend := add_length_le hdrop hreads.ne_nil
    cases hreads with
    | @uint64 t v n k name set m ht hpos hreader hn hv =>
      rw [List.append_assoc] at hdrop
      refine ⟨t, v ++ tl, n, hdrop, ht, by omega, hpos, ?_⟩
      rw [hreader, List.length_append, ← Nat.add_assoc]
      exact readValue_uint64_eq_ok_iff.mpr ⟨hn, _, readVarint_eq_ok_iff.mpr
        ⟨v, tl, k, drop_add_length hdrop, hv, rfl, rfl⟩, rfl⟩
    | @bytes t d b n name set m m' ht hpos hreader hn hb hset =>
      rw [List.append_assoc] at hdrop
      rw [List.length_append, ← Nat.add_assoc] at hend ⊢
      refine ⟨t, d ++ tl, n, hdrop, ht, by omega, hpos, ?_⟩
      rw [hreader]
      exact readValue_bytes_eq_ok_iff.mpr ⟨hn, b, readBytes_eq_ok_iff.mpr
        ⟨by omega, d, tl, drop_add_length hdrop, hb, rfl⟩, hset⟩
    | @unknown n bs m hrecord hpos hreader =>
      obtain ⟨t, rest, rfl, ht, hstop⟩ := hrecord.tag
      refine ⟨t, rest ++ tl, n, by rw [hdrop, List.append_assoc], ht, hstop, hpos, ?_⟩
      rw [hreader]
      exact (readValue_none_eq_ok_iff hdata).mpr ⟨rfl, _, tl, n, hdrop, rfl, hrecord⟩

theorem readField_lt {S : Schema M} {data : List UInt8} {i j : ℕ} {m m' : M}
    (h : S.readField data i m = .ok (j, m')) : i < j := by
  obtain ⟨t, tl, n, -, ht, -, -, h⟩ := readField_eq_ok_iff_value.mp h
  have hpos := List.length_pos_iff.mpr ht.ne_nil
  rcases hreader : S.reader (fieldNumber (.ofNat n)) with _ | ⟨name, set⟩ | ⟨name, set⟩ <;>
    rw [hreader] at h
  · obtain ⟨k, hskip, h⟩ := except_bind_eq_ok_iff.mp h
    have hk := skipFrom_lt hskip
    split_ifs at h
    obtain ⟨rfl, -⟩ := Prod.mk.inj (Except.ok.inj h)
    omega
  · obtain ⟨-, v, hread, -⟩ := readValue_uint64_eq_ok_iff.mp h
    have := readVarint_lt hread
    omega
  · obtain ⟨-, b, hread, -⟩ := readValue_bytes_eq_ok_iff.mp h
    obtain ⟨-, hd, tl, -, -, rfl⟩ := readBytes_eq_ok_iff.mp hread
    omega

/-- The fields from an index on. -/
def unmarshalFrom (S : Schema M) (data : List UInt8) (i : ℕ) (m : M) : Except String M :=
  if i < data.length then
    match _h : S.readField data i m with
    | .error e => .error e
    | .ok (j, m) => S.unmarshalFrom data j m
  else if data.length < i then .error errUnexpectedEOF
  else .ok m
termination_by data.length - i
decreasing_by
  have := readField_lt _h
  omega

/-- The fields of a message, each of which changes it. -/
def unmarshal (S : Schema M) (data : List UInt8) (m : M) : Except String M :=
  S.unmarshalFrom data 0 m

/-- Records, one after the other. -/
inductive ReadsAll (S : Schema M) : List UInt8 → M → M → Prop
  | nil {m : M} : S.ReadsAll [] m m
  | cons {bs cs : List UInt8} {m m₁ m' : M} : S.Reads bs m m₁ → S.ReadsAll cs m₁ m' →
      S.ReadsAll (bs ++ cs) m m'

theorem unmarshalFrom_of_lt {S : Schema M} {data : List UInt8} {i : ℕ} (hi : i < data.length)
    (m : M) : S.unmarshalFrom data i m =
      S.readField data i m >>= fun r => S.unmarshalFrom data r.1 r.2 := by
  rw [unmarshalFrom, if_pos hi]
  split
  · next e he => rw [he]; rfl
  · next j m₁ he => rw [he]; rfl

theorem unmarshalFrom_of_ge {S : Schema M} {data : List UInt8} {i : ℕ} (hi : data.length ≤ i)
    {m m' : M} : S.unmarshalFrom data i m = .ok m' ↔ i = data.length ∧ m = m' := by
  rw [unmarshalFrom, if_neg (Nat.not_lt.mpr hi)]
  split_ifs with hend
  · constructor
    · intro h
      cases h
    · rintro ⟨hend', -⟩
      exact absurd hend (Nat.not_lt.mpr hend'.le)
  · exact ⟨fun h => ⟨by omega, Except.ok.inj h⟩, fun h => by rw [h.2]⟩

theorem unmarshalFrom_eq_ok_iff {S : Schema M} {data : List UInt8} {i : ℕ} {m m' : M}
    (hdata : data.length < 2 ^ 63) (hi : i ≤ data.length) :
    S.unmarshalFrom data i m = .ok m' ↔ S.ReadsAll (data.drop i) m m' := by
  induction hk : data.length - i using Nat.strongRecOn generalizing i m with
  | ind k ih =>
    rcases Nat.lt_or_ge i data.length with hlt | hge
    · rw [unmarshalFrom_of_lt hlt, except_bind_eq_ok_iff]
      constructor
      · rintro ⟨⟨j, m₁⟩, hfield, h⟩
        have hpos := readField_lt hfield
        obtain ⟨bs, tl, hdrop, rfl, hreads⟩ := (readField_eq_ok_iff hdata).mp hfield
        have hend := add_length_le hdrop hreads.ne_nil
        have hall := (ih _ (by omega) hend rfl).mp h
        rw [drop_add_length hdrop] at hall
        rw [hdrop]
        exact .cons hreads hall
      · intro h
        generalize hrest : data.drop i = rest at h
        cases h with
        | nil => exact absurd (List.drop_eq_nil_iff.mp hrest) (Nat.not_le.mpr hlt)
        | @cons bs cs m m₁ m' hreads hall =>
          have hend := add_length_le hrest hreads.ne_nil
          have hpos := List.length_pos_iff.mpr hreads.ne_nil
          refine ⟨(i + bs.length, m₁), (readField_eq_ok_iff hdata).mpr
            ⟨bs, cs, hrest, rfl, hreads⟩, ?_⟩
          refine (ih _ (by omega) hend rfl).mpr ?_
          rwa [drop_add_length hrest]
    · rw [unmarshalFrom_of_ge hge, List.drop_eq_nil_iff.mpr hge]
      constructor
      · rintro ⟨-, rfl⟩
        exact .nil
      · intro h
        generalize hrest : ([] : List UInt8) = rest at h
        cases h with
        | nil => exact ⟨Nat.le_antisymm hi hge, rfl⟩
        | cons hreads _ => exact absurd (List.append_eq_nil_iff.mp hrest.symm).1 hreads.ne_nil

/-- **The messages that are accepted.** A message is accepted exactly when it is a sequence of
records that can be read, and what is read is what they do, one after the other. -/
theorem unmarshal_eq_ok_iff {S : Schema M} {data : List UInt8} {m m' : M}
    (hdata : data.length < 2 ^ 63) :
    S.unmarshal data m = .ok m' ↔ S.ReadsAll data m m' := by
  have h : S.unmarshal data m = .ok m' ↔ S.ReadsAll (data.drop 0) m m' :=
    unmarshalFrom_eq_ok_iff hdata (Nat.zero_le _)
  rwa [List.drop_zero] at h

/-! ## Reading what was written -/

/-- Reading the fields makes the second message of the first, as long as indexes reach. -/
def Restores (S : Schema M) (fs : Fields) (m m' : M) : Prop :=
  fs.encode.length < 2 ^ 63 → S.ReadsAll fs.encode m m'

section Written

variable {S : Schema M} {m m₁ m' : M} {number : ℕ} {name : String} {rest : Fields}

theorem isVarint_tag (wireType : ℕ) (hnumber : number < 16) (hwire : wireType < 8) :
    IsVarint 10 [Fields.tag number wireType] (8 * number + wireType) := by
  have h := isVarint_of_lt 9 (n := 8 * number + wireType) (by omega)
  rwa [varint_of_lt (by omega)] at h

theorem fieldNumber_tag (wireType : ℕ) (hnumber : 1 ≤ number ∧ number ≤ 15) (hwire : wireType < 8) :
    0 < fieldNumber (.ofNat (8 * number + wireType)) ∧
      fieldNumber (.ofNat (8 * number + wireType)) = Int32.ofNat number := by
  have hall : ∀ (k : Fin 16) (w : Fin 8), 1 ≤ k.val →
      0 < fieldNumber (.ofNat (8 * k.val + w.val)) ∧
        fieldNumber (.ofNat (8 * k.val + w.val)) = Int32.ofNat k.val := by decide
  exact hall ⟨number, Nat.lt_succ_of_le hnumber.2⟩ ⟨wireType, hwire⟩ hnumber.1

theorem isVarint_toNat (v : UInt64) : IsVarint 10 (varint v.toNat) v.toNat :=
  isVarint_varint (k := 9) (Nat.lt_trans v.toNat_lt (by decide))

theorem delimited_lengthVarint {b : List UInt8} (hb : b.length < 2 ^ 63) :
    Delimited b (lengthVarint b.length ++ b) := by
  refine .mk (isVarint_toNat (.ofNat b.length)) ?_
  rw [UInt64.toNat_ofNat']
  omega

theorem Restores.nil : S.Restores .nil m m := fun _ => .nil

theorem Restores.varint {set : UInt64 → M → M} (hnumber : 1 ≤ number ∧ number ≤ 15)
    (hreader : S.reader (Int32.ofNat number) = some (.uint64 name set)) {v : UInt64}
    (hrest : S.Restores rest (set v m) m') : S.Restores (.varint number v rest) m m' := by
  intro hlength
  simp only [Fields.encode, List.length_cons, List.length_append] at hlength
  obtain ⟨hgt, heq⟩ := fieldNumber_tag 0 hnumber (by decide)
  have hread := Reads.uint64 (S := S) (m := m)
    (isVarint_tag 0 (Nat.lt_succ_of_le hnumber.2) (by decide)) hgt (heq ▸ hreader) (by omega)
    (isVarint_toNat v)
  rw [UInt64.ofNat_toNat] at hread
  exact .cons hread (hrest (by omega))

theorem Restores.bytes {set : List UInt8 → M → Except String M} (hnumber : 1 ≤ number ∧ number ≤ 15)
    (hreader : S.reader (Int32.ofNat number) = some (.bytes name set)) {b : List UInt8}
    (hset : set b m = .ok m₁) (hrest : S.Restores rest m₁ m') :
    S.Restores (.bytes number b rest) m m' := by
  intro hlength
  simp only [Fields.encode, List.length_cons, List.length_append] at hlength
  obtain ⟨hgt, heq⟩ := fieldNumber_tag 2 hnumber (by decide)
  have hread := Reads.bytes (S := S)
    (isVarint_tag 2 (Nat.lt_succ_of_le hnumber.2) (by decide)) hgt (heq ▸ hreader) (by omega)
    (delimited_lengthVarint (by omega)) hset
  have hall := ReadsAll.cons hread (hrest (by omega))
  rw [List.append_assoc, List.append_assoc] at hall
  exact hall

/-- A nested message is read as its bytes. -/
theorem Restores.message {set : List UInt8 → M → Except String M}
    (hnumber : 1 ≤ number ∧ number ≤ 15)
    (hreader : S.reader (Int32.ofNat number) = some (.bytes name set)) {body : Fields}
    (hset : body.encode.length < 2 ^ 63 → set body.encode m = .ok m₁)
    (hrest : S.Restores rest m₁ m') : S.Restores (.message number body rest) m m' := by
  intro hlength
  have hbody : body.encode.length < 2 ^ 63 := by
    simp only [Fields.encode, List.length_cons, List.length_append] at hlength
    omega
  exact Restores.bytes hnumber hreader (hset hbody) hrest hlength

theorem Restores.optVarint {set : UInt64 → M → M} (hnumber : 1 ≤ number ∧ number ≤ 15)
    (hreader : S.reader (Int32.ofNat number) = some (.uint64 name set)) {v : UInt64}
    (hzero : v = 0 → set v m = m) (hrest : S.Restores rest (set v m) m') :
    S.Restores (.optVarint number v rest) m m' := by
  unfold Fields.optVarint
  split_ifs with hv
  · rwa [hzero hv] at hrest
  · exact .varint hnumber hreader hrest

theorem Restores.optBytes {set : List UInt8 → M → Except String M}
    (hnumber : 1 ≤ number ∧ number ≤ 15)
    (hreader : S.reader (Int32.ofNat number) = some (.bytes name set)) {b : List UInt8}
    (hset : set b m = .ok m₁) (hempty : b = [] → m₁ = m) (hrest : S.Restores rest m₁ m') :
    S.Restores (.optBytes number b rest) m m' := by
  unfold Fields.optBytes
  split_ifs with hb
  · rwa [hempty hb] at hrest
  · exact .bytes hnumber hreader hset hrest

/-- Messages under one number are added one after the other. -/
theorem Restores.repeated {A : Type} {set : List UInt8 → M → Except String M}
    (hnumber : 1 ≤ number ∧ number ≤ 15)
    (hreader : S.reader (Int32.ofNat number) = some (.bytes name set)) {body : A → Fields}
    {add : M → A → M} {xs : List A}
    (hset : ∀ x ∈ xs, (body x).encode.length < 2 ^ 63 → ∀ m,
      set (body x).encode m = .ok (add m x))
    (hrest : S.Restores rest (xs.foldl add m) m') :
    S.Restores (.repeated number (xs.map body) rest) m m' := by
  induction xs generalizing m with
  | nil => exact hrest
  | cons x xs ih =>
    refine .message hnumber hreader (fun hx => hset x List.mem_cons_self hx m) ?_
    exact ih (fun y hy => hset y (List.mem_cons_of_mem _ hy)) hrest

/-- What is written is read back. -/
theorem Restores.unmarshal_marshal {fs : Fields} (h : S.Restores fs m m')
    (hsize : fs.size < 2 ^ 63) : ∃ data, fs.marshal = some data ∧ data.length = fs.size ∧
      S.unmarshal data m = .ok m' := by
  rw [Fields.size_eq] at hsize
  exact ⟨fs.encode, fs.marshal_eq, fs.size_eq.symm, (unmarshal_eq_ok_iff hsize).mpr (h hsize)⟩

end Written

end Schema

end Program
