import Mathlib.Algebra.Group.Nat.Defs
import Mathlib.Data.List.Basic
import Mathlib.Data.Nat.Basic
import Mathlib.Data.Nat.Size
import Mathlib.Order.Basic

/-!
# The wire format of messages

A message on the wire is a sequence of fields, each a tag and a value: a number as a varint, or
bytes after their length. Bytes may be a message again. A message is written from its end: into
a buffer whose free part becomes smaller with every value put before the last one, so that the
length of a nested message is known when it is to be written.

## Main definitions

* `varint`: seven bits in each byte, the lowest first
* `Fields`: the fields of a message that are written
* `Fields.encode`: the bytes of a message
* `Fields.size`, `Fields.write`, `Fields.marshal`: its size, and how it is written

## Main results

* `varintSize_eq`: the number of bytes of a varint from the bits of the number
* `Fields.puts_write`: the writer puts the bytes of the message before what was written, and stops
  exactly when there is no room
* `Fields.marshal_eq`: a buffer of the size of the message is filled exactly
-/

namespace Program

/-! ## Varints -/

/-- Seven bits in each byte, the lowest first; every byte but the last has its high bit set. -/
def varint (n : ℕ) : List UInt8 :=
  if n < 128 then [UInt8.ofNat n] else UInt8.ofNat (n % 128 + 128) :: varint (n / 128)
termination_by n
decreasing_by omega

theorem varint_of_lt {n : ℕ} (h : n < 128) : varint n = [UInt8.ofNat n] := by
  rw [varint, if_pos h]

theorem varint_of_ge {n : ℕ} (h : 128 ≤ n) :
    varint n = UInt8.ofNat (n % 128 + 128) :: varint (n / 128) := by
  rw [varint, if_neg (Nat.not_lt.mpr h)]

/-- The number of bytes of a varint, from the number of bits of the value. -/
def varintSize (x : UInt64) : ℕ := (Nat.size (x ||| 1).toNat + 6) / 7

theorem varint_length_le_iff (n k : ℕ) : (varint n).length ≤ k + 1 ↔ n < 128 ^ (k + 1) := by
  induction k generalizing n with
  | zero =>
    rcases Nat.lt_or_ge n 128 with h | h
    · simp [varint_of_lt h, h]
    · have hne : varint (n / 128) ≠ [] := by
        rw [varint]
        split <;> simp
      have hpos := List.length_pos_iff.mpr hne
      rw [varint_of_ge h, List.length_cons]
      omega
  | succ k ih =>
    rcases Nat.lt_or_ge n 128 with h | h
    · have hpow : 128 ≤ 128 ^ (k + 2) := Nat.le_self_pow (Nat.succ_ne_zero _) 128
      rw [varint_of_lt h, List.length_singleton]
      exact ⟨fun _ => Nat.lt_of_lt_of_le h hpow, fun _ => by omega⟩
    · rw [varint_of_ge h, List.length_cons, Nat.succ_le_succ_iff, ih,
        Nat.div_lt_iff_lt_mul (by decide), ← Nat.pow_succ]

/-- The bits of a number say how many bytes its varint has. -/
theorem varintSize_eq (x : UInt64) : varintSize x = (varint x.toNat).length := by
  have hor : (x ||| 1).toNat = x.toNat ||| 1 := rfl
  have hne : varint x.toNat ≠ [] := by
    rw [varint]
    split <;> simp
  refine eq_of_forall_ge_iff fun k => ?_
  cases k with
  | zero =>
    have hsize : 0 < Nat.size (x ||| 1).toNat := by
      rw [Nat.size_pos, hor]
      exact Nat.lt_of_lt_of_le Nat.one_pos Nat.right_le_or
    have hpos := List.length_pos_iff.mpr hne
    unfold varintSize
    omega
  | succ k =>
    have hlt : x.toNat ||| 1 < 128 ^ (k + 1) ↔ x.toNat < 128 ^ (k + 1) := by
      rw [show (128 : ℕ) = 2 ^ 7 from rfl, ← Nat.pow_mul]
      refine ⟨Nat.lt_of_le_of_lt Nat.left_le_or, fun h => Nat.or_lt_two_pow h ?_⟩
      exact Nat.one_lt_two_pow (by omega)
    rw [varint_length_le_iff, ← hlt, ← hor, show (128 : ℕ) = 2 ^ 7 from rfl, ← Nat.pow_mul,
      ← Nat.size_le]
    unfold varintSize
    omega

/-! ## Messages -/

/-- The fields of a message that are written, in their order. -/
inductive Fields where
  | nil
  | varint (number : ℕ) (value : UInt64) (rest : Fields)
  | bytes (number : ℕ) (value : List UInt8) (rest : Fields)
  | message (number : ℕ) (body rest : Fields)

/-- The varint of a length. -/
def lengthVarint (n : ℕ) : List UInt8 := varint (UInt64.ofNat n).toNat

namespace Fields

/-- A tag of one byte. -/
def tag (number wireType : ℕ) : UInt8 := UInt8.ofNat (8 * number + wireType)

def encode : Fields → List UInt8
  | nil => []
  | varint number value rest => tag number 0 :: (Program.varint value.toNat ++ rest.encode)
  | bytes number value rest =>
    tag number 2 :: (lengthVarint value.length ++ (value ++ rest.encode))
  | message number body rest =>
    tag number 2 :: (lengthVarint body.encode.length ++ (body.encode ++ rest.encode))

def size : Fields → ℕ
  | nil => 0
  | varint _ value rest => 1 + varintSize value + rest.size
  | bytes _ value rest => 1 + value.length + varintSize (.ofNat value.length) + rest.size
  | message _ body rest => 1 + body.size + varintSize (.ofNat body.size) + rest.size

/-- A number that is written unless it is zero. -/
def optVarint (number : ℕ) (value : UInt64) (rest : Fields) : Fields :=
  if value = 0 then rest else varint number value rest

/-- Bytes that are written unless there are none. -/
def optBytes (number : ℕ) (value : List UInt8) (rest : Fields) : Fields :=
  if value = [] then rest else bytes number value rest

/-- Messages under one number. -/
def repeated (number : ℕ) (bodies : List Fields) (rest : Fields) : Fields :=
  bodies.foldr (message number) rest

theorem size_eq (fs : Fields) : fs.size = fs.encode.length := by
  induction fs with
  | nil => rfl
  | varint number value rest ih =>
    simp only [size, encode, ih, varintSize_eq, List.length_cons, List.length_append]
    omega
  | bytes number value rest ih =>
    simp only [size, encode, ih, varintSize_eq, lengthVarint, List.length_cons,
      List.length_append]
    omega
  | message number body rest ihbody ih =>
    simp only [size, encode, ihbody, ih, varintSize_eq, lengthVarint, List.length_cons,
      List.length_append]
    omega

end Fields

/-! ## Writing from the end -/

/-- A buffer, and the index from which it has been written. -/
abbrev Buffer := List UInt8 × ℕ

theorem toNat_shiftRight_seven (v : UInt64) : (v >>> 7).toNat = v.toNat / 128 :=
  (UInt64.toNat_shiftRight v 7).trans (Nat.shiftRight_eq_div_pow v.toNat 7)

/-- An assignment to one byte, which stops outside of the buffer. -/
def setByte (buf : List UInt8) (i : ℕ) (b : UInt8) : Option (List UInt8) :=
  if i < buf.length then some (buf.set i b) else none

def setVarint (buf : List UInt8) (offset : ℕ) (v : UInt64) : Option (List UInt8) :=
  if 128 ≤ v then do
    let buf ← setByte buf offset ((v &&& 0x7f) ||| 0x80).toUInt8
    setVarint buf (offset + 1) (v >>> 7)
  else setByte buf offset v.toUInt8
termination_by v.toNat
decreasing_by
  rename_i h
  have h : 128 ≤ v.toNat := h
  rw [toNat_shiftRight_seven]
  omega

/-- The number before what has been written. -/
def putVarint (v : UInt64) (s : Buffer) : Option Buffer :=
  if varintSize v ≤ s.2 then do
    let base := s.2 - varintSize v
    let buf ← setVarint s.1 base v
    return (buf, base)
  else none

/-- The byte before what has been written. -/
def putByte (b : UInt8) (s : Buffer) : Option Buffer :=
  if 1 ≤ s.2 then do
    let buf ← setByte s.1 (s.2 - 1) b
    return (buf, s.2 - 1)
  else none

/-- The bytes before what has been written. -/
def putBytes (bs : List UInt8) (s : Buffer) : Option Buffer :=
  if bs.length ≤ s.2 then
    let i := s.2 - bs.length
    -- what does not fit into the buffer is not copied
    some (s.1.take i ++ (bs ++ s.1.drop (i + bs.length)).take (s.1.length - i), i)
  else none

/-- What a program writes at the end of the free part, and its size. -/
def putNested (p : Buffer → Option Buffer) (s : Buffer) : Option (Buffer × ℕ) := do
  let free := s.1.take s.2
  let (sub, i) ← p (free, free.length)
  let size := free.length - i
  return ((sub ++ s.1.drop s.2, s.2 - size), size)

/-- The program puts these bytes before what has been written, and stops when they do not fit. -/
def Puts (p : Buffer → Option Buffer) (bs : List UInt8) : Prop :=
  ∀ free written, p (free ++ written, free.length) =
    if bs.length ≤ free.length then
      some (free.take (free.length - bs.length) ++ (bs ++ written), free.length - bs.length)
    else none

theorem setByte_append (pre : List UInt8) (b₀ b : UInt8) (post : List UInt8) :
    setByte (pre ++ b₀ :: post) pre.length b = some (pre ++ b :: post) := by
  unfold setByte
  rw [if_pos (by simp), List.set_append_right _ _ (Nat.le_refl _), Nat.sub_self, List.set_cons_zero]

/-- The byte of seven bits that others follow. -/
theorem continued_byte (v : UInt64) :
    ((v &&& 0x7f) ||| 0x80).toUInt8 = UInt8.ofNat (v.toNat % 128 + 128) := by
  have hlow : v.toNat &&& 127 = v.toNat % 128 := Nat.and_two_pow_sub_one_eq_mod v.toNat 7
  have hor : 128 + v.toNat % 128 = 128 ||| v.toNat % 128 :=
    Nat.two_pow_add_eq_or_of_lt (i := 7) (Nat.mod_lt _ (by decide)) 1
  have hbyte : ((v &&& 0x7f) ||| 0x80).toNat = v.toNat % 128 + 128 := by
    rw [UInt64.toNat_or, UInt64.toNat_and]
    change v.toNat &&& 127 ||| 128 = _
    rw [hlow, Nat.or_comm, ← hor, Nat.add_comm]
  refine UInt8.toNat_inj.mp ?_
  rw [UInt64.toNat_toUInt8, hbyte, UInt8.toNat_ofNat']

/-- The varint replaces as many bytes as it has. -/
theorem setVarint_append (pre mid post : List UInt8) (v : UInt64)
    (hmid : mid.length = (varint v.toNat).length) :
    setVarint (pre ++ (mid ++ post)) pre.length v =
      some (pre ++ (varint v.toNat ++ post)) := by
  induction h : v.toNat using Nat.strongRecOn generalizing pre mid v with
  | ind n ih =>
    subst h
    rw [setVarint]
    by_cases hv : 128 ≤ v
    · have hge : 128 ≤ v.toNat := hv
      rw [varint_of_ge hge] at hmid ⊢
      cases mid with
      | nil => cases hmid
      | cons b mid =>
        have hrest := ih (v >>> 7).toNat (by rw [toNat_shiftRight_seven]; omega)
          (pre ++ [UInt8.ofNat (v.toNat % 128 + 128)]) mid (v >>> 7)
          (by rw [toNat_shiftRight_seven]; exact Nat.succ.inj hmid) rfl
        rw [toNat_shiftRight_seven, List.length_append, List.length_singleton] at hrest
        rw [if_pos hv, List.cons_append, setByte_append, continued_byte]
        simpa using hrest
    · have hlt : v.toNat < 128 := Nat.lt_of_not_le hv
      rw [varint_of_lt hlt] at hmid ⊢
      obtain ⟨b, rfl⟩ := List.length_eq_one_iff.mp hmid
      have hbyte : v.toUInt8 = UInt8.ofNat v.toNat := rfl
      rw [if_neg hv, hbyte, List.singleton_append, setByte_append, List.singleton_append]

theorem puts_some : Puts some [] := fun free written => by simp

/-- What is put later stands before. -/
theorem Puts.bind {p q : Buffer → Option Buffer} {as bs : List UInt8} (hp : Puts p as)
    (hq : Puts q bs) : Puts (fun s => p s >>= q) (bs ++ as) := by
  intro free written
  dsimp only
  rw [hp, List.length_append]
  by_cases has : as.length ≤ free.length
  · have hq' := hq (free.take (free.length - as.length)) (as ++ written)
    rw [List.length_take_of_le (Nat.sub_le _ _)] at hq'
    rw [if_pos has, Option.bind_eq_bind, Option.bind_some, hq']
    by_cases hbs : bs.length + as.length ≤ free.length
    · rw [if_pos (by omega), if_pos hbs, List.take_take, List.append_assoc,
        Nat.min_eq_left (Nat.sub_le _ _), Nat.sub_sub, Nat.add_comm as.length]
    · rw [if_neg (by omega), if_neg hbs]
  · rw [if_neg has, if_neg (by omega)]
    rfl

/-- A free part that is long enough ends with as many bytes as are asked for. -/
theorem exists_free_end {free : List UInt8} {n : ℕ} (h : n ≤ free.length) :
    ∃ pre mid, free = pre ++ mid ∧ mid.length = n ∧ pre.length = free.length - n ∧
      free.take (free.length - n) = pre :=
  ⟨free.take (free.length - n), free.drop (free.length - n), (List.take_append_drop _ _).symm,
    by rw [List.length_drop]; omega, List.length_take_of_le (Nat.sub_le _ _), rfl⟩

theorem puts_putByte (b : UInt8) : Puts (putByte b) [b] := by
  intro free written
  unfold putByte
  dsimp only
  rw [List.length_singleton]
  split_ifs with h
  · obtain ⟨pre, mid, hfree, hmid, hpre, htake⟩ := exists_free_end h
    obtain ⟨b₀, rfl⟩ := List.length_eq_one_iff.mp hmid
    rw [htake, ← hpre, hfree, List.append_assoc, List.singleton_append, setByte_append]
    rfl
  · rfl

theorem puts_putBytes (bs : List UInt8) : Puts (putBytes bs) bs := by
  intro free written
  unfold putBytes
  dsimp only
  split_ifs with h
  · obtain ⟨pre, mid, hfree, hmid, hpre, htake⟩ := exists_free_end h
    have hdrop : (free ++ written).drop (pre.length + bs.length) = written := by
      rw [hfree, ← hmid, ← List.length_append, List.drop_left]
    rw [htake, ← hpre, hdrop, hfree, List.append_assoc, List.take_left, List.length_append,
      Nat.add_sub_cancel_left, List.take_of_length_le]
    rw [List.length_append, List.length_append, hmid]
  · rfl

theorem puts_putVarint (v : UInt64) : Puts (putVarint v) (varint v.toNat) := by
  intro free written
  unfold putVarint
  dsimp only
  rw [varintSize_eq]
  split_ifs with h
  · obtain ⟨pre, mid, hfree, hmid, hpre, htake⟩ := exists_free_end h
    rw [htake, ← hpre, hfree, List.append_assoc, setVarint_append pre mid written v hmid]
    rfl
  · rfl

theorem putNested_eq {p : Buffer → Option Buffer} {bs : List UInt8} (hp : Puts p bs)
    (free written : List UInt8) :
    putNested p (free ++ written, free.length) =
      (putBytes bs (free ++ written, free.length)).map fun s => (s, bs.length) := by
  have hbody := hp free []
  rw [List.append_nil, List.append_nil] at hbody
  rw [puts_putBytes]
  unfold putNested
  dsimp only
  rw [List.take_left, List.drop_left, hbody]
  split_ifs with h
  · simp [Nat.sub_sub_self h]
  · rfl

/-- A nested message is put as its bytes would be. -/
theorem puts_message (tag : UInt8) {p : Buffer → Option Buffer} {bs : List UInt8}
    (hp : Puts p bs) :
    Puts (fun s => putNested p s >>= fun r => putVarint (.ofNat r.2) r.1 >>= putByte tag)
      (tag :: (lengthVarint bs.length ++ bs)) := by
  intro free written
  have hcopy := (puts_putBytes bs).bind
    ((puts_putVarint (.ofNat bs.length)).bind (puts_putByte tag)) free written
  rw [List.append_assoc] at hcopy
  refine Eq.trans ?_ hcopy
  dsimp only
  rw [putNested_eq hp]
  cases putBytes bs (free ++ written, free.length) with
  | none => rfl
  | some s => rfl

namespace Fields

/-- The fields from the last to the first, each value before its tag. A nested message is written
into the part of the buffer that is free. -/
def write : Fields → Buffer → Option Buffer
  | nil, s => some s
  | varint number value rest, s => do
    let s ← rest.write s
    let s ← putVarint value s
    putByte (tag number 0) s
  | bytes number value rest, s => do
    let s ← rest.write s
    let s ← putBytes value s
    let s ← putVarint (.ofNat value.length) s
    putByte (tag number 2) s
  | message number body rest, s => do
    let s ← rest.write s
    let (s, size) ← putNested body.write s
    let s ← putVarint (.ofNat size) s
    putByte (tag number 2) s

theorem puts_write (fs : Fields) : Puts fs.write fs.encode := by
  induction fs with
  | nil => exact puts_some
  | varint number value rest ih =>
    have h := ih.bind ((puts_putVarint value).bind (puts_putByte (tag number 0)))
    rw [List.append_assoc] at h
    exact h
  | bytes number value rest ih =>
    have h := ih.bind ((puts_putBytes value).bind
      ((puts_putVarint (.ofNat value.length)).bind (puts_putByte (tag number 2))))
    rw [List.append_assoc, List.append_assoc] at h
    exact h
  | message number body rest ihbody ih =>
    have h := ih.bind (puts_message (tag number 2) ihbody)
    rw [List.cons_append, List.append_assoc] at h
    exact h

/-- A new buffer of the size of the message, up to what the writer says it has written. -/
def marshal (fs : Fields) : Option (List UInt8) := do
  let buf := List.replicate fs.size 0
  let (buf, i) ← fs.write (buf, buf.length)
  return buf.take (buf.length - i)

theorem marshal_eq (fs : Fields) : fs.marshal = some fs.encode := by
  have hwrite := fs.puts_write (List.replicate fs.size 0) []
  rw [List.append_nil, List.length_replicate, size_eq, if_pos (Nat.le_refl _), Nat.sub_self,
    List.take_zero, List.nil_append, List.append_nil] at hwrite
  simp [marshal, size_eq, hwrite]

end Fields

end Program
