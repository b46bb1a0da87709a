import NexusNode.Program.Proc
import NexusNode.Program.WireFormat

/-!
# Parsing the wire format

Numbers, bytes after their length, and records that are skipped: a number, bytes, a value of
fixed size, or a group of records up to its end. Indexes are those of a machine, so that a length
may be too large for them.

## Main definitions

* `readVarint`, `readBytes`, `skip`: the readers
* `IsVarint`, `Delimited`, `Record`: numbers, bytes and records as they may be written

## Main results

* `readVarint_eq_ok_iff`, `readBytes_eq_ok_iff`: the numbers and bytes that are read
* `skip_eq_ok_iff`: records are skipped, and nothing else
-/

namespace Program

/-! ## Numbers -/

def errIntOverflow : String := "proto: integer overflow"

def errUnexpectedEOF : String := "unexpected EOF"

def errInvalidLength : String := "proto: negative length found during unmarshaling"

def errUnexpectedEndOfGroup : String := "proto: unexpected end of group"

/-- A varint, and the number of its bytes. The bits that do not fit are lost. -/
def readVarintFrom (shift : ℕ) (acc : UInt64) (bs : List UInt8) : Except String (UInt64 × ℕ) :=
  if 64 ≤ shift then .error errIntOverflow
  else match bs with
    | [] => .error errUnexpectedEOF
    | b :: bs =>
      let acc := acc ||| ((b &&& 0x7F).toUInt64 <<< UInt64.ofNat shift)
      if b < 0x80 then .ok (acc, 1)
      else (readVarintFrom (shift + 7) acc bs).map fun (v, n) => (v, n + 1)

/-- The varint at an index, and the index after it. -/
def readVarint (data : List UInt8) (i : ℕ) : Except String (UInt64 × ℕ) :=
  (readVarintFrom 0 0 (data.drop i)).map fun (v, n) => (v, i + n)

/-- At most `k` bytes that are read as the number `n`, before its bits beyond 64 are lost. -/
inductive IsVarint : ℕ → List UInt8 → ℕ → Prop
  | last {k : ℕ} {b : UInt8} : b.toNat < 128 → IsVarint (k + 1) [b] b.toNat
  | more {k n : ℕ} {b : UInt8} {bs : List UInt8} : 128 ≤ b.toNat → IsVarint k bs n →
      IsVarint (k + 1) (b :: bs) (b.toNat % 128 + 128 * n)

theorem IsVarint.ne_nil {k n : ℕ} {bs : List UInt8} (h : IsVarint k bs n) : bs ≠ [] := by
  cases h with
  | last => exact List.cons_ne_nil _ _
  | more => exact List.cons_ne_nil _ _

theorem isVarint_of_lt (k : ℕ) {n : ℕ} (h : n < 128) : IsVarint (k + 1) (varint n) n := by
  have hb := UInt8.toNat_ofNat_of_lt' (Nat.lt_trans h (by decide))
  have hlast := IsVarint.last (k := k) (b := UInt8.ofNat n) (hb.symm ▸ h)
  rw [varint_of_lt h]
  rwa [hb] at hlast

theorem isVarint_varint {k n : ℕ} (h : n < 128 ^ (k + 1)) : IsVarint (k + 1) (varint n) n := by
  induction k generalizing n with
  | zero => exact isVarint_of_lt 0 h
  | succ k ih =>
    rcases Nat.lt_or_ge n 128 with hn | hn
    · exact isVarint_of_lt (k + 1) hn
    · have hb : (UInt8.ofNat (n % 128 + 128)).toNat = n % 128 + 128 :=
        UInt8.toNat_ofNat_of_lt' (by change _ < 256; omega)
      have hdiv : n / 128 < 128 ^ (k + 1) := by
        rw [Nat.div_lt_iff_lt_mul (by decide), ← Nat.pow_succ]
        exact h
      have hmore := IsVarint.more (b := UInt8.ofNat (n % 128 + 128)) (by omega) (ih hdiv)
      rw [hb, Nat.add_mod_right, Nat.mod_mod, Nat.mod_add_div] at hmore
      rwa [varint_of_ge hn]

/-- Seven more bits, above those that were read. -/
theorem toNat_or_shiftLeft {acc : UInt64} {shift : ℕ} (hacc : acc.toNat < 2 ^ shift)
    (hshift : shift < 64) (b : UInt8) :
    (acc ||| ((b &&& 0x7F).toUInt64 <<< UInt64.ofNat shift)).toNat =
      (acc.toNat + 2 ^ shift * (b.toNat % 128)) % 2 ^ 64 := by
  have hlow : (b &&& 0x7F).toUInt64.toNat = b.toNat % 128 := by
    rw [UInt8.toNat_toUInt64, UInt8.toNat_and]
    exact Nat.and_two_pow_sub_one_eq_mod b.toNat 7
  have hs : (UInt64.ofNat shift).toNat % 64 = shift := by
    rw [UInt64.toNat_ofNat']
    omega
  rw [UInt64.toNat_or, UInt64.toNat_shiftLeft, hlow, hs, Nat.shiftLeft_eq, Nat.mul_comm]
  generalize b.toNat % 128 = x
  have hpow : 2 ^ 64 = 2 ^ shift * 2 ^ (64 - shift) := by
    rw [← Nat.pow_add, Nat.add_sub_cancel' hshift.le]
  have hx : acc.toNat + 2 ^ shift * (x % 2 ^ (64 - shift)) < 2 ^ 64 := by
    calc acc.toNat + 2 ^ shift * (x % 2 ^ (64 - shift))
        < 2 ^ shift * (x % 2 ^ (64 - shift) + 1) := by rw [Nat.mul_succ]; omega
      _ ≤ 2 ^ shift * 2 ^ (64 - shift) :=
          Nat.mul_le_mul_left _ (Nat.mod_lt _ (Nat.two_pow_pos _))
      _ = 2 ^ 64 := hpow.symm
  -- the bits that are kept do not overlap with those that were read
  calc acc.toNat ||| 2 ^ shift * x % 2 ^ 64
      = 2 ^ shift * (x % 2 ^ (64 - shift)) ||| acc.toNat := by
        rw [hpow, Nat.mul_mod_mul_left, Nat.or_comm]
    _ = acc.toNat + 2 ^ shift * (x % 2 ^ (64 - shift)) := by
        rw [← Nat.two_pow_add_eq_or_of_lt hacc, Nat.add_comm]
    _ = (acc.toNat + 2 ^ shift * (x % 2 ^ (64 - shift)) + 2 ^ 64 * (x / 2 ^ (64 - shift))) %
          2 ^ 64 := by rw [Nat.add_mul_mod_self_left, Nat.mod_eq_of_lt hx]
    _ = (acc.toNat + 2 ^ shift * x) % 2 ^ 64 := by
        rw [hpow, Nat.mul_assoc, Nat.add_assoc, ← Nat.mul_add, Nat.mod_add_div]

theorem readVarintFrom_cons_of_lt {shift : ℕ} (hshift : shift < 64) (acc : UInt64) {b : UInt8}
    (bs : List UInt8) (hb : b.toNat < 128) :
    readVarintFrom shift acc (b :: bs) =
      .ok (acc ||| ((b &&& 0x7F).toUInt64 <<< UInt64.ofNat shift), 1) := by
  have hlt : b < 0x80 := hb
  rw [readVarintFrom, if_neg (Nat.not_le.mpr hshift)]
  exact if_pos hlt

theorem readVarintFrom_cons_of_ge {shift : ℕ} (hshift : shift < 64) (acc : UInt64) {b : UInt8}
    (bs : List UInt8) (hb : 128 ≤ b.toNat) :
    readVarintFrom shift acc (b :: bs) =
      (readVarintFrom (shift + 7) (acc ||| ((b &&& 0x7F).toUInt64 <<< UInt64.ofNat shift)) bs).map
        fun (v, n) => (v, n + 1) := by
  have hge : ¬ b < 0x80 := Nat.not_lt.mpr hb
  rw [readVarintFrom, if_neg (Nat.not_le.mpr hshift)]
  exact if_neg hge

/-- One more byte: the bits read so far, and where the next ones go. -/
theorem varint_step {acc : UInt64} {shift : ℕ} (hacc : acc.toNat < 2 ^ shift)
    (hshift : shift < 64) (b : UInt8) (n : ℕ) :
    let acc' := acc ||| ((b &&& 0x7F).toUInt64 <<< UInt64.ofNat shift)
    acc'.toNat < 2 ^ (shift + 7) ∧
      (acc'.toNat + 2 ^ (shift + 7) * n) % 2 ^ 64 =
        (acc.toNat + 2 ^ shift * (b.toNat % 128 + 128 * n)) % 2 ^ 64 := by
  intro acc'
  have hacc' : acc'.toNat = _ := toNat_or_shiftLeft hacc hshift b
  have hpow : 2 ^ (shift + 7) = 2 ^ shift * 128 := Nat.pow_add 2 shift 7
  constructor
  · rw [hacc', hpow]
    have hbits : b.toNat % 128 + 1 ≤ 128 := Nat.mod_lt _ (by decide)
    refine Nat.lt_of_le_of_lt (Nat.mod_le _ _) ?_
    have := Nat.mul_le_mul_left (2 ^ shift) hbits
    rw [Nat.mul_succ] at this
    omega
  · rw [hacc', Nat.mod_add_mod, hpow, Nat.mul_add, Nat.mul_assoc, Nat.add_assoc]

theorem readVarintFrom_eq_ok_iff {k shift : ℕ} {acc : UInt64} {bs : List UInt8} {v : UInt64}
    {c : ℕ} (hk : shift + 7 * k = 70) (hacc : acc.toNat < 2 ^ shift) :
    readVarintFrom shift acc bs = .ok (v, c) ↔
      ∃ hd tl n, bs = hd ++ tl ∧ IsVarint k hd n ∧ c = hd.length ∧
        v.toNat = (acc.toNat + 2 ^ shift * n) % 2 ^ 64 := by
  induction bs generalizing k shift acc v c with
  | nil =>
    constructor
    · intro h
      rw [readVarintFrom] at h
      split_ifs at h
    · rintro ⟨hd, tl, n, hnil, hvar, -⟩
      exact absurd (List.append_eq_nil_iff.mp hnil.symm).1 hvar.ne_nil
  | cons b bs ih =>
    cases k with
    | zero =>
      constructor
      · intro h
        rw [readVarintFrom, if_pos (by omega)] at h
        cases h
      · rintro ⟨hd, tl, n, -, hvar, -⟩
        cases hvar
    | succ k =>
      have hshift : shift < 64 := by omega
      rcases Nat.lt_or_ge b.toNat 128 with hb | hb
      · rw [readVarintFrom_cons_of_lt hshift acc bs hb, Except.ok.injEq, Prod.mk.injEq]
        have hread := toNat_or_shiftLeft hacc hshift b
        rw [Nat.mod_eq_of_lt hb] at hread
        constructor
        · rintro ⟨rfl, rfl⟩
          exact ⟨[b], bs, b.toNat, rfl, .last hb, rfl, hread⟩
        · rintro ⟨hd, tl, n, heq, hvar, rfl, hv⟩
          cases hvar with
          | last =>
            obtain ⟨rfl, rfl⟩ := List.cons.inj heq
            exact ⟨UInt64.toNat_inj.mp (hread.trans hv.symm), rfl⟩
          | more hge =>
            obtain ⟨rfl, -⟩ := List.cons.inj heq
            exact absurd hb (Nat.not_lt.mpr hge)
      · rw [readVarintFrom_cons_of_ge hshift acc bs hb]
        obtain ⟨hacc', -⟩ := varint_step hacc hshift b 0
        have hstep := fun n => (varint_step hacc hshift b n).2
        rw [except_map_eq_ok_iff]
        constructor
        · rintro ⟨⟨v', c'⟩, hread, hpair⟩
          obtain ⟨rfl, rfl⟩ := Prod.mk.inj hpair
          obtain ⟨hd, tl, n, rfl, hvar, rfl, hv⟩ := (ih (k := k) (by omega) hacc').mp hread
          exact ⟨b :: hd, tl, _, rfl, .more hb hvar, rfl, hv.trans (hstep n)⟩
        · rintro ⟨hd, tl, n, heq, hvar, rfl, hv⟩
          cases hvar with
          | last hlt =>
            obtain ⟨rfl, -⟩ := List.cons.inj heq
            exact absurd hlt (Nat.not_lt.mpr hb)
          | more hge hrest =>
            obtain ⟨rfl, rfl⟩ := List.cons.inj heq
            refine ⟨(v, _), (ih (k := k) (by omega) hacc').mpr
              ⟨_, tl, _, rfl, hrest, rfl, hv.trans (hstep _).symm⟩, rfl⟩

/-- A varint is read where one stands, modulo `2 ^ 64`. -/
theorem readVarint_eq_ok_iff {data : List UInt8} {i j : ℕ} {v : UInt64} :
    readVarint data i = .ok (v, j) ↔ ∃ hd tl n, data.drop i = hd ++ tl ∧ IsVarint 10 hd n ∧
      j = i + hd.length ∧ v = UInt64.ofNat n := by
  have hzero : (0 : UInt64).toNat < 2 ^ 0 := by decide
  have hvalue (v : UInt64) (n : ℕ) :
      v.toNat = ((0 : UInt64).toNat + 2 ^ 0 * n) % 2 ^ 64 ↔ v = UInt64.ofNat n := by
    rw [← UInt64.toNat_inj, UInt64.toNat_ofNat']
    simp
  unfold readVarint
  rw [except_map_eq_ok_iff]
  constructor
  · rintro ⟨⟨v', c⟩, hread, hpair⟩
    obtain ⟨rfl, rfl⟩ := Prod.mk.inj hpair
    obtain ⟨hd, tl, n, hdrop, hvar, rfl, hv⟩ :=
      (readVarintFrom_eq_ok_iff (k := 10) rfl hzero).mp hread
    exact ⟨hd, tl, n, hdrop, hvar, rfl, (hvalue v' n).mp hv⟩
  · rintro ⟨hd, tl, n, hdrop, hvar, rfl, hv⟩
    exact ⟨(v, hd.length), (readVarintFrom_eq_ok_iff (k := 10) rfl hzero).mpr
      ⟨hd, tl, n, hdrop, hvar, rfl, (hvalue v n).mpr hv⟩, rfl⟩

theorem readVarint_lt {data : List UInt8} {i j : ℕ} {v : UInt64}
    (h : readVarint data i = .ok (v, j)) : i < j := by
  obtain ⟨hd, tl, n, -, hvar, rfl, -⟩ := readVarint_eq_ok_iff.mp h
  exact Nat.lt_add_of_pos_right (List.length_pos_iff.mpr hvar.ne_nil)

theorem toNat_and_seven (n : ℕ) : (UInt64.ofNat n &&& 7).toNat = n % 8 := by
  have hand : (UInt64.ofNat n).toNat &&& 7 = (UInt64.ofNat n).toNat % 8 :=
    Nat.and_two_pow_sub_one_eq_mod _ 3
  rw [UInt64.toNat_and]
  change (UInt64.ofNat n).toNat &&& 7 = _
  rw [hand, UInt64.toNat_ofNat']
  omega

theorem drop_add_length {data hd tl : List UInt8} {i : ℕ} (h : data.drop i = hd ++ tl) :
    data.drop (i + hd.length) = tl := by
  rw [← List.drop_drop, h, List.drop_left]

theorem add_length_le {data hd tl : List UInt8} {i : ℕ} (h : data.drop i = hd ++ tl)
    (hne : hd ≠ []) : i + hd.length ≤ data.length := by
  have hlength := congrArg List.length h
  have hpos := List.length_pos_iff.mpr hne
  rw [List.length_drop, List.length_append] at hlength
  omega

/-! ## Bytes -/

/-- The bytes at an index, after their length, and the index after them. -/
def readBytes (data : List UInt8) (i : ℕ) : Except String (List UInt8 × ℕ) := do
  let (length, i) ← readVarint data i
  if 2 ^ 63 ≤ length.toNat then .error errInvalidLength
  else
    let post := i + length.toNat
    if 2 ^ 63 ≤ post then .error errInvalidLength
    else if data.length < post then .error errUnexpectedEOF
    else .ok ((data.drop i).take length.toNat, post)

/-- The bytes after their length, modulo `2 ^ 64`. -/
inductive Delimited (b : List UInt8) : List UInt8 → Prop
  | mk {l : List UInt8} {n : ℕ} : IsVarint 10 l n → n % 2 ^ 64 = b.length → Delimited b (l ++ b)

theorem readBytes_eq_ok_iff {data b : List UInt8} {i j : ℕ} :
    readBytes data i = .ok (b, j) ↔ j < 2 ^ 63 ∧ ∃ hd tl, data.drop i = hd ++ tl ∧
      Delimited b hd ∧ j = i + hd.length := by
  unfold readBytes
  rw [except_bind_eq_ok_iff]
  constructor
  · rintro ⟨⟨length, i'⟩, hread, h⟩
    obtain ⟨l, tl, n, hdrop, hvar, rfl, rfl⟩ := readVarint_eq_ok_iff.mp hread
    dsimp only at h
    split_ifs at h with hneg hpost hend
    obtain ⟨rfl, rfl⟩ := Prod.mk.inj (Except.ok.inj h)
    have hrest := drop_add_length hdrop
    rw [UInt64.toNat_ofNat'] at *
    have htake : (tl.take (n % 2 ^ 64)).length = n % 2 ^ 64 := by
      rw [← hrest, List.length_take_of_le]
      rw [List.length_drop]
      omega
    rw [hrest]
    refine ⟨by omega, l ++ tl.take (n % 2 ^ 64), tl.drop (n % 2 ^ 64), ?_, .mk hvar htake.symm, ?_⟩
    · rw [List.append_assoc, List.take_append_drop, hdrop]
    · rw [List.length_append, htake, Nat.add_assoc]
  · rintro ⟨hj, hd, tl, hdrop, hb, rfl⟩
    obtain @⟨l, n, hvar, hlength⟩ := hb
    have hend := add_length_le hdrop (List.append_ne_nil_of_left_ne_nil hvar.ne_nil b)
    rw [List.append_assoc] at hdrop
    refine ⟨_, readVarint_eq_ok_iff.mpr ⟨l, b ++ tl, n, hdrop, hvar, rfl, rfl⟩, ?_⟩
    rw [List.length_append] at hj hend
    dsimp only
    rw [UInt64.toNat_ofNat', hlength, if_neg (by omega), if_neg (by omega), if_neg (by omega),
      drop_add_length hdrop, List.take_left, List.length_append, Nat.add_assoc]

/-! ## Records that are skipped -/

/-- The value after a tag of the given type, and the number of groups that are open after it. -/
def skipValue (data : List UInt8) (wireType depth i : ℕ) : Except String (ℕ × ℕ) :=
  match wireType with
  | 0 => (readVarint data i).map fun r => (depth, r.2)
  | 1 => .ok (depth, i + 8)
  | 2 => do
    let (length, i) ← readVarint data i
    if 2 ^ 63 ≤ length.toNat then .error errInvalidLength else .ok (depth, i + length.toNat)
  | 3 => .ok (depth + 1, i)
  | 4 => if depth = 0 then .error errUnexpectedEndOfGroup else .ok (depth - 1, i)
  | 5 => .ok (depth, i + 4)
  | w => .error ("proto: illegal wireType " ++ toString w)

def skipStep (data : List UInt8) (depth i : ℕ) : Except String (ℕ × ℕ) := do
  let (wire, i) ← readVarint data i
  let (depth, i) ← skipValue data (wire &&& 7).toNat depth i
  if 2 ^ 63 ≤ i then .error errInvalidLength else .ok (depth, i)

theorem skipValue_le {data : List UInt8} {wireType depth i d j : ℕ}
    (h : skipValue data wireType depth i = .ok (d, j)) : i ≤ j := by
  unfold skipValue at h
  split at h
  · obtain ⟨r, hread, hr⟩ := except_map_eq_ok_iff.mp h
    obtain ⟨-, rfl⟩ := Prod.mk.inj hr
    exact (readVarint_lt hread).le
  · obtain ⟨-, rfl⟩ := Prod.mk.inj (Except.ok.inj h)
    exact Nat.le_add_right _ _
  · obtain ⟨⟨length, i'⟩, hread, h⟩ := except_bind_eq_ok_iff.mp h
    dsimp only at h
    split_ifs at h
    obtain ⟨-, rfl⟩ := Prod.mk.inj (Except.ok.inj h)
    exact (readVarint_lt hread).le.trans (Nat.le_add_right _ _)
  · obtain ⟨-, rfl⟩ := Prod.mk.inj (Except.ok.inj h)
    exact Nat.le_refl _
  · split_ifs at h
    obtain ⟨-, rfl⟩ := Prod.mk.inj (Except.ok.inj h)
    exact Nat.le_refl _
  · obtain ⟨-, rfl⟩ := Prod.mk.inj (Except.ok.inj h)
    exact Nat.le_add_right _ _
  · cases h

theorem skipStep_eq_ok_iff_value {data : List UInt8} {depth i d j : ℕ} :
    skipStep data depth i = .ok (d, j) ↔ j < 2 ^ 63 ∧ ∃ t tl n, data.drop i = t ++ tl ∧
      IsVarint 10 t n ∧ skipValue data (n % 8) depth (i + t.length) = .ok (d, j) := by
  unfold skipStep
  rw [except_bind_eq_ok_iff]
  constructor
  · rintro ⟨⟨wire, i'⟩, hread, h⟩
    obtain ⟨t, tl, n, hdrop, hvar, rfl, rfl⟩ := readVarint_eq_ok_iff.mp hread
    obtain ⟨⟨d', j'⟩, hvalue, h⟩ := except_bind_eq_ok_iff.mp h
    dsimp only at h
    split_ifs at h with hj
    obtain ⟨rfl, rfl⟩ := Prod.mk.inj (Except.ok.inj h)
    rw [toNat_and_seven] at hvalue
    exact ⟨Nat.lt_of_not_le hj, t, tl, n, hdrop, hvar, hvalue⟩
  · rintro ⟨hj, t, tl, n, hdrop, hvar, hvalue⟩
    refine ⟨_, readVarint_eq_ok_iff.mpr ⟨t, tl, n, hdrop, hvar, rfl, rfl⟩, ?_⟩
    refine except_bind_eq_ok_iff.mpr ⟨(d, j), ?_, ?_⟩
    · rw [toNat_and_seven]
      exact hvalue
    · exact if_neg (Nat.not_le.mpr hj)

theorem skipStep_lt {data : List UInt8} {depth i d j : ℕ}
    (h : skipStep data depth i = .ok (d, j)) : i < j := by
  obtain ⟨-, t, tl, n, -, hvar, hvalue⟩ := skipStep_eq_ok_iff_value.mp h
  have hpos := List.length_pos_iff.mpr hvar.ne_nil
  have hle := skipValue_le hvalue
  omega

/-- Records until no group is open. -/
def skipFrom (data : List UInt8) (depth i : ℕ) : Except String ℕ :=
  if i < data.length then
    match _h : skipStep data depth i with
    | .error e => .error e
    | .ok (d, j) => if d = 0 then .ok j else skipFrom data d j
  else .error errUnexpectedEOF
termination_by data.length - i
decreasing_by
  have := skipStep_lt _h
  omega

theorem skipFrom_of_step {data : List UInt8} {depth i d j : ℕ} (hi : i < data.length)
    (hstep : skipStep data depth i = .ok (d, j)) :
    skipFrom data depth i = if d = 0 then .ok j else skipFrom data d j := by
  rw [skipFrom, if_pos hi]
  split
  · next e he =>
    rw [hstep] at he
    cases he
  · next d' j' he =>
    rw [hstep] at he
    obtain ⟨rfl, rfl⟩ := Prod.mk.inj (Except.ok.inj he)
    rfl

theorem skipFrom_lt {data : List UInt8} {depth i j : ℕ} (h : skipFrom data depth i = .ok j) :
    i < j := by
  induction hk : data.length - i using Nat.strongRecOn generalizing depth i with
  | ind k ih =>
    rw [skipFrom] at h
    split_ifs at h with hi
    split at h
    · cases h
    · next d j' hstep =>
      have hlt := skipStep_lt hstep
      split_ifs at h with hd
      · exact (Except.ok.inj h) ▸ hlt
      · exact hlt.trans (ih _ (by omega) h rfl)

/-- The size of the first record. -/
def skip (data : List UInt8) : Except String ℕ := skipFrom data 0 0

/-! ### Records as they may be written -/

/-- A record with the tag `n` that is no group. -/
inductive Flat (n : ℕ) : List UInt8 → Prop
  | varint {t v : List UInt8} {m : ℕ} : IsVarint 10 t n → n % 8 = 0 → IsVarint 10 v m →
      Flat n (t ++ v)
  | fixed64 {t b : List UInt8} : IsVarint 10 t n → n % 8 = 1 → b.length = 8 → Flat n (t ++ b)
  | bytes {t d b : List UInt8} : IsVarint 10 t n → n % 8 = 2 → Delimited b d → Flat n (t ++ d)
  | fixed32 {t b : List UInt8} : IsVarint 10 t n → n % 8 = 5 → b.length = 4 → Flat n (t ++ b)

/-- What is skipped at once, and the number of open groups before and after it. -/
inductive Token (n : ℕ) : ℕ → List UInt8 → ℕ → Prop
  | flat {d : ℕ} {bs : List UInt8} : Flat n bs → Token n d bs d
  | start {d : ℕ} {t : List UInt8} : IsVarint 10 t n → n % 8 = 3 → Token n d t (d + 1)
  | stop {d : ℕ} {t : List UInt8} : IsVarint 10 t n → n % 8 = 4 → Token n (d + 1) t d

theorem Flat.tag {n : ℕ} {bs : List UInt8} (h : Flat n bs) :
    ∃ t rest, bs = t ++ rest ∧ IsVarint 10 t n ∧ n % 8 ≠ 4 := by
  cases h with
  | varint ht hn => exact ⟨_, _, rfl, ht, by omega⟩
  | fixed64 ht hn => exact ⟨_, _, rfl, ht, by omega⟩
  | bytes ht hn => exact ⟨_, _, rfl, ht, by omega⟩
  | fixed32 ht hn => exact ⟨_, _, rfl, ht, by omega⟩

theorem Token.tag {n d d' : ℕ} {bs : List UInt8} (h : Token n d bs d') :
    ∃ t rest, bs = t ++ rest ∧ IsVarint 10 t n := by
  cases h with
  | flat hflat =>
    obtain ⟨t, rest, heq, ht, -⟩ := hflat.tag
    exact ⟨t, rest, heq, ht⟩
  | start ht => exact ⟨bs, [], (List.append_nil bs).symm, ht⟩
  | stop ht => exact ⟨bs, [], (List.append_nil bs).symm, ht⟩

theorem Token.lt_length {data bs tl : List UInt8} {n d d' i : ℕ} (h : Token n d bs d')
    (hdrop : data.drop i = bs ++ tl) : i < data.length := by
  obtain ⟨t, rest, rfl, ht⟩ := h.tag
  have hne : data.drop i ≠ [] := by
    rw [hdrop, List.append_assoc]
    exact List.append_ne_nil_of_left_ne_nil ht.ne_nil _
  rw [ne_eq, List.drop_eq_nil_iff] at hne
  exact Nat.lt_of_not_le hne

/-- Bytes that are there are split off. -/
theorem exists_split {data t tl : List UInt8} {i k : ℕ} (hdrop : data.drop i = t ++ tl)
    (hle : i + t.length + k ≤ data.length) :
    ∃ b rest, b.length = k ∧ data.drop i = (t ++ b) ++ rest := by
  refine ⟨tl.take k, tl.drop k, ?_, by rw [List.append_assoc, List.take_append_drop, hdrop]⟩
  have hlength := congrArg List.length (drop_add_length hdrop)
  rw [List.length_drop] at hlength
  rw [List.length_take_of_le (by omega)]

/-- Bytes are skipped as they would be read. -/
theorem skipValue_bytes_eq_ok_iff {data : List UInt8} {depth i d j : ℕ} (hj : j ≤ data.length)
    (hlimit : j < 2 ^ 63) :
    skipValue data 2 depth i = .ok (d, j) ↔ d = depth ∧ ∃ b, readBytes data i = .ok (b, j) := by
  unfold readBytes
  simp only [skipValue, except_bind_eq_ok_iff]
  constructor
  · rintro ⟨⟨length, i'⟩, hread, h⟩
    dsimp only at h
    split_ifs at h with hneg
    obtain ⟨rfl, rfl⟩ := Prod.mk.inj (Except.ok.inj h)
    refine ⟨rfl, (data.drop i').take length.toNat, (length, i'), hread, ?_⟩
    dsimp only
    rw [if_neg hneg, if_neg (Nat.not_le.mpr hlimit), if_neg (Nat.not_lt.mpr hj)]
  · rintro ⟨rfl, b, ⟨length, i'⟩, hread, h⟩
    dsimp only at h
    split_ifs at h with hneg
    obtain ⟨-, rfl⟩ := Prod.mk.inj (Except.ok.inj h)
    refine ⟨(length, i'), hread, ?_⟩
    dsimp only
    rw [if_neg hneg]

theorem skipStep_eq_ok_iff {data : List UInt8} {depth i d j : ℕ} (hj : j ≤ data.length) :
    skipStep data depth i = .ok (d, j) ↔ j < 2 ^ 63 ∧ ∃ bs tl n, data.drop i = bs ++ tl ∧
      j = i + bs.length ∧ Token n depth bs d := by
  rw [skipStep_eq_ok_iff_value]
  refine and_congr_right fun hlimit => ⟨?_, ?_⟩
  · rintro ⟨t, tl, n, hdrop, hvar, hvalue⟩
    unfold skipValue at hvalue
    split at hvalue
    · next hn =>
      obtain ⟨⟨v, i'⟩, hread, hr⟩ := except_map_eq_ok_iff.mp hvalue
      obtain ⟨rfl, rfl⟩ := Prod.mk.inj hr
      obtain ⟨hd, tl', m, hdrop', hvar', rfl, -⟩ := readVarint_eq_ok_iff.mp hread
      rw [drop_add_length hdrop] at hdrop'
      refine ⟨t ++ hd, tl', n, ?_, ?_, .flat (.varint hvar hn hvar')⟩
      · rw [hdrop, hdrop', List.append_assoc]
      · rw [List.length_append, Nat.add_assoc]
    · next hn =>
      obtain ⟨rfl, rfl⟩ := Prod.mk.inj (Except.ok.inj hvalue)
      obtain ⟨b, rest, hb, hsplit⟩ := exists_split hdrop hj
      refine ⟨t ++ b, rest, n, hsplit, ?_, .flat (.fixed64 hvar hn hb)⟩
      rw [List.length_append, hb, Nat.add_assoc]
    · next hn =>
      obtain ⟨rfl, b, hread⟩ := (skipValue_bytes_eq_ok_iff hj hlimit).mp hvalue
      obtain ⟨-, hd, tl', hdrop', hb, rfl⟩ := readBytes_eq_ok_iff.mp hread
      rw [drop_add_length hdrop] at hdrop'
      refine ⟨t ++ hd, tl', n, ?_, ?_, .flat (.bytes hvar hn hb)⟩
      · rw [hdrop, hdrop', List.append_assoc]
      · rw [List.length_append, Nat.add_assoc]
    · next hn =>
      obtain ⟨rfl, rfl⟩ := Prod.mk.inj (Except.ok.inj hvalue)
      exact ⟨t, tl, n, hdrop, rfl, .start hvar hn⟩
    · next hn =>
      split_ifs at hvalue with hdepth
      obtain ⟨rfl, rfl⟩ := Prod.mk.inj (Except.ok.inj hvalue)
      obtain ⟨depth, rfl⟩ := Nat.exists_eq_add_one_of_ne_zero hdepth
      exact ⟨t, tl, n, hdrop, rfl, .stop hvar hn⟩
    · next hn =>
      obtain ⟨rfl, rfl⟩ := Prod.mk.inj (Except.ok.inj hvalue)
      obtain ⟨b, rest, hb, hsplit⟩ := exists_split hdrop hj
      refine ⟨t ++ b, rest, n, hsplit, ?_, .flat (.fixed32 hvar hn hb)⟩
      rw [List.length_append, hb, Nat.add_assoc]
    · cases hvalue
  · rintro ⟨bs, tl, n, hdrop, rfl, htoken⟩
    cases htoken with
    | flat hflat =>
      cases hflat with
      | @varint t v m hvar hn hvar' =>
        rw [List.append_assoc] at hdrop
        refine ⟨t, v ++ tl, n, hdrop, hvar, ?_⟩
        have hread := readVarint_eq_ok_iff.mpr
          ⟨v, tl, m, drop_add_length hdrop, hvar', rfl, rfl⟩
        rw [hn, skipValue, hread, List.length_append, ← Nat.add_assoc]
        rfl
      | @fixed64 t b hvar hn hb =>
        rw [List.append_assoc] at hdrop
        refine ⟨t, b ++ tl, n, hdrop, hvar, ?_⟩
        rw [hn, skipValue, List.length_append, hb, Nat.add_assoc]
      | @bytes t hd b hvar hn hb =>
        rw [List.append_assoc] at hdrop
        refine ⟨t, hd ++ tl, n, hdrop, hvar, ?_⟩
        rw [List.length_append, ← Nat.add_assoc] at hj hlimit ⊢
        have hread := readBytes_eq_ok_iff.mpr ⟨hlimit, hd, tl, drop_add_length hdrop, hb, rfl⟩
        rw [hn]
        exact (skipValue_bytes_eq_ok_iff hj hlimit).mpr ⟨rfl, b, hread⟩
      | @fixed32 t b hvar hn hb =>
        rw [List.append_assoc] at hdrop
        refine ⟨t, b ++ tl, n, hdrop, hvar, ?_⟩
        rw [hn, skipValue, List.length_append, hb, Nat.add_assoc]
    | start hvar hn =>
      refine ⟨bs, tl, n, hdrop, hvar, ?_⟩
      rw [hn, skipValue]
    | stop hvar hn =>
      refine ⟨bs, tl, n, hdrop, hvar, ?_⟩
      rw [hn, skipValue, if_neg (Nat.succ_ne_zero d), Nat.add_sub_cancel]

/-- Tokens until no group is open, the first of them with the tag `n`. -/
inductive Closes : ℕ → ℕ → List UInt8 → Prop
  | last {n d : ℕ} {bs : List UInt8} : Token n d bs 0 → Closes n d bs
  | more {n m d d' : ℕ} {bs cs : List UInt8} : Token n d bs (d' + 1) → Closes m (d' + 1) cs →
      Closes n d (bs ++ cs)

theorem skipFrom_eq_ok_iff {data : List UInt8} {depth i j : ℕ} (hj : j ≤ data.length) :
    skipFrom data depth i = .ok j ↔ j < 2 ^ 63 ∧ ∃ bs tl n, data.drop i = bs ++ tl ∧
      j = i + bs.length ∧ Closes n depth bs := by
  constructor
  · intro h
    induction hk : data.length - i using Nat.strongRecOn generalizing depth i with
    | ind k ih =>
      rw [skipFrom] at h
      split_ifs at h with hi
      split at h
      · cases h
      · next d j' hstep =>
        have hlt := skipStep_lt hstep
        split_ifs at h with hd
        · obtain rfl := Except.ok.inj h
          obtain ⟨hlimit, bs, tl, n, hdrop, hj', htoken⟩ := (skipStep_eq_ok_iff hj).mp hstep
          rw [hd] at htoken
          exact ⟨hlimit, bs, tl, n, hdrop, hj', .last htoken⟩
        · obtain ⟨hlimit, cs, tl, m, hdrop', rfl, hcloses⟩ :=
            ih (data.length - j') (by omega) h rfl
          obtain ⟨-, bs, tl', n, hdrop, rfl, htoken⟩ :=
            (skipStep_eq_ok_iff (by omega)).mp hstep
          rw [drop_add_length hdrop] at hdrop'
          obtain ⟨d, rfl⟩ := Nat.exists_eq_add_one_of_ne_zero hd
          refine ⟨hlimit, bs ++ cs, tl, n, ?_, ?_, .more htoken hcloses⟩
          · rw [hdrop, hdrop', List.append_assoc]
          · rw [List.length_append, Nat.add_assoc]
  · rintro ⟨hlimit, bs, tl, n, hdrop, rfl, hcloses⟩
    induction hcloses generalizing i with
    | last htoken =>
      have hi := htoken.lt_length hdrop
      rw [skipFrom_of_step hi ((skipStep_eq_ok_iff hj).mpr ⟨hlimit, _, _, _, hdrop, rfl, htoken⟩),
        if_pos rfl]
    | @more n m d d' bs cs htoken hcloses ih =>
      rw [List.append_assoc] at hdrop
      rw [List.length_append, ← Nat.add_assoc] at hj hlimit ⊢
      have hi := htoken.lt_length hdrop
      have hstep := (skipStep_eq_ok_iff (by omega)).mpr
        ⟨by omega, _, _, _, hdrop, rfl, htoken⟩
      rw [skipFrom_of_step hi hstep, if_neg (Nat.succ_ne_zero d')]
      exact ih (drop_add_length hdrop) hj hlimit

/-- A record with the tag `n`. Groups hold records, and end with the next tag of their end that
belongs to no group inside. -/
inductive Record : ℕ → List UInt8 → Prop
  | flat {n : ℕ} {bs : List UInt8} : Flat n bs → Record n bs
  | group {n m : ℕ} {t e : List UInt8} {body : List (ℕ × List UInt8)} : IsVarint 10 t n →
      n % 8 = 3 → (∀ r ∈ body, Record r.1 r.2) → IsVarint 10 e m → m % 8 = 4 →
      Record n (t ++ ((body.map Prod.snd).flatten ++ e))

theorem Record.tag {n : ℕ} {bs : List UInt8} (h : Record n bs) :
    ∃ t rest, bs = t ++ rest ∧ IsVarint 10 t n ∧ n % 8 ≠ 4 := by
  cases h with
  | flat hflat => exact hflat.tag
  | group ht hn => exact ⟨_, _, rfl, ht, by omega⟩

/-- Records and the end of the innermost group, as often as groups are open. -/
def Ends : ℕ → List UInt8 → Prop
  | 0, bs => bs = []
  | d + 1, bs => ∃ (body : List (ℕ × List UInt8)) (e rest : List UInt8) (m : ℕ),
    (∀ r ∈ body, Record r.1 r.2) ∧ IsVarint 10 e m ∧ m % 8 = 4 ∧ Ends d rest ∧
      bs = (body.map Prod.snd).flatten ++ (e ++ rest)

theorem Ends.cons {d n : ℕ} {bs cs : List UInt8} (hbs : Record n bs) (h : Ends (d + 1) cs) :
    Ends (d + 1) (bs ++ cs) := by
  obtain ⟨body, e, rest, m, hbody, he, hm, hrest, rfl⟩ := h
  refine ⟨(n, bs) :: body, e, rest, m, List.forall_mem_cons.mpr ⟨hbs, hbody⟩, he, hm, hrest, ?_⟩
  rw [List.map_cons, List.flatten_cons, List.append_assoc]

/-- A group that is opened is a record in the one around it. -/
theorem Ends.group {d n : ℕ} {t cs : List UInt8} (ht : IsVarint 10 t n) (hn : n % 8 = 3)
    (h : Ends (d + 1) cs) : ∃ r rest, t ++ cs = r ++ rest ∧ Record n r ∧ Ends d rest := by
  obtain ⟨body, e, rest, m, hbody, he, hm, hrest, rfl⟩ := h
  refine ⟨_, rest, ?_, .group ht hn hbody he hm, hrest⟩
  rw [List.append_assoc, List.append_assoc]

theorem Closes.ends {n d : ℕ} {bs : List UInt8} (h : Closes n d bs) :
    (d = 0 → Record n bs) ∧ (d ≠ 0 → Ends d bs) := by
  induction h with
  | last htoken =>
    cases htoken with
    | flat hflat => exact ⟨fun _ => .flat hflat, fun hd => absurd rfl hd⟩
    | stop ht hn =>
      refine ⟨fun hd => absurd hd (Nat.succ_ne_zero 0), fun _ => ?_⟩
      exact ⟨[], _, [], _, by simp, ht, hn, rfl, by simp⟩
  | @more n m d d' bs cs htoken hcloses ih =>
    have hends : Ends (d' + 1) cs := ih.2 (Nat.succ_ne_zero d')
    cases htoken with
    | flat hflat =>
      exact ⟨fun hd => absurd hd (Nat.succ_ne_zero d'), fun _ => hends.cons (.flat hflat)⟩
    | start ht hn =>
      obtain ⟨r, rest, heq, hr, hrest⟩ := hends.group ht hn
      rw [heq]
      cases d with
      | zero =>
        rw [hrest, List.append_nil]
        exact ⟨fun _ => hr, fun hd => absurd rfl hd⟩
      | succ d => exact ⟨fun hd => absurd hd (Nat.succ_ne_zero d), fun _ => hrest.cons hr⟩
    | stop ht hn =>
      refine ⟨fun hd => absurd hd (Nat.succ_ne_zero _), fun _ => ?_⟩
      exact ⟨[], bs, cs, n, by simp, ht, hn, hends, by simp⟩

theorem closes_body {body : List (ℕ × List UInt8)} {d k : ℕ} {cs : List UInt8}
    (h : ∀ r ∈ body, ∀ d m cs, Closes m (d + 1) cs → Closes r.1 (d + 1) (r.2 ++ cs))
    (hcs : Closes k (d + 1) cs) : ∃ m, Closes m (d + 1) ((body.map Prod.snd).flatten ++ cs) := by
  induction body with
  | nil => exact ⟨k, hcs⟩
  | cons r body ih =>
    obtain ⟨m, hm⟩ := ih fun r' hr' => h r' (List.mem_cons_of_mem _ hr')
    refine ⟨r.1, ?_⟩
    rw [List.map_cons, List.flatten_cons, List.append_assoc]
    exact h r List.mem_cons_self d m _ hm

/-- A record is skipped, alone or inside a group. -/
theorem Record.closes {n : ℕ} {bs : List UInt8} (h : Record n bs) :
    Closes n 0 bs ∧ ∀ d m cs, Closes m (d + 1) cs → Closes n (d + 1) (bs ++ cs) := by
  induction h with
  | flat hflat => exact ⟨.last (.flat hflat), fun d m cs hcs => .more (.flat hflat) hcs⟩
  | group ht hn _ he hm ih =>
    constructor
    · obtain ⟨k, hk⟩ := closes_body (fun r hr => (ih r hr).2) (.last (.stop he hm))
      exact .more (.start ht hn) hk
    · intro d m cs hcs
      obtain ⟨k, hk⟩ := closes_body (fun r hr => (ih r hr).2) (.more (.stop he hm) hcs)
      rw [List.append_assoc, List.append_assoc]
      exact .more (.start ht hn) hk

/-- **What is skipped.** The first record, if its end can be indexed, and nothing else. -/
theorem skip_eq_ok_iff {bs : List UInt8} {j : ℕ} (hj : j ≤ bs.length) :
    skip bs = .ok j ↔ j < 2 ^ 63 ∧ ∃ hd tl n, bs = hd ++ tl ∧ j = hd.length ∧ Record n hd := by
  unfold skip
  rw [skipFrom_eq_ok_iff hj]
  simp only [List.drop_zero, Nat.zero_add]
  refine and_congr_right fun _ => ⟨?_, ?_⟩
  · rintro ⟨hd, tl, n, hbs, hj, hcloses⟩
    exact ⟨hd, tl, n, hbs, hj, hcloses.ends.1 rfl⟩
  · rintro ⟨hd, tl, n, hbs, hj, hrecord⟩
    exact ⟨hd, tl, n, hbs, hj, hrecord.closes.1⟩

end Program
