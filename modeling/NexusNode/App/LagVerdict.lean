import NexusNode.App.PeerLag
import NexusNode.Evm.Codec

/-!
# The verdict on the head lag

The check of the trusted peer is meant to compare two heights as integers. Its verdict is compared
here with that of the integers themselves: the height that the body denotes, of any size, and the
local height in its full range. The two differ for a height that is `null`, which is read as zero,
and for local heights from `2 ^ 63` on, which are read as negative numbers.

## Main definitions

* `StatusTypes`: the fields of a status have the expected types
* `decimalInteger`, `integerOf`: the integer that a text or a JSON value denotes
* `peerHeight`, `heightRead`: the height that a body denotes, and the one that is read
* `lagVerdict`, `exactVerdict`: the verdict on the numbers read, and that of the integers

## Main results

* `parseInt_eq_ok_iff`, `parseJSONInt64_eq_ok_iff`: what is read as a 64-bit integer
* `checkTrustedPeerLag_exact_iff`: when the check gives the verdict of the integers
-/

namespace NexusNode

open Program

/-! ## Integers of texts -/

/-- The digits of a number, at least one. -/
def IsDigits (digits : Bytes) : Prop := digits ≠ [] ∧ ∀ c ∈ digits, 48 ≤ c ∧ c ≤ 57

instance (digits : Bytes) : Decidable (IsDigits digits) := inferInstanceAs (Decidable (_ ∧ _))

/-- The number of digits with a sign. -/
def signedInteger (negative : Bool) (digits : Bytes) : Option ℤ :=
  if IsDigits digits then
    some (if negative then -(decimalValue 0 digits : ℤ) else decimalValue 0 digits)
  else none

/-- The integer that a text writes in decimal, with an optional sign. -/
def decimalInteger : Bytes → Option ℤ
  | 43 :: digits => signedInteger false digits
  | 45 :: digits => signedInteger true digits
  | digits => signedInteger false digits

/-- The integer that a JSON value denotes: an integer literal, or a string that holds one with
blanks around it. -/
def integerOf : Json → Option ℤ
  | .num literal => decimalInteger (goBytes literal)
  | .str s => decimalInteger (goBytes (trimSpace s))
  | _ => none

theorem toInt_ofInt_of_fits {z : ℤ} (h : Fits z) : (Int64.ofInt z).toInt = z := by
  rw [Int64.toInt_ofInt, show (Int64.size : ℕ) = 2 ^ 64 from rfl, bmod_of_fits h]

/-- A number is read as the `Int64` with its value. -/
theorem ofInt_eq_iff {z : ℤ} (h : Fits z) {n : Int64} : Int64.ofInt z = n ↔ n.toInt = z := by
  rw [← Int64.toInt_inj, toInt_ofInt_of_fits h, eq_comm]

/-- A number that fits is returned, and one that does not fit is refused. -/
theorem ok_ofInt_iff {x : ℤ} (h : Fits x) {n : Int64} :
    (.ok (Int64.ofInt x) : Except NumError Int64) = .ok n ↔
      ∃ z, some x = some z ∧ Fits z ∧ n.toInt = z := by
  rw [Except.ok.injEq, ofInt_eq_iff h]
  constructor
  · intro hn
    exact ⟨x, rfl, h, hn⟩
  · rintro ⟨z, hz, -, hn⟩
    rw [hn, Option.some.inj hz]

theorem error_iff_of_not_fits {x : ℤ} (h : ¬ Fits x) {n : Int64} (e : NumError) :
    (.error e : Except NumError Int64) = .ok n ↔
      ∃ z, some x = some z ∧ Fits z ∧ n.toInt = z := by
  refine iff_of_false (by simp) ?_
  rintro ⟨z, hz, hfits, -⟩
  obtain rfl := Option.some.inj hz
  exact h hfits

theorem parseSigned_eq_ok_iff {negative : Bool} {digits : Bytes} {n : Int64} :
    parseSigned negative digits = .ok n ↔
      ∃ z, signedInteger negative digits = some z ∧ Fits z ∧ n.toInt = z := by
  unfold parseSigned signedInteger
  by_cases hnil : digits = []
  · simp [hnil, IsDigits]
  rw [if_neg hnil]
  have hloop (v : ℕ) := @parseUintLoop_eq_ok_iff 0 v digits (by omega)
  cases hread : parseUintLoop 0 digits with
  | error e =>
    -- the loop refuses only what is no number, or too large a number
    refine iff_of_false (by simp) ?_
    rintro ⟨z, hz, ⟨hlow, hhigh⟩, -⟩
    split_ifs at hz with hdigits hneg <;> obtain rfl := Option.some.inj hz
    · have := (hloop _).mpr ⟨hdigits.2, by omega, rfl⟩
      cases hread.symm.trans this
    · have := (hloop _).mpr ⟨hdigits.2, by omega, rfl⟩
      cases hread.symm.trans this
  | ok v =>
    obtain ⟨hdigits, hlt, rfl⟩ := (hloop v).mp hread
    rw [if_pos (show IsDigits digits from ⟨hnil, hdigits⟩)]
    dsimp only
    cases negative with
    | false =>
      simp only [Bool.false_eq_true, if_false]
      by_cases hmax : 2 ^ 63 ≤ decimalValue 0 digits
      · rw [if_pos hmax]
        exact error_iff_of_not_fits (fun hfits => by have := hfits.2; omega) _
      · rw [if_neg hmax, ← Int64.ofInt_eq_ofNat]
        exact ok_ofInt_iff ⟨by omega, by omega⟩
    | true =>
      rw [if_pos rfl, if_pos rfl]
      by_cases hmax : 2 ^ 63 < decimalValue 0 digits
      · rw [if_pos hmax]
        exact error_iff_of_not_fits (fun hfits => by have := hfits.1; omega) _
      · rw [if_neg hmax]
        exact ok_ofInt_iff ⟨by omega, by omega⟩

/-- **What `strconv.ParseInt` reads**: the decimal integers that fit 64 bits. -/
theorem parseInt_eq_ok_iff {s : String} {n : Int64} :
    parseInt s = .ok n ↔ ∃ z, decimalInteger (goBytes s) = some z ∧ Fits z ∧ n.toInt = z := by
  unfold parseInt
  generalize goBytes s = text
  fun_cases decimalInteger text with
  | case1 digits => exact parseSigned_eq_ok_iff
  | case2 digits => exact parseSigned_eq_ok_iff
  | case3 text hplus hminus =>
    split
    · next digits => exact absurd rfl (hplus digits)
    · next digits => exact absurd rfl (hminus digits)
    · exact parseSigned_eq_ok_iff

/-- **What is read as a height**: `null` as zero, and else the integers that fit 64 bits. -/
theorem parseJSONInt64_eq_ok_iff {j : Json} {n : Int64} :
    parseJSONInt64 j = .ok n ↔
      j = .null ∧ n = 0 ∨ ∃ z, integerOf j = some z ∧ Fits z ∧ n.toInt = z := by
  cases j with
  | null => simp [parseJSONInt64, unmarshal, int64Decoder, integerOf, eq_comm]
  | str s =>
    rw [show integerOf (.str s) = decimalInteger (goBytes (trimSpace s)) from rfl,
      ← parseInt_eq_ok_iff]
    cases h : parseInt (trimSpace s) <;> simp [parseJSONInt64, h]
  | num literal =>
    rw [show integerOf (.num literal) = decimalInteger (goBytes literal) from rfl,
      ← parseInt_eq_ok_iff]
    cases h : parseInt literal <;> simp [parseJSONInt64, unmarshal, int64Decoder, h]
  | _ => simp [parseJSONInt64, unmarshal, int64Decoder, Decoder.skip, integerOf]

/-! ## The status that a body gives -/

/-- The members of the sync info have the expected types; the height may be anything. -/
def SyncInfoTypes (j : Json) : Prop :=
  j = .null ∨ ∃ ms, j = .obj ms ∧ Decoder.MembersIn
    [("catching_up", fun j => j = .null ∨ ∃ b, j = .bool b),
      ("latest_block_height", fun _ => True)] ms

def StatusResultTypes (j : Json) : Prop :=
  j = .null ∨ ∃ ms, j = .obj ms ∧ Decoder.MembersIn [("sync_info", SyncInfoTypes)] ms

/-- The fields of the response have the expected types. -/
def StatusTypes (j : Json) : Prop :=
  j = .null ∨ ∃ ms, j = .obj ms ∧ Decoder.MembersIn
    [("result", StatusResultTypes), ("error", fun _ => True)] ms

theorem accepts_syncInfoDecoder : Decoder.Accepts syncInfoDecoder SyncInfoTypes :=
  .struct (.field (.pointer Decoder.accepts_bool (.inl rfl)) (.field Decoder.accepts_raw .nil))

theorem accepts_statusResultDecoder : Decoder.Accepts statusResultDecoder StatusResultTypes :=
  .struct (.field (.pointer accepts_syncInfoDecoder (.inl rfl)) .nil)

/-- The response is decoded if its fields have the expected types. -/
theorem accepts_statusResponseDecoder : Decoder.Accepts statusResponseDecoder StatusTypes :=
  .struct (.field (.pointer accepts_statusResultDecoder (.inl rfl))
    (.field (.pointer Decoder.accepts_raw trivial) .nil))

/-- The status that a JSON value has; a field of another type is skipped. -/
def statusOf (j : Json) : StatusResponse :=
  match statusResponseDecoder j ⟨none, none⟩ with
  | .ok d => d.value
  | .error _ => ⟨none, none⟩

/-- The height of a status without an error, as it stands in the text. -/
def StatusResponse.height (s : StatusResponse) : Option Json :=
  match s.error with
  | some _ => none
  | none => (s.result.bind StatusResult.syncInfo).bind SyncInfo.latestBlockHeight

/-- The height in a body, as it stands in the text. -/
def bodyHeight (peer : Peer) (body : Bytes) : Option Json :=
  match peer.parseText body with
  | .error _ => none
  | .ok j => (statusOf j).height

/-- The height that a body denotes: an integer from `0` to `2 ^ 63 - 1`. -/
def peerHeight (peer : Peer) (body : Bytes) : Option ℤ :=
  ((bodyHeight peer body).bind integerOf).filter fun h => 0 ≤ h ∧ h < 2 ^ 63

/-- What the code reads for the height: a 64-bit integer that is not negative. -/
def heightRead (peer : Peer) (body : Bytes) : Option Int64 :=
  ((bodyHeight peer body).bind fun j => (parseJSONInt64 j).toOption).filter fun n => 0 ≤ n

theorem parseCometStatusJSON_height {peer : Peer} {body : Bytes}
    (htypes : ∀ j, peer.parseText body = .ok j → StatusTypes j) :
    (parseCometStatusJSON peer.rawText (peer.parseText body)).toOption.bind
        CometStatusParsed.latestBlockHeight =
      (bodyHeight peer body).bind fun j => (parseJSONInt64 j).toOption := by
  unfold parseCometStatusJSON bodyHeight
  cases hbody : peer.parseText body with
  | error e => rfl
  | ok j =>
    obtain ⟨wrap, hwrap⟩ := (accepts_statusResponseDecoder j ⟨none, none⟩).mpr (htypes j hbody)
    have hdecoded : unmarshal statusResponseDecoder (.ok j) ⟨none, none⟩ = .ok wrap :=
      unmarshal_eq_ok_iff.mpr ⟨j, rfl, hwrap⟩
    have hstatus : statusOf j = wrap := by rw [statusOf, hwrap]
    simp only [hdecoded, hstatus, StatusResponse.height]
    cases wrap.error with
    | some e => rfl
    | none =>
      rcases wrap.result.bind StatusResult.syncInfo with _ | ⟨catchingUp, _ | j⟩
      · rfl
      · rfl
      · dsimp only [Option.bind_some]
        cases parseJSONInt64 j <;> rfl

/-! ## The verdict -/

/-- The verdict on a height: whether there is one, and whether it is near enough. -/
def lagVerdict {α : Type} (near : α → Bool) : Option α → Except ReadinessErrorKind Unit
  | none => .error .trustedPeerResponse
  | some h => if near h then .ok () else .error .headLag

/-- The verdict of the integers. -/
def exactVerdict (height : Option ℤ) (localHeight maxLag : UInt64) :
    Except ReadinessErrorKind Unit :=
  lagVerdict (fun h => |h - (localHeight.toNat : ℤ)| ≤ maxLag.toNat) height

/-- The peer is asked and answers with a body of at most one mebibyte. -/
structure PeerAnswers (peer : Peer) (url headers : String) (body : Bytes) : Prop where
  url_ne : trimSpace url ≠ ""
  reply : ∃ extra, parseOptionalJSONHeaders peer headers = .ok extra ∧
    peer.newRequest url = .ok () ∧ peer.send url extra = .ok ⟨200, .ok body⟩
  length_le : body.length ≤ 2 ^ 20

/-- The verdict of the code is one on the height that it reads, with the distance as it computes
it. -/
theorem checkTrustedPeerLag_verdict {peer : Peer} {url headers : String} {body : Bytes}
    (hpeer : PeerAnswers peer url headers body)
    (htypes : ∀ j, peer.parseText body = .ok j → StatusTypes j) (localHeight maxLag : UInt64) :
    (checkTrustedPeerLag peer localHeight url headers maxLag).mapError ReadinessError.kind =
      lagVerdict (fun n => headLag localHeight n ≤ maxLag) (heightRead peer body) := by
  obtain ⟨hurl, ⟨extra, hheaders, hrequest, hsend⟩, hlength⟩ := hpeer
  unfold checkTrustedPeerLag heightRead
  rw [← parseCometStatusJSON_height htypes]
  simp only [hurl, hheaders, hrequest, hsend, List.take_of_length_le hlength, if_false, ne_eq,
    not_true_eq_false]
  rcases parseCometStatusJSON peer.rawText (peer.parseText body) with e | ⟨c, _ | n⟩
  · rfl
  · rfl
  · dsimp only [Except.toOption, Option.bind_some]
    by_cases hneg : n < 0
    · have hfilter : (some n).filter (fun n => 0 ≤ n) = none := by simpa using hneg
      rw [if_pos hneg, hfilter]
      rfl
    · have hfilter : (some n).filter (fun n => 0 ≤ n) = some n := by simpa using hneg
      rw [if_neg hneg, hfilter]
      by_cases hlag : maxLag < headLag localHeight n
      · simp [lagVerdict, Except.mapError, hlag]
      · simp [lagVerdict, Except.mapError, hlag, UInt64.not_lt.mp hlag]

/-- A height that is read and near the local one passes the check. -/
theorem checkTrustedPeerLag_of_near {peer : Peer} {url headers : String} {body : Bytes}
    (hpeer : PeerAnswers peer url headers body)
    (htypes : ∀ j, peer.parseText body = .ok j → StatusTypes j) {localHeight maxLag : UInt64}
    {n : Int64} (hread : heightRead peer body = some n) (hnear : headLag localHeight n ≤ maxLag) :
    checkTrustedPeerLag peer localHeight url headers maxLag = .ok () := by
  have hverdict := checkTrustedPeerLag_verdict hpeer htypes localHeight maxLag
  rw [hread, lagVerdict, if_pos (decide_eq_true hnear)] at hverdict
  cases hcheck : checkTrustedPeerLag peer localHeight url headers maxLag with
  | ok u => rfl
  | error e =>
    rw [hcheck] at hverdict
    cases hverdict

/-- A height that is not `null` is read as the integer that it denotes. -/
theorem heightRead_cases {peer : Peer} {body : Bytes} (hnull : bodyHeight peer body ≠ some .null) :
    (peerHeight peer body = none ∧ heightRead peer body = none) ∨
      ∃ n : Int64, 0 ≤ n.toInt ∧ n.toInt < 2 ^ 63 ∧ peerHeight peer body = some n.toInt ∧
        heightRead peer body = some n := by
  unfold peerHeight heightRead
  rcases hj : bodyHeight peer body with _ | j
  · exact .inl ⟨rfl, rfl⟩
  rw [Option.bind_some, Option.bind_some]
  have hread (n : Int64) : parseJSONInt64 j = .ok n ↔
      ∃ z, integerOf j = some z ∧ Fits z ∧ n.toInt = z :=
    parseJSONInt64_eq_ok_iff.trans (or_iff_right fun h => hnull (hj.trans (congrArg some h.1)))
  cases hparsed : parseJSONInt64 j with
  | ok n =>
    obtain ⟨z, hz, ⟨hlow, hhigh⟩, rfl⟩ := (hread n).mp hparsed
    have hle : 0 ≤ n ↔ 0 ≤ n.toInt := Int64.le_iff_toInt_le
    by_cases hn : 0 ≤ n.toInt
    · refine .inr ⟨n, hn, hhigh, ?_, ?_⟩
      · rw [hz]
        exact Option.filter_some_pos (decide_eq_true ⟨hn, hhigh⟩)
      · exact Option.filter_some_pos (decide_eq_true (hle.mpr hn))
    · refine .inl ⟨?_, ?_⟩
      · rw [hz]
        exact Option.filter_some_neg (by simp [hn])
      · exact Option.filter_some_neg (by simpa [hle] using hn)
  | error e =>
    refine .inl ⟨?_, rfl⟩
    cases hz : integerOf j with
    | none => rfl
    | some z =>
      by_contra hsome
      have hrange : 0 ≤ z ∧ z < 2 ^ 63 := by simpa using hsome
      have hfits : Fits z := ⟨by omega, hrange.2⟩
      have := (hread (Int64.ofInt z)).mpr ⟨z, hz, hfits, toInt_ofInt_of_fits hfits⟩
      cases hparsed.symm.trans this

theorem heightRead_of_null {peer : Peer} {body : Bytes}
    (hnull : bodyHeight peer body = some .null) :
    peerHeight peer body = none ∧ heightRead peer body = some 0 := by
  simp only [peerHeight, heightRead, hnull, Option.bind_some]
  exact ⟨rfl, rfl⟩

theorem lagVerdict_some_eq_iff {α β : Type} {near : α → Bool} {near' : β → Bool} {a : α} {b : β} :
    lagVerdict near (some a) = lagVerdict near' (some b) ↔ (near a ↔ near' b) := by
  cases ha : near a <;> cases hb : near' b <;> simp [lagVerdict, ha, hb]

/-- The code's distance is the exact one for local heights below `2 ^ 63`, and else what is left
of it to `2 ^ 64`. -/
theorem headLag_le_iff (localHeight maxLag : UInt64) {n : Int64} (h₀ : 0 ≤ n.toInt)
    (h₁ : n.toInt < 2 ^ 63) :
    headLag localHeight n ≤ maxLag ↔
      if localHeight.toNat < 2 ^ 63 then |n.toInt - localHeight.toNat| ≤ maxLag.toNat
      else 2 ^ 64 - (localHeight.toNat - n.toInt) ≤ maxLag.toNat := by
  rw [UInt64.le_iff_toNat_le, ← Int.ofNat_le, headLag_toNat, toInt_toInt64]
  have hlt : localHeight.toNat < 2 ^ 64 := localHeight.toNat_lt
  split_ifs with hlow
  · rw [bmod_of_fits ⟨by omega, by omega⟩]
  · have hwrap : (localHeight.toNat : ℤ).bmod (2 ^ 64) = localHeight.toNat - 2 ^ 64 := by
      rw [← Int.sub_bmod_right]
      exact bmod_of_fits ⟨by omega, by omega⟩
    rw [hwrap, abs_of_nonneg (by omega)]
    constructor <;> intro h <;> omega

/-- **When the verdict is exact**: the height is not `null`, and for a local height from `2 ^ 63`
on, the bound takes both or neither of the distance and what is left of it to `2 ^ 64`. -/
theorem checkTrustedPeerLag_exact_iff {peer : Peer} {url headers : String} {body : Bytes}
    (hpeer : PeerAnswers peer url headers body)
    (htypes : ∀ j, peer.parseText body = .ok j → StatusTypes j) (localHeight maxLag : UInt64) :
    (checkTrustedPeerLag peer localHeight url headers maxLag).mapError ReadinessError.kind =
        exactVerdict (peerHeight peer body) localHeight maxLag ↔
      bodyHeight peer body ≠ some .null ∧
        (2 ^ 63 ≤ localHeight.toNat → ∀ h, peerHeight peer body = some h →
          ((localHeight.toNat : ℤ) - h ≤ maxLag.toNat ↔
            2 ^ 64 - ((localHeight.toNat : ℤ) - h) ≤ maxLag.toNat)) := by
  rw [checkTrustedPeerLag_verdict hpeer htypes]
  unfold exactVerdict
  by_cases hnull : bodyHeight peer body = some .null
  · -- a height is read where there is none
    obtain ⟨hexact, hread⟩ := heightRead_of_null hnull
    refine iff_of_false ?_ fun h => h.1 hnull
    rw [hexact, hread]
    cases hnear : decide (headLag localHeight 0 ≤ maxLag) <;> simp [lagVerdict, hnear]
  rcases heightRead_cases hnull with ⟨hexact, hread⟩ | ⟨n, h₀, h₁, hexact, hread⟩
  · rw [hexact, hread]
    simp [lagVerdict, hnull]
  · rw [hexact, hread, lagVerdict_some_eq_iff, decide_eq_true_iff, decide_eq_true_iff,
      headLag_le_iff localHeight maxLag h₀ h₁]
    simp only [ne_eq, hnull, not_false_eq_true, true_and, Option.some.injEq, forall_eq']
    split_ifs with hlow
    · simp only [true_iff, iff_self]
      omega
    · rw [abs_sub_comm, abs_of_nonneg (by omega)]
      exact ⟨fun h _ => h.symm, fun h => (h (by omega)).symm⟩

section Sample

/-- A status with the given height. -/
def statusWith (height : Json) : Json :=
  .obj [("result", .obj [("sync_info", .obj [("latest_block_height", height)])])]

def statusText (height : Json) : Bytes := goBytes (.ofList (statusWith height).render)

/-- A peer that sends that status. -/
def peerWith (height : Json) : Peer where
  parseText := jsonText
  rawText j := .ofList j.render
  newRequest _ := .ok ()
  send _ _ := .ok ⟨200, .ok (statusText height)⟩

theorem readable_statusWith {height : Json} (h : ∀ depth, height.Readable depth) :
    (statusWith height).Readable maxNestingDepth := by
  refine @Json.Readable.obj 9999 _ (List.forall_mem_singleton.mpr ?_)
  refine @Json.Readable.obj 9998 _ (List.forall_mem_singleton.mpr ?_)
  exact @Json.Readable.obj 9997 _ (List.forall_mem_singleton.mpr (h 9997))

theorem statusResponseDecoder_statusWith (height : Json) :
    statusResponseDecoder (statusWith height) ⟨none, none⟩ =
      .ok ⟨⟨some ⟨some ⟨none, some height⟩⟩, none⟩, none⟩ := by
  have hne : foldName "catching_up" ≠ foldName "latest_block_height" := by decide
  simp only [statusResponseDecoder, statusResultDecoder, syncInfoDecoder, statusWith,
    Decoder.struct, Decoder.members, Decoder.member, Decoder.field, Decoder.pointer, Decoder.raw,
    Decoder.custom, List.find?, decide_true, hne, decide_false, Except.map]
  rfl

theorem statusTypes_statusWith (height : Json) : StatusTypes (statusWith height) :=
  (accepts_statusResponseDecoder _ ⟨none, none⟩).mp ⟨_, statusResponseDecoder_statusWith height⟩

/-- The peer answers with its height. -/
theorem peerWith_answers {height : Json} (h : ∀ depth, height.Readable depth)
    (hlength : (statusText height).length ≤ 2 ^ 20) :
    PeerAnswers (peerWith height) "http://peer:26657/status" "" (statusText height) ∧
      (∀ j, (peerWith height).parseText (statusText height) = .ok j → StatusTypes j) ∧
      bodyHeight (peerWith height) (statusText height) = some height := by
  have hparse : (peerWith height).parseText (statusText height) = .ok (statusWith height) :=
    jsonText_render (readable_statusWith h)
  refine ⟨⟨by decide +kernel, ⟨[], if_pos (by decide +kernel), rfl, rfl⟩, hlength⟩, ?_, ?_⟩
  · intro j hj
    obtain rfl := Except.ok.inj (hparse.symm.trans hj)
    exact statusTypes_statusWith height
  · simp only [bodyHeight, hparse, statusOf, statusResponseDecoder_statusWith]
    rfl

theorem checkTrustedPeerLag_exact_near :
    (checkTrustedPeerLag (peerWith (.str "5")) 3 "http://peer:26657/status" "" 2).mapError
        ReadinessError.kind =
      exactVerdict (peerHeight (peerWith (.str "5")) (statusText (.str "5"))) 3 2 := by
  obtain ⟨hpeer, htypes, hheight⟩ :=
    @peerWith_answers (.str "5") (fun _ => .str "5") (by decide +kernel)
  refine (checkTrustedPeerLag_exact_iff hpeer htypes 3 2).mpr ⟨?_, ?_⟩
  · rw [hheight]
    exact fun h => nomatch h
  · intro hlocal
    exact absurd hlocal (by decide)

/-- A height that is `null` is taken for zero, and a local height of `2 ^ 64 - 1` is taken to be
one block from it. -/
theorem checkTrustedPeerLag_not_exact :
    (∃ body, PeerAnswers (peerWith .null) "http://peer:26657/status" "" body ∧
      (∀ j, (peerWith .null).parseText body = .ok j → StatusTypes j) ∧
      peerHeight (peerWith .null) body = none ∧
      checkTrustedPeerLag (peerWith .null) 0 "http://peer:26657/status" "" 0 = .ok ()) ∧
    (∃ body, PeerAnswers (peerWith (.str "0")) "http://peer:26657/status" "" body ∧
      (∀ j, (peerWith (.str "0")).parseText body = .ok j → StatusTypes j) ∧
      peerHeight (peerWith (.str "0")) body = some 0 ∧
      checkTrustedPeerLag (peerWith (.str "0")) 18446744073709551615 "http://peer:26657/status" ""
        1 = .ok ()) := by
  constructor
  · obtain ⟨hpeer, htypes, hheight⟩ := @peerWith_answers .null (fun _ => .null) (by decide +kernel)
    obtain ⟨hnone, hread⟩ := heightRead_of_null hheight
    exact ⟨_, hpeer, htypes, hnone, checkTrustedPeerLag_of_near hpeer htypes hread (by decide)⟩
  · obtain ⟨hpeer, htypes, hheight⟩ :=
      @peerWith_answers (.str "0") (fun _ => .str "0") (by decide +kernel)
    have hread : heightRead (peerWith (.str "0")) (statusText (.str "0")) = some 0 := by
      rw [heightRead, hheight]
      decide +kernel
    refine ⟨_, hpeer, htypes, ?_, checkTrustedPeerLag_of_near hpeer htypes hread (by decide)⟩
    rw [peerHeight, hheight]
    decide +kernel

end Sample

end NexusNode
