import Mathlib.Algebra.Order.Group.Abs
import NexusNode.App.Readiness
import NexusNode.Program.Json
import NexusNode.Program.Machine

/-!
# The status of the trusted peer

The last check of a readiness probe asks a trusted peer for its CometBFT status and compares the
latest block height there with the height of the committed execution block. The body is decoded
in two steps: first the envelope, with the height as it stands in the text, then the height, as a
number or as a string that holds one.

## Main definitions

* `trimSpace`: the function of the standard library on texts
* `parseCometStatusJSON`, `parseJSONInt64`: decoding of the status
* `checkTrustedPeerLag`: the check
* `PeerReports`: the peer is asked and reports a height

## Main results

* `headLag_toNat`: the distance is computed without wrapping around
* `checkTrustedPeerLag_eq_ok_iff`: with a peer that reports a height, the check is a bound on the
  distance
-/

namespace NexusNode

open Program

/-! ## Texts -/

/-- `unicode.IsSpace` -/
def isSpace (c : Char) : Bool :=
  c.val ∈ [0x09, 0x0A, 0x0B, 0x0C, 0x0D, 0x20, 0x85, 0xA0, 0x1680, 0x2028, 0x2029, 0x202F, 0x205F,
    0x3000] || (0x2000 ≤ c.val && c.val ≤ 0x200A)

/-- `strings.TrimSpace` -/
def trimSpace (s : String) : String :=
  .ofList (((s.toList.dropWhile isSpace).reverse.dropWhile isSpace).reverse)

/-- A 64-bit integer of JSON: a literal without fraction and exponent, in range. -/
def int64Decoder : Decoder Int64
  | .null, n => .ok ⟨n, none⟩
  | .num literal, n =>
    match parseInt literal with
    | .error _ => .ok ⟨n, some (.mismatch ("number " ++ literal) "int64")⟩
    | .ok v => .ok ⟨v, none⟩
  | j, n => Decoder.skip "int64" j n

/-! ## Decoding the status -/

structure SyncInfo where
  catchingUp : Option Bool
  /-- the height as it stands in the text, if it is there -/
  latestBlockHeight : Option Json

structure StatusResult where
  syncInfo : Option SyncInfo

/-- The response of the peer. -/
structure StatusResponse where
  result : Option StatusResult
  error : Option Json

def syncInfoDecoder : Decoder SyncInfo :=
  .struct "struct"
    [("catching_up", .field SyncInfo.catchingUp (fun b s => { s with catchingUp := b })
        (.pointer false .bool)),
      ("latest_block_height", .field (fun s => s.latestBlockHeight.getD .null)
        (fun j s => { s with latestBlockHeight := some j }) .raw)]

def statusResultDecoder : Decoder StatusResult :=
  .struct "struct"
    [("sync_info", .field StatusResult.syncInfo (fun s _ => ⟨s⟩)
      (.pointer ⟨none, none⟩ syncInfoDecoder))]

def statusResponseDecoder : Decoder StatusResponse :=
  .struct "struct"
    [("result", .field StatusResponse.result (fun r s => { s with result := r })
        (.pointer ⟨none⟩ statusResultDecoder)),
      ("error", .field StatusResponse.error (fun e s => { s with error := e })
        (.pointer .null .raw))]

structure CometStatusParsed where
  catchingUp : Option Bool
  latestBlockHeight : Option Int64
  deriving DecidableEq, Repr

/-- A string holds the number with blanks around it; any other value is decoded as a number. -/
def parseJSONInt64 : Json → Except String Int64
  | .str s =>
    match parseInt (trimSpace s) with
    | .error e => .error (e.parseIntText (trimSpace s))
    | .ok n => .ok n
  | j =>
    match unmarshal int64Decoder (.ok j) 0 with
    | .error e => .error e.text
    | .ok n => .ok n

/-- `parseCometStatusJSON` of a parsed body; `rawText` gives a value as it stands in the text. -/
def parseCometStatusJSON (rawText : Json → String) (body : Except String Json) :
    Except String CometStatusParsed :=
  match unmarshal statusResponseDecoder body ⟨none, none⟩ with
  | .error e => .error ("json decode: " ++ e.text)
  | .ok wrap =>
    match wrap.error with
    | some e => .error ("rpc error: " ++ rawText e)
    | none =>
      match wrap.result.bind StatusResult.syncInfo with
      | none => .error "missing sync_info"
      | some si =>
        match si.latestBlockHeight with
        | none => .ok ⟨si.catchingUp, none⟩
        | some j =>
          match parseJSONInt64 j with
          | .error e => .error ("latest_block_height: " ++ e)
          | .ok h => .ok ⟨si.catchingUp, some h⟩

/-! ## The check -/

structure HttpResponse where
  statusCode : ℤ
  /-- the whole body, unless reading it fails -/
  body : Except String Bytes

/-- The settings of the probe. -/
structure ReadinessProbeConfig where
  trustedPeerStatusURL : String
  trustedPeerHeadersJSON : String
  headLagMaxBlocks : UInt64

/-- What the check needs of the world: JSON texts and their values, and the peer. -/
structure Peer where
  parseText : Bytes → Except String Json
  rawText : Json → String
  newRequest : String → Except String Unit
  send : String → List (String × String) → Except String HttpResponse

/-- The members of a map of strings; `null` stands for the empty string. -/
def headerMembers : List (String × Json) → Except JsonError (List (String × String))
  | [] => .ok []
  | (key, .str value) :: rest => ((key, value) :: ·) <$> headerMembers rest
  | (key, .null) :: rest => ((key, "") :: ·) <$> headerMembers rest
  | (_, j) :: _ => .error (.mismatch j.kind "string")

def parseOptionalJSONHeaders (peer : Peer) (raw : String) :
    Except String (List (String × String)) :=
  if trimSpace raw = "" then .ok []
  else
    let headers : Except JsonError (List (String × String)) :=
      match peer.parseText (goBytes (trimSpace raw)) with
      | .error e => .error (.malformed e)
      | .ok .null => .ok []
      | .ok (.obj members) => headerMembers members
      | .ok j => .error (.mismatch j.kind "map[string]string")
    match headers with
    | .error e => .error ("TRUSTED_PEER_STATUS_HEADERS must be JSON object: " ++ e.text)
    | .ok h => .ok h

/-- The text of bytes, each as one character. -/
def latinText (b : Bytes) : String := .ofList (b.map fun c => Char.ofNat c.toNat)

def truncateBytes (b : Bytes) (n : ℕ) : String :=
  if b.length ≤ n then latinText b else latinText (b.take n) ++ "..."

/-- The distance of two heights, both read as signed numbers. -/
def headLag (localCommittedHeight : UInt64) (peerH : Int64) : UInt64 :=
  let lh := localCommittedHeight.toInt64
  if lh ≤ peerH then (peerH - lh).toUInt64 else (lh - peerH).toUInt64

def checkTrustedPeerLag (peer : Peer) (localCommittedHeight : UInt64)
    (peerStatusURL headersJSON : String) (maxLag : UInt64) : Except ReadinessError Unit :=
  if trimSpace peerStatusURL = "" then .ok ()
  else
    match parseOptionalJSONHeaders peer headersJSON with
    | .error e => .error ⟨.trustedPeerConfig, e⟩
    | .ok extra =>
      match peer.newRequest peerStatusURL with
      | .error e => .error ⟨.trustedPeerRequest, e⟩
      | .ok () =>
        match peer.send peerStatusURL extra with
        | .error e => .error ⟨.trustedPeerRequest, e⟩
        | .ok resp =>
          match resp.body with
          | .error e => .error ⟨.trustedPeerRequest, e⟩
          | .ok body =>
            -- at most one mebibyte of the body is read
            let b := body.take (2 ^ 20)
            if resp.statusCode ≠ 200 then
              .error ⟨.trustedPeerResponse,
                "http " ++ toString resp.statusCode ++ ": " ++ truncateBytes b 200⟩
            else
              match parseCometStatusJSON peer.rawText (peer.parseText b) with
              | .error e => .error ⟨.trustedPeerResponse, "status body: " ++ e⟩
              | .ok parsed =>
                match parsed.latestBlockHeight with
                | none => .error ⟨.trustedPeerResponse, "missing sync_info.latest_block_height"⟩
                | some peerH =>
                  if peerH < 0 then .error ⟨.trustedPeerResponse, "latest_block_height negative"⟩
                  else if maxLag < headLag localCommittedHeight peerH then
                    .error ⟨.headLag, toString (headLag localCommittedHeight peerH) ++
                      " blocks apart (local_committed=" ++ toString localCommittedHeight ++
                      " peer=" ++ toString peerH ++ " max_abs=" ++ toString maxLag ++ ")"⟩
                  else .ok ()

/-- The environment of a probe with these settings. -/
def ReadinessProbeConfig.probeEnv (cfg : ReadinessProbeConfig) (peer : Peer)
    (cometStatus : Option (Except String Bool)) : ProbeEnv where
  cometStatus := cometStatus
  checkTrustedPeerLag height :=
    checkTrustedPeerLag peer height cfg.trustedPeerStatusURL cfg.trustedPeerHeadersJSON
      cfg.headLagMaxBlocks

/-! ## The distance -/

/-- **The distance is exact**, as one of signed numbers. -/
theorem headLag_toNat (localCommittedHeight : UInt64) (peerH : Int64) :
    ((headLag localCommittedHeight peerH).toNat : ℤ) =
      |peerH.toInt - localCommittedHeight.toInt64.toInt| := by
  unfold headLag
  dsimp only
  split_ifs with h
  · rw [toNat_sub_of_le h, abs_of_nonneg]
    exact sub_nonneg.mpr (Int64.le_iff_toInt_le.mp h)
  · have hle := Int64.le_of_lt (Int64.not_le.mp h)
    rw [toNat_sub_of_le hle, abs_sub_comm, abs_of_nonneg]
    exact sub_nonneg.mpr (Int64.le_iff_toInt_le.mp hle)

/-- The peer is asked, and its answer has the height `h`. -/
structure PeerReports (peer : Peer) (cfg : ReadinessProbeConfig) (h : Int64) : Prop where
  url : trimSpace cfg.trustedPeerStatusURL ≠ ""
  reply : ∃ extra body parsed,
    parseOptionalJSONHeaders peer cfg.trustedPeerHeadersJSON = .ok extra ∧
    peer.newRequest cfg.trustedPeerStatusURL = .ok () ∧
    peer.send cfg.trustedPeerStatusURL extra = .ok ⟨200, .ok body⟩ ∧
    parseCometStatusJSON peer.rawText (peer.parseText (body.take (2 ^ 20))) = .ok parsed ∧
    parsed.latestBlockHeight = some h

/-- With a peer that reports a height, the check is a bound on the distance. -/
theorem checkTrustedPeerLag_eq_ok_iff {peer : Peer} {cfg : ReadinessProbeConfig} {h : Int64}
    (hpeer : PeerReports peer cfg h) (h₀ : 0 ≤ h) (localCommittedHeight : UInt64)
    (cometStatus : Option (Except String Bool)) :
    (cfg.probeEnv peer cometStatus).checkTrustedPeerLag localCommittedHeight = .ok () ↔
      |h.toInt - localCommittedHeight.toInt64.toInt| ≤ cfg.headLagMaxBlocks.toNat := by
  obtain ⟨hurl, extra, body, parsed, hheaders, hrequest, hsend, hparsed, hheight⟩ := hpeer
  have hneg : ¬h < 0 := Int64.not_lt.mpr h₀
  rw [← headLag_toNat, Int.ofNat_le, ← UInt64.le_iff_toNat_le]
  unfold ReadinessProbeConfig.probeEnv checkTrustedPeerLag
  simp only [hurl, hheaders, hrequest, hsend, hparsed, hheight, hneg, if_false, ne_eq,
    not_true_eq_false]
  constructor
  · intro hok
    by_contra hlag
    rw [if_pos (UInt64.not_le.mp hlag)] at hok
    cases hok
  · intro hlag
    exact if_neg (UInt64.not_lt.mpr hlag)

end NexusNode
