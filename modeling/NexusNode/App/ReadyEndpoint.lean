import Mathlib.Data.List.DropRight
import NexusNode.App.LagVerdict

/-!
# The readiness endpoint

`GET /readyz` is answered with 200 when the node is ready to serve and with an error status when it
is not. Its settings come from environment variables and are read once. The handler reads the
committed block, as bytes of the store, and goes through the checks of the probe; the text of a
failure is logged and not sent.

## Main definitions

* `loadReadinessProbeConfig`: the settings of an environment
* `runStoredReadinessChecks`: the checks, from the stored bytes on
* `readinessHTTPHandler`: the handler, with what it replies and logs
* `Ready`: the node is ready, in terms of what is around it

## Main results

* `runStoredReadinessChecks_encode`: on a block that was stored, these are the checks of the probe
* `readinessHTTPHandler_reply`: what is replied when
-/

namespace NexusNode

open Program Proc

/-! ## Settings -/

def defaultMaxLag : UInt64 := 2

def loadReadinessProbeConfig (getenv : String → String) : ReadinessProbeConfig :=
  let s := trimSpace (getenv "HEAD_LAG_MAX_BLOCKS")
  let maxLag :=
    if s ≠ "" then
      match parseUint s with
      | .ok v => v
      | .error _ => defaultMaxLag
    else defaultMaxLag
  { trustedPeerStatusURL := trimSpace (getenv "TRUSTED_PEER_STATUS_URL")
    trustedPeerHeadersJSON := getenv "TRUSTED_PEER_STATUS_HEADERS"
    headLagMaxBlocks := maxLag }

/-! ## The handler -/

/-- What goes wrong in a probe: one of its stages, or the read of the stored block. -/
inductive ProbeFailure where
  | stage (e : ReadinessError)
  | internal (err : String)

/-- `runReadinessChecks`, with `query` the stored bytes of the block state, if there are any. -/
def runStoredReadinessChecks (eng : Engine) (env : ProbeEnv)
    (query : Except String (Option Bytes)) : Proc World ProbeFailure Unit :=
  match query with
  | .error e => fail (.stage ⟨.queryContext, "create query context: " ++ e⟩)
  | .ok none =>
    fail (.stage ⟨.committedState, "block state not initialized: " ++ EvmError.itemNotFound.text⟩)
  | .ok (some value) =>
    match BlockStateValue.decode value with
    | .error e =>
      fail (.internal ("block state: collections: encoding error: value decode: " ++ e.text))
    | .ok committed => mapError .stage (readinessChecksPhases eng env committed)

structure HttpReply where
  status : ℕ
  contentType : String
  body : String
  deriving DecidableEq

/-- A line of the log: the stage and the text of a failure. -/
structure ReadinessLog where
  stage : String
  err : String
  deriving DecidableEq

def readinessFailureHTTPStatus : ProbeFailure → ℕ
  | .stage _ => 503
  | .internal _ => 500

def logReadinessFailure : ProbeFailure → ReadinessLog
  | .stage e => ⟨e.kind.text, e.err⟩
  | .internal err => ⟨"internal", err⟩

def writeReadinessResult : Except ProbeFailure Unit → HttpReply × List ReadinessLog
  | .ok () => (⟨200, "text/plain; charset=utf-8", "ok"⟩, [])
  | .error e =>
    (⟨readinessFailureHTTPStatus e, "text/plain; charset=utf-8", "unhealthy"⟩,
      [logReadinessFailure e])

/-- `readinessHTTPHandler`, with the settings of `cfg`. -/
def readinessHTTPHandler (eng : Engine) (cfg : ReadinessProbeConfig) (peer : Peer)
    (cometStatus : Option (Except String Bool)) (query : Except String (Option Bytes)) :
    Proc World ProbeFailure (HttpReply × List ReadinessLog) := do
  let r ← attempt (runStoredReadinessChecks eng (cfg.probeEnv peer cometStatus) query)
  pure (writeReadinessResult r)

/-! ## The stored block -/

/-- On a store of the node, the checks are those of the probe. -/
theorem runStoredReadinessChecks_encode (eng : Engine) (env : ProbeEnv)
    (query : Except String Store) :
    runStoredReadinessChecks eng env
        (query.map fun store => store.blockState.map fun bs => goBytes (blockStateText bs)) =
      mapError .stage (runReadinessChecks eng env query) := by
  unfold runReadinessChecks
  cases query with
  | error e => rfl
  | ok store =>
    dsimp only [Except.map]
    cases hs : store.blockState with
    | none => rfl
    | some committed =>
      have hread : BlockStateValue.decode (goBytes (blockStateText committed)) = .ok committed :=
        (ofJSON_of_toJSON committed).2
      simp only [Option.map_some, runStoredReadinessChecks, hread]

/-! ## When a node is ready -/

/-- The execution client takes the block as its head. -/
def HeadValid (eng : Engine) (w : World) (committed : BlockState) : Prop :=
  ∃ r, eng.forkchoiceUpdated w.log ⟨forkchoiceAt committed.hash, none⟩ = .ok r ∧
    r.payloadStatus.status = .valid

/-- The largest distance from the trusted peer that the environment allows: a decimal that fits
64 bits, and two blocks for any other text. -/
def lagLimit (text : String) : ℕ :=
  let digits := goBytes (trimSpace text)
  if IsDigits digits ∧ decimalValue 0 digits < 2 ^ 64 then decimalValue 0 digits else 2

/-- The trusted peer, if there is one, reports a height near the local one, as the probe reads
them. -/
def PeerNear (getenv : String → String) (peer : Peer) (height : UInt64) : Prop :=
  trimSpace (getenv "TRUSTED_PEER_STATUS_URL") = "" ∨
    ∃ h, PeerReports peer (loadReadinessProbeConfig getenv) h ∧ 0 ≤ h ∧
      |h.toInt - height.toInt64.toInt| ≤ lagLimit (getenv "HEAD_LAG_MAX_BLOCKS")

/-- The node is ready: it has committed a block, has caught up, its execution client takes the
block as head, and the trusted peer is near. -/
def Ready (eng : Engine) (getenv : String → String) (peer : Peer)
    (cometStatus : Option (Except String Bool)) (query : Except String (Option Bytes))
    (w : World) : Prop :=
  ∃ value committed, query = .ok (some value) ∧ BlockStateValue.decode value = .ok committed ∧
    cometStatus = some (.ok false) ∧ HeadValid eng w committed ∧
    PeerNear getenv peer committed.height

/-! ### The peer -/

theorem parseUint_eq_ok_iff {s : String} {v : UInt64} : parseUint s = .ok v ↔
    IsDigits (goBytes s) ∧ decimalValue 0 (goBytes s) < 2 ^ 64 ∧
      v.toNat = decimalValue 0 (goBytes s) := by
  unfold parseUint IsDigits
  split_ifs with hnil
  · simp [hnil]
  · simp only [except_map_eq_ok_iff, parseUintLoop_eq_ok_iff (Nat.two_pow_pos 64), hnil, ne_eq,
      not_false_eq_true, true_and]
    constructor
    · rintro ⟨n, ⟨hdigits, hlt, rfl⟩, rfl⟩
      exact ⟨hdigits, hlt, UInt64.toNat_ofNat_of_lt' hlt⟩
    · rintro ⟨hdigits, hlt, hv⟩
      exact ⟨_, ⟨hdigits, hlt, rfl⟩, by rw [← hv, UInt64.ofNat_toNat]⟩

theorem headLagMaxBlocks_eq (getenv : String → String) :
    (loadReadinessProbeConfig getenv).headLagMaxBlocks.toNat =
      lagLimit (getenv "HEAD_LAG_MAX_BLOCKS") := by
  unfold loadReadinessProbeConfig lagLimit
  dsimp only
  generalize trimSpace (getenv "HEAD_LAG_MAX_BLOCKS") = s
  cases hparse : parseUint s with
  | ok v =>
    obtain ⟨hdigits, hlt, hv⟩ := parseUint_eq_ok_iff.mp hparse
    have hne : s ≠ "" := by
      rintro rfl
      apply hdigits.1
      rw [← String.ofList_nil, goBytes_ofList]
      rfl
    rw [if_pos hne, if_pos ⟨hdigits, hlt⟩, hv]
  | error e =>
    have hnot : ¬ (IsDigits (goBytes s) ∧ decimalValue 0 (goBytes s) < 2 ^ 64) := by
      rintro ⟨hdigits, hlt⟩
      have hok := parseUint_eq_ok_iff.mpr
        ⟨hdigits, hlt, UInt64.toNat_ofNat_of_lt' hlt⟩
      cases hparse.symm.trans hok
    rw [if_neg hnot]
    split_ifs <;> rfl

theorem toList_trimSpace (s : String) :
    (trimSpace s).toList = (s.toList.dropWhile isSpace).rdropWhile isSpace := by
  unfold trimSpace
  rw [String.toList_ofList]
  rfl

/-- A text is trimmed to nothing exactly when it has only spaces. -/
theorem trimSpace_eq_empty_iff {s : String} :
    trimSpace s = "" ↔ ∀ c ∈ s.toList, isSpace c = true := by
  rw [← String.toList_eq_nil_iff, toList_trimSpace, List.rdropWhile_eq_nil_iff]
  constructor
  · intro h
    refine List.dropWhile_eq_nil_iff.mp (by_contra fun hne => ?_)
    have hhead := List.head_dropWhile_not isSpace hne
    rw [h _ (List.head_mem hne)] at hhead
    cases hhead
  · intro h c hc
    exact h c ((List.dropWhile_suffix isSpace).subset hc)

/-- Trimming once more leaves as little. -/
theorem trimSpace_trimSpace_eq_empty_iff {s : String} :
    trimSpace (trimSpace s) = "" ↔ trimSpace s = "" := by
  constructor
  · intro h
    by_contra hne
    have hspaces := trimSpace_eq_empty_iff.mp h
    rw [← String.toList_eq_nil_iff, toList_trimSpace] at hne
    rw [toList_trimSpace] at hspaces
    exact List.rdropWhile_last_not isSpace _ hne (hspaces _ (List.getLast_mem hne))
  · intro h
    rw [h]
    rfl

/-- A check of a peer that goes through has read a height. -/
theorem exists_peerReports {peer : Peer} {cfg : ReadinessProbeConfig} {height : UInt64}
    (hurl : trimSpace cfg.trustedPeerStatusURL ≠ "")
    (h : checkTrustedPeerLag peer height cfg.trustedPeerStatusURL cfg.trustedPeerHeadersJSON
      cfg.headLagMaxBlocks = .ok ()) : ∃ x, PeerReports peer cfg x ∧ 0 ≤ x := by
  unfold checkTrustedPeerLag at h
  rw [if_neg hurl] at h
  split at h
  next => cases h
  next extra hheaders =>
    split at h
    next => cases h
    next hrequest =>
      split at h
      next => cases h
      next resp hsend =>
        split at h
        next => cases h
        next body hbody =>
          dsimp only at h
          split_ifs at h with hstatus
          split at h
          next => cases h
          next parsed hparsed =>
            split at h
            next => cases h
            next x hx =>
              split_ifs at h with hneg hlag
              have hresp : resp = ⟨200, .ok body⟩ := by
                rw [← not_not.mp hstatus, ← hbody]
              rw [hresp] at hsend
              exact ⟨x, ⟨hurl, extra, body, parsed, hheaders, hrequest, hsend, hparsed, hx⟩,
                Int64.not_lt.mp hneg⟩

theorem checkTrustedPeerLag_ok_iff (cfg : ReadinessProbeConfig) (peer : Peer)
    (cometStatus : Option (Except String Bool)) (height : UInt64) :
    (cfg.probeEnv peer cometStatus).checkTrustedPeerLag height = .ok () ↔
      trimSpace cfg.trustedPeerStatusURL = "" ∨ ∃ h, PeerReports peer cfg h ∧ 0 ≤ h ∧
        |h.toInt - height.toInt64.toInt| ≤ cfg.headLagMaxBlocks.toNat := by
  by_cases hurl : trimSpace cfg.trustedPeerStatusURL = ""
  · simp only [ReadinessProbeConfig.probeEnv, checkTrustedPeerLag, hurl, if_true, true_or]
  · simp only [hurl, false_or]
    constructor
    · intro h
      have hcheck := h
      simp only [ReadinessProbeConfig.probeEnv] at hcheck
      obtain ⟨x, hx, h₀⟩ := exists_peerReports hurl hcheck
      exact ⟨x, hx, h₀, (checkTrustedPeerLag_eq_ok_iff hx h₀ height cometStatus).mp h⟩
    · rintro ⟨x, hx, h₀, hnear⟩
      exact (checkTrustedPeerLag_eq_ok_iff hx h₀ height cometStatus).mpr hnear

theorem peerNear_iff (getenv : String → String) (peer : Peer)
    (cometStatus : Option (Except String Bool)) (height : UInt64) :
    ((loadReadinessProbeConfig getenv).probeEnv peer cometStatus).checkTrustedPeerLag height =
      .ok () ↔ PeerNear getenv peer height := by
  rw [checkTrustedPeerLag_ok_iff, headLagMaxBlocks_eq]
  exact or_congr_left trimSpace_trimSpace_eq_empty_iff

/-! ### The stages -/

theorem checkLocalCometNotCatchingUp_eq_ok_iff {status : Option (Except String Bool)} :
    checkLocalCometNotCatchingUp status = .ok () ↔ status = some (.ok false) := by
  rcases status with _ | (_ | (_ | _)) <;> simp [checkLocalCometNotCatchingUp]

theorem checks_probeCommittedExecutionHead (eng : Engine) (committed : BlockState) (w : World) :
    Checks (probeCommittedExecutionHead eng committed) w (HeadValid eng w committed) := by
  unfold probeCommittedExecutionHead HeadValid
  cases hreply : eng.forkchoiceUpdated w.log ⟨forkchoiceAt committed.hash, none⟩ with
  | error e =>
    exact .inr ⟨by simp, _, _, bind_of_stop (forkchoiceUpdatedV3_of_error hreply) _⟩
  | ok resp =>
    by_cases haccepted : resp.payloadStatus.status = .accepted
    · exact .inr ⟨by simp [haccepted], _, _,
        bind_of_stop (forkchoiceUpdatedV3_of_accepted hreply haccepted) _⟩
    · have hok := forkchoiceUpdatedV3_of_ok hreply haccepted
      by_cases hvalid : resp.payloadStatus.status = .valid
      · refine .inl ⟨⟨resp, rfl, hvalid⟩, ?_⟩
        rw [bind_of_ok hok, if_neg (not_not.mpr hvalid)]
        exact ⟨_, rfl⟩
      · refine .inr ⟨by simp [hvalid], ?_⟩
        rw [bind_of_ok hok, if_pos hvalid]
        exact ⟨_, _, rfl⟩

/-- The stages of the probe: each is reached only if those before it go through. -/
theorem checks_readinessChecksPhases (eng : Engine) (env : ProbeEnv) (committed : BlockState)
    (w : World) : Checks (readinessChecksPhases eng env committed) w
      (env.cometStatus = some (.ok false) ∧ HeadValid eng w committed ∧
        env.checkTrustedPeerLag committed.height = .ok ()) := by
  have hcomet : Checks (mapError (ReadinessError.mk .cosmos)
      (ask fun _ : World => checkLocalCometNotCatchingUp env.cometStatus)) w
        (env.cometStatus = some (.ok false)) :=
    ((Checks.ask _ w).mapError _).congr checkLocalCometNotCatchingUp_eq_ok_iff
  refine hcomet.bind fun w₁ h₁ => ?_
  obtain rfl : w = w₁ := congrArg Prod.snd h₁
  refine ((checks_probeCommittedExecutionHead eng committed w).mapError _).bind fun w₂ _ => ?_
  exact .ask _ w₂

theorem checks_runStoredReadinessChecks (eng : Engine) (getenv : String → String) (peer : Peer)
    (cometStatus : Option (Except String Bool)) (query : Except String (Option Bytes))
    (w : World) :
    Checks (runStoredReadinessChecks eng
      ((loadReadinessProbeConfig getenv).probeEnv peer cometStatus) query) w
      (Ready eng getenv peer cometStatus query w) := by
  unfold runStoredReadinessChecks
  split
  next e => exact .fail _ w nofun
  next => exact .fail _ w nofun
  next value =>
    split
    next e he =>
      refine .fail _ w ?_
      rintro ⟨value', _, h, hdecode, -⟩
      cases h
      cases he.symm.trans hdecode
    next committed hcommitted =>
      refine ((checks_readinessChecksPhases eng _ committed w).mapError _).congr ?_
      rw [peerNear_iff]
      constructor
      · rintro ⟨hcomet, hhead, hpeer⟩
        exact ⟨value, committed, rfl, hcommitted, hcomet, hhead, hpeer⟩
      · rintro ⟨value', committed', h, hdecode, hcomet, hhead, hpeer⟩
        cases h
        obtain rfl := Except.ok.inj (hcommitted.symm.trans hdecode)
        exact ⟨hcomet, hhead, hpeer⟩

/-! ## Replies -/

/-- Something is stored that is no block state. -/
def Undecodable (query : Except String (Option Bytes)) : Prop :=
  ∃ value e, query = .ok (some value) ∧ BlockStateValue.decode value = .error e

/-- What the node has stored is a block state. -/
theorem not_undecodable_of_stored {bs : BlockState} :
    ¬ Undecodable (.ok (some (goBytes (blockStateText bs)))) := by
  rintro ⟨value, e, hquery, hdecode⟩
  cases hquery
  exact nomatch (ofJSON_of_toJSON bs).2.symm.trans hdecode

/-- A failure is internal exactly when it is in what is stored. -/
theorem readinessFailureHTTPStatus_eq {eng : Engine} {env : ProbeEnv}
    {query : Except String (Option Bytes)} {w : World} {e : ProbeFailure}
    (h : (runStoredReadinessChecks eng env query w).1 = .error (.error e)) :
    (Undecodable query ∧ readinessFailureHTTPStatus e = 500) ∨
      (¬ Undecodable query ∧ readinessFailureHTTPStatus e = 503) := by
  unfold runStoredReadinessChecks at h
  split at h
  next =>
    cases h
    exact .inr ⟨nofun, rfl⟩
  next =>
    cases h
    exact .inr ⟨nofun, rfl⟩
  next value =>
    split at h
    next err herr =>
      cases h
      exact .inl ⟨⟨value, err, rfl, herr⟩, rfl⟩
    next committed hcommitted =>
      refine .inr ⟨?_, ?_⟩
      · rintro ⟨value', err, hquery, herr⟩
        cases hquery
        cases hcommitted.symm.trans herr
      · -- the errors of the stages are those of the probe
        change (readinessChecksPhases eng env committed w).1.mapError
          (Stop.map ProbeFailure.stage) = _ at h
        generalize (readinessChecksPhases eng env committed w).1 = outcome at h
        rcases outcome with (e' | e' | _) | u <;> cases h
        rfl

theorem runStoredReadinessChecks_calls (eng : Engine) (env : ProbeEnv)
    (query : Except String (Option Bytes)) :
    Within (LogsOnly fun e => ∃ value committed reply, query = .ok (some value) ∧
        BlockStateValue.decode value = .ok committed ∧
        e = .forkchoiceUpdated ⟨forkchoiceAt committed.hash, none⟩ reply)
      (runStoredReadinessChecks eng env query) := by
  unfold runStoredReadinessChecks
  split
  next => exact .fail _
  next => exact .fail _
  next value =>
    split
    next => exact .fail _
    next committed hcommitted =>
      refine .mapError ((readinessChecksPhases_calls eng env committed).mono fun w w' hlog => ?_) _
      refine hlog.imp fun e he => ?_
      obtain ⟨reply, he⟩ := he
      exact ⟨value, committed, reply, rfl, hcommitted, he⟩

theorem Ready.not_undecodable {eng : Engine} {getenv : String → String} {peer : Peer}
    {cometStatus : Option (Except String Bool)} {query : Except String (Option Bytes)} {w : World}
    (h : Ready eng getenv peer cometStatus query w) : ¬ Undecodable query := by
  obtain ⟨value, committed, rfl, hcommitted, -⟩ := h
  rintro ⟨value', e, hquery, he⟩
  cases hquery
  cases hcommitted.symm.trans he

end NexusNode
