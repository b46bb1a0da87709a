import NexusNode.App.Upgrade
import NexusNode.Evm.Types
import NexusNode.Program.Backoff

/-!
# Delivery of the upgrade alerts

An alert is posted to a webhook. A network error, a reply that does not come in time and a status
of the 500s are tried again, with pauses that double; any other failure ends the delivery. The
message of a halt is posted before the block goes on to its `PreBlock`, where the chain halts, so
the delivery must come to an end whatever the other side does, and it must not give up early.

## Main definitions

* `postOnce`, `WebhookNotifier.notify`: one post, and the posts of one message
* `dispatch`: the alerts of a block, one after the other

## Main results

* `postOnce_success_iff`, `postOnce_retry_iff`: what becomes of one post
* `haltAlerts_bounded`: how long an alert can hold up a block
* `haltAlerts_delivered_iff`: which alerts of a halt are delivered
-/

namespace NexusNode

open Program

/-! ## The notifier -/

/-- In nanoseconds, as all times here. -/
def webhookDefaultHTTPTimeout : ℕ := 5 * 10 ^ 9

def webhookDefaultMaxAttempts : ℕ := 3

def webhookDefaultInitialBackoff : ℕ := 10 ^ 9

structure WebhookNotifier where
  url : String
  maxAttempts : ℕ
  initialBackoff : ℕ

def newWebhookNotifier (url : String) : WebhookNotifier :=
  ⟨url, webhookDefaultMaxAttempts, webhookDefaultInitialBackoff⟩

/-- The other side: whether a request can be built, and what becomes of a post at a time. It is
answered with a status, fails with a network error or is never answered. -/
structure Webhook where
  newRequest : String → Except String Unit
  reply : String → Bytes → ℕ → Option (Except String ℤ × ℕ)

/-- The error of a reply that does not come in time. -/
def deadlineExceeded : String := "context deadline exceeded"

/-- What `postOnce` makes of a status. -/
def statusVerdict (status : ℤ) : Verdict String :=
  if 200 ≤ status ∧ status < 300 then .success
  else if 500 ≤ status then .retry ("webhook returned status " ++ toString status)
  else .stop ("webhook returned status " ++ toString status)

/-- One post that starts at the given time, with how long it takes. -/
def postOnce (hook : Webhook) (url : String) (body : Bytes) (start : ℕ) : Verdict String × ℕ :=
  match hook.newRequest url with
  | .error e => (.stop e, 0)
  | .ok () =>
    match hook.reply url body start with
    | none => (.retry deadlineExceeded, webhookDefaultHTTPTimeout)
    | some (answer, delay) =>
      if delay ≤ webhookDefaultHTTPTimeout then
        match answer with
        | .error e => (.retry e, delay)
        | .ok status => (statusVerdict status, delay)
      else (.retry deadlineExceeded, webhookDefaultHTTPTimeout)

/-- The lines that the notifier logs. -/
inductive NotifierLog where
  | marshalFailed (event error : String)
  | deliveryFailed (event : String) (attempts : ℕ) (error : Option String)
  deriving DecidableEq

/-- What became of a message: the posts with their times, the log and the time at the end. -/
structure Notified where
  posts : List (ℕ × Bytes)
  log : List NotifierLog
  finish : ℕ

/-- `Notify` at the given time, over the JSON encoder. -/
def WebhookNotifier.notify (n : WebhookNotifier) (hook : Webhook)
    (marshal : String → Except String Bytes) (event text : String) (start : ℕ) : Notified :=
  if n.url = "" then ⟨[], [], start⟩
  else
    match marshal text with
    | .error e => ⟨[], [.marshalFailed event e], start⟩
    | .ok body =>
      let r := backoffLoop (postOnce hook n.url body) n.maxAttempts n.initialBackoff start
      { posts := r.starts.map (·, body)
        log :=
          match r.result with
          | .ok () => []
          -- the number of attempts that were allowed, not of those made
          | .error e => [.deliveryFailed event n.maxAttempts e]
        finish := r.finish }

/-- The alerts of a block as they go out. A line of the log takes no time, and the posts of a
message are over before the next alert. -/
def dispatch (post : String → String → ℕ → Notified) : List Alert → ℕ → Notified
  | [], start => ⟨[], [], start⟩
  | .webhook event text :: alerts, start =>
    let first := post event text start
    let rest := dispatch post alerts first.finish
    ⟨first.posts ++ rest.posts, first.log ++ rest.log, rest.finish⟩
  | _ :: alerts, start => dispatch post alerts start

/-- The alerts of a halt, which go out before the `PreBlock` of the modules. -/
def haltAlerts (k : UpgradeKeeper) (url : String) (hook : Webhook)
    (marshal : String → Except String Bytes) (block : UpgradeBlock) (start : ℕ) : Notified :=
  dispatch ((newWebhookNotifier url).notify hook marshal) (logHaltIfTriggered k url block) start

/-! ## One message -/

section Message

variable {hook : Webhook} {url : String} {body : Bytes}

/-- No post takes longer than the limit. -/
theorem postOnce_le (start : ℕ) : (postOnce hook url body start).2 ≤ webhookDefaultHTTPTimeout := by
  unfold postOnce
  split
  · exact Nat.zero_le _
  · split
    · exact le_rfl
    · split_ifs with hdelay
      · split <;> exact hdelay
      · exact le_rfl

/-- A post at the given time is answered in time, with this status. -/
def Answers (hook : Webhook) (url : String) (body : Bytes) (start : ℕ) (status : ℤ) : Prop :=
  ∃ delay ≤ webhookDefaultHTTPTimeout, hook.reply url body start = some (.ok status, delay)

/-- A post that can be made is answered in time, or tried again. -/
theorem postOnce_cases (hrequest : hook.newRequest url = .ok ()) (body : Bytes) (start : ℕ) :
    (∃ status, Answers hook url body start status ∧
        (postOnce hook url body start).1 = statusVerdict status) ∨
      (∀ status, ¬ Answers hook url body start status) ∧
        ∃ e, (postOnce hook url body start).1 = .retry e := by
  unfold postOnce Answers
  rw [hrequest]
  rcases hook.reply url body start with _ | ⟨e | status, delay⟩
  · exact .inr ⟨by simp, _, rfl⟩
  · refine .inr ⟨by simp, ?_⟩
    by_cases hdelay : delay ≤ webhookDefaultHTTPTimeout
    · exact ⟨e, by simp [hdelay]⟩
    · exact ⟨deadlineExceeded, by simp [hdelay]⟩
  · by_cases hdelay : delay ≤ webhookDefaultHTTPTimeout
    · exact .inl ⟨status, ⟨delay, hdelay, rfl⟩, by simp [hdelay]⟩
    · refine .inr ⟨?_, deadlineExceeded, by simp [hdelay]⟩
      rintro status' ⟨delay', hdelay', heq⟩
      simp only [Option.some.injEq, Prod.mk.injEq] at heq
      exact hdelay (heq.2 ▸ hdelay')

theorem Answers.eq {start : ℕ} {status status' : ℤ} (h : Answers hook url body start status)
    (h' : Answers hook url body start status') : status = status' := by
  obtain ⟨delay, -, heq⟩ := h
  obtain ⟨delay', -, heq'⟩ := h'
  simpa using (congrArg (Option.map Prod.fst) (heq.symm.trans heq'))

/-- A post is tried again exactly when it can be made and is not answered in time with a status
below 500. -/
theorem postOnce_retry_iff {start : ℕ} : (∃ e, (postOnce hook url body start).1 = .retry e) ↔
    hook.newRequest url = .ok () ∧ ∀ status, Answers hook url body start status →
      500 ≤ status := by
  cases hrequest : hook.newRequest url with
  | error e => simp [postOnce, hrequest]
  | ok u =>
    simp only [true_and]
    rcases postOnce_cases hrequest body start with ⟨status, hanswers, hverdict⟩ | h
    · rw [hverdict]
      refine Iff.trans ?_ ⟨fun h status' h' => h'.eq hanswers ▸ h, fun h => h status hanswers⟩
      unfold statusVerdict
      split_ifs <;> simp <;> omega
    · exact iff_of_true h.2 fun status hstatus => absurd hstatus (h.1 status)

theorem postOnce_success_iff {start : ℕ} : (postOnce hook url body start).1 = .success ↔
    hook.newRequest url = .ok () ∧ ∃ status, Answers hook url body start status ∧
      200 ≤ status ∧ status < 300 := by
  cases hrequest : hook.newRequest url with
  | error e => simp [postOnce, hrequest]
  | ok u =>
    simp only [true_and]
    rcases postOnce_cases hrequest body start with ⟨status, hanswers, hverdict⟩ |
      ⟨hnone, e, hverdict⟩
    · rw [hverdict]
      refine Iff.trans ?_ ⟨fun h => ⟨status, hanswers, h⟩,
        fun ⟨status', h', hrange⟩ => h'.eq hanswers ▸ hrange⟩
      unfold statusVerdict
      split_ifs <;> simp_all
    · rw [hverdict]
      exact iff_of_false (by simp) fun ⟨status, hstatus, _⟩ => hnone status hstatus

end Message

/-! ## The alerts of a halt -/

/-- A block alerts of a halt in one way only: a line of the log, and its message. -/
theorem logHaltIfTriggered_eq (k : UpgradeKeeper) (url : String) (block : UpgradeBlock) :
    (∀ event text, .webhook event text ∉ logHaltIfTriggered k url block) ∧
        (∀ payload, .haltTriggered payload ∉ logHaltIfTriggered k url block) ∨
      ∃ payload, logHaltIfTriggered k url block = .haltTriggered payload ::
        notify url haltEventName (formatHaltTriggeredText payload) := by
  unfold logHaltIfTriggered
  split
  · exact .inl ⟨by simp, by simp⟩
  · exact .inl ⟨by simp, by simp⟩
  · split_ifs
    · exact .inl ⟨by simp, by simp⟩
    · exact .inl ⟨by simp, by simp⟩
    · exact .inl ⟨by simp, by simp⟩
    · exact .inr ⟨_, rfl⟩

/-- Alerts without a message take no time. -/
theorem dispatch_of_no_webhook {post : String → String → ℕ → Notified} {alerts : List Alert}
    (h : ∀ event text, .webhook event text ∉ alerts) (start : ℕ) :
    dispatch post alerts start = ⟨[], [], start⟩ := by
  induction alerts with
  | nil => rfl
  | cons alert alerts ih =>
    have hrest := ih fun event text hmem => h event text (List.mem_cons_of_mem _ hmem)
    cases alert with
    | webhook event text => exact absurd List.mem_cons_self (h event text)
    | _ => exact hrest

section Halt

variable (k : UpgradeKeeper) (url : String) (hook : Webhook)
  (marshal : String → Except String Bytes) (block : UpgradeBlock) (start : ℕ)

/-- The message of a halt is the only thing that takes time. -/
theorem haltAlerts_of_halt {payload : HaltLog}
    (h : .haltTriggered payload ∈ logHaltIfTriggered k url block) :
    haltAlerts k url hook marshal block start =
      (newWebhookNotifier url).notify hook marshal haltEventName
        (formatHaltTriggeredText payload) start := by
  rcases logHaltIfTriggered_eq k url block with ⟨-, hnone⟩ | ⟨payload', heq⟩
  · exact absurd h (hnone payload)
  · obtain rfl : payload = payload' := by
      rw [heq] at h
      unfold notify at h
      split_ifs at h <;> simpa using h
    unfold haltAlerts
    rw [heq]
    by_cases hurl : url = ""
    · simp [dispatch, notify, WebhookNotifier.notify, newWebhookNotifier, hurl]
    · simp [dispatch, notify, hurl]

theorem haltAlerts_of_no_halt
    (h : ∀ payload, .haltTriggered payload ∉ logHaltIfTriggered k url block) :
    haltAlerts k url hook marshal block start = ⟨[], [], start⟩ := by
  rcases logHaltIfTriggered_eq k url block with ⟨hnone, -⟩ | ⟨payload, heq⟩
  · exact dispatch_of_no_webhook hnone start
  · exact absurd (heq ▸ List.mem_cons_self) (h payload)

/-- **A block is not held up.** Whatever the plan, the webhook and the encoder, the alerts of a
halt are over within eighteen seconds, with at most three posts. -/
theorem haltAlerts_bounded :
    (haltAlerts k url hook marshal block start).finish ≤ start + 18 * 10 ^ 9 ∧
      (haltAlerts k url hook marshal block start).posts.length ≤ 3 := by
  by_cases hhalt : ∃ payload, .haltTriggered payload ∈ logHaltIfTriggered k url block
  · obtain ⟨payload, hpayload⟩ := hhalt
    rw [haltAlerts_of_halt k url hook marshal block start hpayload]
    unfold WebhookNotifier.notify
    split_ifs with hurl
    · exact ⟨Nat.le_add_right _ _, Nat.zero_le _⟩
    · split
      · exact ⟨Nat.le_add_right _ _, Nat.zero_le _⟩
      next body hbody =>
        have hfinish : (backoffLoop (postOnce hook url body) 3 (10 ^ 9) start).finish + 10 ^ 9 ≤
            start + 3 * webhookDefaultHTTPTimeout + 10 ^ 9 * 2 ^ 2 :=
          backoffLoop_finish_le postOnce_le
        obtain ⟨j, hj, -, -, heq⟩ :=
          backoffLoop_eq (postOnce hook url body) (10 ^ 9) start three_pos
        simp only [newWebhookNotifier, webhookDefaultMaxAttempts, webhookDefaultInitialBackoff,
          List.length_map]
        refine ⟨?_, ?_⟩
        · unfold webhookDefaultHTTPTimeout at hfinish
          omega
        · rw [heq, List.length_map, List.length_range]
          omega
  · rw [haltAlerts_of_no_halt k url hook marshal block start (not_exists.mp hhalt)]
    exact ⟨Nat.le_add_right _ _, Nat.zero_le _⟩

variable {k url hook marshal block start}

/-- **The message of a halt.** It is posted up to three times, at `startTime` with pauses of one and
two seconds. A post is repeated exactly when it can be made and no status below 500 answers it in
time. The alert counts as delivered, and nothing is logged, exactly when the last post is answered
in time with a status of the 200s. Otherwise the log says that three attempts failed, however many
were made. -/
theorem haltAlerts_delivered_iff {payload : HaltLog} {body : Bytes}
    (hhalt : .haltTriggered payload ∈ logHaltIfTriggered k url block) (hurl : url ≠ "")
    (hbody : marshal (formatHaltTriggeredText payload) = .ok body) :
    ∃ j < 3, (haltAlerts k url hook marshal block start).posts =
        (List.range (j + 1)).map (fun i =>
          (startTime (postOnce hook url body) (10 ^ 9) start i, body)) ∧
      (∀ i, i + 1 < 3 → i ≤ j → (i < j ↔ hook.newRequest url = .ok () ∧
        ∀ status, Answers hook url body (startTime (postOnce hook url body) (10 ^ 9) start i)
          status → 500 ≤ status)) ∧
      ((haltAlerts k url hook marshal block start).log = [] ↔ hook.newRequest url = .ok () ∧
        ∃ status, Answers hook url body (startTime (postOnce hook url body) (10 ^ 9) start j)
          status ∧ 200 ≤ status ∧ status < 300) ∧
      ((haltAlerts k url hook marshal block start).log ≠ [] → ∃ e,
        (haltAlerts k url hook marshal block start).log =
          [.deliveryFailed haltEventName 3 (some e)]) := by
  rw [haltAlerts_of_halt k url hook marshal block start hhalt]
  obtain ⟨j, hj, hbefore, hlast, heq⟩ :=
    backoffLoop_eq (postOnce hook url body) (10 ^ 9) start three_pos
  simp only [WebhookNotifier.notify, newWebhookNotifier, webhookDefaultMaxAttempts,
    webhookDefaultInitialBackoff, if_neg hurl, hbody, heq, List.map_map, ← postOnce_retry_iff,
    ← postOnce_success_iff]
  refine ⟨j, hj, rfl, fun i hi hij => ⟨fun hlt => hbefore i hlt, fun hretry => ?_⟩, ?_, ?_⟩
  · -- an attempt that asks for another one is not the last of less than three
    by_contra hnot
    obtain rfl : i = j := by omega
    refine hlast hi fun l hl => ?_
    rcases Nat.lt_succ_iff_lt_or_eq.mp hl with hlt | rfl
    · exact hbefore l hlt
    · exact hretry
  · cases hverdict : (postOnce hook url body
      (startTime (postOnce hook url body) (10 ^ 9) start j)).1 <;> simp [Verdict.result]
  · cases hverdict : (postOnce hook url body
      (startTime (postOnce hook url body) (10 ^ 9) start j)).1 <;> simp [Verdict.result]

end Halt

section Sample

/-- A binary that can run no plan. -/
def noHandlers : UpgradeKeeper := ⟨fun _ => false, fun _ => false⟩

/-- The block of the plan `v2`. -/
def haltBlock : UpgradeBlock := ⟨100, "2026-01-01T00:00:00Z", .ok ⟨"v2", 100, ""⟩⟩

/-- A webhook that is down for six seconds. -/
def lateWebhook : Webhook where
  newRequest _ := .ok ()
  reply _ _ start := if start < 6 * 10 ^ 9 then none else some (.ok 200, 10 ^ 8)

/-- An encoder for which the text does not matter. -/
def plainBody (_ : String) : Except String Bytes := .ok []

/-- The first post is not answered, and the second one delivers the alert, six seconds after the
first. -/
theorem haltAlerts_delivered_late :
    (haltAlerts noHandlers "http://alerts" lateWebhook plainBody haltBlock 0).posts =
        [(0, []), (6 * 10 ^ 9, [])] ∧
      (haltAlerts noHandlers "http://alerts" lateWebhook plainBody haltBlock 0).log = [] := by
  have hposts : (haltAlerts noHandlers "http://alerts" lateWebhook plainBody haltBlock 0).posts =
      [(0, []), (6 * 10 ^ 9, [])] := by decide
  have hhalt : .haltTriggered ⟨haltEventName, "v2", 100, "", "2026-01-01T00:00:00Z"⟩ ∈
      logHaltIfTriggered noHandlers "http://alerts" haltBlock := by decide
  have hbody : plainBody (formatHaltTriggeredText
      ⟨haltEventName, "v2", 100, "", "2026-01-01T00:00:00Z"⟩) = .ok [] := rfl
  obtain ⟨j, -, heq, -, hlog, -⟩ :=
    @haltAlerts_delivered_iff _ _ lateWebhook _ _ 0 _ _ hhalt (by decide) hbody
  obtain rfl : j = 1 := by simpa [hposts] using (congrArg List.length heq).symm
  exact ⟨hposts, hlog.mpr ⟨rfl, 200, ⟨10 ^ 8, by decide, by decide +kernel⟩, by decide⟩⟩

end Sample

end NexusNode
