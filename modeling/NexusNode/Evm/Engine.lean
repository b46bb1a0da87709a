import NexusNode.Evm.Config
import NexusNode.Program.Retry

/-!
# The engine client

The execution client is an oracle: given the calls made so far and the next one it sends a
reply, which may be a transport error. The client of `lib/engine.go` turns a reply into a
value or an error, and reports the status `ACCEPTED` of a forkchoice update as an error. Every
call is recorded with its raw reply in the log of the world, and takes time on its clock.

## Main definitions

* `Engine`: the replies of the execution client
* `World`: the module's store, the engine calls so far and the clock
* `newPayloadV3`, `newPayloadV4`, `newPayloadV5`, `forkchoiceUpdatedV3`, `getPayload`: the
  client's calls
* `retry ctx fn`: repeat `fn` until it answers `true` or the context is done
* `SameStore`, `LogsOnly P`: the frame relations of code that only talks to the engine

## Main results

* `sendNewPayload_of_ok`, `forkchoiceUpdatedV3_of_accepted` and their like: what one reply
  does to a call and to the log
* `retry_stop_of_answers`: retries of a function that always answers
* `retry_keeps`: retries keep the frames of their attempts
-/

namespace NexusNode

open Program Proc

/-! ## Calls, replies and the world -/

structure NewPayloadCall where
  version : ℕ
  params : ExecutableData
  versionedHashes : List Hash
  beaconRoot : Hash
  /-- the execution requests, an argument from version 4 on -/
  requests : Option (List Bytes)
  deriving DecidableEq

structure ForkchoiceCall where
  update : ForkchoiceStateV1
  attrs : Option PayloadAttributes
  deriving DecidableEq

structure GetPayloadCall where
  version : ℕ
  id : PayloadID
  deriving DecidableEq

/-- A call of the engine with the reply that came back. -/
inductive EngineEvent where
  | newPayload (call : NewPayloadCall) (reply : Except RpcError PayloadStatusV1)
  | forkchoiceUpdated (call : ForkchoiceCall) (reply : Except RpcError ForkChoiceResponse)
  | getPayload (call : GetPayloadCall) (reply : Except RpcError ExecutionPayloadEnvelope)
  deriving DecidableEq

/-- The replies of the execution client, as functions of the calls before, and the
milliseconds each call takes. -/
structure Engine where
  newPayload : List EngineEvent → NewPayloadCall → Except RpcError PayloadStatusV1
  forkchoiceUpdated : List EngineEvent → ForkchoiceCall → Except RpcError ForkChoiceResponse
  getPayload : List EngineEvent → GetPayloadCall → Except RpcError ExecutionPayloadEnvelope
  latency : List EngineEvent → ℕ

structure World where
  store : Store
  log : List EngineEvent
  clock : ℕ

/-- Append a call to the log and let its time pass. -/
def World.record (w : World) (e : EngineEvent) (latency : ℕ) : World :=
  { w with log := w.log ++ [e], clock := w.clock + latency }

@[simp] theorem World.record_store (w : World) (e : EngineEvent) (n : ℕ) :
    (w.record e n).store = w.store := rfl

@[simp] theorem World.record_log (w : World) (e : EngineEvent) (n : ℕ) :
    (w.record e n).log = w.log ++ [e] := rfl

/-- Programs of the EVM module. -/
abbrev Evm (α : Type) := Proc World EvmError α

/-! ## The client -/

structure DepositRequest where
  pubkey : Bytes
  withdrawalCredentials : Bytes
  amount : UInt64
  signature : Bytes
  index : UInt64

structure WithdrawalRequest where
  sourceAddress : Bytes
  validatorPubkey : Bytes
  amount : UInt64

structure ConsensusRequests where
  deposits : List DepositRequest
  withdrawals : List WithdrawalRequest

/-- `ConsensusRequests.Encode` is not implemented and panics. -/
def ConsensusRequests.encode (_ : ConsensusRequests) : Outcome EvmError (List Bytes) :=
  .error (.panic (.ext "not implemented"))

/-- The encoded requests of a `newPayload` call: none for a nil argument. -/
def requestsData : Option ConsensusRequests → Outcome EvmError (List Bytes)
  | none => .ok []
  | some r => r.encode

/-- One `engine_newPayload` call. -/
def sendNewPayload (eng : Engine) (call : NewPayloadCall) : Evm PayloadStatusV1 where
  run w :=
    let reply := eng.newPayload w.log call
    let w' := w.record (.newPayload call reply) (eng.latency w.log)
    match reply with
    | .ok response => (.ok response, w')
    | .error e => (.error (.error (.newPayloadCall call.version e)), w')

def newPayloadV3 (eng : Engine) (params : ExecutableData) (versionedHashes : List Hash)
    (beaconRoot : Hash) : Evm PayloadStatusV1 :=
  sendNewPayload eng ⟨3, params, versionedHashes, beaconRoot, none⟩

/-- `NewPayloadV4` and `NewPayloadV5`, which differ in the method they call. -/
def newPayloadWithRequests (version : ℕ) (eng : Engine) (params : ExecutableData)
    (versionedHashes : List Hash) (beaconRoot : Hash) (requests : Option ConsensusRequests) :
    Evm PayloadStatusV1 := do
  let data ← ofOutcome (requestsData requests)
  sendNewPayload eng ⟨version, params, versionedHashes, beaconRoot, some data⟩

theorem newPayloadWithRequests_none (version : ℕ) (eng : Engine) (params : ExecutableData)
    (versionedHashes : List Hash) (beaconRoot : Hash) :
    newPayloadWithRequests version eng params versionedHashes beaconRoot none =
      sendNewPayload eng ⟨version, params, versionedHashes, beaconRoot, some []⟩ := rfl

def newPayloadV4 := newPayloadWithRequests 4

def newPayloadV5 := newPayloadWithRequests 5

def forkchoiceUpdatedV3 (eng : Engine) (update : ForkchoiceStateV1)
    (attrs : Option PayloadAttributes) : Evm ForkChoiceResponse where
  run w :=
    let reply := eng.forkchoiceUpdated w.log ⟨update, attrs⟩
    let w' := w.record (.forkchoiceUpdated ⟨update, attrs⟩ reply) (eng.latency w.log)
    match reply with
    | .ok response =>
      -- not an answer that a forkchoice update should get
      if response.payloadStatus.status = .accepted then
        (.error (.error (.unexpectedAccepted response)), w')
      else (.ok response, w')
    | .error e => (.error (.error (.forkchoiceCall e)), w')

/-- `GetPayloadV3`, `GetPayloadV4` and `GetPayloadV5`, which differ in the method they call. -/
def getPayload (version : ℕ) (eng : Engine) (id : PayloadID) : Evm ExecutionPayloadEnvelope where
  run w :=
    let reply := eng.getPayload w.log ⟨version, id⟩
    let w' := w.record (.getPayload ⟨version, id⟩ reply) (eng.latency w.log)
    match reply with
    | .ok response => (.ok response, w')
    | .error e => (.error (.error (.getPayloadCall version e)), w')

def getPayloadV3 := getPayload 3

def getPayloadV4 := getPayload 4

def getPayloadV5 := getPayload 5

/-! ## Retrying -/

/-- The milliseconds between two attempts. -/
def retryDelay : ℕ := 10

/-- `time.Sleep(retryDelay)` -/
def World.sleep (w : World) : World := { w with clock := w.clock + retryDelay }

/-- `retry`: repeat `fn` until it answers `true` or returns an error, or the context is done.
The request timeout only bounds the single call, whose expiry is one of the replies of the
engine. -/
def retry (ctx : GoContext) (fn : Evm Bool) (attempts : ℕ) : Evm Unit :=
  retryLoop (fun w => (ctx.err w.clock).map .ctx) World.sleep fn attempts

/-- `retry` with a function that assigns a variable of its caller; returns the variable. -/
def retryAssigning {τ : Type} (ctx : GoContext) (init : τ) (fn : Proc (World × τ) EvmError Bool)
    (attempts : ℕ) : Evm τ :=
  withLocal init (retryLoop (fun s => (ctx.err s.1.clock).map .ctx) (fun s => (s.1.sleep, s.2))
    fn attempts)

/-! ## Frames -/

/-- The store is as it was. -/
def SameStore (w w' : World) : Prop := w'.store = w.store

/-- The log grew by calls that satisfy `P`. -/
def LogsOnly (P : EngineEvent → Prop) (w w' : World) : Prop :=
  ∃ es, w'.log = w.log ++ es ∧ ∀ e ∈ es, P e

instance : Std.Refl SameStore := ⟨fun _ => rfl⟩

instance : IsTrans World SameStore := ⟨fun _ _ _ h h' => Eq.trans h' h⟩

instance (P : EngineEvent → Prop) : Std.Refl (LogsOnly P) := ⟨fun _ => ⟨[], by simp, by simp⟩⟩

instance (P : EngineEvent → Prop) : IsTrans World (LogsOnly P) where
  trans u v w := by
    rintro ⟨es, hes, hP⟩ ⟨fs, hfs, hP'⟩
    refine ⟨es ++ fs, by rw [hfs, hes, List.append_assoc], ?_⟩
    intro e he
    rcases List.mem_append.mp he with he | he
    · exact hP e he
    · exact hP' e he

theorem LogsOnly.imp {P Q : EngineEvent → Prop} {w w' : World} (h : LogsOnly P w w')
    (hPQ : ∀ e, P e → Q e) : LogsOnly Q w w' := by
  obtain ⟨es, hes, hP⟩ := h
  exact ⟨es, hes, fun e he => hPQ e (hP e he)⟩

theorem LogsOnly.of_log_eq {P : EngineEvent → Prop} {w w' : World} (h : w'.log = w.log) :
    LogsOnly P w w' :=
  ⟨[], by simp [h], by simp⟩

theorem logsOnly_record {P : EngineEvent → Prop} (w : World) {e : EngineEvent} (he : P e)
    (n : ℕ) : LogsOnly P w (w.record e n) :=
  ⟨[e], rfl, by simpa using he⟩

/-! ## One call, one log entry -/

section Replies

variable {eng : Engine} {w : World}

theorem sendNewPayload_of_ok {call : NewPayloadCall} {r : PayloadStatusV1}
    (h : eng.newPayload w.log call = .ok r) :
    sendNewPayload eng call w =
      (.ok r, w.record (.newPayload call (.ok r)) (eng.latency w.log)) := by
  simp [sendNewPayload, h]

theorem sendNewPayload_of_error {call : NewPayloadCall} {e : RpcError}
    (h : eng.newPayload w.log call = .error e) :
    sendNewPayload eng call w = (.error (.error (.newPayloadCall call.version e)),
      w.record (.newPayload call (.error e)) (eng.latency w.log)) := by
  simp [sendNewPayload, h]

/-- Whatever the reply, a `newPayload` call is one entry of the log. -/
theorem sendNewPayload_log (eng : Engine) (call : NewPayloadCall) (w : World) :
    (sendNewPayload eng call w).2.log =
      w.log ++ [.newPayload call (eng.newPayload w.log call)] := by
  cases h : eng.newPayload w.log call with
  | error e => rw [sendNewPayload_of_error h, World.record_log]
  | ok r => rw [sendNewPayload_of_ok h, World.record_log]

variable {update : ForkchoiceStateV1} {attrs : Option PayloadAttributes}

theorem forkchoiceUpdatedV3_of_ok {r : ForkChoiceResponse}
    (h : eng.forkchoiceUpdated w.log ⟨update, attrs⟩ = .ok r)
    (ha : r.payloadStatus.status ≠ .accepted) :
    forkchoiceUpdatedV3 eng update attrs w =
      (.ok r, w.record (.forkchoiceUpdated ⟨update, attrs⟩ (.ok r)) (eng.latency w.log)) := by
  simp [forkchoiceUpdatedV3, h, ha]

/-- The client reports the status `ACCEPTED` as an error. -/
theorem forkchoiceUpdatedV3_of_accepted {r : ForkChoiceResponse}
    (h : eng.forkchoiceUpdated w.log ⟨update, attrs⟩ = .ok r)
    (ha : r.payloadStatus.status = .accepted) :
    forkchoiceUpdatedV3 eng update attrs w = (.error (.error (.unexpectedAccepted r)),
      w.record (.forkchoiceUpdated ⟨update, attrs⟩ (.ok r)) (eng.latency w.log)) := by
  simp [forkchoiceUpdatedV3, h, ha]

theorem forkchoiceUpdatedV3_of_error {e : RpcError}
    (h : eng.forkchoiceUpdated w.log ⟨update, attrs⟩ = .error e) :
    forkchoiceUpdatedV3 eng update attrs w = (.error (.error (.forkchoiceCall e)),
      w.record (.forkchoiceUpdated ⟨update, attrs⟩ (.error e)) (eng.latency w.log)) := by
  simp [forkchoiceUpdatedV3, h]

theorem getPayload_of_ok {version : ℕ} {id : PayloadID} {r : ExecutionPayloadEnvelope}
    (h : eng.getPayload w.log ⟨version, id⟩ = .ok r) :
    getPayload version eng id w =
      (.ok r, w.record (.getPayload ⟨version, id⟩ (.ok r)) (eng.latency w.log)) := by
  simp [getPayload, h]

theorem getPayload_of_error {version : ℕ} {id : PayloadID} {e : RpcError}
    (h : eng.getPayload w.log ⟨version, id⟩ = .error e) :
    getPayload version eng id w = (.error (.error (.getPayloadCall version e)),
      w.record (.getPayload ⟨version, id⟩ (.error e)) (eng.latency w.log)) := by
  simp [getPayload, h]

end Replies

/-- Whatever the reply, a forkchoice update is one entry of the log. -/
theorem forkchoiceUpdatedV3_snd (eng : Engine) (update : ForkchoiceStateV1)
    (attrs : Option PayloadAttributes) (w : World) :
    (forkchoiceUpdatedV3 eng update attrs w).2 =
      w.record (.forkchoiceUpdated ⟨update, attrs⟩ (eng.forkchoiceUpdated w.log ⟨update, attrs⟩))
        (eng.latency w.log) := by
  cases h : eng.forkchoiceUpdated w.log ⟨update, attrs⟩ with
  | error e => rw [forkchoiceUpdatedV3_of_error h]
  | ok r =>
    by_cases ha : r.payloadStatus.status = .accepted
    · rw [forkchoiceUpdatedV3_of_accepted h ha]
    · rw [forkchoiceUpdatedV3_of_ok h ha]

theorem forkchoiceUpdatedV3_sameStore (eng : Engine) (update : ForkchoiceStateV1)
    (attrs : Option PayloadAttributes) :
    Within SameStore (forkchoiceUpdatedV3 eng update attrs) := by
  intro w
  rw [forkchoiceUpdatedV3_snd]
  rfl

/-! ## Retries -/

/-- Retries of a function that always answers stop when the context is done, and else have not
returned. -/
theorem retry_stop_of_answers {ctx : GoContext} {fn : Evm Bool} {attempts : ℕ} {w w' : World}
    {r : Stop EvmError} (hfn : ∀ w r w', fn w ≠ (.error r, w'))
    (h : retry ctx fn attempts w = (.error r, w')) :
    r = .running ∨ (ctx.err w'.clock).isSome := by
  have key := retryLoop_of_answers (fun w : World => (ctx.err w.clock).map EvmError.ctx)
    World.sleep hfn attempts w
  unfold retry at h
  rw [h] at key
  rcases key with key | key | ⟨e, -, he⟩
  · simp at key
  · exact .inl (Except.error.inj key)
  · exact .inr (by simpa using congrArg Option.isSome he)

/-- Retries that stop before the context is done were stopped by their last attempt. -/
theorem retry_stop_cases {ctx : GoContext} {fn : Evm Bool} {attempts : ℕ} {I : World → Prop}
    (hnext : ∀ w w', I w → fn w = (.ok false, w') → I w'.sleep) {w w' : World} (hw : I w)
    {r : Stop EvmError} (hlive : ctx.err w'.clock = none) (hr : r ≠ .running)
    (h : retry ctx fn attempts w = (.error r, w')) : ∃ u, I u ∧ fn u = (.error r, w') := by
  rcases retryLoop_stop_cases (fun t t' ht hf _ => hnext t t' ht hf) hw h with
    hrunning | hstop | hdone
  · exact absurd hrunning hr
  · exact hstop
  · simp [hlive] at hdone

/-- Retries of a function that answers `false` go on for as long as the context is not done. -/
theorem retry_running {ctx : GoContext} {fn : Evm Bool} (hbg : ∀ t, ctx.err t = none)
    (hfn : ∀ w, (fn w).1 = .ok false) (attempts : ℕ) (w : World) :
    (retry ctx fn attempts w).1 = .error .running := by
  unfold retry
  rw [retryLoop_of_unsettled]
  intro k _
  exact ⟨hfn _, by simp [hbg]⟩

/-- Retries keep the frames of their attempts that do not look at the clock. -/
theorem retry_keeps {R : World → World → Prop} [Std.Refl R] [IsTrans World R]
    (hsleep : ∀ w, R w w.sleep) {fn : Evm Bool} (hfn : Within R fn) (ctx : GoContext)
    (attempts : ℕ) : Within R (retry ctx fn attempts) :=
  retryLoop_within hfn hsleep attempts

theorem retry_sameStore {fn : Evm Bool} (hfn : Within SameStore fn) (ctx : GoContext)
    (attempts : ℕ) : Within SameStore (retry ctx fn attempts) :=
  retry_keeps (R := SameStore) (fun _ => rfl) hfn ctx attempts

theorem retryAssigning_keeps {R : World → World → Prop} [Std.Refl R] [IsTrans World R]
    (hsleep : ∀ w, R w w.sleep) {τ : Type} {fn : Proc (World × τ) EvmError Bool}
    (hfn : Within (Order.Preimage Prod.fst R) fn) (ctx : GoContext) (init : τ) (attempts : ℕ) :
    Within R (retryAssigning ctx init fn attempts) := by
  refine Within.withLocal (retryLoop_within hfn ?_ attempts)
  exact fun s => hsleep s.1

theorem retryAssigning_sameStore {τ : Type} {fn : Proc (World × τ) EvmError Bool}
    (hfn : Within (Order.Preimage Prod.fst SameStore) fn) (ctx : GoContext) (init : τ)
    (attempts : ℕ) : Within SameStore (retryAssigning ctx init fn attempts) :=
  retryAssigning_keeps (R := SameStore) (fun _ => rfl) hfn ctx init attempts

/-- Retries that succeed end with an attempt that answered `true`, in a state that satisfies
every invariant of the unsuccessful attempts. -/
theorem retryAssigning_ok {τ : Type} {ctx : GoContext} {init x : τ}
    {fn : Proc (World × τ) EvmError Bool} {I : World × τ → Prop} {attempts : ℕ} {w w' : World}
    (hnext : ∀ s s', I s → fn s = (.ok false, s') → I (s'.1.sleep, s'.2)) (hs : I (w, init))
    (h : retryAssigning ctx init fn attempts w = (.ok x, w')) :
    ∃ t, I t ∧ fn t = (.ok true, (w', x)) := by
  unfold retryAssigning withLocal at h
  dsimp only at h
  rcases hl : retryLoop (fun s => (ctx.err s.1.clock).map .ctx) (fun s => (s.1.sleep, s.2)) fn
    attempts (w, init) with ⟨r | u, s⟩ <;> rw [hl] at h
  · simp [Except.map] at h
  · obtain ⟨hx, rfl⟩ := Prod.mk.inj h
    obtain rfl := Except.ok.inj hx
    exact retryLoop_ok_exists (fun s s' hi hf _ => hnext s s' hi hf) hs hl

/-- Retries of a function that answers `true` at once. -/
theorem retryAssigning_of_true {τ : Type} {init x : τ} {fn : Proc (World × τ) EvmError Bool}
    {w w' : World} (h : fn (w, init) = (.ok true, (w', x))) (ctx : GoContext) (attempts : ℕ) :
    retryAssigning ctx init fn (attempts + 1) w = (.ok x, w') := by
  unfold retryAssigning withLocal
  dsimp only
  rw [retryLoop_of_true h]
  rfl

/-- The invariant rule of retries that assign: what holds of every attempt and however the
retries end. -/
theorem retryAssigning_induct {τ : Type} {fn : Proc (World × τ) EvmError Bool}
    {I : World × τ → Prop} {Q : Outcome EvmError τ → World → Prop}
    (hrun : ∀ s, I s → Q (.error .running) s.1)
    (htrue : ∀ s s', I s → fn s = (.ok true, s') → Q (.ok s'.2) s'.1)
    (hstop : ∀ s s' r, I s → fn s = (.error r, s') → Q (.error r) s'.1)
    (hdone : ∀ s s' e, I s → fn s = (.ok false, s') → Q (.error (.error e)) s'.1)
    (hnext : ∀ s s', I s → fn s = (.ok false, s') → I (s'.1.sleep, s'.2))
    {init : τ} {w : World} (hs : I (w, init)) (ctx : GoContext) (attempts : ℕ) :
    Q (retryAssigning ctx init fn attempts w).1 (retryAssigning ctx init fn attempts w).2 :=
  retryLoop_induct (I := I) (Q := fun o s => Q (o.map fun _ => s.2) s.1) hrun htrue hstop
    (fun s s' e hi hf _ => hdone s s' e hi hf) (fun s s' hi hf _ => hnext s s' hi hf) hs attempts

theorem retry_logsOnly {P : EngineEvent → Prop} {fn : Evm Bool} (hfn : Within (LogsOnly P) fn)
    (ctx : GoContext) (attempts : ℕ) : Within (LogsOnly P) (retry ctx fn attempts) :=
  retry_keeps (fun _ => .of_log_eq rfl) hfn ctx attempts

theorem retryAssigning_logsOnly {P : EngineEvent → Prop} {τ : Type}
    {fn : Proc (World × τ) EvmError Bool} (hfn : Within (Order.Preimage Prod.fst (LogsOnly P)) fn)
    (ctx : GoContext) (init : τ) (attempts : ℕ) :
    Within (LogsOnly P) (retryAssigning ctx init fn attempts) :=
  retryAssigning_keeps (fun _ => .of_log_eq rfl) hfn ctx init attempts

end NexusNode
