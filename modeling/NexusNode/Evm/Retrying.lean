import NexusNode.Evm.Finalize
import NexusNode.Evm.Prepare

/-!
# How long `retry` goes on

`retry` makes a context with a deadline for every attempt, inside its loop. The deadline bounds
that attempt; between two attempts the loop looks at the context of its caller only. So the
loop ends if that context is done at some time, or if an attempt settles it, and for no other
reason: the time spent in all attempts together is not measured. `PrepareProposal` gives its
loops a context with a deadline and always ends. `ExecutionPayload` runs under the context of
`FinalizeBlock`, which is never done, and waits for the engine for ever.

## Main definitions

* `retryTimed ctx fn attempts`: `retry` with the context that it makes for each attempt
* `ClockAdvances`: the frame of code that does not turn the clock back

## Main results

* `retryTimed_halts_iff`: which retries end
* `retryTimed_halts_forall_iff`: under which contexts all of them do
* `prepareProposal_halts`: preparing a proposal ends, whatever the engine replies
* `executionPayload_not_halts`: finalizing a block does not while the engine is unreachable
-/

namespace NexusNode

open Program Proc

/-! ## The clock -/

/-- The clock was not turned back. -/
def ClockAdvances (w w' : World) : Prop := w.clock ≤ w'.clock

instance : Std.Refl ClockAdvances := ⟨fun w => Nat.le_refl w.clock⟩

instance : IsTrans World ClockAdvances := ⟨fun _ _ _ h h' => Nat.le_trans h h'⟩

theorem clockAdvances_record (w : World) (e : EngineEvent) (latency : ℕ) :
    ClockAdvances w (w.record e latency) := Nat.le_add_right _ _

theorem clockAdvances_sleep (w : World) : ClockAdvances w w.sleep := Nat.le_add_right _ _

/-! ## The attempts of `ExecutionPayload` -/

section Attempts

variable (k : Keeper) (eng : Engine) (ctx : SdkContext) (payload : ExecutableData)

theorem newPayloadAttempt_halts (w : World) : Halts (newPayloadAttempt k eng ctx payload) w := by
  unfold Halts
  rcases newPayloadAttempt_cases k eng ctx payload w with h | ⟨hashes, -, h⟩ <;> rw [h]
  · simp
  · dsimp only
    cases eng.newPayload w.log (payloadCall k ctx.header payload hashes) with
    | error e => simp [newPayloadVerdict]
    | ok status =>
      dsimp only [newPayloadVerdict]
      split_ifs <;> simp

theorem newPayloadAttempt_clock : Within ClockAdvances (newPayloadAttempt k eng ctx payload) := by
  intro w
  rcases newPayloadAttempt_cases k eng ctx payload w with h | ⟨hashes, -, h⟩ <;> rw [h]
  · exact Nat.le_refl _
  · exact clockAdvances_record _ _ _

/-- An attempt whose call is refused is one to repeat. -/
theorem newPayloadAttempt_of_refused
    (hrefuse : ∀ log call, ∃ e, eng.newPayload log call = .error e) (w : World) :
    (newPayloadAttempt k eng ctx payload w).1 = .ok false := by
  rcases newPayloadAttempt_cases k eng ctx payload w with h | ⟨hashes, -, h⟩ <;> rw [h]
  obtain ⟨e, he⟩ := hrefuse w.log (payloadCall k ctx.header payload hashes)
  dsimp only
  rw [he]
  rfl

theorem forkchoiceAttempt_halts (w : World) : Halts (forkchoiceAttempt eng payload) w := by
  unfold Halts
  rw [forkchoiceAttempt_apply]
  dsimp only
  cases eng.forkchoiceUpdated w.log ⟨forkchoiceAt payload.blockHash, none⟩ with
  | error e => simp [forkchoiceVerdict]
  | ok response =>
    dsimp only [forkchoiceVerdict]
    split_ifs <;> simp

theorem forkchoiceAttempt_clock : Within ClockAdvances (forkchoiceAttempt eng payload) := by
  intro w
  rw [forkchoiceAttempt_apply]
  exact clockAdvances_record _ _ _

end Attempts

/-! ## The loop with its deadlines -/

/-- The milliseconds of one attempt. -/
def requestTimeout : ℕ := 10000

section Timed

variable {τ : Type}

/-- One attempt of `retry`: the deadline counts from the start of the attempt. -/
def timedAttempt (ctx : GoContext) (fn : GoContext → Proc (World × τ) EvmError Bool) :
    Proc (World × τ) EvmError Bool where
  run s := fn (ctx.withTimeout s.1.clock requestTimeout) s

/-- `retry`, with the variables `τ` of its caller that `fn` assigns. -/
def retryTimed (ctx : GoContext) (fn : GoContext → Proc (World × τ) EvmError Bool)
    (attempts : ℕ) : Proc (World × τ) EvmError Unit :=
  retryLoop (fun s => (ctx.err s.1.clock).map .ctx) (fun s => (s.1.sleep, s.2))
    (timedAttempt ctx fn) attempts

/-- The state in which `fn` is called for the `k`-th time: `retryDelay` after the call before,
which answered `false`. -/
def callState (ctx : GoContext) (fn : GoContext → Proc (World × τ) EvmError Bool)
    (s : World × τ) (k : ℕ) : World × τ :=
  attemptState (fun s => (s.1.sleep, s.2)) (timedAttempt ctx fn) s k

theorem timedAttempt_apply (ctx : GoContext) (fn : GoContext → Proc (World × τ) EvmError Bool)
    (s : World × τ) :
    timedAttempt ctx fn s = fn (ctx.withTimeout s.1.clock requestTimeout) s := rfl

@[simp] theorem timedAttempt_const (ctx : GoContext) (fn : Proc (World × τ) EvmError Bool) :
    timedAttempt ctx (fun _ => fn) = fn := rfl

/-- The loops of `PrepareProposal` are `retry` with a function that does not ask for the
deadline: an attempt that misses it is a failed call of the engine. -/
theorem retryAssigning_eq_timed (ctx : GoContext) (init : τ)
    (fn : Proc (World × τ) EvmError Bool) (attempts : ℕ) :
    retryAssigning ctx init fn attempts =
      withLocal init (retryTimed ctx (fun _ => fn) attempts) := rfl

/-- The loops of `ExecutionPayload` assign no variable. -/
theorem retry_eq_timed (ctx : GoContext) (fn : Evm Bool) (attempts : ℕ) (w : World) (x : τ) :
    onFst (retry ctx fn attempts) (w, x) = retryTimed ctx (fun _ => onFst fn) attempts (w, x) := by
  unfold retryTimed retry
  rw [timedAttempt_const]
  exact (retryLoop_onFst (fun w : World => (ctx.err w.clock).map .ctx) World.sleep fn attempts w
    x).symm

variable {ctx : GoContext} {fn : GoContext → Proc (World × τ) EvmError Bool}

theorem GoContext.withTimeout_done (goCtx : GoContext) (now timeout : ℕ) :
    ((goCtx.withTimeout now timeout).err (now + timeout)).isSome := by
  simp [GoContext.withTimeout]

theorem timedAttempt_halts (ctx : GoContext) (hfn : ∀ c s, Halts (fn c) s) (s : World × τ) :
    Halts (timedAttempt ctx fn) s := by
  unfold Halts
  rw [timedAttempt_apply]
  exact hfn _ s

theorem timedAttempt_clock
    (hclock : ∀ c, Within (Order.Preimage Prod.fst ClockAdvances) (fn c)) (s : World × τ) :
    s.1.clock ≤ (timedAttempt ctx fn s).2.1.clock := by
  rw [timedAttempt_apply]
  exact hclock _ s

/-- A context that is done is done at every later look of the loop. -/
theorem GoContext.done_of_le {t : ℕ} (ht : (ctx.err t).isSome) {s : World × τ}
    (hs : t ≤ s.1.clock) : (ctx.err s.1.clock).map EvmError.ctx ≠ none := by
  have hdone := ctx.stays_done hs ht
  intro hnone
  rw [Option.map_eq_none_iff.mp hnone] at hdone
  cases hdone

/-- **A context that is done at the time `t` ends the loop** with the first attempt that is made
at `t` or later, and attempts are at least `retryDelay` apart. -/
theorem retryTimed_halts_of_done (hfn : ∀ c s, Halts (fn c) s)
    (hclock : ∀ c, Within (Order.Preimage Prod.fst ClockAdvances) (fn c)) {t : ℕ}
    (ht : (ctx.err t).isSome) {s : World × τ} {n : ℕ} (hn : t ≤ s.1.clock + n * retryDelay) :
    Halts (retryTimed ctx fn (n + 1)) s :=
  retryLoop_halts_of_deadline (fun s : World × τ => s.1.clock) (timedAttempt_halts ctx hfn)
    (timedAttempt_clock hclock) (fun _ => Nat.le_refl _) (fun _ hu => GoContext.done_of_le ht hu) hn

/-- Under a context that is never done, a function that answers `false` is called again and
again. -/
theorem retryTimed_of_false (hnever : ∀ t, ctx.err t = none)
    (hfalse : ∀ c s, (fn c s).1 = .ok false) (attempts : ℕ) (s : World × τ) :
    retryTimed ctx fn attempts s = (.error .running, callState ctx fn s attempts) := by
  refine retryLoop_of_unsettled fun k _ => ⟨?_, by simp [hnever]⟩
  rw [timedAttempt_apply]
  exact hfalse _ _

/-- The calls are at least `retryDelay` apart. -/
theorem le_clock_callState (ctx : GoContext)
    (hclock : ∀ c, Within (Order.Preimage Prod.fst ClockAdvances) (fn c)) (s : World × τ) (k : ℕ) :
    s.1.clock + k * retryDelay ≤ (callState ctx fn s k).1.clock :=
  le_clock_attemptState (fun s : World × τ => s.1.clock) (timedAttempt_clock hclock)
    (fun _ => Nat.le_refl _) s k

/-- **Which retries end**: those under a context that is done at some time, and those with a
call of `fn` that does not answer `false`. -/
theorem retryTimed_halts_iff (hfn : ∀ c s, Halts (fn c) s)
    (hclock : ∀ c, Within (Order.Preimage Prod.fst ClockAdvances) (fn c)) (s : World × τ) :
    (∃ attempts, Halts (retryTimed ctx fn attempts) s) ↔
      (∃ t, (ctx.err t).isSome) ∨
        ∃ k, (timedAttempt ctx fn (callState ctx fn s k)).1 ≠ .ok false := by
  have hends := retryLoop_halts_iff (fun s : World × τ => (ctx.err s.1.clock).map EvmError.ctx)
    (fun s => (s.1.sleep, s.2)) (timedAttempt_halts ctx hfn) s
  constructor
  · intro h
    obtain ⟨k, hk⟩ := hends.mp h
    rcases not_and_or.mp hk with hanswer | hdone
    · exact .inr ⟨k, hanswer⟩
    · have hsome := Option.ne_none_iff_isSome.mp hdone
      exact .inl ⟨_, by simpa using hsome⟩
  · rintro (⟨t, ht⟩ | ⟨k, hk⟩)
    · have hle : t ≤ s.1.clock + t * retryDelay := by unfold retryDelay; omega
      exact ⟨t + 1, retryTimed_halts_of_done hfn hclock ht hle⟩
    · exact hends.mpr ⟨k, fun hu => hk hu.1⟩

section Unreachable

open Wire

/-- An engine that cannot be reached. -/
def unreachableEngine : Engine where
  newPayload _ _ := .error ⟨"connection refused", ""⟩
  forkchoiceUpdated _ _ := .error ⟨"connection refused", ""⟩
  getPayload _ _ := .error ⟨"connection refused", ""⟩
  latency _ := 1

/-- The closure that hands a block over to that engine. -/
def unreachableAttempt (_ : GoContext) : Proc (World × Unit) EvmError Bool :=
  onFst (newPayloadAttempt (sampleKeeper defaultConfig cancunSpec (samplePayload []) [])
    unreachableEngine (sampleCtx .finalize) (samplePayload []))

theorem unreachableAttempt_halts (c : GoContext) (s : World × Unit) :
    Halts (unreachableAttempt c) s :=
  Halts.onFst (newPayloadAttempt_halts _ _ _ _ s.1) s.2

theorem unreachableAttempt_clock (c : GoContext) :
    Within (Order.Preimage Prod.fst ClockAdvances) (unreachableAttempt c) :=
  Within.onFst (newPayloadAttempt_clock _ _ _ _)

theorem unreachableAttempt_false (c : GoContext) (s : World × Unit) :
    (unreachableAttempt c s).1 = .ok false :=
  newPayloadAttempt_of_refused _ _ _ _ (fun _ _ => ⟨_, rfl⟩) s.1

/-- A deadline ends the retries. -/
theorem retryTimed_unreachable_deadline :
    ∃ attempts, Halts (retryTimed (GoContext.background.withTimeout 0 prepareTimeout)
      unreachableAttempt attempts) (sampleWorld, ()) :=
  (retryTimed_halts_iff unreachableAttempt_halts unreachableAttempt_clock (sampleWorld, ())).mpr
    (.inl ⟨0 + prepareTimeout, GoContext.withTimeout_done _ _ _⟩)

/-- Without one they go on after more than `requestTimeout`. -/
theorem retryTimed_unreachable_background :
    (∀ c s, Halts (unreachableAttempt c) s) ∧
      (∀ c, Within (Order.Preimage Prod.fst ClockAdvances) (unreachableAttempt c)) ∧
      (∀ attempts, ¬ Halts (retryTimed .background unreachableAttempt attempts)
        (sampleWorld, ())) ∧
      requestTimeout <
        (retryTimed .background unreachableAttempt 1001 (sampleWorld, ())).2.1.clock := by
  have hruns (attempts : ℕ) : retryTimed .background unreachableAttempt attempts
      (sampleWorld, ()) = (.error .running,
        callState .background unreachableAttempt (sampleWorld, ()) attempts) :=
    retryTimed_of_false (fun _ => rfl) unreachableAttempt_false attempts _
  refine ⟨unreachableAttempt_halts, unreachableAttempt_clock, fun attempts => ?_, ?_⟩
  · exact not_not.mpr (congrArg Prod.fst (hruns attempts))
  · rw [hruns]
    dsimp only
    have hclock := le_clock_callState .background unreachableAttempt_clock
      (sampleWorld, ()) 1001
    unfold requestTimeout
    unfold retryDelay at hclock
    omega

end Unreachable

/-- **Under which contexts all retries end**: those that are done at some time. -/
theorem retryTimed_halts_forall_iff [Nonempty τ] (ctx : GoContext) :
    (∀ fn : GoContext → Proc (World × τ) EvmError Bool, (∀ c s, Halts (fn c) s) →
      (∀ c, Within (Order.Preimage Prod.fst ClockAdvances) (fn c)) →
        ∀ s, ∃ attempts, Halts (retryTimed ctx fn attempts) s) ↔
      ∃ t, (ctx.err t).isSome := by
  constructor
  · intro hall
    by_contra hnever
    obtain ⟨x⟩ := ‹Nonempty τ›
    obtain ⟨attempts, hends⟩ := hall (fun _ => pure false) (fun _ => Halts.pure false)
      (fun _ _ => Nat.le_refl _) (⟨⟨none, none⟩, [], 0⟩, x)
    refine hends (congrArg Prod.fst (retryTimed_of_false ?_ (fun _ _ => rfl) attempts _))
    intro t
    by_contra ht
    exact hnever ⟨t, Option.ne_none_iff_isSome.mp ht⟩
  · rintro ⟨t, ht⟩ fn hfn hclock s
    have hle : t ≤ s.1.clock + t * retryDelay := by unfold retryDelay; omega
    exact ⟨t + 1, retryTimed_halts_of_done hfn hclock ht hle⟩

end Timed

/-! ## The handlers -/

section Handlers

variable (k : Keeper) (eng : Engine) (ctx : SdkContext) (payload : ExecutableData)

theorem toUint64_ne_running (val : Int64) : toUint64 val ≠ .error .running := by
  unfold toUint64
  split_ifs <;> simp

theorem checkPayload_ne_running (state : BlockState) :
    checkPayload k ctx state payload ≠ .error .running := by
  unfold checkPayload
  split_ifs
  · simp
  · simp
  · simp
  · simp
  · simp
  · simp
  refine outcome_bind_ne_running (toUint64_ne_running _) fun height => ?_
  dsimp only
  split_ifs <;> simp

theorem validatePayload_ne_running (msg : MsgExecutionPayload) (state : BlockState) :
    validatePayload k ctx msg state ≠ .error .running := by
  unfold validatePayload
  dsimp only
  split_ifs
  · simp
  · cases k.platform.unmarshalPayload msg.executionPayload with
    | error e => simp
    | ok payload => exact checkPayload_ne_running k ctx payload state

theorem checkExecutionPayload_ne_running (msg : MsgExecutionPayload) (store : Store) :
    checkExecutionPayload k ctx msg store ≠ .error .running := by
  unfold checkExecutionPayload
  split_ifs
  · simp
  · simp
  · cases store.blockState with
    | none => simp
    | some state => exact validatePayload_ne_running k ctx msg state

variable {ctx}

theorem retry_halts_of_done {fn : Evm Bool} (hfn : ∀ w, Halts fn w)
    (hclock : Within ClockAdvances fn) {goCtx : GoContext} {t : ℕ} (ht : (goCtx.err t).isSome)
    {w : World} {n : ℕ} (hn : t ≤ w.clock + n * retryDelay) :
    Halts (retry goCtx fn (n + 1)) w := by
  have h : Halts (retryTimed goCtx (fun _ => onFst fn) (n + 1)) (w, ()) :=
    retryTimed_halts_of_done (fun _ s => Halts.onFst (hfn s.1) s.2)
      (fun _ => Within.onFst hclock) ht hn
  unfold Halts at h
  rwa [← retry_eq_timed] at h

theorem retry_clock {fn : Evm Bool} (hclock : Within ClockAdvances fn) (goCtx : GoContext)
    (attempts : ℕ) : Within ClockAdvances (retry goCtx fn attempts) :=
  retry_keeps clockAdvances_sleep hclock goCtx attempts

/-- Under a context that is done at the time `t`, handing a payload over ends. -/
theorem executionPayload_halts_of_done (msg : MsgExecutionPayload) {t : ℕ}
    (ht : (ctx.goCtx.err t).isSome) {w : World} {n : ℕ} (hn : t ≤ w.clock + n * retryDelay) :
    Halts (executionPayload k eng ctx (n + 1) msg) w := by
  unfold executionPayload
  refine Halts.bind (Halts.get w) fun w₀ w₁ hw => ?_
  obtain ⟨rfl, rfl⟩ : w = w₀ ∧ w = w₁ := by simpa using hw
  refine Halts.bind (Halts.ofOutcome ?_ w) fun payload w₁ hw => ?_
  · exact checkExecutionPayload_ne_running k ctx msg w.store
  obtain ⟨-, rfl⟩ := Prod.mk.inj hw
  refine Halts.bind (retry_halts_of_done (newPayloadAttempt_halts k eng ctx payload)
    (newPayloadAttempt_clock k eng ctx payload) ht hn) fun _ w₁ hw => ?_
  have hlater : ClockAdvances w w₁ := by
    simpa [hw] using retry_clock (newPayloadAttempt_clock k eng ctx payload) ctx.goCtx (n + 1) w
  have hn₁ : t ≤ w₁.clock + n * retryDelay := by
    unfold ClockAdvances at hlater
    omega
  refine Halts.bind (retry_halts_of_done (forkchoiceAttempt_halts eng payload)
    (forkchoiceAttempt_clock eng payload) ht hn₁) fun _ w₂ _ => ?_
  exact Halts.of_ok (setBlockState_apply _ _)

/-- **Finalizing does not end while the engine is unreachable**, under a context that is never
done. -/
theorem executionPayload_not_halts {msg : MsgExecutionPayload} {payload : ExecutableData}
    {w : World} (hnever : ∀ t, ctx.goCtx.err t = none)
    (hrefuse : ∀ log call, ∃ e, eng.newPayload log call = .error e)
    (hcheck : checkExecutionPayload k ctx msg w.store = .ok payload) (attempts : ℕ) :
    ¬ Halts (executionPayload k eng ctx attempts msg) w := by
  refine not_not.mpr (executionPayload_running_of_false hnever hcheck fun u => ?_)
  exact newPayloadAttempt_of_refused k eng ctx payload hrefuse u

/-! ## Preparing a proposal -/

theorem getBlockState_halts (w : World) : Halts getBlockState w := by
  cases hs : w.store.blockState with
  | none => exact Halts.of_error (getBlockState_of_none hs)
  | some state => exact Halts.of_ok (getBlockState_eq_ok_iff.mpr ⟨hs, rfl⟩)

theorem forkchoiceRound_halts (hdr : Header) (height : UInt64) (s : World × PayloadID) :
    Halts (forkchoiceRound k eng hdr height) s := by
  obtain ⟨w, id₀⟩ := s
  cases hs : w.store.blockState with
  | none => exact Halts.of_ok (forkchoiceRound_of_no_state hs id₀)
  | some state =>
    unfold Halts
    rw [forkchoiceRound_apply hs]
    dsimp only
    cases eng.forkchoiceUpdated w.log (buildCall k hdr height state) with
    | error e => simp [buildVerdict]
    | ok response =>
      dsimp only [buildVerdict]
      split_ifs
      · simp
      · simp
      · cases response.payloadID <;> simp

theorem forkchoiceRound_clock (hdr : Header) (height : UInt64) :
    Within (Order.Preimage Prod.fst ClockAdvances) (forkchoiceRound k eng hdr height) := by
  rintro ⟨w, id₀⟩
  cases hs : w.store.blockState with
  | none =>
    rw [forkchoiceRound_of_no_state hs]
    exact Nat.le_refl _
  | some state =>
    rw [forkchoiceRound_apply hs]
    dsimp only
    split <;> exact clockAdvances_record _ _ _

theorem getPayloadRound_halts (height timestamp : UInt64) (id : PayloadID) (s : World × Poll) :
    Halts (getPayloadRound k eng height timestamp id) s := by
  obtain ⟨w, poll⟩ := s
  unfold Halts
  rw [getPayloadRound_apply]
  dsimp only
  cases eng.getPayload w.log ⟨k.chainSpec.getPayloadEngineRPCVersion timestamp, id⟩ with
  | ok response => simp [pollVerdict]
  | error e =>
    dsimp only [pollVerdict]
    split_ifs <;> simp

theorem getPayloadRound_clock (height timestamp : UInt64) (id : PayloadID) :
    Within (Order.Preimage Prod.fst ClockAdvances)
      (getPayloadRound k eng height timestamp id) := by
  rintro ⟨w, poll⟩
  rw [getPayloadRound_apply]
  exact clockAdvances_record _ _ _

theorem waitBuildDelay_halts (goCtx : GoContext) (preferDone : Bool) (w : World) :
    Halts (waitBuildDelay goCtx preferDone) w := by
  unfold Halts waitBuildDelay
  dsimp only
  split
  · split_ifs <;> simp
  · simp

theorem waitBuildDelay_clock (goCtx : GoContext) (preferDone : Bool) :
    Within ClockAdvances (waitBuildDelay goCtx preferDone) := by
  intro w
  unfold waitBuildDelay
  dsimp only
  split
  · split_ifs <;> exact Nat.le_add_right _ _
  · exact Nat.le_add_right _ _

theorem ofExt_ne_running {α : Type} (x : Except String α) : ofExt x ≠ .error .running := by
  cases x <;> simp [ofExt]

theorem payloadTx_ne_running (p : Platform) : payloadTx p payload ≠ .error .running := by
  unfold payloadTx
  refine outcome_bind_ne_running (ofExt_ne_running _) fun data => ?_
  refine outcome_bind_ne_running (ofExt_ne_running _) fun tx => ?_
  refine outcome_bind_ne_running (ofExt_ne_running _) fun raw => ?_
  split_ifs <;> simp

theorem retryAssigning_halts_of_done {τ : Type} {fn : Proc (World × τ) EvmError Bool}
    (hfn : ∀ s, Halts fn s) (hclock : Within (Order.Preimage Prod.fst ClockAdvances) fn)
    {goCtx : GoContext} {t : ℕ} (ht : (goCtx.err t).isSome) {w : World} {n : ℕ}
    (hn : t ≤ w.clock + n * retryDelay) (init : τ) :
    Halts (retryAssigning goCtx init fn (n + 1)) w := by
  rw [retryAssigning_eq_timed]
  exact Halts.withLocal (retryTimed_halts_of_done (fun _ => hfn) (fun _ => hclock) ht hn)

/-- **Preparing a proposal ends**, whatever the engine replies and however long it takes: both
loops run under the deadline of the handler. -/
theorem prepareProposal_halts (ctx : SdkContext) (req : RequestPrepareProposal) {n : ℕ}
    (hn : prepareTimeout ≤ n * retryDelay) (w : World) :
    Halts (prepareProposal k eng ctx (n + 1) req) w := by
  unfold prepareProposal
  refine Halts.bind (Halts.get w) fun start w₀ hw => ?_
  obtain ⟨rfl, rfl⟩ : w = start ∧ w = w₀ := by simpa using hw
  dsimp only
  refine Halts.ite (fun _ => Halts.pure _ _) fun _ => ?_
  refine Halts.bind (Halts.ofOutcome (toUint64_ne_running _) w) fun height w₁ hw => ?_
  obtain ⟨-, rfl⟩ := Prod.mk.inj hw
  refine Halts.bind (getBlockState_halts w) fun state w₁ hw => ?_
  obtain ⟨-, rfl⟩ := getBlockState_eq_ok_iff.mp hw
  have hdone := ctx.goCtx.withTimeout_done w.clock prepareTimeout
  have hrounds := forkchoiceRound_clock k eng ctx.header height
  refine Halts.bind (retryAssigning_halts_of_done (forkchoiceRound_halts k eng ctx.header height)
    hrounds hdone (by omega) _) fun id w₁ hw => ?_
  -- from here on the clock only has to be past the start of the handler
  have h₁ : ClockAdvances w w₁ := by
    have h := retryAssigning_keeps clockAdvances_sleep hrounds
      (ctx.goCtx.withTimeout w.clock prepareTimeout) (FixedBytes.ofBytes 8 []) (n + 1) w
    rwa [hw] at h
  refine Halts.bind (waitBuildDelay_halts _ _ w₁) fun _ w₂ hw => ?_
  have h₂ : ClockAdvances w₁ w₂ := by
    have h := waitBuildDelay_clock (ctx.goCtx.withTimeout w.clock prepareTimeout) ctx.preferDone w₁
    rwa [hw] at h
  have hle : w.clock + prepareTimeout ≤ w₂.clock + n * retryDelay := by
    unfold ClockAdvances at h₁ h₂
    omega
  refine Halts.bind (retryAssigning_halts_of_done (getPayloadRound_halts k eng height _ id)
    (getPayloadRound_clock k eng height _ id) hdone hle _) fun poll w₃ _ => ?_
  cases poll.payloadResponse with
  | none => exact Halts.panic _ _
  | some response =>
    refine Halts.bind (Halts.ofOutcome (payloadTx_ne_running _ _) w₃) fun tx w₄ _ => ?_
    exact Halts.pure _ _

end Handlers

end NexusNode
