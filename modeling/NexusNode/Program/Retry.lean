import NexusNode.Program.Proc

/-!
# Retry loops

`retryLoop done pause fn n` calls `fn` until it answers `true` or stops, giving up when `done`
reports an error after an unsuccessful attempt, and running `pause` between two attempts. The
loop of the source has no bound; the model makes at most `n` attempts and says `running` when
these did not suffice, so that a loop returns exactly when it does for some `n`.

## Main definitions

* `retryLoop done pause fn n`: the loop with at most `n` attempts
* `attemptState pause fn s k`: the state in which attempt `k` of a loop from `s` is made

## Main results

* `retryLoop_induct`: the invariant rule of the loop
* `retryLoop_mono`: a loop that has returned returns the same with more attempts
* `retryLoop_ok_exists`: a loop that ends well ends with an attempt that answered `true`
* `retryLoop_of_answers`, `retryLoop_ne_ok`: how a loop can end, from how its attempts can
* `retryLoop_within`: the loop keeps every frame of its attempts
* `retryLoop_onFst`: a loop over a part of the state
* `retryLoop_halts_iff`: which loops end
* `retryLoop_halts_of_deadline`: a loop that is done from some time on ends, on every clock that
  the pauses move
* `retryLoop_paced`: when the last attempt of such a loop is made, and how many there are
-/

namespace Program

open Proc

variable {σ ε : Type}

/-- Call `fn` until it answers `true`, at most `n` times. -/
def retryLoop (done : σ → Option ε) (pause : σ → σ) (fn : Proc σ ε Bool) : ℕ → Proc σ ε Unit
  -- out of attempts: the call of the source goes on from here
  | 0 => ⟨fun s => (.error .running, s)⟩
  | n + 1 => ⟨fun s =>
    match fn s with
    | (.error r, s') => (.error r, s')
    | (.ok true, s') => (.ok (), s')
    | (.ok false, s') =>
      -- the context is looked at only after an attempt that did not settle it
      match done s' with
      | some e => (.error (.error e), s')
      | none => retryLoop done pause fn n (pause s')⟩

variable {done : σ → Option ε} {pause : σ → σ} {fn : Proc σ ε Bool}

theorem retryLoop_of_true {s s' : σ} (h : fn s = (.ok true, s')) (n : ℕ) :
    retryLoop done pause fn (n + 1) s = (.ok (), s') := by
  simp [retryLoop, h]

theorem retryLoop_of_stop {s s' : σ} {r : Stop ε} (h : fn s = (.error r, s')) (n : ℕ) :
    retryLoop done pause fn (n + 1) s = (.error r, s') := by
  simp [retryLoop, h]

theorem retryLoop_of_done {s s' : σ} {e : ε} (h : fn s = (.ok false, s')) (hd : done s' = some e)
    (n : ℕ) : retryLoop done pause fn (n + 1) s = (.error (.error e), s') := by
  simp [retryLoop, h, hd]

theorem retryLoop_of_false {s s' : σ} (h : fn s = (.ok false, s')) (hd : done s' = none) (n : ℕ) :
    retryLoop done pause fn (n + 1) s = retryLoop done pause fn n (pause s') := by
  simp [retryLoop, h, hd]

/-- **The invariant rule.** If `I` holds at each attempt, an attempt that ends the loop
establishes `Q`, and an attempt that does not restores `I` after the pause, then the loop
establishes `Q`. -/
theorem retryLoop_induct {I : σ → Prop} {Q : Outcome ε Unit → σ → Prop}
    (hrun : ∀ s, I s → Q (.error .running) s)
    (htrue : ∀ s s', I s → fn s = (.ok true, s') → Q (.ok ()) s')
    (hstop : ∀ s s' r, I s → fn s = (.error r, s') → Q (.error r) s')
    (hdone : ∀ s s' e, I s → fn s = (.ok false, s') → done s' = some e →
      Q (.error (.error e)) s')
    (hnext : ∀ s s', I s → fn s = (.ok false, s') → done s' = none → I (pause s'))
    {s : σ} (hs : I s) (n : ℕ) :
    Q (retryLoop done pause fn n s).1 (retryLoop done pause fn n s).2 := by
  -- induction on the attempts left; the invariant holds before each of them
  induction n generalizing s with
  | zero => exact hrun s hs
  | succ n ih =>
    rcases h : fn s with ⟨r | b, s'⟩
    · rw [retryLoop_of_stop h]
      exact hstop s s' r hs h
    · cases b with
      | true =>
        rw [retryLoop_of_true h]
        exact htrue s s' hs h
      | false =>
        cases hd : done s' with
        | some e =>
          rw [retryLoop_of_done h hd]
          exact hdone s s' e hs h hd
        | none =>
          rw [retryLoop_of_false h hd]
          exact ih (hnext s s' hs h hd)

/-- A loop that did not run out of its attempts gives the same result with more of them. -/
theorem retryLoop_mono {n m : ℕ} (hnm : n ≤ m) {s s' : σ} {o : Outcome ε Unit}
    (h : retryLoop done pause fn n s = (o, s')) (ho : o ≠ .error .running) :
    retryLoop done pause fn m s = (o, s') := by
  induction n generalizing m s with
  | zero =>
    obtain ⟨rfl, -⟩ := Prod.mk.inj h
    exact absurd rfl ho
  | succ n ih =>
    obtain ⟨m, rfl⟩ : ∃ k, m = k + 1 := ⟨m - 1, by omega⟩
    rcases hf : fn s with ⟨r | b, t⟩
    · rw [retryLoop_of_stop hf] at h ⊢
      exact h
    · cases b with
      | true =>
        rw [retryLoop_of_true hf] at h ⊢
        exact h
      | false =>
        cases hd : done t with
        | some e =>
          rw [retryLoop_of_done hf hd] at h ⊢
          exact h
        | none =>
          rw [retryLoop_of_false hf hd] at h ⊢
          exact ih (by omega) h

/-- A loop that ends well ends with an attempt that answered `true`, made in a state that
satisfies every invariant of the unsuccessful attempts. -/
theorem retryLoop_ok_exists {I : σ → Prop}
    (hnext : ∀ s s', I s → fn s = (.ok false, s') → done s' = none → I (pause s'))
    {s s' : σ} (hs : I s) {n : ℕ} (h : retryLoop done pause fn n s = (.ok (), s')) :
    ∃ t, I t ∧ fn t = (.ok true, s') := by
  have key : (retryLoop done pause fn n s).1 = .ok () →
      ∃ t, I t ∧ fn t = (.ok true, (retryLoop done pause fn n s).2) :=
    retryLoop_induct (I := I) (Q := fun o u => o = .ok () → ∃ t, I t ∧ fn t = (.ok true, u))
      (by simp) (fun t u ht hf _ => ⟨t, ht, hf⟩) (by simp) (by simp) hnext hs n
  rw [h] at key
  exact key rfl

/-- A loop that stops is still running, was stopped by its last attempt, or found its context
done. The last attempt was made in a state that satisfies every invariant of the unsuccessful
ones. -/
theorem retryLoop_stop_cases {I : σ → Prop}
    (hnext : ∀ s s', I s → fn s = (.ok false, s') → done s' = none → I (pause s'))
    {s s' : σ} (hs : I s) {n : ℕ} {r : Stop ε}
    (h : retryLoop done pause fn n s = (.error r, s')) :
    r = .running ∨ (∃ t, I t ∧ fn t = (.error r, s')) ∨ (done s').isSome := by
  have key : ∀ r, (retryLoop done pause fn n s).1 = .error r → r = .running ∨
      (∃ t, I t ∧ fn t = (.error r, (retryLoop done pause fn n s).2)) ∨
      (done (retryLoop done pause fn n s).2).isSome :=
    retryLoop_induct (I := I)
      (Q := fun o u => ∀ r, o = .error r → r = .running ∨ (∃ t, I t ∧ fn t = (.error r, u)) ∨
        (done u).isSome)
      (fun s _ r hr => .inl (Except.error.inj hr).symm) (by simp)
      (fun t u r ht hf r' hr => .inr (.inl ⟨t, ht, Except.error.inj hr ▸ hf⟩))
      (fun t u e _ _ hd r hr => .inr (.inr (by simp [hd]))) hnext hs n
  rw [h] at key
  exact key r rfl

/-- A loop whose attempts always answer ends well, is still running, or found its context
done. -/
theorem retryLoop_of_answers (done : σ → Option ε) (pause : σ → σ)
    (hfn : ∀ s r s', fn s ≠ (.error r, s')) (n : ℕ) (s : σ) :
    (retryLoop done pause fn n s).1 = .ok () ∨ (retryLoop done pause fn n s).1 = .error .running ∨
      ∃ e, (retryLoop done pause fn n s).1 = .error (.error e) ∧
        done (retryLoop done pause fn n s).2 = some e :=
  retryLoop_induct (I := fun _ => True)
    (Q := fun o t => o = .ok () ∨ o = .error .running ∨
      ∃ e, o = .error (.error e) ∧ done t = some e)
    (by simp) (by simp) (fun t u r _ hf => absurd hf (hfn t r u))
    (fun _ _ e _ _ hd => .inr (.inr ⟨e, rfl, hd⟩)) (by simp) trivial n

/-- A loop whose attempts never answer `true` does not end well. -/
theorem retryLoop_ne_ok (done : σ → Option ε) (pause : σ → σ)
    (hfn : ∀ s s', fn s ≠ (.ok true, s')) (n : ℕ) (s : σ) :
    (retryLoop done pause fn n s).1 ≠ .ok () :=
  retryLoop_induct (I := fun _ => True) (Q := fun o _ => o ≠ .ok ()) (by simp)
    (fun t u _ hf => absurd hf (hfn t u)) (by simp) (by simp) (by simp) trivial n

/-- The loop keeps every frame of its attempts and of the pause. -/
theorem retryLoop_within {R : σ → σ → Prop} [Std.Refl R] [IsTrans σ R] (hfn : Within R fn)
    (hp : ∀ s, R s (pause s)) (n : ℕ) : Within R (retryLoop done pause fn n) := by
  intro s
  have step {t u : σ} {o : Outcome ε Bool} (h : R s t) (hf : fn t = (o, u)) : R s u :=
    IsTrans.trans _ _ _ h (by simpa [hf] using hfn t)
  exact retryLoop_induct (I := R s) (Q := fun _ u => R s u) (fun _ h => h)
    (fun _ _ h hf => step h hf) (fun _ _ _ h hf => step h hf) (fun _ _ _ h hf _ => step h hf)
    (fun _ u h hf _ => IsTrans.trans _ _ _ (step h hf) (hp u)) (Std.Refl.refl s) n

/-- A loop over a part of the state. -/
theorem retryLoop_onFst {τ : Type} (done : σ → Option ε) (pause : σ → σ) (fn : Proc σ ε Bool)
    (n : ℕ) (s : σ) (x : τ) :
    retryLoop (fun s => done s.1) (fun s => (pause s.1, s.2)) (onFst fn) n (s, x) =
      onFst (retryLoop done pause fn n) (s, x) := by
  induction n generalizing s with
  | zero => rfl
  | succ n ih =>
    have hfst {o : Outcome ε Bool} {t : σ} (h : fn s = (o, t)) :
        onFst fn (s, x) = (o, (t, x)) := by
      rw [onFst_apply, h]
    rw [onFst_apply]
    rcases h : fn s with ⟨r | b, t⟩
    · rw [retryLoop_of_stop (hfst h), retryLoop_of_stop h]
    · cases b with
      | true => rw [retryLoop_of_true (hfst h), retryLoop_of_true h]
      | false =>
        cases hd : done t with
        | some e => rw [retryLoop_of_done (hfst h) hd, retryLoop_of_done h hd]
        | none =>
          rw [retryLoop_of_false (hfst h) hd, retryLoop_of_false h hd]
          exact ih (pause t)

/-! ## The end of a loop -/

/-- The state in which attempt `k` is made, in a loop from `s` that none of the attempts before
has ended. -/
def attemptState (pause : σ → σ) (fn : Proc σ ε Bool) (s : σ) : ℕ → σ
  | 0 => s
  | k + 1 => attemptState pause fn (pause (fn s).2) k

/-- Attempt `k` leaves the loop where it was: `fn` answers `false`, and the context is not
done. -/
def Unsettled (done : σ → Option ε) (pause : σ → σ) (fn : Proc σ ε Bool) (s : σ) (k : ℕ) : Prop :=
  (fn (attemptState pause fn s k)).1 = .ok false ∧
    done (fn (attemptState pause fn s k)).2 = none

/-- The first attempt decides whether there is a second one. -/
theorem retryLoop_succ_halts_iff (hfn : ∀ t, Halts fn t) (n : ℕ) (s : σ) :
    Halts (retryLoop done pause fn (n + 1)) s ↔
      (Unsettled done pause fn s 0 → Halts (retryLoop done pause fn n) (pause (fn s).2)) := by
  unfold Unsettled attemptState Halts
  rcases h : fn s with ⟨r | b, s'⟩
  · rw [retryLoop_of_stop h]
    have hr : (fn s).1 ≠ .error .running := hfn s
    simpa [h] using hr
  · cases b with
    | true => simp [retryLoop_of_true h]
    | false =>
      cases hd : done s' with
      | some e => simp [retryLoop_of_done h hd]
      | none => simp [retryLoop_of_false h hd]

/-- **Which loops end within `n` attempts**: those with an attempt that settles them. -/
theorem retryLoop_halts_within_iff (hfn : ∀ t, Halts fn t) (n : ℕ) (s : σ) :
    Halts (retryLoop done pause fn n) s ↔ ∃ k < n, ¬ Unsettled done pause fn s k := by
  -- induction on the attempts; attempt `k + 1` from `s` is attempt `k` from the next state
  induction n generalizing s with
  | zero => simp [Halts, retryLoop]
  | succ n ih =>
    rw [retryLoop_succ_halts_iff hfn, ih, Nat.exists_lt_succ_left]
    constructor
    · intro h
      by_cases h0 : Unsettled done pause fn s 0
      · exact .inr (h h0)
      · exact .inl h0
    · rintro (h0 | h) hs
      · exact absurd hs h0
      · exact h

/-- A loop that no attempt settles has made them all. -/
theorem retryLoop_of_unsettled {n : ℕ} {s : σ} (h : ∀ k < n, Unsettled done pause fn s k) :
    retryLoop done pause fn n s = (.error .running, attemptState pause fn s n) := by
  induction n generalizing s with
  | zero => rfl
  | succ n ih =>
    obtain ⟨hfalse, hnone⟩ := h 0 (Nat.succ_pos n)
    have hs : fn s = (.ok false, (fn s).2) := Prod.ext hfalse rfl
    rw [retryLoop_of_false hs hnone]
    exact ih fun k hk => h (k + 1) (Nat.succ_lt_succ hk)

/-- **Which loops end**: those with an attempt that does not answer `false`, or that finds the
context done. -/
theorem retryLoop_halts_iff (done : σ → Option ε) (pause : σ → σ) (hfn : ∀ t, Halts fn t)
    (s : σ) :
    (∃ n, Halts (retryLoop done pause fn n) s) ↔ ∃ k, ¬ Unsettled done pause fn s k := by
  constructor
  · rintro ⟨n, hn⟩
    obtain ⟨k, -, hk⟩ := (retryLoop_halts_within_iff hfn n s).mp hn
    exact ⟨k, hk⟩
  · rintro ⟨k, hk⟩
    exact ⟨k + 1, (retryLoop_halts_within_iff hfn (k + 1) s).mpr ⟨k, by omega, hk⟩⟩

section Clock

variable (clock : σ → ℕ) {delay : ℕ}

/-- On a clock that no attempt turns back, every attempt is at least a pause after the one
before. -/
theorem le_clock_attemptState (hfn : ∀ t, clock t ≤ clock (fn t).2)
    (hpause : ∀ t, clock t + delay ≤ clock (pause t)) (s : σ) (k : ℕ) :
    clock s + k * delay ≤ clock (attemptState pause fn s k) := by
  induction k generalizing s with
  | zero => simp [attemptState]
  | succ k ih =>
    have hstep : clock s + delay ≤ clock (pause (fn s).2) :=
      Nat.le_trans (Nat.add_le_add_right (hfn s) delay) (hpause (fn s).2)
    calc clock s + (k + 1) * delay = clock s + delay + k * delay := by rw [Nat.succ_mul]; omega
      _ ≤ clock (pause (fn s).2) + k * delay := Nat.add_le_add_right hstep _
      _ ≤ clock (attemptState pause fn s (k + 1)) := ih _

/-- A loop whose context is done from a time `t` on ends with the first attempt that is made
at `t` or later. -/
theorem retryLoop_halts_of_deadline (hfn : ∀ t, Halts fn t)
    (hclock : ∀ t, clock t ≤ clock (fn t).2) (hpause : ∀ t, clock t + delay ≤ clock (pause t))
    {t : ℕ} (hdone : ∀ u, t ≤ clock u → done u ≠ none) {s : σ} {n : ℕ}
    (hn : t ≤ clock s + n * delay) : Halts (retryLoop done pause fn (n + 1)) s := by
  refine (retryLoop_halts_within_iff hfn (n + 1) s).mpr ⟨n, by omega, ?_⟩
  rintro ⟨-, hnone⟩
  have hlate := Nat.le_trans hn (le_clock_attemptState clock hclock hpause s n)
  exact hdone _ (Nat.le_trans hlate (hclock _)) hnone

/-- **The pace of a loop** whose context is done from `deadline` on. Its last attempt is made at a
time `c` before the end of the pause that the deadline falls into, and all attempts before it
are a pause apart. `made` counts what an attempt does at most once. -/
theorem retryLoop_paced (made : σ → ℕ) {latency deadline : ℕ}
    (hfn : ∀ t, clock t ≤ clock (fn t).2 ∧ clock (fn t).2 ≤ clock t + latency)
    (hmade : ∀ t, made (fn t).2 ≤ made t + 1)
    (hpause : ∀ t, clock (pause t) = clock t + delay ∧ made (pause t) = made t)
    (hdone : ∀ t, deadline ≤ clock t → done t ≠ none) (n : ℕ) (s : σ) :
    ∃ c, clock s ≤ c ∧ (c = clock s ∨ c < deadline + delay) ∧
      c ≤ clock (retryLoop done pause fn n s).2 ∧
      clock (retryLoop done pause fn n s).2 ≤ c + latency ∧
      delay * made (retryLoop done pause fn n s).2 + clock s ≤ delay * made s + delay + c := by
  -- before each attempt: the pauses so far pay for the attempts so far
  let I : σ → Prop := fun t => clock s ≤ clock t ∧
    (clock t = clock s ∨ clock t < deadline + delay) ∧
    delay * made t + clock s ≤ delay * made s + clock t
  let Q : Outcome ε Unit → σ → Prop := fun _ u => ∃ c, clock s ≤ c ∧
    (c = clock s ∨ c < deadline + delay) ∧ c ≤ clock u ∧ clock u ≤ c + latency ∧
    delay * made u + clock s ≤ delay * made s + delay + c
  have hone (t : σ) : delay * made (fn t).2 ≤ delay * made t + delay := by
    have := Nat.mul_le_mul_left delay (hmade t)
    rwa [Nat.mul_succ] at this
  have hend (t : σ) (ht : I t) : Q (.error .running) (fn t).2 := by
    obtain ⟨hge, hlt, hpaid⟩ := ht
    have hattempt := hfn t
    have hmore := hone t
    exact ⟨clock t, hge, hlt, hattempt.1, hattempt.2, by omega⟩
  have hstart : I s := ⟨Nat.le_refl _, .inl rfl, Nat.le_refl _⟩
  refine retryLoop_induct (I := I) (Q := Q) ?_ ?_ ?_ ?_ ?_ hstart n
  · rintro t ⟨hge, hlt, hpaid⟩
    exact ⟨clock t, hge, hlt, Nat.le_refl _, by omega, by omega⟩
  · intro t u ht hf
    have := hend t ht
    rwa [hf] at this
  · intro t u r ht hf
    have := hend t ht
    rwa [hf] at this
  · intro t u e ht hf _
    have := hend t ht
    rwa [hf] at this
  · rintro t u ⟨hge, hlt, hpaid⟩ hf hd
    have hattempt : clock t ≤ clock u := by
      have := (hfn t).1
      rwa [hf] at this
    have hmore : delay * made u ≤ delay * made t + delay := by
      have := hone t
      rwa [hf] at this
    have hnext := hpause u
    have hearly : clock u < deadline := by
      by_contra hlate
      exact hdone u (Nat.le_of_not_lt hlate) hd
    refine ⟨by omega, .inr (by omega), ?_⟩
    rw [hnext.1, hnext.2]
    omega

end Clock

end Program
