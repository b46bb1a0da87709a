import Mathlib.Order.RelClasses

/-!
# Sequential programs whose effects survive an early return

A program of an imperative language with error returns writes its state as it goes: a call
that fails half way leaves behind what it wrote before the failure. `Proc σ ε α` is such a
program over the state `σ`. It always yields a state, and with it either a value or the
reason it stopped: a returned error, a panic, or the end of the attempts a loop was given.

## Main definitions

* `Stop ε`: the ways a call ends without a value
* `Proc σ ε α`: programs over `σ`
* `Proc.attempt p`: run `p` and hand its returned error to the caller
* `Proc.onError h p`: run `p` and rewrite its returned error
* `Proc.mapError f p`: run `p` with errors of another kind
* `Proc.withLocal x p`: run `p` with a local variable that starts as `x`
* `Proc.NeverFails p`: no call of `p` returns an error
* `Proc.Halts p s`: the call of `p` from `s` comes to an end
* `Proc.Within R p`: every call of `p` relates its first state to its last by `R`
* `Proc.Checks p s C`: the call of `p` from `s` returns an error unless `C` holds
* `Proc.Meets prog s u`: the program that `prog` is built around is run on `u`

## Main results

* `Proc.bind_eq_ok_iff`: a sequence returns a value exactly when both of its parts do
* `Proc.bind_stop_cases`: a sequence that stops does so in its first or its second part
* `Proc.Halts.bind`: a sequence ends when both of its parts do
* `Proc.Within.bind`, `Proc.Within.attempt`: frame rules for a transitive relation
* `Proc.Checks.bind`: checks one after the other
* `Proc.meets_bind_iff`, `Proc.meets_bind_last_iff`: what the two parts of a sequence meet
-/

namespace Program

variable {σ ε α β : Type}

/-- The ways a call ends without a value. -/
inductive Stop (ε : Type) where
  /-- an error value was returned -/
  | error (e : ε)
  /-- the call panicked -/
  | panic (e : ε)
  /-- a loop used up its attempts and the call has not returned -/
  | running
  deriving DecidableEq, Repr

def Stop.map {ε' : Type} (f : ε → ε') : Stop ε → Stop ε'
  | .error e => .error (f e)
  | .panic e => .panic (f e)
  | .running => .running

/-- The result of a call: a value, or the reason there is none. -/
abbrev Outcome (ε α : Type) := Except (Stop ε) α

/-- Whether the call came back to its caller, with a value or with an error. -/
def Outcome.returned : Outcome ε α → Bool
  | .ok _ => true
  | .error (.error _) => true
  | .error _ => false

/-- Inversion of a sequence of computations that may fail. -/
theorem except_bind_eq_ok_iff {x : Except ε α} {f : α → Except ε β} {b : β} :
    (x >>= f) = .ok b ↔ ∃ a, x = .ok a ∧ f a = .ok b := by
  cases x <;> simp [bind, Except.bind]

/-- Inversion of a computation whose value is changed at its end. -/
theorem except_map_eq_ok_iff {x : Except ε α} {f : α → β} {b : β} :
    x.map f = .ok b ↔ ∃ a, x = .ok a ∧ f a = b := by
  cases x <;> simp [Except.map]

theorem except_mapError_eq_ok_iff {ε' : Type} {x : Except ε α} {f : ε → ε'} {a : α} :
    x.mapError f = .ok a ↔ x = .ok a := by
  cases x <;> simp [Except.mapError]

/-- Programs over the state `σ` that return an `α` or stop. -/
structure Proc (σ ε α : Type) where
  run : σ → Outcome ε α × σ

namespace Proc

instance : CoeFun (Proc σ ε α) fun _ => σ → Outcome ε α × σ := ⟨Proc.run⟩

/-- The program that returns `a` and touches nothing. -/
protected def pure (a : α) : Proc σ ε α := ⟨fun s => (.ok a, s)⟩

/-- Sequencing: the second part runs on the state the first part left. -/
protected def bind (p : Proc σ ε α) (f : α → Proc σ ε β) : Proc σ ε β where
  run s :=
    match p s with
    | (.ok a, s') => f a s'
    -- what was written before the stop stays
    | (.error r, s') => (.error r, s')

instance : Monad (Proc σ ε) where
  pure := Proc.pure
  bind := Proc.bind

/-- Return the error `e`. -/
def fail (e : ε) : Proc σ ε α := ⟨fun s => (.error (.error e), s)⟩

/-- Panic with `e`. -/
def panic (e : ε) : Proc σ ε α := ⟨fun s => (.error (.panic e), s)⟩

/-- A computation that does not touch the state. -/
def ofOutcome (o : Outcome ε α) : Proc σ ε α := ⟨fun s => (o, s)⟩

/-- A reading call: a value or an error, by the state. -/
def ask (r : σ → Except ε α) : Proc σ ε α := ⟨fun s => ((r s).mapError Stop.error, s)⟩

/-- Read the state. -/
def get : Proc σ ε σ := ⟨fun s => (.ok s, s)⟩

/-- Update the state. -/
def modify (f : σ → σ) : Proc σ ε Unit := ⟨fun s => (.ok (), f s)⟩

/-- Run `p` and hand its returned error to the caller as a value. Panics pass through. -/
def attempt (p : Proc σ ε α) : Proc σ ε (Except ε α) where
  run s :=
    match p s with
    | (.ok a, s') => (.ok (.ok a), s')
    | (.error (.error e), s') => (.ok (.error e), s')
    -- only a returned error comes back to the caller
    | (.error .running, s') => (.error .running, s')
    | (.error (.panic e), s') => (.error (.panic e), s')

/-- Run `p`, and end on its returned error the way `h` says: with another error or a panic. -/
def onError (h : ε → Stop ε) (p : Proc σ ε α) : Proc σ ε α where
  run s :=
    match p s with
    | (.error (.error e), s') => (.error (h e), s')
    | out => out

/-- Run `p` with its errors and panics read as those of another kind. -/
def mapError {ε' : Type} (f : ε → ε') (p : Proc σ ε α) : Proc σ ε' α where
  run s := ((p s).1.mapError (Stop.map f), (p s).2)

/-- Run a program on the first component of the state. -/
def onFst {τ : Type} (p : Proc σ ε α) : Proc (σ × τ) ε α where
  run s := ((p s.1).1, ((p s.1).2, s.2))

/-- Run a program with a local variable, and return the variable's last value. -/
def withLocal {τ : Type} (init : τ) (p : Proc (σ × τ) ε Unit) : Proc σ ε τ where
  run s :=
    let out := p (s, init)
    (out.1.map fun _ => out.2.2, out.2.1)

/-! ## Evaluation -/

@[simp] theorem pure_apply (a : α) (s : σ) : (pure a : Proc σ ε α) s = (.ok a, s) := rfl

@[simp] theorem fail_apply (e : ε) (s : σ) :
    (fail e : Proc σ ε α) s = (.error (.error e), s) := rfl

@[simp] theorem ofOutcome_apply (o : Outcome ε α) (s : σ) :
    (ofOutcome o : Proc σ ε α) s = (o, s) := rfl

@[simp] theorem get_apply (s : σ) : (get : Proc σ ε σ) s = (.ok s, s) := rfl

@[simp] theorem modify_apply (f : σ → σ) (s : σ) :
    (modify f : Proc σ ε Unit) s = (.ok (), f s) := rfl

@[simp] theorem onFst_apply {τ : Type} (p : Proc σ ε α) (s : σ) (x : τ) :
    onFst p (s, x) = ((p s).1, ((p s).2, x)) := rfl

theorem bind_apply (p : Proc σ ε α) (f : α → Proc σ ε β) (s : σ) :
    (p >>= f) s = match p s with
      | (.ok a, s') => f a s'
      | (.error r, s') => (.error r, s') := rfl

@[simp] theorem map_apply (f : α → β) (p : Proc σ ε α) (s : σ) :
    (f <$> p) s = match p s with
      | (.ok a, s') => (.ok (f a), s')
      | (.error r, s') => (.error r, s') := rfl

theorem bind_of_ok {p : Proc σ ε α} {s s' : σ} {a : α} (h : p s = (.ok a, s'))
    (f : α → Proc σ ε β) : (p >>= f) s = f a s' := by
  simp [bind_apply, h]

theorem bind_of_stop {p : Proc σ ε α} {s s' : σ} {r : Stop ε} (h : p s = (.error r, s'))
    (f : α → Proc σ ε β) : (p >>= f) s = (.error r, s') := by
  simp [bind_apply, h]

/-- An end of a program that does not touch the state. -/
theorem bind_snd (p : Proc σ ε α) {f : α → Proc σ ε β} (hf : ∀ a s, (f a s).2 = s) (s : σ) :
    ((p >>= f) s).2 = (p s).2 := by
  rcases hp : p s with ⟨r | a, s'⟩
  · rw [bind_of_stop hp]
  · rw [bind_of_ok hp, hf]

/-- To compute with the value of a program at its end leaves its last state as it is. -/
theorem bind_pure_snd (p : Proc σ ε α) (f : α → β) (s : σ) :
    ((p >>= fun a => pure (f a)) s).2 = (p s).2 :=
  bind_snd p (fun _ _ => rfl) s

theorem ask_of_ok {r : σ → Except ε α} {s : σ} {a : α} (h : r s = .ok a) :
    ask r s = (.ok a, s) := by
  simp [ask, h, Except.mapError]

theorem ask_of_error {r : σ → Except ε α} {s : σ} {e : ε} (h : r s = .error e) :
    ask r s = (.error (.error e), s) := by
  simp [ask, h, Except.mapError]

/-- Programs that end alike from every state are the same. -/
theorem ext_apply {p q : Proc σ ε α} (h : ∀ s, p s = q s) : p = q := congrArg Proc.mk (funext h)

instance : LawfulMonad (Proc σ ε) := by
  refine LawfulMonad.mk' _ ?_ (fun _ _ => rfl) ?_
  · -- mapping the identity is running the program and returning its value
    intro α p
    apply ext_apply
    intro s
    change (p >>= pure) s = p s
    rcases hp : p s with ⟨r | a, t⟩
    · rw [bind_of_stop hp]
    · rw [bind_of_ok hp, pure_apply]
  · -- associativity: a stop of the first part skips both of the others
    intro α β γ p f g
    apply ext_apply
    intro s
    rcases hp : p s with ⟨r | a, t⟩
    · rw [bind_of_stop (bind_of_stop hp f), bind_of_stop hp]
    · rw [bind_apply, bind_of_ok hp, bind_of_ok hp, bind_apply]

theorem attempt_of_ok {p : Proc σ ε α} {s s' : σ} {a : α} (h : p s = (.ok a, s')) :
    attempt p s = (.ok (.ok a), s') := by
  simp [attempt, h]

theorem attempt_of_error {p : Proc σ ε α} {s s' : σ} {e : ε}
    (h : p s = (.error (.error e), s')) : attempt p s = (.ok (.error e), s') := by
  simp [attempt, h]

theorem attempt_of_panic {p : Proc σ ε α} {s s' : σ} {e : ε}
    (h : p s = (.error (.panic e), s')) : attempt p s = (.error (.panic e), s') := by
  simp [attempt, h]

@[simp] theorem attempt_snd (p : Proc σ ε α) (s : σ) : (attempt p s).2 = (p s).2 := by
  rcases hp : p s with ⟨a | r, s'⟩
  · rcases a <;> simp [attempt, hp]
  · simp [attempt, hp]

theorem onError_of_ok {p : Proc σ ε α} {s s' : σ} {a : α} (h : p s = (.ok a, s'))
    (f : ε → Stop ε) : onError f p s = (.ok a, s') := by
  simp [onError, h]

theorem onError_of_error {p : Proc σ ε α} {s s' : σ} {e : ε}
    (h : p s = (.error (.error e), s')) (f : ε → Stop ε) :
    onError f p s = (.error (f e), s') := by
  simp [onError, h]

theorem onError_ask (f : ε → ε) (r : σ → Except ε α) :
    onError (fun e => .error (f e)) (ask r) = ask fun s => (r s).mapError f := by
  apply ext_apply
  intro s
  cases h : r s with
  | ok a =>
    rw [onError_of_ok (ask_of_ok h), ask_of_ok (a := a) (by simp [h, Except.mapError])]
  | error e =>
    rw [onError_of_error (ask_of_error h), ask_of_error (e := f e) (by simp [h, Except.mapError])]

@[simp] theorem onError_snd (f : ε → Stop ε) (p : Proc σ ε α) (s : σ) :
    (onError f p s).2 = (p s).2 := by
  rcases hp : p s with ⟨(_ | _ | _) | a, s'⟩ <;> simp [onError, hp]

/-! ## Inversion -/

/-- A sequence returns a value exactly when its first part does and its second part does on
the state the first one left. -/
theorem bind_eq_ok_iff {p : Proc σ ε α} {f : α → Proc σ ε β} {s s' : σ} {b : β} :
    (p >>= f) s = (.ok b, s') ↔ ∃ a t, p s = (.ok a, t) ∧ f a t = (.ok b, s') := by
  rw [bind_apply]
  rcases p s with ⟨r | a, t⟩
  · simp
  · constructor
    · intro h
      exact ⟨a, t, rfl, h⟩
    · rintro ⟨a', t', h, h'⟩
      obtain ⟨ha, rfl⟩ := Prod.mk.inj h
      obtain rfl := Except.ok.inj ha
      exact h'

theorem ofOutcome_bind_eq_ok_iff {o : Outcome ε α} {f : α → Proc σ ε β} {s s' : σ} {b : β} :
    (ofOutcome o >>= f) s = (.ok b, s') ↔ ∃ a, o = .ok a ∧ f a s = (.ok b, s') := by
  cases o <;> simp [bind_apply]

theorem ask_eq_ok_iff {r : σ → Except ε α} {s t : σ} {a : α} :
    ask r s = (.ok a, t) ↔ r s = .ok a ∧ s = t := by
  cases h : r s with
  | ok b => simp [ask_of_ok h]
  | error e => simp [ask_of_error h]

theorem onError_eq_ok_iff {f : ε → Stop ε} {p : Proc σ ε α} {s s' : σ} {a : α} :
    onError f p s = (.ok a, s') ↔ p s = (.ok a, s') := by
  rcases hp : p s with ⟨(_ | _ | _) | b, t⟩ <;> simp [onError, hp]

/-- A sequence that stops does so in its first part, or in its second part on the state the
first one left. -/
theorem bind_stop_cases {p : Proc σ ε α} {f : α → Proc σ ε β} {s s' : σ} {r : Stop ε}
    (h : (p >>= f) s = (.error r, s')) :
    p s = (.error r, s') ∨ ∃ a t, p s = (.ok a, t) ∧ f a t = (.error r, s') := by
  rw [bind_apply] at h
  rcases hp : p s with ⟨q | a, t⟩
  · rw [hp] at h
    obtain ⟨hq, rfl⟩ := Prod.mk.inj h
    obtain rfl := Except.error.inj hq
    exact .inl rfl
  · rw [hp] at h
    exact .inr ⟨a, t, rfl, h⟩

/-! ## Programs without error returns -/

/-- No call of `p` returns an error: it returns a value, panics or runs on. -/
def NeverFails (p : Proc σ ε α) : Prop := ∀ s e t, p s ≠ (.error (.error e), t)

theorem NeverFails.pure (a : α) : NeverFails (pure a : Proc σ ε α) := by
  intro s e t h
  cases h

theorem NeverFails.panic (e : ε) : NeverFails (panic e : Proc σ ε α) := by
  intro s e' t h
  cases h

theorem NeverFails.get : NeverFails (get : Proc σ ε σ) := by
  intro s e t h
  cases h

theorem NeverFails.bind {p : Proc σ ε α} {f : α → Proc σ ε β} (hp : NeverFails p)
    (hf : ∀ a, NeverFails (f a)) : NeverFails (p >>= f) := by
  intro s e t h
  rcases bind_stop_cases h with hs | ⟨a, u, -, hs⟩
  · exact hp s e t hs
  · exact hf a u e t hs

theorem NeverFails.attempt (p : Proc σ ε α) : NeverFails (attempt p) := by
  intro s e t h
  rcases hp : p s with ⟨(e' | e' | _) | a, u⟩ <;> simp [Proc.attempt, hp] at h

theorem NeverFails.ite {c : Prop} [Decidable c] {p q : Proc σ ε α} (hp : NeverFails p)
    (hq : NeverFails q) : NeverFails (if c then p else q) := by
  split_ifs
  · exact hp
  · exact hq

/-- A program whose errors are turned into panics returns none. -/
theorem NeverFails.onError (f : ε → ε) (p : Proc σ ε α) :
    NeverFails (onError (fun e => .panic (f e)) p) := by
  intro s e t h
  rcases hp : p s with ⟨(e' | e' | _) | a, u⟩ <;> simp [Proc.onError, hp] at h

/-! ## Programs that come to an end -/

/-- A sequence of computations that do not run on does not either. -/
theorem outcome_bind_ne_running {o : Outcome ε α} {f : α → Outcome ε β}
    (ho : o ≠ .error .running) (hf : ∀ a, f a ≠ .error .running) :
    (o >>= f) ≠ .error .running := by
  cases o with
  | error r => exact fun h => ho (congrArg Except.error (Except.error.inj h))
  | ok a => exact hf a

/-- The call of `p` from `s` ends: it returns a value or an error, or panics. -/
def Halts (p : Proc σ ε α) (s : σ) : Prop := (p s).1 ≠ .error .running

theorem Halts.of_ok {p : Proc σ ε α} {s t : σ} {a : α} (h : p s = (.ok a, t)) : Halts p s := by
  simp [Halts, h]

theorem Halts.of_error {p : Proc σ ε α} {s t : σ} {e : ε} (h : p s = (.error (.error e), t)) :
    Halts p s := by
  simp [Halts, h]

theorem Halts.pure (a : α) (s : σ) : Halts (pure a : Proc σ ε α) s := .of_ok rfl

theorem Halts.panic (e : ε) (s : σ) : Halts (panic e : Proc σ ε α) s := by
  simp [Halts, Proc.panic]

theorem Halts.get (s : σ) : Halts (get : Proc σ ε σ) s := .of_ok rfl

theorem Halts.ofOutcome {o : Outcome ε α} (h : o ≠ .error .running) (s : σ) :
    Halts (ofOutcome o) s := h

theorem Halts.onFst {τ : Type} {p : Proc σ ε α} {s : σ} (hp : Halts p s) (x : τ) :
    Halts (onFst p) (s, x) := hp

theorem Halts.bind {p : Proc σ ε α} {f : α → Proc σ ε β} {s : σ} (hp : Halts p s)
    (hf : ∀ a t, p s = (.ok a, t) → Halts (f a) t) : Halts (p >>= f) s := by
  intro h
  rcases bind_stop_cases (Prod.ext h rfl) with hs | ⟨a, t, ha, hs⟩
  · exact hp (congrArg Prod.fst hs)
  · exact hf a t ha (congrArg Prod.fst hs)

theorem Halts.ite {c : Prop} [Decidable c] {p q : Proc σ ε α} {s : σ} (hp : c → Halts p s)
    (hq : ¬ c → Halts q s) : Halts (if c then p else q) s := by
  split_ifs with hc
  · exact hp hc
  · exact hq hc

theorem Halts.withLocal {τ : Type} {init : τ} {p : Proc (σ × τ) ε Unit} {s : σ}
    (hp : Halts p (s, init)) : Halts (withLocal init p) s := by
  intro h
  unfold Proc.withLocal at h
  dsimp only at h
  rcases hr : (p (s, init)).1 with r | u <;> rw [hr] at h
  · obtain rfl : r = .running := Except.error.inj h
    exact hp hr
  · cases h

/-! ## Frames

A relation that every call of a program keeps between its first and its last state: what the
program leaves alone, whichever way it ends. -/

/-- Every call of `p` relates the state it starts in to the state it ends in. -/
def Within (R : σ → σ → Prop) (p : Proc σ ε α) : Prop := ∀ s, R s (p s).2

variable {R : σ → σ → Prop}

section Refl

variable [Std.Refl R]

theorem Within.pure (a : α) : Within R (pure a : Proc σ ε α) := Std.Refl.refl

theorem Within.fail (e : ε) : Within R (fail e : Proc σ ε α) := Std.Refl.refl

theorem Within.panic (e : ε) : Within R (panic e : Proc σ ε α) := Std.Refl.refl

theorem Within.ofOutcome (o : Outcome ε α) : Within R (ofOutcome o : Proc σ ε α) := Std.Refl.refl

theorem Within.get : Within R (get : Proc σ ε σ) := Std.Refl.refl

theorem Within.ask (r : σ → Except ε α) : Within R (ask r) := Std.Refl.refl

end Refl

theorem Within.mono {R' : σ → σ → Prop} {p : Proc σ ε α} (hp : Within R p)
    (h : ∀ s s', R s s' → R' s s') : Within R' p := fun s => h _ _ (hp s)

theorem Within.modify {f : σ → σ} (h : ∀ s, R s (f s)) :
    Within R (modify f : Proc σ ε Unit) := h

theorem Within.ite {c : Prop} [Decidable c] {p q : Proc σ ε α} (hp : Within R p)
    (hq : Within R q) : Within R (if c then p else q) := by
  split_ifs
  · exact hp
  · exact hq

theorem Within.bind [IsTrans σ R] {p : Proc σ ε α} {f : α → Proc σ ε β} (hp : Within R p)
    (hf : ∀ a, Within R (f a)) : Within R (p >>= f) := by
  intro s
  have hps := hp s
  rcases hq : p s with ⟨r | a, t⟩ <;> rw [hq] at hps
  · rw [bind_of_stop hq]
    exact hps
  · rw [bind_of_ok hq]
    exact IsTrans.trans _ _ _ hps (hf a t)

theorem Within.forM [Std.Refl R] [IsTrans σ R] {f : α → Proc σ ε Unit}
    (hf : ∀ a, Within R (f a)) (as : List α) : Within R (as.forM f) := by
  induction as with
  | nil => exact .pure ()
  | cons a as ih => exact .bind (hf a) fun _ => ih

theorem Within.onFst {τ : Type} {p : Proc σ ε α} (hp : Within R p) :
    Within (Order.Preimage (Prod.fst : σ × τ → σ) R) (onFst p) := fun s => hp s.1

theorem Within.withLocal {τ : Type} {init : τ} {p : Proc (σ × τ) ε Unit}
    (hp : Within (Order.Preimage Prod.fst R) p) : Within R (withLocal init p) :=
  fun s => hp (s, init)

theorem Within.onError {p : Proc σ ε α} (hp : Within R p) (f : ε → Stop ε) :
    Within R (onError f p) := by
  intro s
  rw [onError_snd]
  exact hp s

theorem Within.mapError {ε' : Type} {p : Proc σ ε α} (hp : Within R p) (f : ε → ε') :
    Within R (mapError f p) := hp

theorem Within.attempt {p : Proc σ ε α} (hp : Within R p) : Within R (attempt p) := by
  intro s
  rw [attempt_snd]
  exact hp s

/-! ## Checks -/

/-- The call comes back: with an error exactly when `C` does not hold. -/
def Checks (p : Proc σ ε Unit) (s : σ) (C : Prop) : Prop :=
  (C ∧ ∃ t, p s = (.ok (), t)) ∨ (¬ C ∧ ∃ e t, p s = (.error (.error e), t))

theorem Checks.congr {p : Proc σ ε Unit} {s : σ} {C C' : Prop} (hp : Checks p s C) (h : C ↔ C') :
    Checks p s C' := propext h ▸ hp

theorem Checks.fail (e : ε) (s : σ) {C : Prop} (h : ¬ C) : Checks (fail e) s C :=
  .inr ⟨h, e, s, rfl⟩

theorem Checks.ask (r : σ → Except ε Unit) (s : σ) : Checks (ask r) s (r s = .ok ()) := by
  cases h : r s with
  | ok u => exact .inl ⟨rfl, s, ask_of_ok h⟩
  | error e => exact .inr ⟨nofun, e, s, ask_of_error h⟩

theorem Checks.mapError {ε' : Type} {p : Proc σ ε Unit} {s : σ} {C : Prop} (hp : Checks p s C)
    (f : ε → ε') : Checks (mapError f p) s C := by
  rcases hp with ⟨hC, t, h⟩ | ⟨hC, e, t, h⟩
  · exact .inl ⟨hC, t, by simp [Proc.mapError, h, Except.mapError]⟩
  · exact .inr ⟨hC, f e, t, by simp [Proc.mapError, h, Except.mapError, Stop.map]⟩

/-- Checks one after the other: the second is made only if the first goes through. -/
theorem Checks.bind {p q : Proc σ ε Unit} {s : σ} {C C' : Prop} (hp : Checks p s C)
    (hq : ∀ t, p s = (.ok (), t) → Checks q t C') : Checks (p >>= fun _ => q) s (C ∧ C') := by
  rcases hp with ⟨hC, t, h⟩ | ⟨hC, e, t, h⟩
  · have hbind := bind_of_ok h fun _ => q
    rcases hq t h with ⟨hC', u, hu⟩ | ⟨hC', e, u, hu⟩
    · exact .inl ⟨⟨hC, hC'⟩, u, hbind.trans hu⟩
    · exact .inr ⟨fun hboth => hC' hboth.2, e, u, hbind.trans hu⟩
  · exact .inr ⟨fun hboth => hC hboth.1, e, t, bind_of_stop h _⟩

/-! ## What a part of a program meets -/

/-- A run of `prog` from `s` runs the program it is built around on `u`: two programs that differ
on `u` alone can tell. -/
def Meets (prog : Proc σ ε α → Proc σ ε β) (s u : σ) : Prop :=
  ∃ p q : Proc σ ε α, (∀ v, v ≠ u → p v = q v) ∧ prog p s ≠ prog q s

theorem Meets.of_apply_ne {prog : Proc σ ε α → Proc σ ε β} {s u : σ} (e : ε)
    (h : ∀ p : Proc σ ε α, ∀ r, p u = (.error r, u) → prog p s = (.error r, u)) :
    Meets prog s u := by
  classical
  refine ⟨fail e, ⟨fun v => if v = u then (.error (.panic e), v) else (.error (.error e), v)⟩,
    fun v hv => (if_neg hv).symm, fun heq => ?_⟩
  rw [h _ (.error e) rfl, h _ (.panic e) (if_pos rfl)] at heq
  cases heq

/-- The first part of a sequence meets the state that the sequence starts in. -/
theorem meets_bind_iff [Nonempty ε] (f : α → Proc σ ε β) {s u : σ} :
    Meets (fun p => p >>= f) s u ↔ u = s := by
  constructor
  · rintro ⟨p, q, hsame, hne⟩
    by_contra hu
    exact hne (by rw [bind_apply, bind_apply, hsame s (Ne.symm hu)])
  · rintro rfl
    exact .of_apply_ne (Classical.arbitrary ε) fun p r hp => bind_of_stop hp f

/-- The last part of a sequence meets the state that the first one returns in, if it does. -/
theorem meets_bind_last_iff [Nonempty ε] (q : Proc σ ε Unit) {s u : σ} :
    Meets (fun p : Proc σ ε α => q >>= fun _ => p) s u ↔ q s = (.ok (), u) := by
  constructor
  · rintro ⟨p, p', hsame, hne⟩
    rcases hq : q s with ⟨r | ⟨⟩, t⟩
    · exact absurd (by rw [bind_of_stop hq, bind_of_stop hq]) hne
    · by_cases ht : t = u
      · rw [ht]
      · exact absurd (by rw [bind_of_ok hq, bind_of_ok hq, hsame t ht]) hne
  · intro hq
    exact .of_apply_ne (Classical.arbitrary ε) fun p r hp => (bind_of_ok hq _).trans hp

end Proc

end Program
