import NexusNode.Program.Proc

/-!
# Programs that fail part way

A step is refused, and then changes nothing, or it is accepted and has its effect. A list of
steps stops at the first refusal with no undo: what the accepted steps wrote stays. Such a list
is undisturbed by failure exactly when every step is accepted, or the first refusal comes
before any step that changes the state, provided that what a step changes is not changed back
by a later one.

A loop that goes on after an error does what the same loop over the succeeding programs alone
does, exactly when every one of its programs is undisturbed where it runs.

## Main definitions

* `Step σ ε`, `runSteps cs`: steps over `σ`, and the program that runs them in order
* `Step.reading r c`, `Step.ifMissing c r`: steps that depend on what is read first
* `Accepts cs s`: every step of `cs` is accepted, starting in `s`
* `Traceless cs s`: a step of `cs` is refused before any step changed `s`
* `Lasting cs s`: what the first effective step of `cs` changes, the later ones do not undo
* `Undisturbed p s`: an error of `p` in `s` changes nothing
* `tryEach f as`, `succeeded f as s`: the loop over `f a` that goes on after an error, and the
  `a` for which it met none

## Main results

* `runSteps_eq_ok_iff`: a list of steps returns exactly when all of them are accepted
* `runSteps_keeps`: what the effects of the steps keep, a run keeps, however it ends
* `runSteps_ok_of_mem`: what one step makes true and all keep holds after a run that goes through
* `runSteps_undisturbed_iff`: when a failed run of steps changes nothing
* `tryEach_eq_succeeded_iff`: when a loop does what its succeeding programs do
-/

namespace Program

variable {σ ε : Type}

/-- A step: the error it is refused with, if it is, and its effect otherwise. -/
structure Step (σ ε : Type) where
  refuse : σ → Option ε
  effect : σ → σ

namespace Step

/-- One step as a program. -/
def run (c : Step σ ε) : Proc σ ε Unit where
  run s :=
    match c.refuse s with
    -- a refused step has no effect
    | some e => (.error (.error e), s)
    | none => (.ok (), c.effect s)

/-- The step that is always refused. -/
def refusal (e : ε) : Step σ ε := ⟨fun _ => some e, id⟩

/-- The step `c` with its error rewritten. -/
def wrap (f : ε → ε) (c : Step σ ε) : Step σ ε := ⟨fun s => (c.refuse s).map f, c.effect⟩

@[simp] theorem wrap_refuse (f : ε → ε) (c : Step σ ε) (s : σ) :
    (c.wrap f).refuse s = (c.refuse s).map f := rfl

@[simp] theorem wrap_effect (f : ε → ε) (c : Step σ ε) : (c.wrap f).effect = c.effect := rfl

/-- The step `c a` for the value `a` that `r` reads off the state. -/
def reading {α : Type} (r : σ → Except ε α) (c : α → Step σ ε) : Step σ ε where
  refuse s :=
    match r s with
    | .ok a => (c a).refuse s
    | .error e => some e
  effect s :=
    match r s with
    | .ok a => (c a).effect s
    | .error _ => s

/-- The step `c`, skipped where `r` can be read. -/
def ifMissing {α : Type} (c : Step σ ε) (r : σ → Except ε α) : Step σ ε where
  refuse s :=
    match r s with
    | .ok _ => none
    | .error _ => c.refuse s
  effect s :=
    match r s with
    | .ok _ => s
    | .error _ => c.effect s

/-- The step that only checks that `r` can be read. -/
def check {α : Type} (r : σ → Except ε α) : Step σ ε := reading r fun _ => ⟨fun _ => none, id⟩

@[simp] theorem check_effect {α : Type} (r : σ → Except ε α) (s : σ) :
    (check r).effect s = s := by
  simp only [check, reading]
  split <;> rfl

theorem refuse_ifMissing {α : Type} {c : Step σ ε} {r : σ → Except ε α}
    (h : ∀ s, c.refuse s = none) (s : σ) : (c.ifMissing r).refuse s = none := by
  simp only [ifMissing]
  split
  · rfl
  · exact h s

theorem run_of_refused {c : Step σ ε} {s : σ} {e : ε} (h : c.refuse s = some e) :
    c.run s = (.error (.error e), s) := by
  simp [run, h]

theorem run_of_accepted {c : Step σ ε} {s : σ} (h : c.refuse s = none) :
    c.run s = (.ok (), c.effect s) := by
  simp [run, h]

theorem run_eq_ok_iff {c : Step σ ε} {s t : σ} :
    c.run s = (.ok (), t) ↔ c.refuse s = none ∧ c.effect s = t := by
  cases h : c.refuse s with
  | none => simp [run, h]
  | some e => simp [run, h]

theorem within_run {R : σ → σ → Prop} [Std.Refl R] {c : Step σ ε} (h : ∀ s, R s (c.effect s)) :
    Proc.Within R c.run := by
  intro s
  cases hc : c.refuse s with
  | none =>
    rw [run_of_accepted hc]
    exact h s
  | some e =>
    rw [run_of_refused hc]
    exact Std.Refl.refl s

theorem run_check_of_ok {α : Type} {r : σ → Except ε α} {s : σ} {a : α} (h : r s = .ok a) :
    (check r).run s = (.ok (), s) := by
  simp [run, check, reading, h]

theorem ask_bind_run {α : Type} (r : σ → Except ε α) (c : α → Step σ ε) :
    (Proc.ask r >>= fun a => (c a).run) = (reading r c).run := by
  apply Proc.ext_apply
  intro s
  cases h : r s with
  | ok a =>
    rw [Proc.bind_of_ok (Proc.ask_of_ok h)]
    simp only [run, reading, h]
  | error e =>
    rw [Proc.bind_of_stop (Proc.ask_of_error h)]
    simp only [run, reading, h]

theorem run_check (r : σ → Except ε Unit) : (check r).run = Proc.ask r := by
  rw [check, ← ask_bind_run]
  exact bind_pure _

theorem attempt_ask_bind_run {α : Type} {r : σ → Except ε α} {c : Step σ ε}
    {k : Except ε α → Proc σ ε Unit} (hok : ∀ a, k (.ok a) = pure ())
    (herror : ∀ e, k (.error e) = c.run) :
    (Proc.attempt (Proc.ask r) >>= k) = (c.ifMissing r).run := by
  apply Proc.ext_apply
  intro s
  cases h : r s with
  | ok a =>
    rw [Proc.bind_of_ok (Proc.attempt_of_ok (Proc.ask_of_ok h)), hok]
    simp only [run, ifMissing, h, Proc.pure_apply]
  | error e =>
    rw [Proc.bind_of_ok (Proc.attempt_of_error (Proc.ask_of_error h)), herror]
    simp only [run, ifMissing, h]

end Step

/-- Run the steps in order, up to the first refusal. -/
def runSteps : List (Step σ ε) → Proc σ ε Unit
  | [] => pure ()
  | c :: cs => c.run >>= fun _ => runSteps cs

/-- Every step is accepted in the state that the steps before it leave. -/
def Accepts : List (Step σ ε) → σ → Prop
  | [], _ => True
  | c :: cs, s => c.refuse s = none ∧ Accepts cs (c.effect s)

/-- The state after the steps, when they are all accepted. -/
def effects (cs : List (Step σ ε)) (s : σ) : σ := cs.foldl (fun s c => c.effect s) s

/-- A step is refused, and no step before it changes the state. -/
def Traceless : List (Step σ ε) → σ → Prop
  | [], _ => False
  | c :: cs, s => c.refuse s ≠ none ∨ c.effect s = s ∧ Traceless cs s

/-- An error that `p` returns in `s` leaves the state as it was. -/
def Undisturbed {α : Type} (p : Proc σ ε α) (s : σ) : Prop :=
  ∀ e t, p s = (.error (.error e), t) → t = s

/-- The first step that changes the state makes some fact true that all later steps keep. -/
def Lasting : List (Step σ ε) → σ → Prop
  | [], _ => True
  | c :: cs, s => c.effect s = s ∧ Lasting cs s ∨
      ∃ P : σ → Prop, ¬ P s ∧ P (c.effect s) ∧ ∀ d ∈ cs, ∀ t, P t → P (d.effect t)

instance decidableAccepts : (cs : List (Step σ ε)) → (s : σ) → Decidable (Accepts cs s)
  | [], _ => isTrue trivial
  | c :: cs, s =>
    match h : c.refuse s, decidableAccepts cs (c.effect s) with
    | none, isTrue hcs => isTrue ⟨h, hcs⟩
    | none, isFalse hcs => isFalse fun ha => hcs ha.2
    | some _, _ => isFalse fun ha => nomatch h.symm.trans ha.1

/-! ## Runs of steps -/

/-- Steps that are accepted in every state are accepted one after the other. -/
theorem accepts_of_forall {cs : List (Step σ ε)} (h : ∀ c ∈ cs, ∀ s, c.refuse s = none) (s : σ) :
    Accepts cs s := by
  induction cs generalizing s with
  | nil => trivial
  | cons c cs ih =>
    exact ⟨h c List.mem_cons_self s, ih (fun d hd => h d (List.mem_cons_of_mem c hd)) _⟩

theorem runSteps_cons_of_refused {c : Step σ ε} {s : σ} {e : ε} (h : c.refuse s = some e)
    (cs : List (Step σ ε)) : runSteps (c :: cs) s = (.error (.error e), s) :=
  Proc.bind_of_stop (Step.run_of_refused h) _

theorem runSteps_cons_of_accepted {c : Step σ ε} {s : σ} (h : c.refuse s = none)
    (cs : List (Step σ ε)) : runSteps (c :: cs) s = runSteps cs (c.effect s) :=
  Proc.bind_of_ok (Step.run_of_accepted h) _

theorem runSteps_singleton (c : Step σ ε) : runSteps [c] = c.run := bind_pure c.run

theorem runSteps_append (cs ds : List (Step σ ε)) :
    runSteps (cs ++ ds) = runSteps cs >>= fun _ => runSteps ds := by
  induction cs with
  | nil => rfl
  | cons c cs ih => simp only [List.cons_append, runSteps, ih, bind_assoc]

theorem runSteps_wrap (f : ε → ε) (cs : List (Step σ ε)) :
    Proc.onError (fun e => .error (f e)) (runSteps cs) = runSteps (cs.map (Step.wrap f)) := by
  apply Proc.ext_apply
  intro s
  induction cs generalizing s with
  | nil => rfl
  | cons c cs ih =>
    rw [List.map_cons]
    cases h : c.refuse s with
    | none =>
      rw [runSteps_cons_of_accepted (by simp [h]), Step.wrap_effect, ← ih]
      unfold Proc.onError
      simp only [runSteps_cons_of_accepted h]
    | some e =>
      rw [runSteps_cons_of_refused (e := f e) (by simp [h])]
      exact Proc.onError_of_error (runSteps_cons_of_refused h cs) _

/-- **When all steps go through.** A run of steps returns exactly when every step is accepted,
and then it has the effects of all of them. -/
theorem runSteps_eq_ok_iff {cs : List (Step σ ε)} {s t : σ} :
    runSteps cs s = (.ok (), t) ↔ Accepts cs s ∧ effects cs s = t := by
  induction cs generalizing s with
  | nil => simp [runSteps, Accepts, effects]
  | cons c cs ih =>
    cases h : c.refuse s with
    | none =>
      rw [runSteps_cons_of_accepted h, ih]
      simp [Accepts, h, effects]
    | some e =>
      rw [runSteps_cons_of_refused h]
      simp [Accepts, h]

theorem runSteps_cons_ok {c : Step σ ε} {cs : List (Step σ ε)} {s t : σ}
    (h : runSteps (c :: cs) s = (.ok (), t)) :
    c.refuse s = none ∧ runSteps cs (c.effect s) = (.ok (), t) := by
  cases hc : c.refuse s with
  | none =>
    rw [runSteps_cons_of_accepted hc] at h
    exact ⟨rfl, h⟩
  | some e =>
    rw [runSteps_cons_of_refused hc] at h
    cases h

theorem runSteps_append_ok {cs ds : List (Step σ ε)} {s t : σ}
    (h : runSteps (cs ++ ds) s = (.ok (), t)) :
    ∃ u, runSteps cs s = (.ok (), u) ∧ runSteps ds u = (.ok (), t) := by
  rw [runSteps_append] at h
  obtain ⟨⟨⟩, u, hcs, hds⟩ := Proc.bind_eq_ok_iff.mp h
  exact ⟨u, hcs, hds⟩

/-- A run of steps never panics and never runs on: what is not accepted returns an error. -/
theorem runSteps_error_of_not_accepts {cs : List (Step σ ε)} {s : σ} (h : ¬ Accepts cs s) :
    ∃ e t, runSteps cs s = (.error (.error e), t) := by
  -- induction on the steps, from the state that the accepted ones left
  induction cs generalizing s with
  | nil => exact absurd trivial h
  | cons c cs ih =>
    cases hc : c.refuse s with
    | none =>
      rw [runSteps_cons_of_accepted hc]
      exact ih fun hcs => h ⟨hc, hcs⟩
    | some e => exact ⟨e, s, runSteps_cons_of_refused hc cs⟩

/-- What every accepted step keeps holds after a run of the steps, however it ends. -/
theorem runSteps_keeps_of_accepted {P : σ → Prop} {cs : List (Step σ ε)} {s : σ}
    (h : ∀ c ∈ cs, ∀ t, c.refuse t = none → P t → P (c.effect t)) (hs : P s) :
    P (runSteps cs s).2 := by
  induction cs generalizing s with
  | nil => exact hs
  | cons c cs ih =>
    cases hc : c.refuse s with
    | none =>
      rw [runSteps_cons_of_accepted hc]
      exact ih (fun d hd => h d (List.mem_cons_of_mem c hd)) (h c List.mem_cons_self s hc hs)
    | some e =>
      rw [runSteps_cons_of_refused hc]
      exact hs

/-- What the effect of every step keeps holds after a run of the steps, however it ends. -/
theorem runSteps_keeps {P : σ → Prop} {cs : List (Step σ ε)} {s : σ}
    (h : ∀ c ∈ cs, ∀ t, P t → P (c.effect t)) (hs : P s) : P (runSteps cs s).2 :=
  runSteps_keeps_of_accepted (fun c hc t _ => h c hc t) hs

/-- What holds before a step, and after the rest of the run where the step is accepted, holds
after the run. -/
theorem runSteps_cons_induct {P : σ → Prop} {c : Step σ ε} {cs : List (Step σ ε)} {s : σ}
    (hs : P s) (h : c.refuse s = none → P (runSteps cs (c.effect s)).2) :
    P (runSteps (c :: cs) s).2 := by
  cases hc : c.refuse s with
  | none =>
    rw [runSteps_cons_of_accepted hc]
    exact h hc
  | some e =>
    rw [runSteps_cons_of_refused hc]
    exact hs

/-- What holds after the first steps and is kept by the others holds after the run. -/
theorem runSteps_append_keeps {P : σ → Prop} {cs ds : List (Step σ ε)} {s : σ}
    (hcs : P (runSteps cs s).2)
    (hds : ∀ d ∈ ds, ∀ t, d.refuse t = none → P t → P (d.effect t)) :
    P (runSteps (cs ++ ds) s).2 := by
  rw [runSteps_append]
  rcases hrun : runSteps cs s with ⟨r | ⟨⟩, t⟩
  · rwa [Proc.bind_of_stop hrun, ← hrun]
  · rw [Proc.bind_of_ok hrun]
    rw [hrun] at hcs
    exact runSteps_keeps_of_accepted hds hcs

/-- What one step of a run that goes through makes true, and every step keeps, holds after the
run. -/
theorem runSteps_ok_of_mem {P : σ → Prop} {cs : List (Step σ ε)} {s t : σ} {c : Step σ ε}
    (h : runSteps cs s = (.ok (), t)) (hc : c ∈ cs)
    (hestablish : ∀ u, c.refuse u = none → P (c.effect u))
    (hkeep : ∀ d ∈ cs, ∀ u, P u → P (d.effect u)) : P t := by
  induction cs generalizing s with
  | nil => cases hc
  | cons d cs ih =>
    obtain ⟨haccept, hrest⟩ := runSteps_cons_ok h
    have hkeep' : ∀ d ∈ cs, ∀ u, P u → P (d.effect u) := fun d hd => hkeep d (.tail _ hd)
    rcases List.mem_cons.mp hc with rfl | hc
    · have hafter := runSteps_keeps hkeep' (hestablish s haccept)
      rwa [hrest] at hafter
    · exact ih hrest hc hkeep'

theorem lasting_singleton (c : Step σ ε) (s : σ) : Lasting [c] s := by
  by_cases h : c.effect s = s
  · exact .inl ⟨h, trivial⟩
  · -- nothing comes behind the step that could undo it
    exact .inr ⟨(· ≠ s), fun hs => hs rfl, h, by simp⟩

/-- A first step that lasts is traceless only where it is refused. -/
theorem traceless_cons_iff_of_ne {c : Step σ ε} {cs : List (Step σ ε)} {s : σ}
    (h : c.effect s ≠ s) : Traceless (c :: cs) s ↔ c.refuse s ≠ none := by
  simp [Traceless, h]

/-- **When a failed run changes nothing.** If what a step changes is not undone by a later
one, failed runs leave the state alone exactly when there are none, or when the refusal comes
before the first change. -/
theorem runSteps_undisturbed_iff {cs : List (Step σ ε)} {s : σ} (hl : Lasting cs s) :
    Undisturbed (runSteps cs) s ↔ Accepts cs s ∨ Traceless cs s := by
  unfold Undisturbed
  induction cs with
  | nil =>
    constructor
    · intro _
      exact .inl trivial
    · intro _ r t h
      cases h
  | cons c cs ih =>
    cases hc : c.refuse s with
    | some e =>
      rw [runSteps_cons_of_refused hc]
      constructor
      · intro _
        exact .inr (.inl (by simp [hc]))
      · intro _ r t h
        exact (Prod.mk.inj h).2.symm
    | none =>
      rw [runSteps_cons_of_accepted hc]
      rcases hl with ⟨hsame, hl⟩ | ⟨P, hPs, hPc, hkeep⟩
      · -- the step has no effect here, so the run goes on from the same state
        rw [hsame, ih hl]
        simp [Accepts, Traceless, hc, hsame]
      · -- the step makes `P` true, so no later state is the first one
        have hne : c.effect s ≠ s := fun h => hPs (h ▸ hPc)
        have hP : P (runSteps cs (c.effect s)).2 := runSteps_keeps hkeep hPc
        constructor
        · intro h
          refine .inl ⟨hc, ?_⟩
          -- a refusal further on would return to the first state, where `P` is false
          by_contra hacc
          obtain ⟨e, t, ht⟩ := runSteps_error_of_not_accepts hacc
          rw [ht, h _ _ ht] at hP
          exact hPs hP
        · rintro (⟨-, hacc⟩ | hrefused | ⟨hsame, -⟩) r t ht
          · rw [(runSteps_eq_ok_iff).mpr ⟨hacc, rfl⟩] at ht
            cases ht
          · exact absurd hc hrefused
          · exact absurd hsame hne

/-! ## Loops that go on after an error -/

theorem undisturbed_of_ok {α : Type} {p : Proc σ ε α} {s t : σ} {a : α} (h : p s = (.ok a, t)) :
    Undisturbed p s := by
  intro e u he
  rw [h] at he
  cases he

theorem undisturbed_iff_of_error {α : Type} {p : Proc σ ε α} {s t : σ} {e : ε}
    (h : p s = (.error (.error e), t)) : Undisturbed p s ↔ t = s := by
  constructor
  · intro hp
    exact hp e t h
  · intro ht e' t' h'
    rw [h] at h'
    rw [← (Prod.mk.inj h').2, ht]

theorem undisturbed_of_neverFails {α : Type} {p : Proc σ ε α} (h : Proc.NeverFails p) (s : σ) :
    Undisturbed p s := fun e t he => absurd he (h s e t)

theorem undisturbed_fail {α : Type} (e : ε) (s : σ) : Undisturbed (Proc.fail e : Proc σ ε α) s :=
  fun _ _ h => (Prod.mk.inj h).2.symm

/-- A value that is read first, from nothing the program writes. -/
theorem undisturbed_ask_bind_iff {α β : Type} {x : Except ε α} {f : α → Proc σ ε β} {s : σ} :
    Undisturbed (Proc.ask (fun _ => x) >>= f) s ↔ ∀ a, x = .ok a → Undisturbed (f a) s := by
  cases x with
  | ok a =>
    simp only [Except.ok.injEq, forall_eq']
    rfl
  | error e =>
    constructor
    · intro _ a ha
      cases ha
    · intro _ e' t h
      exact (Prod.mk.inj h).2.symm

section TryEach

variable {α : Type} (f : α → Proc σ ε Unit)

/-- Run `f a` for every `a` in order, and go on when one returns an error. -/
def tryEach : List α → Proc σ ε Unit
  | [] => pure ()
  | a :: as => Proc.attempt (f a) >>= fun _ => tryEach as

/-- The members of the list for which the loop from `s` meets no error. -/
def succeeded : List α → σ → List α
  | [], _ => []
  | a :: as, s =>
    match f a s with
    | (.ok _, t) => a :: succeeded as t
    | (.error _, t) => succeeded as t

variable {f} {a : α} {as : List α} {s t : σ}

theorem tryEach_cons_of_ok (h : f a s = (.ok (), t)) (as : List α) :
    tryEach f (a :: as) s = tryEach f as t := Proc.bind_of_ok (Proc.attempt_of_ok h) _

theorem tryEach_cons_of_error {e : ε} (h : f a s = (.error (.error e), t)) (as : List α) :
    tryEach f (a :: as) s = tryEach f as t := Proc.bind_of_ok (Proc.attempt_of_error h) _

/-- A loop that returns got past its first program, with or without an error. -/
theorem tryEach_cons_returned (h : (tryEach f (a :: as) s).1 = .ok ()) :
    (∃ t, f a s = (.ok (), t)) ∨ ∃ e t, f a s = (.error (.error e), t) := by
  rcases hf : f a s with ⟨(e | e | _) | u, t⟩
  · exact .inr ⟨e, t, rfl⟩
  · -- a panic is not caught and ends the loop
    rw [tryEach, Proc.bind_of_stop (Proc.attempt_of_panic hf)] at h
    cases h
  · have hrun : Proc.attempt (f a) s = (.error .running, t) := by simp [Proc.attempt, hf]
    rw [tryEach, Proc.bind_of_stop hrun] at h
    cases h
  · exact .inl ⟨t, rfl⟩

/-- A loop that returns goes on behind an error as it does behind a success. -/
theorem tryEach_cons_ok (h : tryEach f (a :: as) s = (.ok (), t)) :
    ∃ r u, f a s = (r, u) ∧ r.returned ∧ tryEach f as u = (.ok (), t) := by
  rcases tryEach_cons_returned (congrArg Prod.fst h) with ⟨u, hrun⟩ | ⟨e, u, hrun⟩
  · rw [tryEach_cons_of_ok hrun] at h
    exact ⟨_, u, hrun, rfl, h⟩
  · rw [tryEach_cons_of_error hrun] at h
    exact ⟨_, u, hrun, rfl, h⟩

theorem tryEach_append (as bs : List α) :
    tryEach f (as ++ bs) = tryEach f as >>= fun _ => tryEach f bs := by
  induction as with
  | nil => rfl
  | cons a as ih =>
    rw [List.cons_append, tryEach, ih, tryEach, bind_assoc]

/-- What every program of a loop keeps if it returns, the loop keeps if it does. -/
theorem tryEach_keeps {I : σ → Prop}
    (hkeep : ∀ a s r t, f a s = (r, t) → r.returned → I s → I t)
    (h : tryEach f as s = (.ok (), t)) (hs : I s) : I t := by
  induction as generalizing s with
  | nil =>
    obtain ⟨-, rfl⟩ := Prod.mk.inj h
    exact hs
  | cons a as ih =>
    obtain ⟨r, u, hrun, hr, hrest⟩ := tryEach_cons_ok h
    exact ih hrest (hkeep a s r u hrun hr hs)

/-- **Loops and their succeeding programs.** A loop that returns does, up to every point, what
the same loop over its succeeding programs does, exactly when each program is undisturbed in
the state it runs in. -/
theorem tryEach_eq_succeeded_iff (h : (tryEach f as s).1 = .ok ()) :
    (∀ n, (tryEach f (as.take n) s).2 = (tryEach f (succeeded f (as.take n) s) s).2) ↔
      ∀ n a, as[n]? = some a → Undisturbed (f a) (tryEach f (as.take n) s).2 := by
  induction as generalizing s with
  | nil => simp [succeeded]
  | cons a as ih =>
    refine (Nat.and_forall_add_one.symm.trans ?_).trans Nat.and_forall_add_one
    rcases tryEach_cons_returned h with ⟨t, hf⟩ | ⟨e, t, hf⟩
    · -- a succeeding program runs in both loops
      rw [tryEach_cons_of_ok hf] at h
      have hrest := ih h
      simp only [List.take_succ_cons, tryEach_cons_of_ok hf, succeeded, hf, List.getElem?_cons_succ]
      rw [hrest]
      simp [tryEach, succeeded, undisturbed_of_ok hf]
    · -- a failing one runs in the first loop only, and is undisturbed if it left no trace
      rw [tryEach_cons_of_error hf] at h
      have hrest := ih h
      simp only [List.take_succ_cons, tryEach_cons_of_error hf, succeeded, hf,
        List.getElem?_cons_succ]
      by_cases hts : t = s
      · subst hts
        rw [hrest]
        simp [tryEach, succeeded, undisturbed_iff_of_error hf]
      · constructor
        · rintro ⟨-, hall⟩
          -- the loop of length one already tells the two states apart
          exact absurd (hall 0) (by simpa [tryEach, succeeded] using hts)
        · rintro ⟨hfirst, -⟩
          exact absurd ((undisturbed_iff_of_error hf).mp (by simpa [tryEach] using hfirst)) hts

end TryEach

end Program
