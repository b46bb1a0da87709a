import Mathlib.Data.List.Chain

/-!
# Runs of labelled steps, and what they record

A run is a sequence of completed calls. Each call names an operation, its result and the
states before and after it. When every call either leaves an observation as it was or moves
it along a relation, the observed values of a whole run form one chain of that relation: the
run refines the abstract system that only takes the moves.

## Main definitions

* `Call`, `Run step s₀ cs t`: completed calls, and the runs `cs` from `s₀` to `t`
* `Moves p obs rel c`: the call `c` moves `obs` along `rel` when `p c`, and keeps it otherwise

## Main results

* `Run.step_of_mem`, `Run.split`: the calls of a run are steps, each after the run before it
* `Run.trans`: a run goes on from where another one ends
* `Run.history`: what every step preserves of the calls so far holds of a whole run
* `Run.invariant_of_mem`, `Run.invariant`, `Run.forall_before`: what every step preserves holds
  at the end of a run, and before each of its calls
* `Run.pairwise_le`: what no call lets fall only grows along a run
* `Run.forall_after_iff`: when a run stays within what its calls keep under a condition
* `Run.exists_chain`: a run whose calls move an observation records a chain
-/

namespace Program

variable {A R S V : Type}

/-- A completed call: its operation, its result and the states around it. -/
structure Call (A R S : Type) where
  op : A
  result : R
  before : S
  after : S

/-- `Run step s₀ cs t`: the calls `cs`, in order, lead from `s₀` to `t`. -/
inductive Run (step : A → S → R → S → Prop) (s₀ : S) : List (Call A R S) → S → Prop
  | nil : Run step s₀ [] s₀
  | snoc {cs : List (Call A R S)} {t u : S} {a : A} {r : R} :
      Run step s₀ cs t → step a t r u → Run step s₀ (cs ++ [⟨a, r, t, u⟩]) u

variable {step : A → S → R → S → Prop} {s₀ t : S} {cs : List (Call A R S)}

/-- Each call of a run is a step from where the calls before it lead. -/
theorem Run.split (h : Run step s₀ cs t) {before after : List (Call A R S)} {c : Call A R S}
    (hcs : cs = before ++ c :: after) :
    Run step s₀ before c.before ∧ step c.op c.before c.result c.after := by
  induction h generalizing after with
  | nil => simp at hcs
  | @snoc cs t u a r hr hs ih =>
    rcases List.eq_nil_or_concat after with rfl | ⟨rest, last, rfl⟩
    · obtain ⟨rfl, hc⟩ := List.append_inj' hcs rfl
      obtain rfl := List.singleton_inj.mp hc
      exact ⟨hr, hs⟩
    · rw [List.concat_eq_append, ← List.cons_append, ← List.append_assoc] at hcs
      exact ih (List.append_inj' hcs rfl).1

theorem Run.step_of_mem (h : Run step s₀ cs t) :
    ∀ c ∈ cs, step c.op c.before c.result c.after := by
  intro c hc
  obtain ⟨before, after, hcs⟩ := List.append_of_mem hc
  exact (h.split hcs).2

/-- A run can go on from where another one ends. -/
theorem Run.trans {cs' : List (Call A R S)} {u : S} (h : Run step s₀ cs t)
    (h' : Run step t cs' u) : Run step s₀ (cs ++ cs') u := by
  induction h' with
  | nil => rwa [List.append_nil]
  | snoc _ hs ih =>
    rw [← List.append_assoc]
    exact ih.snoc hs

/-- What holds of no calls and is preserved by every further call holds of a whole run. -/
theorem Run.history {I : List (Call A R S) → S → Prop} (h : Run step s₀ cs t) (h₀ : I [] s₀)
    (hstep : ∀ cs c, step c.op c.before c.result c.after → I cs c.before →
      I (cs ++ [c]) c.after) : I cs t := by
  induction h with
  | nil => exact h₀
  | @snoc cs t u a r _ hs ih => exact hstep cs ⟨a, r, t, u⟩ hs ih

/-- What holds at the start and is preserved by the calls of a run holds at its end. -/
theorem Run.invariant_of_mem {I : S → Prop} (h : Run step s₀ cs t) (h₀ : I s₀)
    (hcs : ∀ c ∈ cs, step c.op c.before c.result c.after → I c.before → I c.after) : I t := by
  induction h with
  | nil => exact h₀
  | @snoc cs t u a r _ hs ih =>
    have hbefore := ih fun c hc => hcs c (List.mem_append_left _ hc)
    exact hcs ⟨a, r, t, u⟩ (by simp) hs hbefore

/-- What holds at the start and is preserved by every step holds at the end of every run. -/
theorem Run.invariant {I : S → Prop} (h : Run step s₀ cs t) (h₀ : I s₀)
    (hstep : ∀ a s r s', I s → step a s r s' → I s') : I t :=
  h.invariant_of_mem h₀ fun c _ hs hi => hstep c.op c.before c.result c.after hi hs

/-- What holds at the start and is preserved by every step holds before every call. -/
theorem Run.forall_before {I : S → Prop} (h : Run step s₀ cs t) (h₀ : I s₀)
    (hstep : ∀ a s r s', I s → step a s r s' → I s') : ∀ c ∈ cs, I c.before := by
  intro c hc
  obtain ⟨before, after, hcs⟩ := List.append_of_mem hc
  exact (h.split hcs).1.invariant h₀ hstep

/-- What no call lets fall only grows along a run. -/
theorem Run.pairwise_le [Preorder V] {f : S → V} (h : Run step s₀ cs t)
    (hcs : ∀ c ∈ cs, f c.before ≤ f c.after) :
    (cs.Pairwise fun c c' => f c.after ≤ f c'.after) ∧ ∀ c ∈ cs, f c.after ≤ f t := by
  induction h with
  | nil => simp
  | @snoc cs t u a r _ _ ih =>
    obtain ⟨hpairs, hend⟩ := ih fun c hc => hcs c (List.mem_append_left _ hc)
    have hlast : f t ≤ f u := hcs ⟨a, r, t, u⟩ (by simp)
    have hafter : ∀ c ∈ cs, f c.after ≤ f u := fun c hc => (hend c hc).trans hlast
    refine ⟨List.pairwise_append.mpr ⟨hpairs, List.pairwise_singleton _ _, ?_⟩, ?_⟩
    · simpa using hafter
    · exact List.forall_mem_append.mpr ⟨hafter, by simp⟩

/-- What holds at the start and after every call holds at the end. -/
theorem Run.end_of_forall_after {I : S → Prop} (h : Run step s₀ cs t) (h₀ : I s₀)
    (hcs : ∀ c ∈ cs, I c.after) : I t := by
  cases h with
  | nil => exact h₀
  | snoc _ _ => exact hcs _ (List.mem_append_right _ List.mem_cons_self)

/-- **Exact conditions along a run.** When, from states in `I`, a call ends in `I` exactly
under the condition `C`, a run that starts in `I` stays there exactly when all its calls meet
the condition. -/
theorem Run.forall_after_iff {I : S → Prop} {C : Call A R S → Prop} (h : Run step s₀ cs t)
    (h₀ : I s₀) (hstep : ∀ c : Call A R S, step c.op c.before c.result c.after → I c.before →
      (I c.after ↔ C c)) :
    (∀ c ∈ cs, I c.after) ↔ ∀ c ∈ cs, C c := by
  induction h with
  | nil => simp
  | @snoc cs t u a r hr hs ih =>
    -- the condition of the last call only says something if the run was in `I` before it
    simp only [List.forall_mem_append, List.forall_mem_singleton]
    constructor
    · rintro ⟨hcs, hlast⟩
      exact ⟨ih.mp hcs, (hstep ⟨a, r, t, u⟩ hs (hr.end_of_forall_after h₀ hcs)).mp hlast⟩
    · rintro ⟨hcs, hlast⟩
      have hafter := ih.mpr hcs
      exact ⟨hafter, (hstep ⟨a, r, t, u⟩ hs (hr.end_of_forall_after h₀ hafter)).mpr hlast⟩

/-- The call `c` moves the observation along `rel` when `p c`, and leaves it alone otherwise. -/
def Moves (p : Call A R S → Bool) (obs : S → Option V) (rel : V → V → Prop)
    (c : Call A R S) : Prop :=
  if p c then ∃ v v', obs c.before = some v ∧ obs c.after = some v' ∧ rel v v'
  else obs c.after = obs c.before

/-- **Runs record chains.** The values observed after the calls selected by `p`, put behind
the first one, form a chain of `rel` that ends in the value observed last. -/
theorem Run.exists_chain (h : Run step s₀ cs t) (p : Call A R S → Bool) (obs : S → Option V)
    (rel : V → V → Prop) {v₀ : V} (h₀ : obs s₀ = some v₀)
    (hmoves : ∀ c ∈ cs, Moves p obs rel c) :
    ∃ vs, (cs.filter p).map (fun c => obs c.after) = vs.map some ∧
      (v₀ :: vs).IsChain rel ∧ obs t = (v₀ :: vs).getLast? := by
  -- induction on the run: the last call keeps the chain or adds one value to it
  induction h with
  | nil => exact ⟨[], rfl, List.isChain_singleton v₀, by simpa using h₀⟩
  | @snoc cs s u a r _ _ ih =>
    obtain ⟨vs, hvs, hchain, hlast⟩ := ih fun c hc => hmoves c (by simp [hc])
    have hmove := hmoves ⟨a, r, s, u⟩ (by simp)
    unfold Moves at hmove
    cases hp : p ⟨a, r, s, u⟩ with
    | false =>
      rw [hp] at hmove
      exact ⟨vs, by simp [List.filter_append, hp, hvs], hchain, hmove.trans hlast⟩
    | true =>
      rw [hp, if_pos rfl] at hmove
      obtain ⟨v, v', hv, hv', hrel⟩ := hmove
      refine ⟨vs ++ [v'], by simp [List.filter_append, hp, hvs, hv'], ?_, ?_⟩
      · rw [← List.cons_append, List.isChain_append]
        refine ⟨hchain, List.isChain_singleton v', ?_⟩
        intro x hx y hy
        obtain rfl : x = v := by
          rw [← hlast] at hx
          exact Option.some.inj ((Option.mem_def.mp hx).symm.trans hv)
        obtain rfl : v' = y := by simpa using hy
        exact hrel
      · rw [← List.cons_append, List.getLast?_concat]
        exact hv'

end Program
