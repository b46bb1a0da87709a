import Mathlib.Data.List.Infix

/-!
# Streaks

A counter that is raised by some entries of a history and reset by the others bounds the number
of consecutive raising entries, as long as the history ends when the counter reaches its limit.

## Main definitions

* `StreakWithin p max n l`: no more than `max` consecutive entries of `l` satisfy `p`, and no more
  than `n` do at its end

## Main results

* `StreakWithin.concat`, `StreakWithin.concat_of_not`: one more entry
-/

namespace Program

variable {α : Type} {p : α → Prop} {max n : ℕ} {l : List α} {a : α}

/-- At most `max` consecutive entries of `l` satisfy `p`, and at most `n` at its end. -/
structure StreakWithin (p : α → Prop) (max n : ℕ) (l : List α) : Prop where
  anywhere : ∀ seg, seg <:+: l → (∀ a ∈ seg, p a) → seg.length ≤ max
  atEnd : ∀ seg, seg <:+ l → (∀ a ∈ seg, p a) → seg.length ≤ n

theorem StreakWithin.nil : StreakWithin p max n [] where
  anywhere seg h _ := by simp [List.infix_nil.mp h]
  atEnd seg h _ := by simp [List.suffix_nil.mp h]

/-- An entry that does not satisfy `p` ends the streak. -/
theorem StreakWithin.concat_of_not (h : StreakWithin p max n l) (ha : ¬ p a) :
    StreakWithin p max 0 (l ++ [a]) := by
  have hend : ∀ seg, seg <:+ l ++ [a] → (∀ b ∈ seg, p b) → seg.length = 0 := by
    intro seg hseg hp
    rcases List.suffix_concat_iff.mp hseg with rfl | ⟨t, rfl, -⟩
    · rfl
    · exact absurd (hp a (by simp)) ha
  refine ⟨?_, fun seg hseg hp => (hend seg hseg hp).le⟩
  intro seg hseg hp
  rcases List.infix_concat_iff.mp hseg with hs | hi
  · simp [hend seg hs hp]
  · exact h.anywhere seg hi hp

/-- Any entry lengthens the streak by at most one. -/
theorem StreakWithin.concat (h : StreakWithin p max n l) (hn : n < max) (a : α) :
    StreakWithin p max (n + 1) (l ++ [a]) := by
  have hend : ∀ seg, seg <:+ l ++ [a] → (∀ b ∈ seg, p b) → seg.length ≤ n + 1 := by
    intro seg hseg hp
    rcases List.suffix_concat_iff.mp hseg with rfl | ⟨t, rfl, ht⟩
    · simp
    · have := h.atEnd t ht fun b hb => hp b (by simp [hb])
      simpa using this
  refine ⟨?_, hend⟩
  intro seg hseg hp
  rcases List.infix_concat_iff.mp hseg with hs | hi
  · exact (hend seg hs hp).trans hn
  · exact h.anywhere seg hi hp

theorem StreakWithin.append_of_not (h : StreakWithin p max 0 l) {l' : List α}
    (hl' : ∀ a ∈ l', ¬ p a) : StreakWithin p max 0 (l ++ l') := by
  induction l' using List.reverseRecOn with
  | nil => simpa using h
  | append_singleton l' a ih =>
    rw [← List.append_assoc]
    exact (ih fun b hb => hl' b (by simp [hb])).concat_of_not (hl' a (by simp))

end Program
