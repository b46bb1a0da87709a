import Mathlib.Data.Finset.Sort

/-!
# Ranking

The members of a finite set in a given order, and the place of a member among them. The first
few members are those with few members in front of them, so what a walk over the ranked members
meets can be said without the list.

## Main definitions

* `ranked r s`: the members of `s` in the order `r`
* `rank r s x`: the number of members of `s` in front of `x`

## Main results

* `mem_take_ranked_iff`: the first `n` members are those of rank below `n`
* `rank_erase`: taking out a member that is not in front of `x` keeps its rank
-/

namespace Program

variable {α : Type} (r : α → α → Prop) [DecidableRel r]

/-- The members of `s` in the order `r`. They are sorted by insertion, which can be evaluated in
a proof. -/
def ranked [IsTrans α r] [Std.Antisymm r] [Std.Total r] (s : Finset α) : List α :=
  Quot.liftOn s.val (List.insertionSort r) fun l₁ l₂ h => by
    have hperm : (l₁.insertionSort r).Perm (l₂.insertionSort r) :=
      (List.perm_insertionSort r l₁).trans (h.trans (List.perm_insertionSort r l₂).symm)
    exact hperm.eq_of_pairwise' (List.pairwise_insertionSort r l₁)
      (List.pairwise_insertionSort r l₂)

section Ranked

variable [IsTrans α r] [Std.Antisymm r] [Std.Total r] (s : Finset α)

theorem ranked_eq_sort : ranked r s = s.sort r := by
  obtain ⟨⟨l⟩, hl⟩ := s
  exact (List.mergeSort_eq_insertionSort r l).symm

theorem pairwise_ranked : (ranked r s).Pairwise r := by
  rw [ranked_eq_sort]
  exact s.pairwise_sort r

@[simp] theorem mem_ranked {x : α} : x ∈ ranked r s ↔ x ∈ s := by
  rw [ranked_eq_sort, Finset.mem_sort]

theorem countP_ranked (p : α → Prop) [DecidablePred p] :
    (ranked r s).countP (fun y => p y) = (s.filter p).card := by
  rw [ranked_eq_sort, Finset.card_def, Finset.filter_val, ← Multiset.countP_eq_card_filter,
    ← Multiset.coe_countP, Finset.sort_eq]

end Ranked

variable [DecidableEq α]

/-- The number of members of `s` in front of `x`. -/
def rank (s : Finset α) (x : α) : ℕ := {y ∈ s | r y x ∧ y ≠ x}.card

variable {r}

theorem rank_erase {s : Finset α} {x z : α} (h : ¬ r z x) : rank r (s.erase z) x = rank r s x := by
  unfold rank
  rw [Finset.filter_erase, Finset.erase_eq_of_notMem]
  simp [h]

/-- In a sorted list, the first `n` members have fewer than `n` in front of them. -/
theorem mem_take_iff_countP [Std.Antisymm r] {l : List α} (hl : l.Pairwise r) {x : α} (n : ℕ)
    (hx : x ∈ l) : x ∈ l.take n ↔ l.countP (fun y => r y x ∧ y ≠ x) < n := by
  induction l generalizing n with
  | nil => cases hx
  | cons z l ih =>
    obtain ⟨hz, hl⟩ := List.pairwise_cons.mp hl
    cases n with
    | zero => simp
    | succ n =>
      rw [List.take_succ_cons, List.countP_cons]
      by_cases hxz : x = z
      · -- nothing stands in front of the first member
        subst hxz
        have hnone : l.countP (fun y => r y x ∧ y ≠ x) = 0 := by
          refine List.countP_eq_zero.mpr fun y hy => ?_
          simp only [decide_eq_true_eq, not_and, not_not]
          exact fun hyx => (antisymm (hz y hy) hyx).symm
        rw [hnone]
        simp
      · have hx : x ∈ l := (List.mem_cons.mp hx).resolve_left hxz
        simp [hxz, Ne.symm hxz, hz x hx, ih hl n hx]

/-- **The first members.** They are the ones with few members in front of them. -/
theorem mem_take_ranked_iff [IsTrans α r] [Std.Antisymm r] [Std.Total r] {s : Finset α} {x : α}
    {n : ℕ} : x ∈ (ranked r s).take n ↔ x ∈ s ∧ rank r s x < n := by
  constructor
  · intro h
    have hx := List.mem_of_mem_take h
    rw [mem_take_iff_countP (pairwise_ranked r s) n hx, countP_ranked] at h
    exact ⟨(mem_ranked r s).mp hx, h⟩
  · rintro ⟨hx, hrank⟩
    rw [mem_take_iff_countP (pairwise_ranked r s) n ((mem_ranked r s).mpr hx), countP_ranked]
    exact hrank

end Program
