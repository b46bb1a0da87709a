import Mathlib.Algebra.Order.Ring.Nat
import Mathlib.Data.List.Range

/-!
# Attempts with growing pauses

`backoffLoop attempt n pause t` makes at most `n` attempts from time `t` on, until one succeeds or
says that another attempt is of no use. Between two attempts it pauses, each time twice as long. An
attempt is a function of the time at which it starts: what it says, and how long it takes.

## Main definitions

* `Verdict ε`: what an attempt says
* `backoffLoop`: the loop, with the times of its attempts and the time of its end
* `startTime attempt pause t j`: when attempt `j` starts, if the loop gets there

## Main results

* `backoffLoop_eq`: the attempts that are made and how the loop ends
* `backoffLoop_finish_le`: when it ends
-/

namespace Program

/-- What an attempt says. -/
inductive Verdict (ε : Type) where
  | success
  | retry (e : ε)
  | stop (e : ε)
  deriving DecidableEq

/-- How a loop ends with this attempt as its last one. -/
def Verdict.result {ε : Type} : Verdict ε → Except (Option ε) Unit
  | .success => .ok ()
  | .retry e => .error (some e)
  | .stop e => .error (some e)

/-- What a loop of attempts did. -/
structure Attempts (ε : Type) where
  /-- when the attempts were made -/
  starts : List ℕ
  /-- the error of the last attempt, absent if there was none -/
  result : Except (Option ε) Unit
  finish : ℕ

variable {ε : Type} (attempt : ℕ → Verdict ε × ℕ)

/-- At most `n` attempts from time `t` on, with pauses that double. -/
def backoffLoop : ℕ → ℕ → ℕ → Attempts ε
  | 0, _, t => ⟨[], .error none, t⟩
  | n + 1, pause, t =>
    match attempt t with
    | (.success, d) => ⟨[t], .ok (), t + d⟩
    | (.stop e, d) => ⟨[t], .error (some e), t + d⟩
    | (.retry e, d) =>
      -- there is no pause behind the last attempt
      if n = 0 then ⟨[t], .error (some e), t + d⟩
      else
        let rest := backoffLoop n (2 * pause) (t + d + pause)
        { rest with starts := t :: rest.starts }

/-- When attempt `j` starts, if all attempts before it ask for another one. -/
def startTime (pause t : ℕ) : ℕ → ℕ
  | 0 => t
  | j + 1 => startTime (2 * pause) (t + (attempt t).2 + pause) j

/-- The attempts before the `j`th ask for another one. -/
def Retries (pause t j : ℕ) : Prop :=
  ∀ i < j, ∃ e, (attempt (startTime attempt pause t i)).1 = .retry e

variable {attempt} {n pause t : ℕ}

theorem retries_succ_iff {j : ℕ} : Retries attempt pause t (j + 1) ↔
    (∃ e, (attempt t).1 = .retry e) ∧
      Retries attempt (2 * pause) (t + (attempt t).2 + pause) j := by
  constructor
  · exact fun h => ⟨h 0 (by omega), fun i hi => h (i + 1) (by omega)⟩
  · rintro ⟨h₀, h⟩ i hi
    cases i with
    | zero => exact h₀
    | succ i => exact h i (by omega)

/-- One more attempt than the one that asks for it. -/
theorem backoffLoop_of_retry {e : ε} (h : (attempt t).1 = .retry e) :
    backoffLoop attempt (n + 2) pause t =
      { backoffLoop attempt (n + 1) (2 * pause) (t + (attempt t).2 + pause) with
        starts := t :: (backoffLoop attempt (n + 1) (2 * pause)
          (t + (attempt t).2 + pause)).starts } := by
  rw [backoffLoop]
  split
  next d hd => rw [hd] at h; cases h
  next e' d hd => rw [hd] at h; cases h
  next e' d hd => simp [hd]

/-- **What the loop does.** It makes the attempts up to one that does not ask for another, or up to
the `n`th, and ends with that one. -/
theorem backoffLoop_eq (attempt : ℕ → Verdict ε × ℕ) (pause t : ℕ) (hn : 0 < n) : ∃ j < n,
    Retries attempt pause t j ∧ (j + 1 < n → ¬ Retries attempt pause t (j + 1)) ∧
      backoffLoop attempt n pause t = {
        starts := (List.range (j + 1)).map (startTime attempt pause t)
        result := (attempt (startTime attempt pause t j)).1.result
        finish := startTime attempt pause t j + (attempt (startTime attempt pause t j)).2 } := by
  obtain ⟨n, rfl⟩ := Nat.exists_eq_add_one_of_ne_zero hn.ne'
  clear hn
  induction n generalizing pause t with
  | zero =>
    refine ⟨0, one_pos, fun i hi => by omega, fun h => by omega, ?_⟩
    rw [backoffLoop]
    split <;> next d hd => simp [startTime, hd, Verdict.result]
  | succ n ih =>
    by_cases hretry : ∃ e, (attempt t).1 = .retry e
    · obtain ⟨e, he⟩ := hretry
      obtain ⟨j, hj, hbefore, hlast, heq⟩ :=
        ih (2 * pause) (t + (attempt t).2 + pause)
      refine ⟨j + 1, by omega, retries_succ_iff.mpr ⟨⟨e, he⟩, hbefore⟩, fun h => ?_, ?_⟩
      · rw [retries_succ_iff]
        exact fun hall => hlast (by omega) hall.2
      · rw [backoffLoop_of_retry he, heq, List.range_succ_eq_map (n := j + 1), List.map_cons,
          List.map_map]
        rfl
    · refine ⟨0, by omega, fun i hi => by omega, fun _ h => hretry (h 0 one_pos), ?_⟩
      rw [backoffLoop]
      split
      next d hd => simp [startTime, hd, Verdict.result]
      next e d hd => simp [startTime, hd, Verdict.result]
      next e d hd => exact absurd ⟨e, congrArg Prod.fst hd⟩ hretry

section Bound

variable {limit : ℕ} (hlimit : ∀ t, (attempt t).2 ≤ limit)

include hlimit

theorem startTime_add_le (pause t j : ℕ) :
    startTime attempt pause t j + pause ≤ t + j * limit + pause * 2 ^ j := by
  induction j generalizing pause t with
  | zero => simp [startTime]
  | succ j ih =>
    have hrest := ih (2 * pause) (t + (attempt t).2 + pause)
    have hfirst := hlimit t
    have hpow : pause * 2 ^ (j + 1) = 2 * pause * 2 ^ j := by
      rw [Nat.pow_succ', ← Nat.mul_assoc, Nat.mul_comm pause 2]
    rw [startTime, hpow, Nat.add_one_mul j]
    omega

/-- **The end of the loop.** With attempts that take at most `limit`, the loop is over after `n`
of them and the pauses between them. -/
theorem backoffLoop_finish_le :
    (backoffLoop attempt (n + 1) pause t).finish + pause ≤
      t + (n + 1) * limit + pause * 2 ^ n := by
  obtain ⟨j, hj, -, -, heq⟩ := backoffLoop_eq attempt pause t n.succ_pos
  rw [heq]
  have hstart := startTime_add_le hlimit pause t j
  have hlast := hlimit (startTime attempt pause t j)
  have hattempts : j * limit + limit ≤ (n + 1) * limit := by
    rw [← Nat.add_one_mul]
    exact Nat.mul_le_mul_right limit hj
  have hpauses : pause * 2 ^ j ≤ pause * 2 ^ n :=
    Nat.mul_le_mul_left _ (Nat.pow_le_pow_right two_pos (by omega))
  dsimp only
  omega

end Bound

end Program
