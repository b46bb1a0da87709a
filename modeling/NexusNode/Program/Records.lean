import Mathlib.Algebra.BigOperators.Group.Multiset.Basic
import Mathlib.Algebra.Order.BigOperators.Group.Multiset
import Mathlib.Algebra.Order.Group.Int
import Mathlib.Data.Finmap

/-!
# Keyed records and their totals

A store keeps one record for every key in a finite set of keys. `total f m` adds up what `f`
reads off every record of `m`. Writing one record moves a total by what the new record counts
for, less what the replaced one counted for; a total that the written records do not count in
stays as it is.

## Main definitions

* `Records K V`: finitely many records `V` under keys `K`
* `total f m`: the sum of `f k v` over the records of `m`
* `countAt f m k`: what the record under `k` adds to the total

## Main results

* `total_insert`: the total after a write
* `le_total`: with no negative contribution, a total bounds each of them
-/

namespace Program

/-- Finitely many records, at most one under each key. -/
abbrev Records (K V : Type) := Finmap fun _ : K => V

variable {K V : Type}

/-- What the records of `m` add up to under `f`. -/
def total (f : K → V → ℤ) (m : Records K V) : ℤ := (m.entries.map fun e => f e.1 e.2).sum

variable [DecidableEq K]

/-- What the record under `k`, if there is one, adds to the total. -/
def countAt (f : K → V → ℤ) (m : Records K V) (k : K) : ℤ := (m.lookup k).elim 0 (f k)

theorem countAt_of_lookup {f : K → V → ℤ} {m : Records K V} {k : K} {v : V}
    (h : m.lookup k = some v) : countAt f m k = f k v := by
  simp [countAt, h]

theorem countAt_of_missing {f : K → V → ℤ} {m : Records K V} {k : K} (h : m.lookup k = none) :
    countAt f m k = 0 := by
  simp [countAt, h]

theorem total_insert_of_missing (f : K → V → ℤ) {m : Records K V} {k : K} (v : V)
    (h : m.lookup k = none) : total f (m.insert k v) = f k v + total f m := by
  rw [total, Finmap.entries_insert_of_notMem (Finmap.lookup_eq_none.mp h)]
  simp [total]

/-- A stored record is the last write to the other records. -/
theorem insert_erase_of_lookup {m : Records K V} {k : K} {v : V} (h : m.lookup k = some v) :
    (m.erase k).insert k v = m := by
  apply Finmap.ext_lookup
  intro x
  by_cases hx : x = k
  · subst hx
    rw [Finmap.lookup_insert, h]
  · rw [Finmap.lookup_insert_of_ne _ hx, Finmap.lookup_erase_ne hx]

theorem insert_of_lookup {m : Records K V} {k : K} {v : V} (h : m.lookup k = some v) :
    m.insert k v = m := by
  rw [← insert_erase_of_lookup h, Finmap.insert_insert]

theorem isSome_lookup_insert {m : Records K V} (k : K) (v : V) {a : K}
    (h : (m.lookup a).isSome) : ((m.insert k v).lookup a).isSome := by
  rw [Finmap.lookup_isSome] at h ⊢
  exact Finmap.mem_insert.mpr (.inr h)

theorem insert_eq_insert_erase (m : Records K V) (k : K) (v : V) :
    m.insert k v = (m.erase k).insert k v := by
  apply Finmap.ext_lookup
  intro x
  by_cases hx : x = k
  · subst hx
    rw [Finmap.lookup_insert, Finmap.lookup_insert]
  · rw [Finmap.lookup_insert_of_ne _ hx, Finmap.lookup_insert_of_ne _ hx,
      Finmap.lookup_erase_ne hx]

/-- The record under one key, split off from the total. -/
theorem total_eq_countAt_add (f : K → V → ℤ) (m : Records K V) (k : K) :
    total f m = countAt f m k + total f (m.erase k) := by
  cases h : m.lookup k with
  | none =>
    have hm : m.erase k = m := by
      apply Finmap.ext_lookup
      intro x
      by_cases hx : x = k
      · subst hx
        rw [Finmap.lookup_erase, h]
      · rw [Finmap.lookup_erase_ne hx]
    rw [countAt_of_missing h, hm, zero_add]
  | some v =>
    have hsplit := total_insert_of_missing f v (Finmap.lookup_erase k m)
    rwa [insert_erase_of_lookup h, ← countAt_of_lookup (f := f) h] at hsplit

/-- **Totals after a write.** Writing a record exchanges what its key counted for. -/
theorem total_insert (f : K → V → ℤ) (m : Records K V) (k : K) (v : V) :
    total f (m.insert k v) = total f m - countAt f m k + f k v := by
  rw [insert_eq_insert_erase, total_insert_of_missing f v (Finmap.lookup_erase k m),
    total_eq_countAt_add f m k]
  omega

theorem lookup_of_mem_entries {m : Records K V} {e : Sigma fun _ : K => V} (h : e ∈ m.entries) :
    m.lookup e.1 = some e.2 := by
  induction m using Finmap.induction_on with
  | H a => exact (AList.mem_lookup_iff).mpr h

theorem total_nonneg {f : K → V → ℤ} {m : Records K V}
    (h : ∀ k v, m.lookup k = some v → 0 ≤ f k v) : 0 ≤ total f m := by
  apply Multiset.sum_nonneg
  intro x hx
  obtain ⟨e, he, rfl⟩ := Multiset.mem_map.mp hx
  exact h _ _ (lookup_of_mem_entries he)

/-- Where no record counts negatively, none counts for more than the total. -/
theorem le_total {f : K → V → ℤ} {m : Records K V} {k : K} {v : V}
    (h : ∀ k v, m.lookup k = some v → 0 ≤ f k v) (hv : m.lookup k = some v) :
    f k v ≤ total f m := by
  have hrest : 0 ≤ total f (m.erase k) := by
    apply total_nonneg
    intro k' v' hv'
    by_cases hk : k' = k
    · subst hk
      rw [Finmap.lookup_erase] at hv'
      cases hv'
    · rw [Finmap.lookup_erase_ne hk] at hv'
      exact h k' v' hv'
  rw [total_eq_countAt_add f m k, countAt_of_lookup hv]
  omega

end Program
