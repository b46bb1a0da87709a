import Mathlib.Data.List.Infix

/-!
# Trimming

A list is trimmed of tokens, which are lists themselves: from either end tokens are dropped for as
long as there is one. When no token starts another one, nor ends with one, what is dropped does not
depend on the order in which tokens are tried, and a text reads back from between any tokens.

## Main definitions

* `trimLeft`, `trimRight`, `trim`: a list without the tokens at its ends
* `Tokens`: the lists that are made of tokens
* `PrefixFree`: no token starts another one

## Main results

* `exists_trim`: only tokens are dropped
* `trim_eq`: all of them are
-/

namespace Program

variable {α : Type*}

/-- The list is made of tokens. -/
def Tokens (tokens : List (List α)) (s : List α) : Prop :=
  ∃ ws : List (List α), (∀ t ∈ ws, t ∈ tokens) ∧ s = ws.flatten

/-- No token is empty, and none starts another one. -/
structure PrefixFree (tokens : List (List α)) : Prop where
  ne_nil : ∀ t ∈ tokens, t ≠ []
  eq_of_start : ∀ t ∈ tokens, ∀ t' ∈ tokens, t <+: t' → t = t'

section

variable {tokens : List (List α)} {s : List α}

theorem Tokens.reverse (h : Tokens tokens s) : Tokens (tokens.map List.reverse) s.reverse := by
  obtain ⟨ws, hws, rfl⟩ := h
  refine ⟨(ws.map List.reverse).reverse, fun t ht => ?_, List.reverse_flatten⟩
  obtain ⟨w, hw, rfl⟩ := List.mem_map.mp (List.mem_reverse.mp ht)
  exact List.mem_map_of_mem (hws w hw)

/-- A token is no prefix of a list that starts with another element. -/
theorem not_prefix_of_head? {t : List α} (hne : t ≠ []) (h : t.head? ≠ s.head?) : ¬ t <+: s := by
  rintro ⟨rest, rfl⟩
  exact h (List.head?_append_of_ne_nil t hne).symm

end

variable [DecidableEq α]

/-- The list behind the first token that it starts with. -/
def dropToken (tokens : List (List α)) (s : List α) : Option (List α) :=
  (tokens.find? fun t => t.isPrefixOf s).map fun t => s.drop t.length

/-- At most `n` tokens are dropped. -/
def trimLoop (tokens : List (List α)) : ℕ → List α → List α
  | 0, s => s
  | n + 1, s =>
    match dropToken tokens s with
    | none => s
    | some rest => trimLoop tokens n rest

def trimLeft (tokens : List (List α)) (s : List α) : List α := trimLoop tokens s.length s

def trimRight (tokens : List (List α)) (s : List α) : List α :=
  (trimLeft (tokens.map List.reverse) s.reverse).reverse

def trim (tokens : List (List α)) (s : List α) : List α := trimRight tokens (trimLeft tokens s)

variable {tokens : List (List α)} {s : List α}

theorem dropToken_eq_none_iff : dropToken tokens s = none ↔ ∀ t ∈ tokens, ¬ t <+: s := by
  simp [dropToken, List.find?_eq_none]

/-- What is dropped is a token. -/
theorem dropToken_eq_some {rest : List α} (h : dropToken tokens s = some rest) :
    ∃ t ∈ tokens, s = t ++ rest := by
  obtain ⟨t, hfind, rfl⟩ := Option.map_eq_some_iff.mp h
  have hstarts : t <+: s := by simpa using List.find?_some hfind
  exact ⟨t, List.mem_of_find?_eq_some hfind, (List.prefix_iff_eq_append.mp hstarts).symm⟩

/-- The token that the list starts with is dropped. -/
theorem dropToken_append (hfree : PrefixFree tokens) {t : List α} (ht : t ∈ tokens)
    (rest : List α) : dropToken tokens (t ++ rest) = some rest := by
  cases hdrop : dropToken tokens (t ++ rest) with
  | none => exact absurd (List.prefix_append t rest) (dropToken_eq_none_iff.mp hdrop t ht)
  | some rest' =>
    obtain ⟨t', ht', heq⟩ := dropToken_eq_some hdrop
    -- of two tokens at the front one starts the other
    have hsame : t' = t := by
      have h := List.prefix_append t rest
      have h' : t' <+: t ++ rest := heq ▸ List.prefix_append t' rest'
      rcases List.prefix_or_prefix_of_prefix h h' with hle | hle
      · exact (hfree.eq_of_start t ht t' ht' hle).symm
      · exact hfree.eq_of_start t' ht' t ht hle
    rw [hsame] at heq
    rw [List.append_cancel_left heq]

theorem trimLoop_spec (hne : ∀ t ∈ tokens, t ≠ []) {n : ℕ} (hn : s.length ≤ n) :
    (∃ before, Tokens tokens before ∧ s = before ++ trimLoop tokens n s) ∧
      ∀ t ∈ tokens, ¬ t <+: trimLoop tokens n s := by
  induction n generalizing s with
  | zero =>
    obtain rfl := List.eq_nil_of_length_eq_zero (Nat.le_zero.mp hn)
    refine ⟨⟨[], ⟨[], by simp, rfl⟩, rfl⟩, fun t ht hstarts => ?_⟩
    exact hne t ht (List.prefix_nil.mp hstarts)
  | succ n ih =>
    unfold trimLoop
    cases hdrop : dropToken tokens s with
    | none => exact ⟨⟨[], ⟨[], by simp, rfl⟩, rfl⟩, dropToken_eq_none_iff.mp hdrop⟩
    | some rest =>
      obtain ⟨t, ht, rfl⟩ := dropToken_eq_some hdrop
      have hpos := List.length_pos_of_ne_nil (hne t ht)
      rw [List.length_append] at hn
      obtain ⟨⟨_, ⟨ws, hws, rfl⟩, hrest⟩, hstop⟩ := ih (s := rest) (by omega)
      refine ⟨⟨(t :: ws).flatten, ⟨t :: ws, ?_, rfl⟩, ?_⟩, hstop⟩
      · exact List.forall_mem_cons.mpr ⟨ht, hws⟩
      · rw [List.flatten_cons, List.append_assoc, ← hrest]

theorem trimLoop_append (hfree : PrefixFree tokens) {before rest : List α}
    (hbefore : Tokens tokens before) (hrest : ∀ t ∈ tokens, ¬ t <+: rest) {n : ℕ}
    (hn : (before ++ rest).length ≤ n) : trimLoop tokens n (before ++ rest) = rest := by
  obtain ⟨ws, hws, rfl⟩ := hbefore
  induction ws generalizing n with
  | nil =>
    cases n with
    | zero => rfl
    | succ n =>
      rw [List.flatten_nil, List.nil_append, trimLoop, dropToken_eq_none_iff.mpr hrest]
  | cons t ws ih =>
    have ht := hws t List.mem_cons_self
    have hpos := List.length_pos_of_ne_nil (hfree.ne_nil t ht)
    rw [List.flatten_cons, List.append_assoc] at hn ⊢
    rw [List.length_append] at hn
    obtain ⟨n, rfl⟩ : ∃ m, n = m + 1 := Nat.exists_eq_add_one_of_ne_zero (by omega)
    rw [trimLoop, dropToken_append hfree ht]
    exact ih (fun t' ht' => hws t' (List.mem_cons_of_mem t ht')) (by omega)

/-- **Only tokens are dropped.** -/
theorem exists_trim (hne : ∀ t ∈ tokens, t ≠ []) (s : List α) : ∃ before after,
    Tokens tokens before ∧ Tokens tokens after ∧ s = before ++ trim tokens s ++ after := by
  have hne' : ∀ t ∈ tokens.map List.reverse, t ≠ [] := by
    intro t ht
    obtain ⟨t, ht', rfl⟩ := List.mem_map.mp ht
    simpa using hne t ht'
  obtain ⟨⟨before, hbefore, hleft⟩, -⟩ := trimLoop_spec hne (Nat.le_refl s.length)
  obtain ⟨⟨after, hafter, hright⟩, -⟩ :=
    trimLoop_spec hne' (Nat.le_refl (trimLeft tokens s).reverse.length)
  refine ⟨before, after.reverse, hbefore, ?_, ?_⟩
  · simpa using hafter.reverse
  · have h := congrArg List.reverse hright
    rw [List.reverse_reverse, List.reverse_append] at h
    rw [List.append_assoc]
    exact hleft.trans (congrArg (before ++ ·) h)

/-- **All tokens are dropped** around a list whose ends are those of no token. -/
theorem trim_eq (hfree : PrefixFree tokens) (hfree' : PrefixFree (tokens.map List.reverse))
    {before mid after : List α} (hbefore : Tokens tokens before) (hafter : Tokens tokens after)
    (hmid : mid ≠ []) (hhead : ∀ t ∈ tokens, t.head? ≠ mid.head?)
    (hlast : ∀ t ∈ tokens, t.getLast? ≠ mid.getLast?) :
    trim tokens (before ++ mid ++ after) = mid := by
  have hstart : ∀ t ∈ tokens, ¬ t <+: mid ++ after := fun t ht =>
    not_prefix_of_head? (hfree.ne_nil t ht)
      (by rw [List.head?_append_of_ne_nil mid hmid]; exact hhead t ht)
  have hleft : trimLeft tokens (before ++ (mid ++ after)) = mid ++ after :=
    trimLoop_append hfree hbefore hstart (Nat.le_refl _)
  have hend : ∀ t ∈ tokens.map List.reverse, ¬ t <+: mid.reverse := by
    intro t ht
    obtain ⟨t, ht', rfl⟩ := List.mem_map.mp ht
    exact not_prefix_of_head? (hfree'.ne_nil _ ht) (by simpa using hlast t ht')
  have hright : trimLeft (tokens.map List.reverse) (after.reverse ++ mid.reverse) = mid.reverse :=
    trimLoop_append hfree' hafter.reverse hend (Nat.le_refl _)
  rw [List.append_assoc, trim, hleft, trimRight, List.reverse_append, hright, List.reverse_reverse]

end Program
