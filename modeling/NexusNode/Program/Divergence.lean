import NexusNode.Program.Replica

/-!
# Replicas that come apart

A command may do different things at different replicas. It says for which state it is meant,
and a replica applies it to no other. Replicas that have committed equally many commands then
come from one state by the last of them, and the next command is meant for at most one of the
states they are in. A replica in another state stays there.

## Main definitions

* `Replication.Checked`: commands are applied to the states they are meant for
* `Arrives`: the states of a replica after so many of the decided commands

## Main results

* `Run.follows`: in every run, every replica is in such a state
* `Arrives.common`: two of them after equally many commands come from one state
* `Run.moves`: a replica moves on only by a command that is meant for its state
* `Run.one_moves`: of two replicas that have come apart at most one moves on
-/

namespace Program

variable {I C S L : Type}

/-- `checks c s`: the command `c` is meant for the state `s`. `out i c s t l`: it makes `t` of `s`
at the replica `i`, for a reason that the outside `l` shows from then on. -/
structure Replication.Checked (P : Replication I C S L) (checks : C → S → Prop)
    (out : I → C → S → S → L → Prop) : Prop where
  accepts : ∀ {i h s c}, P.accepts i h s c → checks c s
  applies : ∀ {i c s l t l'}, P.applies i c s l t l' → checks c s
  outcome : ∀ {i j h c s l t l'}, P.accepts j h s c → P.applies i c s l t l' → out i c s t l'
  /-- a command is meant for at most one of the states that the one before it makes -/
  apart : ∀ {i j c d s t t' l l'}, out i c s t l → out j c s t' l' → checks d t → checks d t' →
    t = t'
  applies_shows : ∀ {i c s l t l' d u v}, P.applies i c s l t l' → out i d u v l → out i d u v l'
  stops_shows : ∀ {i c s l l' d u v}, P.stops i c s l l' → out i d u v l → out i d u v l'
  works_shows : ∀ {i s l l' d u v}, P.works i s l l' → out i d u v l → out i d u v l'

/-! ## The states of a replica -/

/-- The states that the replica `i` with the outside `l` can be in after so many of the commands
`ds`. -/
inductive Arrives (checks : C → S → Prop) (out : I → C → S → S → L → Prop) (s₀ : S) (ds : List C)
    (i : I) (l : L) : ℕ → S → Prop
  | start : Arrives checks out s₀ ds i l 0 s₀
  | next {h : ℕ} {c : C} {s t : S} : Arrives checks out s₀ ds i l h s → ds[h]? = some c →
      checks c s → out i c s t l → Arrives checks out s₀ ds i l (h + 1) t

section States

variable {P : Replication I C S L} {checks : C → S → Prop} {out : I → C → S → S → L → Prop}
  {s₀ : S} {ds ds' : List C} {i j : I} {l l' : L} {h : ℕ} {s t : S}

/-- What was decided stays so. -/
theorem getElem?_of_decided (hds : ds <+: ds') {c : C} (hc : ds[h]? = some c) :
    ds'[h]? = some c := by
  obtain ⟨hlt, rfl⟩ := List.getElem?_eq_some_iff.mp hc
  exact List.prefix_iff_getElem?.mp hds h hlt

/-- Commands that are decided later and an outside that shows more change nothing. -/
theorem Arrives.mono (hds : ds <+: ds') (hout : ∀ {d u v}, out i d u v l → out i d u v l')
    (hs : Arrives checks out s₀ ds i l h s) : Arrives checks out s₀ ds' i l' h s := by
  induction hs with
  | start => exact .start
  | next _ hc hchecks ho ih => exact .next ih (getElem?_of_decided hds hc) hchecks (hout ho)

theorem Arrives.eq_start (hs : Arrives checks out s₀ ds i l 0 s) : s = s₀ := by
  cases hs
  rfl

/-- The next command is meant for one state at most. -/
theorem Arrives.unique (hP : P.Checked checks out) (hs : Arrives checks out s₀ ds i l h s)
    (ht : Arrives checks out s₀ ds j l' h t) {d : C} (hds : checks d s) (hdt : checks d t) :
    s = t := by
  induction hs generalizing t d with
  | start =>
    cases ht
    rfl
  | next _ hc hchecks ho ih =>
    cases ht with
    | next ht' hc' hchecks' ho' =>
      obtain rfl := Option.some.inj (hc.symm.trans hc')
      obtain rfl := ih ht' hchecks hchecks'
      exact hP.apart ho ho' hds hdt

/-- **One state before.** States after equally many commands come from one state by the last of
these. -/
theorem Arrives.common (hP : P.Checked checks out) (hs : Arrives checks out s₀ ds i l (h + 1) s)
    (ht : Arrives checks out s₀ ds j l' (h + 1) t) :
    ∃ c u, ds[h]? = some c ∧ out i c u s l ∧ out j c u t l' := by
  cases hs with
  | @next _ c u _ hu hc hchecks ho =>
    cases ht with
    | next ht' hc' hchecks' ho' =>
      obtain rfl := Option.some.inj (hc.symm.trans hc')
      obtain rfl := hu.unique hP ht' hchecks hchecks'
      exact ⟨c, u, hc, ho, ho'⟩

end States

/-! ## Runs -/

section Runs

variable {P : Replication I C S L} {checks : C → S → Prop} {out : I → C → S → S → L → Prop}
  {s₀ : S} {l₀ : I → L} {n n' : Net I C S L}
  {calls : List (Call (NetAction I C) Unit (Net I C S L))}

/-- The replica is in a state that it can be in, and has applied the next command to no other. -/
structure Replica.Follows (checks : C → S → Prop) (out : I → C → S → S → L → Prop) (s₀ : S)
    (ds : List C) (i : I) (r : Replica S L) : Prop where
  committed : Arrives checks out s₀ ds i r.outside r.height r.committed
  working : ∀ t, r.working = some t → ∃ c, ds[r.height]? = some c ∧ checks c r.committed ∧
    out i c r.committed t r.outside

structure Net.Follows (P : Replication I C S L) (checks : C → S → Prop)
    (out : I → C → S → S → L → Prop) (s₀ : S) (n : Net I C S L) : Prop where
  accepted : ∀ h c, n.decided[h]? = some c →
    ∃ j l s, Arrives checks out s₀ n.decided j l h s ∧ P.accepts j h s c
  replica : ∀ i, (n.replica i).Follows checks out s₀ n.decided i

theorem Replica.Follows.mono {ds ds' : List C} {i : I} {r : Replica S L} {l' : L}
    (hds : ds <+: ds') (hout : ∀ {d u v}, out i d u v r.outside → out i d u v l')
    (hr : r.Follows checks out s₀ ds i) :
    Replica.Follows checks out s₀ ds' i { r with outside := l' } where
  committed := hr.committed.mono hds hout
  working t ht := by
    obtain ⟨c, hc, hchecks, ho⟩ := hr.working t ht
    exact ⟨c, getElem?_of_decided hds hc, hchecks, hout ho⟩

theorem Net.start_follows : (Net.start s₀ l₀ : Net I C S L).Follows P checks out s₀ where
  accepted h c hc := by simp [Net.start] at hc
  replica i := ⟨.start, by simp [Net.start]⟩

/-- The next command was accepted in the state of a replica that it is meant for. -/
theorem Net.Follows.accepts_committed (hP : P.Checked checks out)
    (hn : n.Follows P checks out s₀) {i : I} {c : C}
    (hc : n.decided[(n.replica i).height]? = some c) (hchecks : checks c (n.replica i).committed) :
    ∃ j, P.accepts j (n.replica i).height (n.replica i).committed c := by
  obtain ⟨j, l, s, hs, haccepts⟩ := hn.accepted _ c hc
  obtain rfl := hs.unique hP (hn.replica i).committed (hP.accepts haccepts) hchecks
  exact ⟨j, haccepts⟩

variable [DecidableEq I]

/-- **One step** leaves every replica in a state that it can be in. -/
theorem NetStep.follows (hP : P.Checked checks out) {a : NetAction I C}
    (hn : n.Follows P checks out s₀) (hstep : NetStep P a n () n') :
    n'.Follows P checks out s₀ := by
  cases hstep with
  | @decide _ i c hheight haccepts =>
    have hmore : n.decided <+: n.decided ++ [c] := List.prefix_append _ _
    refine ⟨fun h d hd => ?_, fun j => (hn.replica j).mono hmore fun ho => ho⟩
    rcases Nat.lt_or_ge h n.decided.length with hlt | hge
    · rw [List.getElem?_append_left hlt] at hd
      obtain ⟨j, l, s, hs, hj⟩ := hn.accepted h d hd
      exact ⟨j, l, s, hs.mono hmore fun ho => ho, hj⟩
    · obtain rfl : h = n.decided.length := by
        have hbound := (List.getElem?_eq_some_iff.mp hd).1
        rw [List.length_append, List.length_singleton] at hbound
        exact Nat.le_antisymm (Nat.le_of_lt_succ hbound) hge
      obtain rfl : c = d := by simpa using hd
      have hi := (hn.replica i).committed.mono hmore fun ho => ho
      exact ⟨i, _, _, hheight ▸ hi, haccepts⟩
  | @apply _ i c s l hc hworking happlies =>
    refine ⟨hn.accepted, Net.forall_put (Q := fun i r => r.Follows checks out s₀ n.decided i)
      hn.replica ?_⟩
    have hkept := (hn.replica i).mono List.prefix_rfl (hP.applies_shows happlies)
    refine ⟨hkept.committed, fun t ht => ?_⟩
    obtain rfl := Option.some.inj ht
    obtain ⟨j, haccepts⟩ := hn.accepts_committed hP hc (hP.applies happlies)
    exact ⟨c, hc, hP.applies happlies, hP.outcome haccepts happlies⟩
  | @commit _ i s hs =>
    refine ⟨hn.accepted, Net.forall_put (Q := fun i r => r.Follows checks out s₀ n.decided i)
      hn.replica ⟨?_, by simp⟩⟩
    obtain ⟨c, hc, hchecks, ho⟩ := (hn.replica i).working s hs
    exact .next (hn.replica i).committed hc hchecks ho
  | @crash _ i =>
    exact ⟨hn.accepted, Net.forall_put (Q := fun i r => r.Follows checks out s₀ n.decided i)
      hn.replica ⟨(hn.replica i).committed, by simp⟩⟩
  | @stop _ i c l hc hworking hstops =>
    exact ⟨hn.accepted, Net.forall_put (Q := fun i r => r.Follows checks out s₀ n.decided i)
      hn.replica ((hn.replica i).mono List.prefix_rfl (hP.stops_shows hstops))⟩
  | @work _ i l hworks =>
    exact ⟨hn.accepted, Net.forall_put (Q := fun i r => r.Follows checks out s₀ n.decided i)
      hn.replica ((hn.replica i).mono List.prefix_rfl (hP.works_shows hworks))⟩

/-- **Whole runs.** In every interleaving of the steps, every replica is in a state that it can
be in. -/
theorem Run.follows (hP : P.Checked checks out)
    (hrun : Run (NetStep P) (Net.start s₀ l₀) calls n) : n.Follows P checks out s₀ :=
  hrun.invariant Net.start_follows fun _ _ _ _ hn hstep => hstep.follows hP hn

/-- The replica has nothing in hand in the state. -/
structure Replica.Rests (h : ℕ) (s : S) (r : Replica S L) : Prop where
  height : r.height = h
  committed : r.committed = s
  working : r.working = none

theorem Replica.Rests.put {i j : I} {h : ℕ} {s : S} {r : Replica S L}
    (hn : (n.replica i).Rests h s) (hr : j = i → r.Rests h s) :
    ((n.put j r).replica i).Rests h s := by
  rcases eq_or_ne i j with rfl | hne
  · rw [Net.put_self]
    exact hr rfl
  · rw [Net.put_of_ne n hne]
    exact hn

/-- **One step**: a replica rests until a command is decided that is meant for its state. -/
theorem NetStep.rests (hP : P.Checked checks out) {a : NetAction I C} {i : I} {h : ℕ} {s : S}
    (hrests : (n.replica i).Rests h s) (hstep : NetStep P a n () n') :
    (n'.replica i).Rests h s ∨ ∃ c, n'.decided[h]? = some c ∧ checks c s := by
  cases hstep with
  | decide => exact .inl hrests
  | @apply _ j c t l hc _ happlies =>
    rcases eq_or_ne j i with rfl | hne
    · rw [hrests.height] at hc
      rw [hrests.committed] at happlies
      exact .inr ⟨c, hc, hP.applies happlies⟩
    · exact .inl (hrests.put fun hj => absurd hj hne)
  | @commit _ j t ht =>
    refine .inl (hrests.put ?_)
    rintro rfl
    rw [hrests.working] at ht
    cases ht
  | @crash _ j =>
    refine .inl (hrests.put ?_)
    rintro rfl
    exact ⟨hrests.height, hrests.committed, rfl⟩
  | @stop _ j =>
    refine .inl (hrests.put ?_)
    rintro rfl
    exact ⟨hrests.height, hrests.committed, hrests.working⟩
  | @work _ j =>
    refine .inl (hrests.put ?_)
    rintro rfl
    exact ⟨hrests.height, hrests.committed, hrests.working⟩

/-- **Moving on.** A replica moves on only by a command that is meant for the state it is in. -/
theorem Run.moves (hP : P.Checked checks out) (hn : n.Follows P checks out s₀) (i : I)
    (hrun : Run (NetStep P) n calls n') :
    ((n'.replica i).height = (n.replica i).height ∧
      (n'.replica i).committed = (n.replica i).committed) ∨
    ∃ c, n'.decided[(n.replica i).height]? = some c ∧ checks c (n.replica i).committed := by
  let h := (n.replica i).height
  let s := (n.replica i).committed
  have hstart : (n.replica i).Rests h s ∨ ∃ c, n.decided[h]? = some c ∧ checks c s := by
    cases hworking : (n.replica i).working with
    | none => exact .inl ⟨rfl, rfl, hworking⟩
    | some t =>
      obtain ⟨c, hc, hchecks, -⟩ := (hn.replica i).working t hworking
      exact .inr ⟨c, hc, hchecks⟩
  have hend : (n'.replica i).Rests h s ∨ ∃ c, n'.decided[h]? = some c ∧ checks c s := by
    refine hrun.invariant (I := fun m => (m.replica i).Rests h s ∨
      ∃ c, m.decided[h]? = some c ∧ checks c s) hstart ?_
    rintro a m ⟨⟩ m' (hrests | ⟨c, hc, hchecks⟩) hstep
    · exact hstep.rests hP hrests
    · exact .inr ⟨c, getElem?_of_decided (Run.decided_mono (Run.nil.snoc hstep)) hc, hchecks⟩
  exact hend.imp (fun hrests => ⟨hrests.height, hrests.committed⟩) id

/-- A replica that the next command is not meant for never moves again. -/
theorem Run.stays (hP : P.Checked checks out) (hn : n.Follows P checks out s₀) {i : I} {c : C}
    (hc : n.decided[(n.replica i).height]? = some c)
    (hother : ¬ checks c (n.replica i).committed) (hrun : Run (NetStep P) n calls n') :
    (n'.replica i).height = (n.replica i).height ∧
      (n'.replica i).committed = (n.replica i).committed := by
  rcases Run.moves hP hn i hrun with hstays | ⟨d, hd, hchecks⟩
  · exact hstays
  · rw [getElem?_of_decided (Run.decided_mono hrun) hc] at hd
    obtain rfl := Option.some.inj hd
    exact absurd hchecks hother

/-- A replica that the next command is meant for moves on when it can apply it. -/
theorem Net.Follows.exists_moved (hP : P.Checked checks out) (hn : n.Follows P checks out s₀)
    {i : I} {c : C} (hc : n.decided[(n.replica i).height]? = some c)
    (hchecks : checks c (n.replica i).committed)
    (happly : ∀ j l, P.accepts j (n.replica i).height (n.replica i).committed c →
      ∃ t l', P.applies i c (n.replica i).committed l t l') :
    ∃ calls n', Run (NetStep P) n calls n' ∧
      (n'.replica i).height = (n.replica i).height + 1 := by
  cases hworking : (n.replica i).working with
  | some t => exact ⟨_, _, Run.nil.snoc (NetStep.commit hworking), by simp⟩
  | none =>
    obtain ⟨j, haccepts⟩ := hn.accepts_committed hP hc hchecks
    obtain ⟨t, l', happlies⟩ := happly j (n.replica i).outside haccepts
    obtain ⟨calls, n', hrun, -, hi, -⟩ := NetStep.exists_committed hc hworking happlies
    exact ⟨calls, n', hrun, by rw [hi]⟩

/-- Of two replicas that have come apart at most one moves on. -/
theorem Run.one_moves (hP : P.Checked checks out) (hn : n.Follows P checks out s₀) {i j : I}
    (hheight : (n.replica i).height = (n.replica j).height)
    (hne : (n.replica i).committed ≠ (n.replica j).committed)
    (hrun : Run (NetStep P) n calls n') :
    (n'.replica i).height = (n.replica i).height ∨
      (n'.replica j).height = (n.replica j).height := by
  rcases Run.moves hP hn i hrun with hstays | ⟨c, hc, hi⟩
  · exact .inl hstays.1
  rcases Run.moves hP hn j hrun with hstays | ⟨d, hd, hj⟩
  · exact .inr hstays.1
  rw [hheight, hd] at hc
  obtain rfl := Option.some.inj hc
  have hreached := (hn.replica i).committed
  rw [hheight] at hreached
  exact absurd (hreached.unique hP (hn.replica j).committed hi hj) hne

end Runs

end Program
