import Mathlib.Logic.Function.Basic
import NexusNode.Program.Run

/-!
# Replicated state machines

Replicas apply one sequence of decided commands. Each holds a durable state, that of the
commands it has committed, and applies the next command to a working copy that a crash throws
away. What a replica does outside of its state, such as calls to another system, is not taken
back by a crash. A command is decided when some replica that has committed all the commands
before it accepts it.

## Main definitions

* `Replica`, `Replication`, `Net`: replicas, what they do, and a network of them
* `NetStep`: the steps of a network, in any interleaving
* `replay next s₀ cs`: the state after the commands `cs`
* `Due`, `AllDue`: commands were accepted in the states that those before them lead to
* `Replication.Keeps`: what is said of the outside is kept by all steps

## Main results

* `Run.replays`: in every run, every replica is where the decided commands lead
* `Net.Replays.agree`: replicas that have committed equally many commands are in the same state
* `Run.decided_mono`, `Run.height_mono`: what was decided and committed stays so
* `Run.outside`: what every step keeps of the outside holds in every run
* `Net.Replays.exists_caught_up`: a replica that is behind can catch up
-/

namespace Program

variable {I C S L : Type}

/-- A replica: how many commands it has committed, the state after them, the state after one
more command that it has applied and not yet committed, and what it left outside. -/
structure Replica (S L : Type) where
  height : ℕ
  committed : S
  working : Option S
  outside : L

/-- What replicas do with commands. -/
structure Replication (I C S L : Type) where
  /-- a replica in the state accepts the command as the one after so many others -/
  accepts : I → ℕ → S → C → Prop
  /-- a replica applies the command -/
  applies : I → C → S → L → S → L → Prop
  /-- a replica stops while it applies the command -/
  stops : I → C → S → L → L → Prop
  /-- a replica does something else with its committed state -/
  works : I → S → L → L → Prop

structure Net (I C S L : Type) where
  replica : I → Replica S L
  decided : List C

/-- All replicas in one state, with nothing decided. -/
def Net.start (s₀ : S) (l₀ : I → L) : Net I C S L := ⟨fun i => ⟨0, s₀, none, l₀ i⟩, []⟩

inductive NetAction (I C : Type) where
  | decide (i : I) (c : C)
  | apply (i : I)
  | commit (i : I)
  | crash (i : I)
  | work (i : I)

section Steps

variable [DecidableEq I]

def Net.put (n : Net I C S L) (i : I) (r : Replica S L) : Net I C S L :=
  { n with replica := Function.update n.replica i r }

/-- The steps of a network. A replica may crash at any time, also while it applies a command;
it then starts again from its committed state. -/
inductive NetStep (P : Replication I C S L) :
    NetAction I C → Net I C S L → Unit → Net I C S L → Prop
  | decide {n : Net I C S L} {i : I} {c : C} :
      (n.replica i).height = n.decided.length →
      P.accepts i n.decided.length (n.replica i).committed c →
      NetStep P (.decide i c) n () { n with decided := n.decided ++ [c] }
  | apply {n : Net I C S L} {i : I} {c : C} {s : S} {l : L} :
      n.decided[(n.replica i).height]? = some c → (n.replica i).working = none →
      P.applies i c (n.replica i).committed (n.replica i).outside s l →
      NetStep P (.apply i) n () (n.put i { n.replica i with working := some s, outside := l })
  | commit {n : Net I C S L} {i : I} {s : S} :
      (n.replica i).working = some s →
      NetStep P (.commit i) n ()
        (n.put i ⟨(n.replica i).height + 1, s, none, (n.replica i).outside⟩)
  | crash {n : Net I C S L} {i : I} :
      NetStep P (.crash i) n () (n.put i { n.replica i with working := none })
  | stop {n : Net I C S L} {i : I} {c : C} {l : L} :
      n.decided[(n.replica i).height]? = some c → (n.replica i).working = none →
      P.stops i c (n.replica i).committed (n.replica i).outside l →
      NetStep P (.crash i) n () (n.put i { n.replica i with outside := l })
  | work {n : Net I C S L} {i : I} {l : L} :
      P.works i (n.replica i).committed (n.replica i).outside l →
      NetStep P (.work i) n () (n.put i { n.replica i with outside := l })

@[simp] theorem Net.put_decided (n : Net I C S L) (i : I) (r : Replica S L) :
    (n.put i r).decided = n.decided := rfl

@[simp] theorem Net.put_self (n : Net I C S L) (i : I) (r : Replica S L) :
    (n.put i r).replica i = r := by simp [Net.put]

theorem Net.put_of_ne (n : Net I C S L) {i j : I} (h : j ≠ i) (r : Replica S L) :
    (n.put i r).replica j = n.replica j := by simp [Net.put, h]

/-- What holds of all replicas, and of the one that is put in, still holds of all. -/
theorem Net.forall_put {Q : I → Replica S L → Prop} {n : Net I C S L} {i : I} {r : Replica S L}
    (h : ∀ j, Q j (n.replica j)) (hr : Q i r) : ∀ j, Q j ((n.put i r).replica j) := by
  intro j
  rcases eq_or_ne j i with rfl | hne
  · rw [Net.put_self]
    exact hr
  · rw [Net.put_of_ne n hne]
    exact h j

end Steps

/-! ## Replaying -/

section Replay

variable (next : C → S → Option S) (s₀ : S)

/-- The state after the commands, when all of them can be applied. -/
def replay (cs : List C) : Option S := cs.foldlM (fun s c => next c s) s₀

@[simp] theorem replay_nil : replay next s₀ [] = some s₀ := rfl

theorem replay_concat (cs : List C) (c : C) :
    replay next s₀ (cs ++ [c]) = (replay next s₀ cs).bind (next c) := by
  unfold replay
  rw [List.foldlM_append]
  simp only [List.foldlM_cons, List.foldlM_nil, bind_pure]
  rfl

/-- The state after one more of the commands. -/
theorem replay_take_succ {ds : List C} {h : ℕ} {c : C} (hc : ds[h]? = some c) :
    replay next s₀ (ds.take (h + 1)) = (replay next s₀ (ds.take h)).bind (next c) := by
  rw [List.take_add_one, hc, Option.toList_some, replay_concat]

/-- All commands can be applied when the last state exists. -/
theorem replay_take_ne_none {ds : List C} (hds : replay next s₀ ds ≠ none) (h : ℕ) :
    replay next s₀ (ds.take h) ≠ none := by
  intro hnone
  apply hds
  unfold replay at hnone ⊢
  rw [← List.take_append_drop h ds, List.foldlM_append, hnone]
  rfl

/-- The command after the first `h` decided ones, which the state after those is to apply, and
which some replica has accepted there. -/
structure Due (P : Replication I C S L) (ds : List C) (h : ℕ) (c : C) (s : S) : Prop where
  command : ds[h]? = some c
  state : replay next s₀ (ds.take h) = some s
  accepted : ∃ i, P.accepts i h s c

/-- Every decided command was accepted in the state that the commands before it lead to. -/
def AllDue (P : Replication I C S L) (ds : List C) : Prop :=
  ∀ h c, ds[h]? = some c → ∃ s, Due next s₀ P ds h c s

/-- The replica is where the decided commands lead. -/
structure Replica.Replays (ds : List C) (r : Replica S L) : Prop where
  height : r.height ≤ ds.length
  committed : replay next s₀ (ds.take r.height) = some r.committed
  working : ∀ s, r.working = some s → ∃ c, ds[r.height]? = some c ∧ next c r.committed = some s

variable {next s₀}

theorem Due.decide {P : Replication I C S L} {ds : List C} {h : ℕ} {c : C} {s : S}
    (hdue : Due next s₀ P ds h c s) (d : C) : Due next s₀ P (ds ++ [d]) h c s := by
  have hlt : h < ds.length := (List.getElem?_eq_some_iff.mp hdue.command).1
  refine ⟨?_, ?_, hdue.accepted⟩
  · rw [List.getElem?_append_left hlt]
    exact hdue.command
  · rw [List.take_append_of_le_length hlt.le]
    exact hdue.state

theorem Replica.Replays.decide {ds : List C} {r : Replica S L} (h : r.Replays next s₀ ds) (d : C) :
    r.Replays next s₀ (ds ++ [d]) := by
  refine ⟨?_, ?_, fun s hs => ?_⟩
  · rw [List.length_append]
    exact Nat.le_add_right_of_le h.height
  · rw [List.take_append_of_le_length h.height]
    exact h.committed
  · obtain ⟨c, hc, hnext⟩ := h.working s hs
    have hlt : r.height < ds.length := (List.getElem?_eq_some_iff.mp hc).1
    exact ⟨c, by rw [List.getElem?_append_left hlt, hc], hnext⟩

/-- A replica commits what it has applied. -/
theorem Replica.Replays.commit {ds : List C} {r : Replica S L} (h : r.Replays next s₀ ds) {s : S}
    (hs : r.working = some s) : Replica.Replays next s₀ ds ⟨r.height + 1, s, none, r.outside⟩ := by
  obtain ⟨c, hc, hnext⟩ := h.working s hs
  refine ⟨(List.getElem?_eq_some_iff.mp hc).1, ?_, by simp⟩
  rw [replay_take_succ next s₀ hc, h.committed]
  exact hnext

end Replay

/-! ## Runs -/

section Runs

variable {P : Replication I C S L} {next : C → S → Option S} {s₀ : S} {l₀ : I → L}
  {calls : List (Call (NetAction I C) Unit (Net I C S L))} {n : Net I C S L}

/-- Every replica is where the decided commands lead, and each command was accepted there. -/
structure Net.Replays (P : Replication I C S L) (next : C → S → Option S) (s₀ : S)
    (n : Net I C S L) : Prop where
  due : AllDue next s₀ P n.decided
  replica : ∀ i, (n.replica i).Replays next s₀ n.decided

/-- The command that a replica has to apply is due in its committed state. -/
theorem Net.Replays.due_committed (h : n.Replays P next s₀) {i : I} {c : C}
    (hc : n.decided[(n.replica i).height]? = some c) :
    Due next s₀ P n.decided (n.replica i).height c (n.replica i).committed := by
  obtain ⟨s, hs⟩ := h.due _ c hc
  obtain rfl := Option.some.inj (hs.state.symm.trans (h.replica i).committed)
  exact hs

/-- Replicas that have committed equally many commands are in the same state. -/
theorem Net.Replays.agree (h : n.Replays P next s₀) {i j : I}
    (hij : (n.replica i).height = (n.replica j).height) :
    (n.replica i).committed = (n.replica j).committed := by
  have hi := (h.replica i).committed
  rw [hij] at hi
  exact Option.some.inj (hi.symm.trans (h.replica j).committed)

theorem Net.start_replays : (Net.start s₀ l₀ : Net I C S L).Replays P next s₀ where
  due h c hc := by simp [Net.start] at hc
  replica i := ⟨Nat.le_refl 0, rfl, by simp [Net.start]⟩

variable [DecidableEq I]

/-- **One step**: what replicas apply is what the command makes of the state it was accepted
in. -/
theorem NetStep.replays
    (hnext : ∀ i j h c s l s' l', P.accepts i h s c → P.applies j c s l s' l' → next c s = some s')
    {a : NetAction I C} {n n' : Net I C S L} (h : n.Replays P next s₀)
    (hstep : NetStep P a n () n') : n'.Replays P next s₀ := by
  cases hstep with
  | @decide _ i c hheight haccepts =>
    refine ⟨fun m d hd => ?_, fun j => (h.replica j).decide c⟩
    rcases Nat.lt_or_ge m n.decided.length with hlt | hge
    · rw [List.getElem?_append_left hlt] at hd
      obtain ⟨s, hs⟩ := h.due m d hd
      exact ⟨s, hs.decide c⟩
    · have hm : m = n.decided.length := by
        have hbound := (List.getElem?_eq_some_iff.mp hd).1
        rw [List.length_append, List.length_singleton] at hbound
        exact Nat.le_antisymm (Nat.le_of_lt_succ hbound) hge
      subst hm
      obtain rfl : c = d := by simpa using hd
      refine ⟨_, by simp, ?_, i, haccepts⟩
      rw [List.take_left, ← (h.replica i).committed, hheight, List.take_length]
  | @apply _ i c s l hc hworking happlies =>
    refine ⟨h.due, Net.forall_put h.replica ⟨(h.replica i).height, (h.replica i).committed, ?_⟩⟩
    intro t ht
    obtain rfl := Option.some.inj ht
    obtain ⟨j, hj⟩ := (h.due_committed hc).accepted
    exact ⟨c, hc, hnext j i _ c _ _ _ _ hj happlies⟩
  | @commit _ i s hs => exact ⟨h.due, Net.forall_put h.replica ((h.replica i).commit hs)⟩
  | @crash _ i =>
    exact ⟨h.due, Net.forall_put h.replica
      ⟨(h.replica i).height, (h.replica i).committed, by simp⟩⟩
  | @stop _ i c l hc hworking hstops =>
    exact ⟨h.due, Net.forall_put h.replica
      ⟨(h.replica i).height, (h.replica i).committed, (h.replica i).working⟩⟩
  | @work _ i l hworks =>
    exact ⟨h.due, Net.forall_put h.replica
      ⟨(h.replica i).height, (h.replica i).committed, (h.replica i).working⟩⟩

/-- **Whole runs.** In every interleaving of the steps, every replica is where the decided
commands lead. -/
theorem Run.replays
    (hnext : ∀ i j h c s l s' l', P.accepts i h s c → P.applies j c s l s' l' → next c s = some s')
    (hrun : Run (NetStep P) (Net.start s₀ l₀) calls n) : n.Replays P next s₀ :=
  hrun.invariant Net.start_replays fun _ _ _ _ h hstep => hstep.replays hnext h

/-- What was decided stays decided. -/
theorem Run.decided_mono {n' : Net I C S L} (hrun : Run (NetStep P) n calls n') :
    n.decided <+: n'.decided := by
  refine hrun.invariant (I := fun m => n.decided <+: m.decided) List.prefix_rfl ?_
  intro a m _ m' h hstep
  cases hstep with
  | decide => exact h.trans (List.prefix_append _ _)
  | apply => exact h
  | commit => exact h
  | crash => exact h
  | stop => exact h
  | work => exact h

/-- What was committed stays committed. -/
theorem Run.height_mono {n' : Net I C S L} (hrun : Run (NetStep P) n calls n') (i : I) :
    (n.replica i).height ≤ (n'.replica i).height := by
  refine hrun.invariant (I := fun m => ∀ j, (n.replica j).height ≤ (m.replica j).height)
    (fun j => Nat.le_refl _) ?_ i
  intro a m _ m' h hstep
  cases hstep with
  | decide => exact h
  | @apply _ j => exact Net.forall_put (Q := fun j r => (n.replica j).height ≤ r.height) h (h j)
  | @commit _ j =>
    exact Net.forall_put (Q := fun j r => (n.replica j).height ≤ r.height) h
      (Nat.le_succ_of_le (h j))
  | @crash _ j => exact Net.forall_put (Q := fun j r => (n.replica j).height ≤ r.height) h (h j)
  | @stop _ j => exact Net.forall_put (Q := fun j r => (n.replica j).height ≤ r.height) h (h j)
  | @work _ j => exact Net.forall_put (Q := fun j r => (n.replica j).height ≤ r.height) h (h j)

/-! ## The outside -/

/-- `J i ds m l`: of the decided commands `ds` the outside `l` of the replica `i` reflects the
first `m`. All steps keep this. -/
structure Replication.Keeps (P : Replication I C S L) (next : C → S → Option S) (s₀ : S)
    (J : I → List C → ℕ → L → Prop) : Prop where
  decide : ∀ i ds m l c, m ≤ ds.length → J i ds m l → J i (ds ++ [c]) m l
  forget : ∀ i ds m l, J i ds (m + 1) l → J i ds m l
  works : ∀ i ds h m s l l', AllDue next s₀ P ds → h ≤ ds.length →
    replay next s₀ (ds.take h) = some s → P.works i s l l' → J i ds m l → J i ds m l'
  stops : ∀ i ds h c s l l', Due next s₀ P ds h c s → P.stops i c s l l' →
    J i ds h l → J i ds h l'
  applies : ∀ i ds h c s l s' l', Due next s₀ P ds h c s → P.applies i c s l s' l' →
    J i ds h l → J i ds (h + 1) l'

/-- The outside of a replica reflects what it has committed, and what it has applied. -/
def Replica.Reflects (J : I → List C → ℕ → L → Prop) (ds : List C) (i : I) (r : Replica S L) :
    Prop :=
  J i ds r.height r.outside ∧ (r.working ≠ none → J i ds (r.height + 1) r.outside)

theorem NetStep.reflects {J : I → List C → ℕ → L → Prop} (hJ : P.Keeps next s₀ J)
    {a : NetAction I C} {n n' : Net I C S L} (hreplays : n.Replays P next s₀)
    (h : ∀ i, (n.replica i).Reflects J n.decided i) (hstep : NetStep P a n () n') :
    ∀ i, (n'.replica i).Reflects J n'.decided i := by
  cases hstep with
  | @decide _ i c hheight haccepts =>
    intro j
    have hj := hreplays.replica j
    refine ⟨hJ.decide _ _ _ _ _ hj.height (h j).1, fun hworking => ?_⟩
    obtain ⟨s, hs⟩ := Option.ne_none_iff_exists'.mp hworking
    obtain ⟨d, hd, -⟩ := hj.working s hs
    exact hJ.decide _ _ _ _ _ (List.getElem?_eq_some_iff.mp hd).1 ((h j).2 hworking)
  | @apply _ i c s l hc hworking happlies =>
    have happlied := hJ.applies _ _ _ _ _ _ _ _ (hreplays.due_committed hc) happlies (h i).1
    exact Net.forall_put (Q := fun j r => r.Reflects J n.decided j) h
      ⟨hJ.forget _ _ _ _ happlied, fun _ => happlied⟩
  | @commit _ i s hs =>
    exact Net.forall_put (Q := fun j r => r.Reflects J n.decided j) h
      ⟨(h i).2 (by simp [hs]), by simp⟩
  | @crash _ i =>
    exact Net.forall_put (Q := fun j r => r.Reflects J n.decided j) h ⟨(h i).1, by simp⟩
  | @stop _ i c l hc hworking hstops =>
    have hstopped := hJ.stops _ _ _ _ _ _ _ (hreplays.due_committed hc) hstops (h i).1
    exact Net.forall_put (Q := fun j r => r.Reflects J n.decided j) h
      ⟨hstopped, by simp [hworking]⟩
  | @work _ i l hworks =>
    obtain ⟨hheight, hcommitted, -⟩ := hreplays.replica i
    have hkeep (m : ℕ) : J i n.decided m (n.replica i).outside → J i n.decided m l :=
      hJ.works _ _ _ _ _ _ _ hreplays.due hheight hcommitted hworks
    exact Net.forall_put (Q := fun j r => r.Reflects J n.decided j) h
      ⟨hkeep _ (h i).1, fun hworking => hkeep _ ((h i).2 hworking)⟩

/-- **The outside in whole runs.** -/
theorem Run.outside {J : I → List C → ℕ → L → Prop} (hJ : P.Keeps next s₀ J)
    (hnext : ∀ i j h c s l s' l', P.accepts i h s c → P.applies j c s l s' l' → next c s = some s')
    (h₀ : ∀ i, J i [] 0 (l₀ i)) (hrun : Run (NetStep P) (Net.start s₀ l₀) calls n) (i : I) :
    J i n.decided (n.replica i).height (n.replica i).outside := by
  have hinv : n.Replays P next s₀ ∧ ∀ i, (n.replica i).Reflects J n.decided i := by
    have hstart : ∀ i, ((Net.start s₀ l₀ : Net I C S L).replica i).Reflects J [] i :=
      fun i => ⟨h₀ i, by simp [Net.start]⟩
    refine hrun.invariant (I := fun n => n.Replays P next s₀ ∧
      ∀ i, (n.replica i).Reflects J n.decided i) ⟨Net.start_replays, hstart⟩ ?_
    rintro a m ⟨⟩ m' ⟨hreplays, hreflects⟩ hstep
    exact ⟨hstep.replays hnext hreplays, hstep.reflects hJ hreplays hreflects⟩
  exact (hinv.2 i).1

/-! ## Catching up -/

/-- A replica applies the next command and commits it. -/
theorem NetStep.exists_committed {i : I} {c : C} {s : S} {l : L}
    (hc : n.decided[(n.replica i).height]? = some c) (hworking : (n.replica i).working = none)
    (happlies : P.applies i c (n.replica i).committed (n.replica i).outside s l) :
    ∃ calls n', Run (NetStep P) n calls n' ∧ n'.decided = n.decided ∧
      n'.replica i = ⟨(n.replica i).height + 1, s, none, l⟩ ∧
      ∀ j, j ≠ i → n'.replica j = n.replica j := by
  have hrun := Run.nil.snoc (NetStep.apply hc hworking happlies)
  refine ⟨_, _, hrun.snoc (NetStep.commit (i := i) (s := s) (by simp)), rfl, by simp, ?_⟩
  intro j hj
  rw [Net.put_of_ne _ hj, Net.put_of_ne _ hj]

/-- A replica that is behind commits one more command. -/
theorem Net.Replays.exists_advanced {i : I}
    (happly : ∀ h c s l, Due next s₀ P n.decided h c s → (n.replica i).height ≤ h →
      next c s ≠ none → ∃ s' l', P.applies i c s l s' l')
    (h : n.Replays P next s₀) (hds : replay next s₀ n.decided ≠ none)
    (hbehind : (n.replica i).height < n.decided.length) :
    ∃ calls n', Run (NetStep P) n calls n' ∧ n'.decided = n.decided ∧
      (n'.replica i).height = (n.replica i).height + 1 := by
  have hc := List.getElem?_eq_getElem hbehind
  cases hworking : (n.replica i).working with
  | some s =>
    exact ⟨_, _, Run.nil.snoc (NetStep.commit hworking), rfl, by simp⟩
  | none =>
    have hdue := h.due_committed hc
    have hne : next n.decided[(n.replica i).height] (n.replica i).committed ≠ none := by
      have hsucc := replay_take_ne_none next s₀ hds ((n.replica i).height + 1)
      rw [replay_take_succ next s₀ hc, hdue.state] at hsucc
      exact hsucc
    obtain ⟨s, l, happlies⟩ := happly _ _ _ (n.replica i).outside hdue (Nat.le_refl _) hne
    obtain ⟨calls, n', hrun, hdecided, hi, -⟩ := NetStep.exists_committed hc hworking happlies
    exact ⟨calls, n', hrun, hdecided, by rw [hi]⟩

/-- **Catching up.** When a replica can apply the decided commands that it has not committed, it
gets to all of them by steps of its own. -/
theorem Net.Replays.exists_caught_up {i : I}
    (hnext : ∀ i j h c s l s' l', P.accepts i h s c → P.applies j c s l s' l' → next c s = some s')
    (happly : ∀ h c s l, Due next s₀ P n.decided h c s → (n.replica i).height ≤ h →
      next c s ≠ none → ∃ s' l', P.applies i c s l s' l')
    (h : n.Replays P next s₀) (hds : replay next s₀ n.decided ≠ none) :
    ∃ calls n', Run (NetStep P) n calls n' ∧ n'.decided = n.decided ∧
      (n'.replica i).height = n.decided.length := by
  induction hleft : n.decided.length - (n.replica i).height generalizing n with
  | zero =>
    exact ⟨[], n, Run.nil, rfl,
      Nat.le_antisymm (h.replica i).height (Nat.le_of_sub_eq_zero hleft)⟩
  | succ k ih =>
    obtain ⟨calls, n₁, hrun, hdecided, hheight⟩ := h.exists_advanced happly hds (by omega)
    have h₁ : n₁.Replays P next s₀ := hrun.invariant h fun _ _ _ _ h hstep => hstep.replays hnext h
    obtain ⟨calls', n₂, hrun', hdecided', hheight'⟩ :=
      ih (fun m c s l hdue hm => happly m c s l (hdecided ▸ hdue) (by omega)) h₁
        (by rwa [hdecided]) (by rw [hdecided]; omega)
    exact ⟨_, n₂, hrun.trans hrun', hdecided'.trans hdecided, hheight'.trans (by rw [hdecided])⟩

end Runs

end Program
