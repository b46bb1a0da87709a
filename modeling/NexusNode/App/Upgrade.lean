import Mathlib.Data.List.DropRight
import NexusNode.Program.Run

/-!
# Upgrade alerts

Before each block the application looks at the stored upgrade plan. A plan that is due and that
the binary cannot run gives `halt_triggered`; a plan that is still pending gives
`upgrade_scheduled`, once. The notifier decides what is new from the plan it logged last, which
it forgets when a block has no plan. Over a whole run of a process that memory is the last
alert since the latest block without a plan, so the alerts of a block are a function of the
blocks before it.

## Main definitions

* `UpgradeNotifier.maybeLogNewPlan`, `logHaltIfTriggered`, `preBlocker`: the hooks of a block
* `emission`: the `upgrade_scheduled` alert of a block, given the one remembered
* `sinceNoPlan`, `lastEmitted`: the blocks since the latest one without a plan, and their last
  alert

## Main results

* `BlockBegins.mem_iff`, `BlockBegins.remembered_eq`: what one block announces and remembers
* `remembered_eq_lastEmitted`: what a run remembers
* `run_upgrade_alerts`: the alerts of a whole run
-/

namespace NexusNode

open Program

/-! ## The hooks of a block -/

/-- The upgrade plan that `x/upgrade` stores. -/
structure Plan where
  name : String
  height : Int64
  info : String
  deriving DecidableEq, Repr

/-- The plan is due at this height. -/
def Plan.shouldExecute (plan : Plan) (blockHeight : Int64) : Bool :=
  decide (0 < plan.height) && decide (plan.height ≤ blockHeight)

/-- Why `GetUpgradePlan` returns no plan. -/
inductive PlanError
  | noUpgradePlanFound
  | storage (message : String)
  deriving DecidableEq, Repr

/-- What the hooks read in one block. The time is that of the header in UTC, as the layout
`RFC3339Nano` prints it. -/
structure UpgradeBlock where
  height : Int64
  time : String
  plan : Except PlanError Plan

/-- The keeper of `x/upgrade`: the heights to skip and the plans the binary can run. -/
structure UpgradeKeeper where
  isSkipHeight : Int64 → Bool
  hasHandler : String → Bool

def upgradeEventName : String := "upgrade_scheduled"

def haltEventName : String := "halt_triggered"

/-- The payload of `upgrade_scheduled`. -/
structure UpgradeLog where
  event : String
  name : String
  height : Int64
  info : String
  deriving DecidableEq, Repr

/-- The payload of `halt_triggered`. -/
structure HaltLog where
  event : String
  planName : String
  height : Int64
  info : String
  timestamp : String
  deriving DecidableEq, Repr

/-- What the hooks send out: lines of the log and messages to the webhook. -/
inductive Alert
  | readFailed (message error : String)
  | upgradeScheduled (payload : UpgradeLog)
  | haltTriggered (payload : HaltLog)
  | webhook (event text : String)
  deriving DecidableEq, Repr

def formatUpgradeScheduledText (p : UpgradeLog) : String :=
  ":warning: *Upgrade scheduled* — plan `" ++ p.name ++ "` will halt the chain at height `" ++
    toString p.height ++ "`.\nInfo: " ++ p.info

def formatHaltTriggeredText (p : HaltLog) : String :=
  ":rotating_light: *Chain halt triggered* — plan `" ++ p.planName ++ "` at height `" ++
    toString p.height ++ "` (" ++ p.timestamp ++ ").\nInfo: " ++ p.info

/-- The webhook is silent without a URL. Whether a message arrives changes nothing here: the
notifier returns no error. -/
def notify (url event text : String) : List Alert :=
  if url = "" then [] else [.webhook event text]

/-- The plan that was logged last, if `lastLoggedOK`. -/
structure UpgradeNotifier where
  lastLoggedOK : Bool
  lastName : String
  lastHeight : Int64
  lastInfo : String
  deriving DecidableEq, Repr

def newUpgradeNotifier : UpgradeNotifier := ⟨false, "", 0, ""⟩

def UpgradeNotifier.forgetLastPlan (_n : UpgradeNotifier) : UpgradeNotifier :=
  ⟨false, "", 0, ""⟩

def UpgradeNotifier.maybeLogNewPlan (url : String) (block : UpgradeBlock)
    (n : UpgradeNotifier) : List Alert × UpgradeNotifier :=
  match block.plan with
  | .error .noUpgradePlanFound => ([], n.forgetLastPlan)
  | .error (.storage message) =>
    ([.readFailed "upgrade logger: failed to read upgrade plan" message], n)
  | .ok plan =>
    -- a due plan is left to the halt logger, and does not touch the memory
    if plan.shouldExecute block.height then ([], n)
    else if n.lastLoggedOK ∧ n.lastName = plan.name ∧ n.lastHeight = plan.height ∧
        n.lastInfo = plan.info then ([], n)
    else
      let payload : UpgradeLog := ⟨upgradeEventName, plan.name, plan.height, plan.info⟩
      (.upgradeScheduled payload ::
          notify url upgradeEventName (formatUpgradeScheduledText payload),
        ⟨true, plan.name, plan.height, plan.info⟩)

def logHaltIfTriggered (k : UpgradeKeeper) (url : String) (block : UpgradeBlock) : List Alert :=
  match block.plan with
  | .error .noUpgradePlanFound => []
  | .error (.storage message) =>
    [.readFailed "halt logger: failed to read upgrade plan" message]
  | .ok plan =>
    if !plan.shouldExecute block.height then []
    else if k.isSkipHeight block.height then []
    else if k.hasHandler plan.name then []
    else
      let payload : HaltLog := ⟨haltEventName, plan.name, block.height, plan.info, block.time⟩
      .haltTriggered payload :: notify url haltEventName (formatHaltTriggeredText payload)

section Blocks

variable {α : Type} (k : UpgradeKeeper) (url : String) (preBlock : UpgradeBlock → α)

/-- `App.PreBlocker`: the two hooks, then the modules' own `PreBlock`, which halts the chain when
a plan is due that the binary cannot run. -/
def preBlocker (block : UpgradeBlock) (n : UpgradeNotifier) :
    (List Alert × α) × UpgradeNotifier :=
  let halt := logHaltIfTriggered k url block
  let (scheduled, n') := n.maybeLogNewPlan url block
  ((halt ++ scheduled, preBlock block), n')

/-- One block of a process. -/
def BlockBegins (block : UpgradeBlock) (n : UpgradeNotifier) (r : List Alert × α)
    (n' : UpgradeNotifier) : Prop :=
  preBlocker k url preBlock block n = (r, n')

end Blocks

/-! ## One block -/

/-- The payload that announces a plan. -/
def Plan.log (plan : Plan) : UpgradeLog :=
  ⟨upgradeEventName, plan.name, plan.height, plan.info⟩

/-- The payload that the notifier compares a plan with. -/
def UpgradeNotifier.remembered (n : UpgradeNotifier) : Option UpgradeLog :=
  if n.lastLoggedOK then some ⟨upgradeEventName, n.lastName, n.lastHeight, n.lastInfo⟩ else none

/-- The payloads of `upgrade_scheduled` among the alerts. -/
def scheduled (alerts : List Alert) : List UpgradeLog :=
  alerts.filterMap fun
    | .upgradeScheduled payload => some payload
    | _ => none

def UpgradeBlock.observesNoPlan (block : UpgradeBlock) : Bool :=
  match block.plan with
  | .error .noUpgradePlanFound => true
  | _ => false

/-- What a block announces when `last` was announced last: a pending plan other than that. -/
def emission (last : Option UpgradeLog) (block : UpgradeBlock) : Option UpgradeLog :=
  match block.plan with
  | .ok plan =>
    if plan.shouldExecute block.height ∨ last = some plan.log then none else some plan.log
  | .error _ => none

theorem emission_eq_some_iff {last : Option UpgradeLog} {block : UpgradeBlock}
    {payload : UpgradeLog} :
    emission last block = some payload ↔
      ∃ plan, block.plan = .ok plan ∧ plan.shouldExecute block.height = false ∧
        payload = plan.log ∧ last ≠ some payload := by
  unfold emission
  cases hplan : block.plan with
  | error e => simp
  | ok plan =>
    constructor
    · intro h
      simp only [ite_eq_iff, reduceCtorEq, and_false, false_or, not_or, Option.some.injEq] at h
      obtain ⟨⟨hdue, hlast⟩, rfl⟩ := h
      exact ⟨plan, rfl, by simpa using hdue, rfl, hlast⟩
    · rintro ⟨plan', hplan', hdue, rfl, hlast⟩
      obtain rfl := Except.ok.inj hplan'
      simp [hdue, hlast]

/-- The four comparisons of the notifier are one of payloads. -/
theorem UpgradeNotifier.remembered_eq_log_iff (n : UpgradeNotifier) (plan : Plan) :
    n.remembered = some plan.log ↔ n.lastLoggedOK ∧ n.lastName = plan.name ∧
      n.lastHeight = plan.height ∧ n.lastInfo = plan.info := by
  unfold UpgradeNotifier.remembered Plan.log
  cases n.lastLoggedOK <;> simp

theorem scheduled_append (alerts alerts' : List Alert) :
    scheduled (alerts ++ alerts') = scheduled alerts ++ scheduled alerts' :=
  List.filterMap_append

theorem mem_scheduled {alerts : List Alert} {payload : UpgradeLog} :
    payload ∈ scheduled alerts ↔ .upgradeScheduled payload ∈ alerts := by
  unfold scheduled
  rw [List.mem_filterMap]
  constructor
  · rintro ⟨alert, halert, hpayload⟩
    cases alert <;> simp_all
  · intro h
    exact ⟨_, h, rfl⟩

theorem scheduled_notify (url event text : String) : scheduled (notify url event text) = [] := by
  unfold notify
  split_ifs <;> rfl

/-- The halt logger speaks of due plans only, and announces nothing. -/
theorem logHaltIfTriggered_cases (k : UpgradeKeeper) (url : String) (block : UpgradeBlock) :
    scheduled (logHaltIfTriggered k url block) = [] ∧
      ∀ payload, .haltTriggered payload ∈ logHaltIfTriggered k url block →
        ∃ plan, block.plan = .ok plan ∧ plan.shouldExecute block.height := by
  unfold logHaltIfTriggered
  split
  · simp [scheduled]
  · simp [scheduled]
  · rename_i plan hplan
    split_ifs with hdue hskip hhandler
    · simp [scheduled]
    · simp [scheduled]
    · simp [scheduled]
    · refine ⟨scheduled_notify _ _ _, fun _ _ => ⟨plan, hplan, by simpa using hdue⟩⟩

/-- What the notifier sends and remembers, in terms of payloads. -/
theorem maybeLogNewPlan_cases (url : String) (block : UpgradeBlock) (n : UpgradeNotifier) :
    scheduled (n.maybeLogNewPlan url block).1 = (emission n.remembered block).toList ∧
      (n.maybeLogNewPlan url block).2.remembered =
        if block.observesNoPlan then none else (emission n.remembered block).or n.remembered := by
  unfold UpgradeNotifier.maybeLogNewPlan emission UpgradeBlock.observesNoPlan
  rcases hplan : block.plan with (_ | message) | plan
  · exact ⟨rfl, rfl⟩
  · exact ⟨rfl, rfl⟩
  · dsimp only
    by_cases hdue : plan.shouldExecute block.height
    · simp [hdue, scheduled]
    · by_cases hlast : n.remembered = some plan.log
      · rw [if_neg hdue, if_pos (n.remembered_eq_log_iff plan |>.mp hlast), if_pos (.inr hlast)]
        exact ⟨rfl, rfl⟩
      · rw [if_neg hdue, if_neg (mt (n.remembered_eq_log_iff plan).mpr hlast),
          if_neg (not_or_intro hdue hlast)]
        exact ⟨congrArg (_ :: ·) (scheduled_notify _ _ _), rfl⟩

theorem maybeLogNewPlan_not_halt (url : String) (block : UpgradeBlock) (n : UpgradeNotifier)
    (payload : HaltLog) : .haltTriggered payload ∉ (n.maybeLogNewPlan url block).1 := by
  unfold UpgradeNotifier.maybeLogNewPlan notify
  split
  · simp
  · simp
  · split_ifs <;> simp

section Blocks

variable {α : Type} {k : UpgradeKeeper} {url : String} {preBlock : UpgradeBlock → α}
  {block : UpgradeBlock} {n n' : UpgradeNotifier} {r : List Alert × α}

theorem BlockBegins.scheduled_eq (h : BlockBegins k url preBlock block n r n') :
    scheduled r.1 = (emission n.remembered block).toList := by
  obtain ⟨rfl, -⟩ := Prod.ext_iff.mp h
  change scheduled (logHaltIfTriggered k url block ++ (n.maybeLogNewPlan url block).1) = _
  rw [scheduled_append, (logHaltIfTriggered_cases k url block).1, List.nil_append]
  exact (maybeLogNewPlan_cases url block n).1

theorem BlockBegins.after_eq (h : BlockBegins k url preBlock block n r n') :
    (n.maybeLogNewPlan url block).2 = n' :=
  (Prod.ext_iff.mp h).2

theorem BlockBegins.remembered_eq (h : BlockBegins k url preBlock block n r n') :
    n'.remembered =
      if block.observesNoPlan then none else (emission n.remembered block).or n.remembered := by
  rw [← h.after_eq]
  exact (maybeLogNewPlan_cases url block n).2

theorem BlockBegins.due_of_halt (h : BlockBegins k url preBlock block n r n') {payload : HaltLog}
    (hmem : .haltTriggered payload ∈ r.1) :
    ∃ plan, block.plan = .ok plan ∧ plan.shouldExecute block.height := by
  obtain ⟨rfl, -⟩ := Prod.ext_iff.mp h
  change _ ∈ logHaltIfTriggered k url block ++ (n.maybeLogNewPlan url block).1 at hmem
  rcases List.mem_append.mp hmem with hmem | hmem
  · exact (logHaltIfTriggered_cases k url block).2 payload hmem
  · exact absurd hmem (maybeLogNewPlan_not_halt url block n payload)

/-- The alerts of a block, given the payload remembered before it. -/
theorem BlockBegins.mem_iff (h : BlockBegins k url preBlock block n r n')
    (payload : UpgradeLog) :
    .upgradeScheduled payload ∈ r.1 ↔
      ∃ plan, block.plan = .ok plan ∧ plan.shouldExecute block.height = false ∧
        payload = plan.log ∧ n.remembered ≠ some payload := by
  rw [← mem_scheduled, h.scheduled_eq, Option.mem_toList, emission_eq_some_iff]

/-- A failed read announces nothing and changes nothing. -/
theorem BlockBegins.of_storage (h : BlockBegins k url preBlock block n r n') {message : String}
    (hplan : block.plan = .error (.storage message)) : scheduled r.1 = [] ∧ n' = n := by
  constructor
  · rw [h.scheduled_eq]
    simp [emission, hplan]
  · rw [← h.after_eq]
    simp [UpgradeNotifier.maybeLogNewPlan, hplan]

end Blocks

/-! ## Runs of blocks -/

section Runs

variable {α : Type}

/-- The blocks of a process, with their alerts. -/
abbrev UpgradeCall (α : Type) := Call UpgradeBlock (List Alert × α) UpgradeNotifier

/-- The last payload that was announced. -/
def lastEmitted (calls : List (UpgradeCall α)) : Option UpgradeLog :=
  (calls.flatMap fun c => scheduled c.result.1).getLast?

/-- The blocks since the latest one that observed no plan, or since the start. -/
def sinceNoPlan (calls : List (UpgradeCall α)) : List (UpgradeCall α) :=
  calls.rtakeWhile fun c => !c.op.observesNoPlan

theorem lastEmitted_append (calls calls' : List (UpgradeCall α)) :
    lastEmitted (calls ++ calls') = (lastEmitted calls').or (lastEmitted calls) := by
  simp [lastEmitted, List.getLast?_append]

theorem lastEmitted_singleton (c : UpgradeCall α) :
    lastEmitted [c] = (scheduled c.result.1).getLast? := by
  simp [lastEmitted]

/-- An announcement since the latest block without a plan is the last one of all. -/
theorem lastEmitted_of_sinceNoPlan {calls : List (UpgradeCall α)} {payload : UpgradeLog}
    (h : lastEmitted (sinceNoPlan calls) = some payload) : lastEmitted calls = some payload := by
  have hsplit := lastEmitted_append (calls.rdropWhile fun c => !c.op.observesNoPlan)
    (sinceNoPlan calls)
  rw [sinceNoPlan, List.rdropWhile_append_rtakeWhile, ← sinceNoPlan, h] at hsplit
  exact hsplit

theorem sinceNoPlan_append (calls : List (UpgradeCall α)) {calls' : List (UpgradeCall α)}
    (h : ∀ c ∈ calls', c.op.observesNoPlan = false) :
    sinceNoPlan (calls ++ calls') = sinceNoPlan calls ++ calls' := by
  induction calls' using List.reverseRecOn with
  | nil => simp
  | append_singleton calls' c ih =>
    rw [← List.append_assoc, sinceNoPlan, List.rtakeWhile_concat_pos, ← sinceNoPlan, ih,
      List.append_assoc]
    · exact fun d hd => h d (List.mem_append_left _ hd)
    · simp [h c (by simp)]

/-- When only one payload is announced, and it is, it is the last one. -/
theorem lastEmitted_eq_of_forall {calls : List (UpgradeCall α)} {payload : UpgradeLog}
    (hsome : ∃ c ∈ calls, payload ∈ scheduled c.result.1)
    (hall : ∀ c ∈ calls, ∀ p ∈ scheduled c.result.1, p = payload) :
    lastEmitted calls = some payload := by
  cases hlast : lastEmitted calls with
  | none =>
    obtain ⟨c, hc, hp⟩ := hsome
    have hnil := List.flatMap_eq_nil_iff.mp (List.getLast?_eq_none_iff.mp hlast) c hc
    exact absurd hp (by simp [hnil])
  | some p =>
    obtain ⟨c, hc, hp⟩ := List.mem_flatMap.mp (List.mem_of_getLast? hlast)
    rw [hall c hc p hp]

variable {k : UpgradeKeeper} {url : String} {preBlock : UpgradeBlock → α}
  {calls : List (UpgradeCall α)} {n : UpgradeNotifier}

/-- **The memory of a run.** The notifier remembers the last announcement since the latest
block without a plan. -/
theorem remembered_eq_lastEmitted
    (h : Run (BlockBegins k url preBlock) newUpgradeNotifier calls n) :
    n.remembered = lastEmitted (sinceNoPlan calls) := by
  refine h.history (I := fun cs s => s.remembered = lastEmitted (sinceNoPlan cs)) rfl ?_
  intro cs c hstep hcs
  rw [hstep.remembered_eq]
  cases hno : c.op.observesNoPlan with
  | true =>
    rw [if_pos rfl, sinceNoPlan, List.rtakeWhile_concat_neg _ _ _ (by simp [hno])]
    rfl
  | false =>
    rw [if_neg Bool.false_ne_true, sinceNoPlan_append cs (by simp [hno]), lastEmitted_append,
      lastEmitted_singleton, hstep.scheduled_eq, ← hcs]
    cases emission c.before.remembered c.op <;> rfl

/-- At a block with a pending plan, that plan is announced or was announced last. -/
theorem lastEmitted_of_pending
    (h : Run (BlockBegins k url preBlock) newUpgradeNotifier calls n) {c : UpgradeCall α}
    (hbefore : c.before = n) (hstep : BlockBegins k url preBlock c.op c.before c.result c.after)
    {plan : Plan} (hplan : c.op.plan = .ok plan)
    (hdue : plan.shouldExecute c.op.height = false) :
    lastEmitted (calls ++ [c]) = some plan.log := by
  rw [lastEmitted_append, lastEmitted_singleton, hstep.scheduled_eq, hbefore]
  by_cases hlast : n.remembered = some plan.log
  · have hcalls := lastEmitted_of_sinceNoPlan ((remembered_eq_lastEmitted h).symm.trans hlast)
    simp [emission, hplan, hdue, hlast, hcalls]
  · simp [emission, hplan, hdue, hlast]

/-- **Equal announcements are separated.** Between two of them there is a block without a plan
or an announcement of something else. -/
theorem announcements_separated
    (h : Run (BlockBegins k url preBlock) newUpgradeNotifier calls n)
    {before mid after : List (UpgradeCall α)} {c c' : UpgradeCall α} {payload : UpgradeLog}
    (hcalls : calls = before ++ c :: (mid ++ c' :: after))
    (hc : .upgradeScheduled payload ∈ c.result.1)
    (hc' : .upgradeScheduled payload ∈ c'.result.1) :
    ∃ d ∈ mid, d.op.observesNoPlan ∨
      ∃ other, other ≠ payload ∧ .upgradeScheduled other ∈ d.result.1 := by
  obtain ⟨-, hstep⟩ := h.split hcalls
  have hcalls' : calls = (before ++ c :: mid) ++ c' :: after := by simp [hcalls]
  obtain ⟨hrun, hstep'⟩ := h.split hcalls'
  obtain ⟨plan, hplan, -, rfl, -⟩ := (hstep.mem_iff payload).mp hc
  obtain ⟨-, -, -, -, hlast⟩ := (hstep'.mem_iff plan.log).mp hc'
  -- otherwise the notifier would still remember the payload at the second block
  by_contra hnone
  push Not at hnone
  have hcno : c.op.observesNoPlan = false := by simp [UpgradeBlock.observesNoPlan, hplan]
  have hnoplan : ∀ d ∈ c :: mid, d.op.observesNoPlan = false := by
    rintro d (_ | ⟨_, hd⟩)
    · exact hcno
    · simpa using (hnone d hd).1
  refine hlast ?_
  rw [remembered_eq_lastEmitted hrun, sinceNoPlan_append before hnoplan, lastEmitted_append,
    lastEmitted_eq_of_forall ⟨c, List.mem_cons_self, mem_scheduled.mpr hc⟩]
  · rfl
  rintro d (_ | ⟨_, hd⟩) p hp
  · obtain ⟨plan', hplan', -, rfl, -⟩ := (hstep.mem_iff p).mp (mem_scheduled.mp hp)
    rw [Except.ok.inj (hplan.symm.trans hplan')]
  · by_contra hne
    exact (hnone d hd).2 p hne (mem_scheduled.mp hp)

/-- **Upgrade alerts over whole runs.** At every block of a process, `upgrade_scheduled` is
emitted, once, exactly when the block observes a plan that is not due and that was not the last
one announced since the latest block without a plan. So the last announcement is the pending
plan, equal announcements are separated, a failed read neither announces nor resets, and no
block emits both alerts. -/
theorem run_upgrade_alerts
    (h : Run (BlockBegins k url preBlock) newUpgradeNotifier calls n)
    {before after : List (UpgradeCall α)} {c : UpgradeCall α}
    (hcalls : calls = before ++ c :: after) :
    (∀ payload, .upgradeScheduled payload ∈ c.result.1 ↔
      ∃ plan, c.op.plan = .ok plan ∧ plan.shouldExecute c.op.height = false ∧
        payload = plan.log ∧ lastEmitted (sinceNoPlan before) ≠ some payload) ∧
    (scheduled c.result.1).length ≤ 1 ∧
    (∀ plan, c.op.plan = .ok plan → plan.shouldExecute c.op.height = false →
      lastEmitted (before ++ [c]) = some plan.log) ∧
    (∀ mid c' rest payload, after = mid ++ c' :: rest →
      .upgradeScheduled payload ∈ c.result.1 → .upgradeScheduled payload ∈ c'.result.1 →
        ∃ d ∈ mid, d.op.observesNoPlan ∨
          ∃ other, other ≠ payload ∧ .upgradeScheduled other ∈ d.result.1) ∧
    (∀ message, c.op.plan = .error (.storage message) →
      scheduled c.result.1 = [] ∧ c.after = c.before) ∧
    ∀ payload payload', .upgradeScheduled payload ∈ c.result.1 →
      .haltTriggered payload' ∉ c.result.1 := by
  obtain ⟨hrun, hstep⟩ := h.split hcalls
  refine ⟨?_, ?_, ?_, ?_, ?_, ?_⟩
  · intro payload
    rw [hstep.mem_iff, remembered_eq_lastEmitted hrun]
  · rw [hstep.scheduled_eq]
    exact Option.length_toList_le
  · intro plan hplan hdue
    exact lastEmitted_of_pending hrun rfl hstep hplan hdue
  · rintro mid c' rest payload rfl hc hc'
    exact announcements_separated h hcalls hc hc'
  · intro message hplan
    exact hstep.of_storage hplan
  · intro payload payload' hup hhalt
    obtain ⟨plan, hplan, hdue, -, -⟩ := (hstep.mem_iff payload).mp hup
    obtain ⟨plan', hplan', hdue'⟩ := hstep.due_of_halt hhalt
    obtain rfl := Except.ok.inj (hplan.symm.trans hplan')
    exact absurd hdue' (by simp [hdue])

end Runs

def samplePlan : Plan := ⟨"v2-mainnet", 12345678, "release notes"⟩

/-- A plan is stored, cancelled and stored again. -/
def rescheduledBlocks : List (UpgradeCall Unit) :=
  [⟨⟨10, "2026-01-15T12:00:00Z", .ok samplePlan⟩, ([.upgradeScheduled samplePlan.log], ()),
      newUpgradeNotifier, ⟨true, "v2-mainnet", 12345678, "release notes"⟩⟩,
    ⟨⟨11, "2026-01-15T12:00:01Z", .error .noUpgradePlanFound⟩, ([], ()),
      ⟨true, "v2-mainnet", 12345678, "release notes"⟩, newUpgradeNotifier⟩,
    ⟨⟨12, "2026-01-15T12:00:02Z", .ok samplePlan⟩, ([.upgradeScheduled samplePlan.log], ()),
      newUpgradeNotifier, ⟨true, "v2-mainnet", 12345678, "release notes"⟩⟩]

theorem rescheduledBlocks_run :
    Run (BlockBegins ⟨fun _ => false, fun _ => false⟩ "" fun _ => ()) newUpgradeNotifier
      rescheduledBlocks ⟨true, "v2-mainnet", 12345678, "release notes"⟩ :=
  .snoc (.snoc (.snoc .nil rfl) rfl) rfl

theorem run_upgrade_alerts_rescheduled :
    ∃ d ∈ (rescheduledBlocks.drop 1).take 1, d.op.observesNoPlan ∨
      ∃ other, other ≠ samplePlan.log ∧ .upgradeScheduled other ∈ d.result.1 := by
  obtain ⟨-, -, -, hseparated, -, -⟩ :=
    run_upgrade_alerts rescheduledBlocks_run (List.nil_append _).symm
  exact hseparated _ _ [] samplePlan.log rfl List.mem_cons_self List.mem_cons_self

end NexusNode
