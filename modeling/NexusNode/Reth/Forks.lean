import Mathlib.Logic.Function.Basic
import NexusNode.Evm.Config

/-!
# The fork schedule of the execution client

The execution client takes the times of Prague and Osaka from its own configuration file and puts
them over the schedule of its genesis. The rule for these times is written apart from the one of
the consensus client, and it looks at the file alone. So there are schedules that one of the two
clients accepts and the other refuses, and files with one of the two times that break the order of
the merged schedule.

## Main definitions

* `ForkTimings`, `ForkTimings.validate`: the times of the file and their rule
* `NexusConfig.parseNexusConfig`, `NexusConfig.applyForks`: reading the file and applying it
* `ChainSpecs`: the chain specifications of the execution client and their builder
* `ForksOrdered`: Prague not after Osaka, where both have a time

## Main results

* `validate_agree_iff`: when the two clients agree on a schedule
* `applyForks_fork`: the conditions of a schedule with the file applied
* `applyForks_ordered_iff`: when the file keeps the order
-/

namespace NexusNode

/-! ## The times of the configuration file -/

/-- `ForkTimings` -/
structure ForkTimings where
  pragueTime : Option UInt64
  osakaTime : Option UInt64
  deriving DecidableEq

inductive ForksError where
  | osakaNotAfterPrague (osaka prague : UInt64)
  | openFile (path msg : String)
  | parseYaml (path msg : String)
  deriving DecidableEq

def ForksError.text : ForksError → String
  | .osakaNotAfterPrague osaka prague =>
    s!"osaka_time ({osaka}) must be greater than prague_time ({prague}) when both are set"
  | .openFile path msg => "Opening config file '" ++ path ++ "': " ++ msg
  | .parseYaml path msg => "Parsing YAML config file '" ++ path ++ "': " ++ msg

/-- `ForkTimings::validate` -/
def ForkTimings.validate (t : ForkTimings) : Except ForksError Unit :=
  match t.pragueTime, t.osakaTime with
  | some prague, some osaka =>
    -- one second for both forks is refused
    if osaka ≤ prague then .error (.osakaNotAfterPrague osaka prague) else .ok ()
  -- one time alone is not compared with anything
  | _, _ => .ok ()

structure NexusConfig where
  forkTimings : ForkTimings
  deriving DecidableEq

/-- `NexusConfig::parse_nexus_config`, over the file system and the YAML decoder. -/
def NexusConfig.parseNexusConfig {File : Type} (openFile : String → Except String File)
    (fromReader : File → Except String NexusConfig) (path : String) :
    Except ForksError NexusConfig :=
  match openFile path with
  | .error e => .error (.openFile path e)
  | .ok file =>
    match fromReader file with
    | .error e => .error (.parseYaml path e)
    | .ok config =>
      match config.forkTimings.validate with
      | .error e => .error e
      | .ok () => .ok config

theorem ForkTimings.validate_eq_ok_iff (t : ForkTimings) :
    t.validate = .ok () ↔
      ∀ prague osaka, t.pragueTime = some prague → t.osakaTime = some osaka → prague < osaka := by
  obtain ⟨prague, osaka⟩ := t
  unfold ForkTimings.validate
  cases prague with
  | none => simp
  | some p =>
    cases osaka with
    | none => simp
    | some o => simp

/-- The rule of the consensus client without Amsterdam. -/
theorem ChainSpec.validate_eq_ok_iff (prague osaka : Option UInt64) :
    (⟨prague, osaka, none⟩ : ChainSpec).validate = .ok () ↔
      ∀ o, osaka = some o → ∃ p, prague = some p ∧ p ≤ o := by
  cases osaka with
  | none => simp [ChainSpec.validate, ChainSpec.checkFork, bind, Except.bind]
  | some o =>
    cases prague with
    | none => simp [ChainSpec.validate, ChainSpec.checkFork, bind, Except.bind]
    | some p =>
      by_cases hlt : o < p
      · simp [ChainSpec.validate, ChainSpec.checkFork, bind, Except.bind, hlt,
          UInt64.not_le.mpr hlt]
      · simp [ChainSpec.validate, ChainSpec.checkFork, bind, Except.bind, hlt,
          UInt64.not_lt.mp hlt]

/-- **The two rules.** The consensus client and the execution client agree on the times of Prague
and Osaka exactly when Osaka has none, or Prague has one that is not that of Osaka. -/
theorem validate_agree_iff (prague osaka : Option UInt64) :
    ((⟨prague, osaka, none⟩ : ChainSpec).validate = .ok () ↔
        (⟨prague, osaka⟩ : ForkTimings).validate = .ok ()) ↔
      osaka = none ∨ ∃ p, prague = some p ∧ osaka ≠ some p := by
  rw [ChainSpec.validate_eq_ok_iff, ForkTimings.validate_eq_ok_iff]
  cases osaka with
  | none => simp
  | some o =>
    cases prague with
    | none => simp
    | some p =>
      have hlt : p < o ↔ p ≤ o ∧ o ≠ p := by
        rw [UInt64.lt_iff_le_and_ne, ne_comm]
      have htotal : p ≤ o ∨ ¬ o = p := by
        by_cases heq : o = p
        · exact .inl (heq ▸ UInt64.le_refl o)
        · exact .inr heq
      simpa [hlt] using htotal

/-- Both forks at one second: the consensus client accepts it, the execution client does not.
Osaka alone: the other way around. -/
theorem validate_disagree :
    ((⟨some 1767225600, some 1767225600, none⟩ : ChainSpec).validate = .ok () ∧
      (⟨some 1767225600, some 1767225600⟩ : ForkTimings).validate =
        .error (.osakaNotAfterPrague 1767225600 1767225600)) ∧
    (⟨none, some 1767225600, none⟩ : ChainSpec).validate = .error .osakaWithoutPrague ∧
      (⟨none, some 1767225600⟩ : ForkTimings).validate = .ok () := by
  decide

/-! ## Chain specifications -/

inductive Hardfork where
  | prague
  | osaka
  | other (name : String)
  deriving DecidableEq

/-- `ForkCondition` -/
inductive ForkCondition where
  | block (number : UInt64)
  | ttd (activationBlockNumber : UInt64) (forkBlock : Option UInt64) (totalDifficulty : ℕ)
  | timestamp (time : UInt64)
  | never
  deriving DecidableEq

/-- The chain specifications of the execution client and their builder. Taking a fork out and
putting it in again replaces its condition and leaves the others alone. -/
structure ChainSpecs (Spec Builder : Type) where
  /-- `hardforks.fork` -/
  fork : Spec → Hardfork → ForkCondition
  /-- `ChainSpecBuilder::from` -/
  toBuilder : Spec → Builder
  withoutFork : Builder → Hardfork → Builder
  withFork : Builder → Hardfork → ForkCondition → Builder
  build : Builder → Spec
  fork_build_toBuilder : ∀ spec, fork (build (toBuilder spec)) = fork spec
  fork_build_replace : ∀ builder hardfork condition,
    fork (build (withFork (withoutFork builder hardfork) hardfork condition)) =
      Function.update (fork (build builder)) hardfork condition

section Apply

variable {Spec Builder : Type} (specs : ChainSpecs Spec Builder)

/-- One step of `apply_forks`: a fork with a time of its own is replaced. -/
def overrideFork (hardfork : Hardfork) (time : Option UInt64) (builder : Builder) : Builder :=
  match time with
  | some t => specs.withFork (specs.withoutFork builder hardfork) hardfork (.timestamp t)
  | none => builder

/-- `NexusConfig::apply_forks` -/
def NexusConfig.applyForks (config : NexusConfig) (chainSpec : Spec) : Except ForksError Spec :=
  match config.forkTimings.validate with
  | .error e => .error e
  | .ok () =>
    let builder := specs.toBuilder chainSpec
    let builder := overrideFork specs .prague config.forkTimings.pragueTime builder
    let builder := overrideFork specs .osaka config.forkTimings.osakaTime builder
    .ok (specs.build builder)

/-- Prague is not after Osaka, where both have a time. -/
def ForksOrdered (fork : Hardfork → ForkCondition) : Prop :=
  ∀ prague osaka, fork .prague = .timestamp prague → fork .osaka = .timestamp osaka →
    prague ≤ osaka

/-- The condition of a fork with the time of the file over it. -/
def merged (time : Option UInt64) (base : ForkCondition) : ForkCondition :=
  match time with
  | some t => .timestamp t
  | none => base

theorem fork_overrideFork (hardfork : Hardfork) (time : Option UInt64) (builder : Builder) :
    specs.fork (specs.build (overrideFork specs hardfork time builder)) =
      Function.update (specs.fork (specs.build builder)) hardfork
        (merged time (specs.fork (specs.build builder) hardfork)) := by
  cases time with
  | none => exact (Function.update_eq_self _ _).symm
  | some t => exact specs.fork_build_replace builder hardfork (.timestamp t)

variable {specs} {config : NexusConfig} {chainSpec result : Spec}

/-- **The schedule with the file applied**: the times of the file over the conditions of the
genesis, and all other forks as they were. -/
theorem applyForks_fork (h : config.applyForks specs chainSpec = .ok result) :
    config.forkTimings.validate = .ok () ∧
    specs.fork result .prague =
      merged config.forkTimings.pragueTime (specs.fork chainSpec .prague) ∧
    specs.fork result .osaka =
      merged config.forkTimings.osakaTime (specs.fork chainSpec .osaka) ∧
    ∀ name, specs.fork result (.other name) = specs.fork chainSpec (.other name) := by
  unfold NexusConfig.applyForks at h
  cases hvalid : config.forkTimings.validate with
  | error e =>
    rw [hvalid] at h
    cases h
  | ok u =>
    rw [hvalid] at h
    obtain rfl := Except.ok.inj h
    refine ⟨rfl, ?_, ?_, fun name => ?_⟩
    · simp [fork_overrideFork, specs.fork_build_toBuilder]
    · simp [fork_overrideFork, specs.fork_build_toBuilder]
    · simp [fork_overrideFork, specs.fork_build_toBuilder]

/-- A file that was read can be applied. -/
theorem applyForks_of_parsed {File : Type} {openFile : String → Except String File}
    {fromReader : File → Except String NexusConfig} {path : String}
    (h : NexusConfig.parseNexusConfig openFile fromReader path = .ok config)
    (chainSpec : Spec) : ∃ result, config.applyForks specs chainSpec = .ok result := by
  unfold NexusConfig.parseNexusConfig at h
  cases hopen : openFile path with
  | error e => simp [hopen] at h
  | ok file =>
    cases hread : fromReader file with
    | error e => simp [hopen, hread] at h
    | ok parsed =>
      simp only [hopen, hread] at h
      cases hvalid : parsed.forkTimings.validate with
      | error e => simp [hvalid] at h
      | ok u =>
        rw [hvalid] at h
        obtain rfl := Except.ok.inj h
        exact ⟨_, by rw [NexusConfig.applyForks, hvalid]⟩

/-- **The order of the merged schedule.** Over a schedule in order, a file that is applied keeps
the order exactly when the one time it gives, if it gives one, is on the right side of the other
fork of the genesis: the file's own rule only compares two times of the file. -/
theorem applyForks_ordered_iff (hbase : ForksOrdered (specs.fork chainSpec))
    (h : config.applyForks specs chainSpec = .ok result) :
    ForksOrdered (specs.fork result) ↔
      (∀ prague osaka, config.forkTimings = ⟨some prague, none⟩ →
        specs.fork chainSpec .osaka = .timestamp osaka → prague ≤ osaka) ∧
      ∀ prague osaka, config.forkTimings = ⟨none, some osaka⟩ →
        specs.fork chainSpec .prague = .timestamp prague → prague ≤ osaka := by
  obtain ⟨hvalid, hprague, hosaka, -⟩ := applyForks_fork h
  rw [ForkTimings.validate_eq_ok_iff] at hvalid
  unfold ForksOrdered at hbase ⊢
  rw [hprague, hosaka]
  obtain ⟨⟨prague, osaka⟩⟩ := config
  -- the four kinds of files; only those with one time meet the conditions of the genesis
  cases prague with
  | none =>
    cases osaka with
    | none => simpa [merged] using hbase
    | some o => simp [merged]
  | some p =>
    cases osaka with
    | none => simp [merged]
    | some o =>
      have hlt : p < o := hvalid p o rfl rfl
      simpa [merged] using UInt64.le_of_lt hlt

end Apply

/-! ## Schedules as tables -/

/-- A specification as the table of its conditions. -/
def tableSpecs : ChainSpecs (Hardfork → ForkCondition) (Hardfork → ForkCondition) where
  fork spec := spec
  toBuilder spec := spec
  withoutFork builder hardfork := Function.update builder hardfork .never
  withFork builder hardfork condition := Function.update builder hardfork condition
  build builder := builder
  fork_build_toBuilder _ := rfl
  fork_build_replace _ _ _ := Function.update_idem _ _ _

/-- A genesis with Prague and Osaka at the given times. -/
def genesisForks (prague osaka : UInt64) : Hardfork → ForkCondition
  | .prague => .timestamp prague
  | .osaka => .timestamp osaka
  | .other _ => .block 0

theorem genesisForks_ordered : ForksOrdered (genesisForks 1746612311 1764798551) := by
  intro prague osaka hprague hosaka
  cases hprague
  cases hosaka
  decide

/-- A file that moves Prague up to Osaka keeps the order. -/
theorem applyForks_ordered_up_to :
    ∃ result, NexusConfig.applyForks tableSpecs ⟨⟨some 1764798551, none⟩⟩
        (genesisForks 1746612311 1764798551) = .ok result ∧
      ForksOrdered (tableSpecs.fork result) := by
  have hbase : ForksOrdered (tableSpecs.fork (genesisForks 1746612311 1764798551)) :=
    genesisForks_ordered
  have happly : NexusConfig.applyForks tableSpecs ⟨⟨some 1764798551, none⟩⟩
      (genesisForks 1746612311 1764798551) = .ok _ := rfl
  refine ⟨_, happly, (applyForks_ordered_iff hbase happly).mpr ⟨?_, ?_⟩⟩
  · intro prague osaka hfile hosaka
    cases hfile
    cases hosaka
    decide
  · intro prague osaka hfile
    cases hfile

/-- A file that moves Prague past the Osaka of the genesis is applied and breaks the order. -/
theorem applyForks_prague_past_osaka :
    ForksOrdered (tableSpecs.fork (genesisForks 1746612311 1764798551)) ∧
    ∃ result, NexusConfig.applyForks tableSpecs ⟨⟨some 1800000000, none⟩⟩
        (genesisForks 1746612311 1764798551) = .ok result ∧
      ¬ ForksOrdered (tableSpecs.fork result) := by
  refine ⟨genesisForks_ordered, _, rfl, fun hordered => ?_⟩
  exact absurd (hordered 1800000000 1764798551 rfl rfl) (by decide)

end NexusNode
