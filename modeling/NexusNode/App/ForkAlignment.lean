import NexusNode.App.Versions
import NexusNode.Reth.Forks

/-!
# The fork schedules of the two clients

The consensus client chooses the versions of `getPayload` and `newPayload` from its own fork times,
by a matrix that its documentation gives. The execution client has a schedule of its own, from a
configuration file that lies over the conditions of its genesis. What its Engine API serves is
assumed to be that matrix, for its own schedule. Then the two fit at every timestamp exactly when
Prague and Osaka have the same times on both sides and the consensus client has no Amsterdam, and
no `getPayload` or `newPayload` of any run is refused for its version.

## Main definitions

* `scheduleOf`: the schedule of the execution client as one of the consensus client
* `EngineApi`, `EngineApi.FollowsMatrix`: the versions that are served, and what is assumed of them
* `loadChainSpec`: the schedule of the consensus client
* `Served`: a call of the engine has a version that is served at a timestamp

## Main results

* `versions_served_iff`: when the versions fit at every timestamp
* `servable_iff`: which schedules of the consensus client the execution client can be given
* `run_versions_served`: along every run, with the file of the execution client applied
-/

namespace NexusNode

open Program Proc

/-! ## What the execution client serves -/

/-- The time of a fork that is activated by a timestamp. -/
def ForkCondition.time : ForkCondition → Option UInt64
  | .timestamp time => some time
  | _ => none

/-- A schedule of the execution client without Amsterdam, as the consensus client would have it. -/
def scheduleOf (fork : Hardfork → ForkCondition) : ChainSpec :=
  ⟨(fork .prague).time, (fork .osaka).time, none⟩

/-- The Engine API of an execution client: the versions of two methods that it serves at a
timestamp, under its schedule. -/
structure EngineApi where
  servesGetPayload : (Hardfork → ForkCondition) → UInt64 → ℕ → Prop
  servesNewPayload : (Hardfork → ForkCondition) → UInt64 → ℕ → Prop

/-- **What is assumed of the execution client.** At a timestamp it serves the versions that the
version matrix of the consensus client has there for the schedule of the execution client, and no
others. -/
structure EngineApi.FollowsMatrix (api : EngineApi) : Prop where
  getPayload : ∀ fork t v, api.servesGetPayload fork t v ↔
    v = (scheduleOf fork).getPayloadEngineRPCVersion t
  newPayload : ∀ fork t v, api.servesNewPayload fork t v ↔
    v = (scheduleOf fork).newPayloadEngineRPCVersion t

/-- The versions that a schedule of the consensus client gives are served at every timestamp. -/
def EngineApi.Serves (api : EngineApi) (fork : Hardfork → ForkCondition) (c : ChainSpec) : Prop :=
  ∀ t, api.servesGetPayload fork t (c.getPayloadEngineRPCVersion t) ∧
    api.servesNewPayload fork t (c.newPayloadEngineRPCVersion t)

/-! ## The schedule of the consensus client -/

/-- The configuration file as the node finds it. -/
inductive ForksFile where
  /-- no path is given -/
  | unset
  | missing (path : String)
  | unreadable (err : String)
  /-- a file that does not decode -/
  | malformed (err : String)
  | decoded (forks : ChainSpec)

/-- `LoadChainSpec`; the error is that of the panic. -/
def loadChainSpec : ForksFile → Except String ChainSpec
  | .unset => .ok ⟨none, none, none⟩
  | .missing path => .error ("could not find file at path " ++ path)
  | .unreadable err => .error ("failed to read config " ++ err)
  | .malformed err => .error ("failed to decode config " ++ err)
  | .decoded spec =>
    match spec.validate with
    | .error e => .error e.text
    | .ok () => .ok spec

theorem validate_of_loadChainSpec {file : ForksFile} {c : ChainSpec}
    (h : loadChainSpec file = .ok c) : c.validate = .ok () := by
  unfold loadChainSpec at h
  split at h
  next => obtain rfl := Except.ok.inj h; rfl
  next => cases h
  next => cases h
  next => cases h
  next spec =>
    split at h
    next => cases h
    next hvalid => obtain rfl := Except.ok.inj h; exact hvalid

/-! ## Schedules that fit -/

/-- Forks that are active at the same timestamps have the same time. -/
theorem isActive_eq_iff {fork fork' : Option UInt64} :
    (∀ t, ChainSpec.isActive fork t = ChainSpec.isActive fork' t) ↔ fork = fork' := by
  constructor
  · intro h
    have hle : ∀ {f g : Option UInt64}, (∀ t, ChainSpec.isActive f t = ChainSpec.isActive g t) →
        ∀ {x}, f = some x → ∃ y, g = some y ∧ y ≤ x := by
      intro f g hfg x hx
      have hactive : ChainSpec.isActive g x = true := by
        rw [← hfg x]
        exact ChainSpec.isActive_eq_true_iff.mpr ⟨x, hx, UInt64.le_refl x⟩
      exact ChainSpec.isActive_eq_true_iff.mp hactive
    cases hf : fork with
    | none =>
      cases hg : fork' with
      | none => rfl
      | some y =>
        obtain ⟨x, hx, -⟩ := hle (fun t => (h t).symm) hg
        exact nomatch hf.symm.trans hx
    | some x =>
      obtain ⟨y, hy, hyx⟩ := hle h hf
      obtain ⟨z, hz, hzy⟩ := hle (fun t => (h t).symm) hy
      obtain rfl := Option.some.inj (hf.symm.trans hz)
      rw [hy, UInt64.le_antisymm hyx hzy]
  · rintro rfl t
    rfl

/-- Versions tell schedules apart, if one of them has no Amsterdam. -/
theorem eq_of_versions {c d : ChainSpec} (hd : d.amsterdamTimestamp = none)
    (h : ∀ t, c.getPayloadEngineRPCVersion t = d.getPayloadEngineRPCVersion t ∧
      c.newPayloadEngineRPCVersion t = d.newPayloadEngineRPCVersion t) : c = d := by
  obtain ⟨prague, osaka, amsterdam⟩ := c
  obtain ⟨prague', osaka', amsterdam'⟩ := d
  obtain rfl : amsterdam' = none := hd
  have hnone : ∀ t, ChainSpec.isActive none t = false := fun _ => rfl
  simp only [ChainSpec.getPayloadEngineRPCVersion, ChainSpec.newPayloadEngineRPCVersion,
    ChainSpec.isPragueActive, ChainSpec.isOsakaActive, ChainSpec.isAmsterdamActive, hnone] at h
  have hamsterdam : ∀ t, ChainSpec.isActive amsterdam t = false := by
    intro t
    have hnew := (h t).2
    grind
  have hprague : prague = prague' := isActive_eq_iff.mp fun t => by
    have hnew := (h t).2
    have hnot := hamsterdam t
    grind
  have hosaka : osaka = osaka' := isActive_eq_iff.mp fun t => by
    have hget := (h t).1
    grind
  rw [hprague, hosaka, (isActive_eq_iff.mp fun t => hamsterdam t : amsterdam = none)]

theorem scheduleOf_eq_iff {fork : Hardfork → ForkCondition} {c : ChainSpec} :
    c = scheduleOf fork ↔ c.pragueTimestamp = (fork .prague).time ∧
      c.osakaTimestamp = (fork .osaka).time ∧ c.amsterdamTimestamp = none := by
  obtain ⟨prague, osaka, amsterdam⟩ := c
  simp [scheduleOf]

section Api

variable {api : EngineApi} (hapi : api.FollowsMatrix)

include hapi

theorem serves_iff {c : ChainSpec} {fork : Hardfork → ForkCondition} :
    api.Serves fork c ↔ c = scheduleOf fork := by
  unfold EngineApi.Serves
  simp only [hapi.getPayload, hapi.newPayload]
  constructor
  · exact eq_of_versions rfl
  · rintro rfl t
    exact ⟨rfl, rfl⟩

/-- **The two schedules.** The versions that the consensus client chooses are served at every
timestamp exactly when Prague and Osaka have the times that the execution client has for them, and
Amsterdam has none. -/
theorem versions_served_iff (c : ChainSpec) (fork : Hardfork → ForkCondition) :
    api.Serves fork c ↔ c.pragueTimestamp = (fork .prague).time ∧
      c.osakaTimestamp = (fork .osaka).time ∧ c.amsterdamTimestamp = none := by
  rw [serves_iff hapi, scheduleOf_eq_iff]

end Api

section Sample

/-- An execution client that serves the matrix. -/
def matrixApi : EngineApi where
  servesGetPayload fork t v := v = (scheduleOf fork).getPayloadEngineRPCVersion t
  servesNewPayload fork t v := v = (scheduleOf fork).newPayloadEngineRPCVersion t

theorem matrixApi_followsMatrix : matrixApi.FollowsMatrix :=
  ⟨fun _ _ _ => Iff.rfl, fun _ _ _ => Iff.rfl⟩

/-- The times of the genesis fit, and Osaka one second later does not. -/
theorem versions_served_late :
    matrixApi.Serves (genesisForks 1746612311 1764798551)
      ⟨some 1746612311, some 1764798551, none⟩ ∧
    ¬ matrixApi.Serves (genesisForks 1746612311 1764798551)
      ⟨some 1746612311, some 1764798552, none⟩ := by
  rw [versions_served_iff matrixApi_followsMatrix, versions_served_iff matrixApi_followsMatrix]
  decide

end Sample

/-! ## Schedules that can be given to the execution client -/

section Servable

variable {Spec Builder : Type} {specs : ChainSpecs Spec Builder} {genesis : Spec} {c : ChainSpec}

theorem ForkCondition.time_merged (time : Option UInt64) (base : ForkCondition) :
    (merged time base).time = time.or base.time := by
  cases time <;> rfl

/-- The time to put into the file: none if the genesis has it. -/
def timeOver (time base : Option UInt64) : Option UInt64 := if base = time then none else time

theorem timeOver_or {time base : Option UInt64} (h : time = none → base = none) :
    (timeOver time base).or base = time := by
  unfold timeOver
  split_ifs with heq
  · exact heq
  · cases time with
    | none => exact absurd (h rfl) heq
    | some t => rfl

theorem timeOver_eq_some_iff {time base : Option UInt64} {t : UInt64} :
    timeOver time base = some t ↔ time = some t ∧ base ≠ some t := by
  unfold timeOver
  split_ifs with heq
  · rw [heq]
    simp
  · constructor
    · rintro rfl
      exact ⟨rfl, heq⟩
    · exact And.left

/-- A schedule that the rule of the consensus client accepts can be written into a file, over a
genesis that has no time it lacks, unless both forks are at one time and the genesis has neither. -/
theorem exists_aligned (hvalid : c.validate = .ok ()) (hamsterdam : c.amsterdamTimestamp = none)
    (hprague : c.pragueTimestamp = none → (specs.fork genesis .prague).time = none)
    (hosaka : c.osakaTimestamp = none → (specs.fork genesis .osaka).time = none)
    (hboth : ∀ t, c.pragueTimestamp = some t → c.osakaTimestamp = some t →
      (specs.fork genesis .prague).time = some t ∨ (specs.fork genesis .osaka).time = some t) :
    ∃ config result, NexusConfig.applyForks specs config genesis = .ok result ∧
      c = scheduleOf (specs.fork result) := by
  obtain ⟨prague, osaka, amsterdam⟩ := c
  obtain rfl : amsterdam = none := hamsterdam
  rw [ChainSpec.validate_eq_ok_iff] at hvalid
  let config : NexusConfig := ⟨⟨timeOver prague (specs.fork genesis .prague).time,
    timeOver osaka (specs.fork genesis .osaka).time⟩⟩
  have hconfig : config.forkTimings.validate = .ok () := by
    rw [ForkTimings.validate_eq_ok_iff]
    intro p o hp ho
    obtain ⟨rfl, hnotPrague⟩ := timeOver_eq_some_iff.mp hp
    obtain ⟨rfl, hnotOsaka⟩ := timeOver_eq_some_iff.mp ho
    obtain ⟨p', hp', hle⟩ := hvalid o rfl
    obtain rfl := Option.some.inj hp'
    refine UInt64.lt_of_le_of_ne hle fun heq => ?_
    -- one time for both forks is in the genesis, and then not in the file
    subst heq
    exact (hboth p rfl rfl).elim hnotPrague hnotOsaka
  obtain ⟨result, happly⟩ : ∃ result, config.applyForks specs genesis = .ok result :=
    ⟨_, by rw [NexusConfig.applyForks, hconfig]⟩
  obtain ⟨-, hforkPrague, hforkOsaka, -⟩ := applyForks_fork happly
  refine ⟨config, result, happly, scheduleOf_eq_iff.mpr ⟨?_, ?_, rfl⟩⟩
  · rw [hforkPrague, ForkCondition.time_merged]
    exact (timeOver_or hprague).symm
  · rw [hforkOsaka, ForkCondition.time_merged]
    exact (timeOver_or hosaka).symm

/-- **Schedules for both clients.** Let the consensus client load its schedule. There is a file for
the execution client with which every version is served at every timestamp exactly when Amsterdam
has no time, the genesis of the execution client has no time for a fork that the schedule lacks,
and, if the schedule has one time for both forks, the genesis has that time for one of them: the
file cannot give it twice. -/
theorem servable_iff {api : EngineApi} (hapi : api.FollowsMatrix) {file : ForksFile}
    (hload : loadChainSpec file = .ok c) :
    (∃ config result, NexusConfig.applyForks specs config genesis = .ok result ∧
      api.Serves (specs.fork result) c) ↔
    c.amsterdamTimestamp = none ∧
      (c.pragueTimestamp = none → (specs.fork genesis .prague).time = none) ∧
      (c.osakaTimestamp = none → (specs.fork genesis .osaka).time = none) ∧
      ∀ t, c.pragueTimestamp = some t → c.osakaTimestamp = some t →
        (specs.fork genesis .prague).time = some t ∨
          (specs.fork genesis .osaka).time = some t := by
  constructor
  · rintro ⟨config, result, happly, hserved⟩
    obtain ⟨hprague, hosaka, hamsterdam⟩ := scheduleOf_eq_iff.mp ((serves_iff hapi).mp hserved)
    obtain ⟨hvalid, hforkPrague, hforkOsaka, -⟩ := applyForks_fork happly
    rw [hforkPrague, ForkCondition.time_merged, eq_comm] at hprague
    rw [hforkOsaka, ForkCondition.time_merged, eq_comm] at hosaka
    rw [ForkTimings.validate_eq_ok_iff] at hvalid
    refine ⟨hamsterdam, fun hnone => ?_, fun hnone => ?_, fun t hp ho => ?_⟩
    · exact (Option.or_eq_none_iff.mp (hprague.trans hnone)).2
    · exact (Option.or_eq_none_iff.mp (hosaka.trans hnone)).2
    · rcases Option.or_eq_some_iff.mp (hprague.trans hp) with hp | ⟨-, hp⟩
      · rcases Option.or_eq_some_iff.mp (hosaka.trans ho) with ho | ⟨-, ho⟩
        · exact absurd (hvalid t t hp ho) (UInt64.lt_irrefl t)
        · exact .inr ho
      · exact .inl hp
  · rintro ⟨hamsterdam, hprague, hosaka, hboth⟩
    obtain ⟨config, result, happly, haligned⟩ :=
      exists_aligned (validate_of_loadChainSpec hload) hamsterdam hprague hosaka hboth
    exact ⟨config, result, happly, (serves_iff hapi).mpr haligned⟩

/-- Both forks at one second: the consensus client loads it, and over a genesis with other times no
file gives it to the execution client. -/
theorem servable_one_time :
    loadChainSpec (.decoded ⟨some 1767225600, some 1767225600, none⟩) =
      .ok ⟨some 1767225600, some 1767225600, none⟩ ∧
    ¬ ∃ config result, NexusConfig.applyForks tableSpecs config
        (genesisForks 1746612311 1764798551) = .ok result ∧
      matrixApi.Serves (tableSpecs.fork result) ⟨some 1767225600, some 1767225600, none⟩ := by
  have hload : loadChainSpec (.decoded ⟨some 1767225600, some 1767225600, none⟩) =
      .ok ⟨some 1767225600, some 1767225600, none⟩ := rfl
  refine ⟨hload, fun h => ?_⟩
  obtain ⟨-, -, -, hboth⟩ := (servable_iff matrixApi_followsMatrix hload).mp h
  rcases hboth 1767225600 rfl rfl with hprague | hosaka
  · exact absurd hprague (by decide)
  · exact absurd hosaka (by decide)

end Servable

/-! ## Runs -/

/-- The call has a version that is served at the timestamp, and names no other timestamp. A
forkchoice update has no choice of versions. -/
def Served (api : EngineApi) (fork : Hardfork → ForkCondition) (ts : UInt64) : EngineEvent → Prop
  | .getPayload call _ => api.servesGetPayload fork ts call.version
  | .newPayload call _ => call.params.timestamp = ts ∧ api.servesNewPayload fork ts call.version
  | .forkchoiceUpdated call _ => ∀ attrs, call.attrs = some attrs → attrs.timestamp = ts

/-- The timestamp that header and stored block give a call of the node. -/
def callTimestamp (k : Keeper) (c : NodeCall) : Option UInt64 :=
  match c.op with
  | .prepareProposal _ _ ctx _ => c.before.store.blockState.map (headerTimestamp k ctx.header)
  | .executionPayload _ ctx _ => c.before.store.blockState.map (headerTimestamp k ctx.header)
  | _ => none

section Runs

variable {k : Keeper} {api : EngineApi} {fork : Hardfork → ForkCondition}

theorem ProposalVersion.served (h : api.Serves fork k.chainSpec) {ts : UInt64} {e : EngineEvent}
    (he : ProposalVersion k.chainSpec ts e) : Served api fork ts e := by
  cases e with
  | getPayload call reply =>
    have hversion : call.version = _ := he
    rw [Served, hversion]
    exact (h ts).1
  | newPayload call reply => exact he.elim
  | forkchoiceUpdated call reply =>
    obtain ⟨attrs, hattrs, hts⟩ := he
    intro attrs' hattrs'
    rwa [← Option.some.inj (hattrs.symm.trans hattrs')]

theorem FinalizeVersion.served (h : api.Serves fork k.chainSpec) {ts : UInt64} {e : EngineEvent}
    (he : FinalizeVersion k.chainSpec ts e) : Served api fork ts e := by
  cases e with
  | getPayload call reply => exact he.elim
  | newPayload call reply =>
    obtain ⟨hts, hversion⟩ := he
    refine ⟨hts, ?_⟩
    rw [hversion, hts]
    exact (h ts).2
  | forkchoiceUpdated call reply =>
    intro attrs hattrs
    exact nomatch (show call.attrs = none from he).symm.trans hattrs

/-- One call of the node. -/
theorem CallVersions.served (h : api.Serves fork k.chainSpec) {c : NodeCall}
    (hc : CallVersions k c) :
    LogsOnly (fun e => ∃ ts, callTimestamp k c = some ts ∧ Served api fork ts e)
      c.before c.after := by
  obtain ⟨op, r, w, w'⟩ := c
  have hsame : w'.log = w.log → LogsOnly (fun e => ∃ ts,
      callTimestamp k ⟨op, r, w, w'⟩ = some ts ∧ Served api fork ts e) w w' :=
    fun hlog => ⟨[], by simpa using hlog, by simp⟩
  cases op with
  | prepareProposal eng maxCosmosTxs ctx req =>
    refine LogsOnly.imp hc fun e he => ?_
    obtain ⟨state, hstate, hversion⟩ := he
    exact ⟨_, Option.map_eq_some_iff.mpr ⟨state, hstate, rfl⟩, hversion.served h⟩
  | executionPayload eng ctx msg =>
    refine LogsOnly.imp hc.1 fun e he => ?_
    obtain ⟨state, hstate, hversion⟩ := he
    exact ⟨_, Option.map_eq_some_iff.mpr ⟨state, hstate, rfl⟩, hversion.served h⟩
  | processProposal maxCosmosTxs ctx req => exact hsame hc
  | updateParams msg => exact hsame hc
  | exportGenesis => exact hsame hc

end Runs

/-- **The versions along a run are served.** Let the execution client read its configuration file,
which then can be applied to its genesis. If the times of Prague and Osaka that come out are those
of the consensus client, which has no Amsterdam, then every `getPayload` and every `newPayload` of
every call of the node in every run has a version that the execution client serves at the
timestamp of that call. -/
theorem run_versions_served {api : EngineApi} (hapi : api.FollowsMatrix) {File : Type}
    {openFile : String → Except String File} {fromReader : File → Except String NexusConfig}
    {path : String} {config : NexusConfig}
    (hparse : NexusConfig.parseNexusConfig openFile fromReader path = .ok config)
    {Spec Builder : Type} {specs : ChainSpecs Spec Builder} {genesis : Spec} {k : Keeper}
    (hprague : k.chainSpec.pragueTimestamp =
      (merged config.forkTimings.pragueTime (specs.fork genesis .prague)).time)
    (hosaka : k.chainSpec.osakaTimestamp =
      (merged config.forkTimings.osakaTime (specs.fork genesis .osaka)).time)
    (hamsterdam : k.chainSpec.amsterdamTimestamp = none) {w t : World} {calls : List NodeCall}
    (hrun : Run (Op.Returns k) w calls t) :
    ∃ result, config.applyForks specs genesis = .ok result ∧
      ∀ c ∈ calls, LogsOnly (fun e => ∃ ts, callTimestamp k c = some ts ∧
        Served api (specs.fork result) ts e) c.before c.after := by
  obtain ⟨result, happly⟩ := applyForks_of_parsed hparse genesis
  obtain ⟨-, hforkPrague, hforkOsaka, -⟩ := applyForks_fork happly
  have hschedule : k.chainSpec = scheduleOf (specs.fork result) :=
    scheduleOf_eq_iff.mpr ⟨hforkPrague ▸ hprague, hforkOsaka ▸ hosaka, hamsterdam⟩
  refine ⟨result, happly, fun c hc => ?_⟩
  exact (Op.returns_versions (hrun.step_of_mem c hc)).served ((serves_iff hapi).mpr hschedule)

section Sample

/-- A file that moves the forks of the genesis to the times of the consensus client: the sample
block is fetched with version 5 and sent with version 4, and both are served. -/
theorem run_versions_served_osaka : ∃ result calls w,
    NexusConfig.applyForks tableSpecs ⟨⟨some 1600000000, some 1700000000⟩⟩
      (genesisForks 1746612311 1764798551) = .ok result ∧
    Run (Op.Returns osakaKeeper) genesisWorld calls w ∧ versionsOf w.log = [5, 4] ∧
    ∀ c ∈ calls, LogsOnly (fun e => ∃ ts, callTimestamp osakaKeeper c = some ts ∧
      Served matrixApi (tableSpecs.fork result) ts e) c.before c.after := by
  have hparse : NexusConfig.parseNexusConfig (fun _ => .ok ())
      (fun _ => .ok ⟨⟨some 1600000000, some 1700000000⟩⟩) "nexus.yaml" =
        .ok ⟨⟨some 1600000000, some 1700000000⟩⟩ := by decide
  have hprague : osakaKeeper.chainSpec.pragueTimestamp = (merged (some 1600000000)
      (tableSpecs.fork (genesisForks 1746612311 1764798551) .prague)).time := rfl
  obtain ⟨calls, w, hrun, hlog⟩ := exists_run_osaka
  obtain ⟨result, happly, hserved⟩ :=
    run_versions_served matrixApi_followsMatrix hparse hprague rfl rfl hrun
  exact ⟨result, calls, w, happly, hrun, hlog, hserved⟩

end Sample

end NexusNode
