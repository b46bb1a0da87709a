import NexusNode.App.Chain
import NexusNode.Evm.Calls

/-!
# The versions of the Engine API along a run

The fork schedule fixes the version of each method at a timestamp. A proposal computes the
timestamp for the attributes of its forkchoice update and once more for the choice between the
versions of `getPayload`. A finalization takes it from the payload, whose timestamp was compared
with a third computation. All of them are the timestamp that header and stored block give, so a
block is fetched and sent with the versions of one timestamp, and as timestamps grow along the
chain the versions never go back.

## Main definitions

* `Op.Calls`: the engine calls of an operation
* `ProposalVersion`, `FinalizeVersion`: calls that use the versions of a timestamp
* `CallVersions`: the calls of the engine that one call of the node makes

## Main results

* `ChainSpec.newPayloadEngineRPCVersion_le`, `ChainSpec.newPayloadEngineRPCVersion_lt_iff`: the
  two version matrices against each other
* `Op.returns_calls`, `Op.returns_versions`: what one call of the node asks of the engine
* `run_engineVersions`: the versions along a run
-/

namespace NexusNode

open Program Proc

/-! ## The schedule -/

namespace ChainSpec

variable {c : ChainSpec} {fork before : Option UInt64} {t t' : UInt64}

theorem isActive_eq_true_iff : isActive fork t = true ↔ ∃ f, fork = some f ∧ f ≤ t := by
  cases fork <;> simp [isActive]

theorem isActive_mono (h : t ≤ t') (ht : isActive fork t = true) : isActive fork t' = true := by
  obtain ⟨f, hf, hle⟩ := isActive_eq_true_iff.mp ht
  exact isActive_eq_true_iff.mpr ⟨f, hf, UInt64.le_trans hle h⟩

/-- A fork that passes its check is active only when the one before it is. -/
theorem isActive_of_checkFork {missing : ChainSpecError} {early : UInt64 → UInt64 → ChainSpecError}
    (h : checkFork fork before missing early = .ok ()) (ht : isActive fork t = true) :
    isActive before t = true := by
  obtain ⟨f, rfl, hle⟩ := isActive_eq_true_iff.mp ht
  unfold checkFork at h
  cases before with
  | none => simp at h
  | some b =>
    dsimp only at h
    split_ifs at h with hlt
    exact isActive_eq_true_iff.mpr ⟨b, rfl, UInt64.le_trans (UInt64.not_lt.mp hlt) hle⟩

/-- The forks of an accepted schedule become active in their order. -/
theorem active_of_validate (h : c.validate = .ok ()) (t : UInt64) :
    (c.isOsakaActive t = true → c.isPragueActive t = true) ∧
      (c.isAmsterdamActive t = true → c.isOsakaActive t = true) := by
  unfold validate at h
  obtain ⟨⟨⟩, hosaka, hamsterdam⟩ := except_bind_eq_ok_iff.mp h
  exact ⟨isActive_of_checkFork hosaka, isActive_of_checkFork hamsterdam⟩

/-- The version of `newPayload` does not exceed that of `getPayload`. -/
theorem newPayloadEngineRPCVersion_le (h : c.validate = .ok ()) (t : UInt64) :
    c.newPayloadEngineRPCVersion t ≤ c.getPayloadEngineRPCVersion t := by
  obtain ⟨hosaka, hamsterdam⟩ := active_of_validate h t
  unfold newPayloadEngineRPCVersion getPayloadEngineRPCVersion
  grind

/-- The two versions differ from Osaka on, until Amsterdam. -/
theorem newPayloadEngineRPCVersion_lt_iff (h : c.validate = .ok ()) (t : UInt64) :
    c.newPayloadEngineRPCVersion t < c.getPayloadEngineRPCVersion t ↔
      (∃ osaka, c.osakaTimestamp = some osaka ∧ osaka ≤ t) ∧
        ∀ amsterdam, c.amsterdamTimestamp = some amsterdam → t < amsterdam := by
  obtain ⟨hosaka, hamsterdam⟩ := active_of_validate h t
  have hactive : c.newPayloadEngineRPCVersion t < c.getPayloadEngineRPCVersion t ↔
      c.isOsakaActive t = true ∧ ¬ c.isAmsterdamActive t = true := by
    unfold newPayloadEngineRPCVersion getPayloadEngineRPCVersion
    grind
  have hnot : (¬ c.isAmsterdamActive t = true) ↔
      ∀ amsterdam, c.amsterdamTimestamp = some amsterdam → t < amsterdam := by
    unfold isAmsterdamActive
    rw [isActive_eq_true_iff]
    simp
  rw [hactive, hnot]
  exact and_congr_left' isActive_eq_true_iff

theorem getPayloadEngineRPCVersion_mono (c : ChainSpec) (h : t ≤ t') :
    c.getPayloadEngineRPCVersion t ≤ c.getPayloadEngineRPCVersion t' := by
  have hosaka : c.isOsakaActive t = true → c.isOsakaActive t' = true := isActive_mono h
  have hprague : c.isPragueActive t = true → c.isPragueActive t' = true := isActive_mono h
  unfold getPayloadEngineRPCVersion
  grind

theorem newPayloadEngineRPCVersion_mono (c : ChainSpec) (h : t ≤ t') :
    c.newPayloadEngineRPCVersion t ≤ c.newPayloadEngineRPCVersion t' := by
  have hamsterdam : c.isAmsterdamActive t = true → c.isAmsterdamActive t' = true :=
    isActive_mono h
  have hprague : c.isPragueActive t = true → c.isPragueActive t' = true := isActive_mono h
  unfold newPayloadEngineRPCVersion
  grind

end ChainSpec

/-! ## The engine calls of one call of the node -/

/-- The calls of the engine that an operation makes. -/
def Op.Calls (k : Keeper) (w : World) : Op → EngineEvent → Prop
  | .prepareProposal _ _ ctx _, e =>
    ∃ state, w.store.blockState = some state ∧ ProposalCall k ctx.header state e
  | .executionPayload _ ctx msg, e =>
    ∃ state payload, w.store.blockState = some state ∧
      k.platform.unmarshalPayload msg.executionPayload = .ok payload ∧
      PayloadValid k ctx.header state payload ∧ FinalizeCall k ctx.header payload e
  | _, _ => False

theorem makePrepareProposalHandler_calls (k : Keeper) (eng : Engine) (maxCosmosTxs : Int)
    (ctx : SdkContext) (attempts : ℕ) (req : RequestPrepareProposal) (w : World) :
    LogsOnly (fun e => ∃ state, w.store.blockState = some state ∧
      ProposalCall k ctx.header state e) w
      (makePrepareProposalHandler k eng maxCosmosTxs ctx attempts req w).2 := by
  unfold makePrepareProposalHandler
  split_ifs
  · exact refl_of (LogsOnly _) w
  · rw [bind_pure_snd]
    exact (prepareProposal_calls k eng ctx attempts req w).imp fun e he => he.2

/-- The log is as it was. -/
abbrev SameLog : World → World → Prop := Order.Preimage World.log Eq

theorem updateParams_sameLog (k : Keeper) (req : MsgUpdateParams) :
    Within SameLog (updateParams k req) := by
  unfold updateParams
  split
  · exact Within.fail _
  · split_ifs
    · exact Within.fail _
    · split
      · exact Within.fail _
      · exact Within.modify fun _ => rfl

theorem exportGenesis_sameLog : Within SameLog exportGenesis := by
  refine Within.bind Within.get fun w => ?_
  cases w.store.params with
  | none => exact Within.fail _
  | some params =>
    cases w.store.blockState with
    | none => exact Within.pure _
    | some b => exact Within.pure _

/-- **One call of the node** makes only the engine calls of its operation, whichever way it
ends. -/
theorem Op.returns_calls {k : Keeper} {op : Op} {w w' : World} {r : Outcome EvmError Response}
    (h : op.Returns k w r w') : LogsOnly (op.Calls k w) w w' := by
  obtain ⟨attempts, hrun, -⟩ := h
  obtain rfl : (op.run k attempts w).2 = w' := congrArg Prod.snd hrun
  have hnone {op : Op} (hlog : Within SameLog (op.run k attempts)) :
      LogsOnly (op.Calls k w) w (op.run k attempts w).2 :=
    ⟨[], by simpa using (hlog w).symm, by simp⟩
  cases op with
  | prepareProposal eng maxCosmosTxs ctx req =>
    unfold Op.run
    rw [bind_pure_snd]
    exact makePrepareProposalHandler_calls k eng maxCosmosTxs ctx attempts req w
  | executionPayload eng ctx msg =>
    unfold Op.run
    rw [bind_pure_snd]
    exact executionPayload_calls k eng ctx attempts msg w
  | processProposal maxCosmosTxs ctx req =>
    exact hnone (.bind .get fun _ => .bind (.ofOutcome _) fun _ => .pure _)
  | updateParams msg => exact hnone (.bind (updateParams_sameLog k msg) fun _ => .pure _)
  | exportGenesis => exact hnone (.bind exportGenesis_sameLog fun _ => .pure _)

/-! ## The versions of one call -/

/-- A call of a proposal at the timestamp `ts`: a forkchoice update with that timestamp in its
attributes, or a `getPayload` call of its version. -/
def ProposalVersion (c : ChainSpec) (ts : UInt64) : EngineEvent → Prop
  | .forkchoiceUpdated call _ => ∃ attrs, call.attrs = some attrs ∧ attrs.timestamp = ts
  | .getPayload call _ => call.version = c.getPayloadEngineRPCVersion ts
  | .newPayload _ _ => False

/-- A call of a finalization at the timestamp `ts`: a `newPayload` call for a payload with that
timestamp, of its version, or a forkchoice update that builds nothing. -/
def FinalizeVersion (c : ChainSpec) (ts : UInt64) : EngineEvent → Prop
  | .newPayload call _ => call.params.timestamp = ts ∧
      call.version = c.newPayloadEngineRPCVersion call.params.timestamp
  | .forkchoiceUpdated call _ => call.attrs = none
  | .getPayload _ _ => False

/-- The engine calls of a call of the node: those of a proposal and of a finalization are at the
timestamp of its header and of the state before it, and a finalization that succeeds stores that
timestamp. No other call makes any. -/
def CallVersions (k : Keeper) (c : NodeCall) : Prop :=
  match c.op with
  | .prepareProposal _ _ ctx _ =>
    LogsOnly (fun e => ∃ state, c.before.store.blockState = some state ∧
      ProposalVersion k.chainSpec (headerTimestamp k ctx.header state) e) c.before c.after
  | .executionPayload _ ctx _ =>
    LogsOnly (fun e => ∃ state, c.before.store.blockState = some state ∧
      FinalizeVersion k.chainSpec (headerTimestamp k ctx.header state) e) c.before c.after ∧
    (finalizes c = true → ∃ state state', c.before.store.blockState = some state ∧
      c.after.store.blockState = some state' ∧
      state'.timestamp = headerTimestamp k ctx.header state)
  | _ => c.after.log = c.before.log

theorem ProposalCall.version {k : Keeper} {hdr : Header} {state : BlockState} {e : EngineEvent}
    (h : ProposalCall k hdr state e) :
    ProposalVersion k.chainSpec (headerTimestamp k hdr state) e := by
  cases h with
  | build reply => exact ⟨_, rfl, rfl⟩
  | get id reply => rfl

theorem FinalizeCall.version {k : Keeper} {hdr : Header} {state : BlockState}
    {payload : ExecutableData} {e : EngineEvent} (hv : PayloadValid k hdr state payload)
    (h : FinalizeCall k hdr payload e) :
    FinalizeVersion k.chainSpec (headerTimestamp k hdr state) e := by
  cases h with
  | send hashes reply => exact ⟨hv.timestamp, rfl⟩
  | head reply => rfl

/-- A finalization stores the timestamp of its header and of the state it found. -/
theorem executionPayload_timestamp {k : Keeper} {eng : Engine} {ctx : SdkContext} {attempts : ℕ}
    {msg : MsgExecutionPayload} {w w' : World}
    (h : executionPayload k eng ctx attempts msg w = (.ok (), w')) :
    ∃ state state', w.store.blockState = some state ∧ w'.store.blockState = some state' ∧
      state'.timestamp = headerTimestamp k ctx.header state := by
  obtain ⟨payload, hcheck, hstore⟩ := executionPayload_ok h
  obtain ⟨-, -, state, hs, hvalid⟩ := checkExecutionPayload_eq_ok_iff.mp hcheck
  obtain ⟨-, -, hv⟩ := validatePayload_eq_ok_iff.mp hvalid
  exact ⟨state, payload.blockState, hs, by rw [hstore], hv.timestamp⟩

/-- **The versions of one call** are those of the timestamp of its header and state. -/
theorem Op.returns_versions {k : Keeper} {op : Op} {w w' : World} {r : Outcome EvmError Response}
    (h : op.Returns k w r w') : CallVersions k ⟨op, r, w, w'⟩ := by
  have hcalls := Op.returns_calls h
  have hnone (hcalls : LogsOnly (fun _ => False) w w') : w'.log = w.log := by
    obtain ⟨es, hes, hP⟩ := hcalls
    rw [hes, List.eq_nil_iff_forall_not_mem.mpr hP, List.append_nil]
  cases op with
  | prepareProposal eng maxCosmosTxs ctx req =>
    refine hcalls.imp fun e he => ?_
    obtain ⟨state, hs, hcall⟩ := he
    exact ⟨state, hs, hcall.version⟩
  | executionPayload eng ctx msg =>
    refine ⟨hcalls.imp fun e he => ?_, fun hfin => ?_⟩
    · obtain ⟨state, payload, hs, -, hv, hcall⟩ := he
      exact ⟨state, hs, hcall.version hv⟩
    · obtain ⟨attempts, hrun, -⟩ := h
      cases r with
      | error r => cases hfin
      | ok response =>
        obtain ⟨⟨⟩, u, hexec, hu⟩ := bind_eq_ok_iff.mp hrun
        obtain ⟨-, rfl⟩ := Prod.mk.inj hu
        exact executionPayload_timestamp hexec
  | processProposal maxCosmosTxs ctx req => exact hnone hcalls
  | updateParams msg => exact hnone hcalls
  | exportGenesis => exact hnone hcalls

/-! ## Whole runs -/

/-- The stored timestamp, zero without a block state. -/
def storedTime (w : World) : ℕ := (w.store.blockState.map fun b => b.timestamp.toNat).getD 0

theorem storedTime_of_some {w : World} {b : BlockState} (h : w.store.blockState = some b) :
    storedTime w = b.timestamp.toNat := by
  simp [storedTime, h]

/-- No call of the node lets the stored timestamp fall. -/
theorem Op.returns_storedTime {k : Keeper} {op : Op} {w w' : World} {r : Outcome EvmError Response}
    (h : op.Returns k w r w') : storedTime w ≤ storedTime w' := by
  have hmoves := Op.returns_moves h
  split_ifs at hmoves
  · obtain ⟨-, -, -, payload, b, b', -, -, hb, hb', hlink⟩ := hmoves
    rw [storedTime_of_some hb, storedTime_of_some hb', hlink.next]
    exact UInt64.le_iff_toNat_le.mp (UInt64.le_of_lt hlink.later)
  · unfold storedTime
    rw [hmoves]

/-- **The versions along a run.** Under an accepted schedule, in every run of any calls: the
engine calls of a proposal and of a finalization use the versions of the timestamp that their
header and state give, the two versions differ only between Osaka and Amsterdam, and from one
finalized block to any later one neither goes back. -/
theorem run_engineVersions {k : Keeper} (hspec : k.chainSpec.validate = .ok ()) {w t : World}
    {calls : List NodeCall} (hrun : Run (Op.Returns k) w calls t) :
    (∀ c ∈ calls, CallVersions k c) ∧
    (∀ ts, k.chainSpec.newPayloadEngineRPCVersion ts ≤ k.chainSpec.getPayloadEngineRPCVersion ts ∧
      (k.chainSpec.newPayloadEngineRPCVersion ts < k.chainSpec.getPayloadEngineRPCVersion ts ↔
        (∃ osaka, k.chainSpec.osakaTimestamp = some osaka ∧ osaka ≤ ts) ∧
          ∀ amsterdam, k.chainSpec.amsterdamTimestamp = some amsterdam → ts < amsterdam)) ∧
    (calls.filter finalizes).Pairwise fun c c' =>
      ∀ b b', c.after.store.blockState = some b → c'.after.store.blockState = some b' →
        k.chainSpec.getPayloadEngineRPCVersion b.timestamp ≤
            k.chainSpec.getPayloadEngineRPCVersion b'.timestamp ∧
          k.chainSpec.newPayloadEngineRPCVersion b.timestamp ≤
            k.chainSpec.newPayloadEngineRPCVersion b'.timestamp := by
  refine ⟨fun c hc => Op.returns_versions (hrun.step_of_mem c hc), fun ts => ?_, ?_⟩
  · exact ⟨ChainSpec.newPayloadEngineRPCVersion_le hspec ts,
      ChainSpec.newPayloadEngineRPCVersion_lt_iff hspec ts⟩
  · obtain ⟨hpairs, -⟩ := hrun.pairwise_le (f := storedTime) fun c hc =>
      Op.returns_storedTime (hrun.step_of_mem c hc)
    refine (hpairs.filter _).imp fun {c c'} hle b b' hb hb' => ?_
    rw [storedTime_of_some hb, storedTime_of_some hb'] at hle
    have hle : b.timestamp ≤ b'.timestamp := UInt64.le_iff_toNat_le.mpr hle
    exact ⟨ChainSpec.getPayloadEngineRPCVersion_mono _ hle,
      ChainSpec.newPayloadEngineRPCVersion_mono _ hle⟩

section Sample

open Wire

/-- Osaka becomes active with the first payload of the sample. -/
def osakaSpec : ChainSpec := ⟨some 1600000000, some 1700000000, none⟩

def osakaKeeper : Keeper := sampleKeeper defaultConfig osakaSpec (samplePayload []) []

/-- The proposal of the block that `sampleOp` finalizes. -/
def sampleProposal : Op :=
  .prepareProposal (validEngine ⟨samplePayload [], []⟩) 1 (sampleCtx .prepareProposal) ⟨2, []⟩

/-- The versions of the calls in a log. -/
def versionsOf (log : List EngineEvent) : List ℕ :=
  log.filterMap fun
    | .getPayload call _ => some call.version
    | .newPayload call _ => some call.version
    | .forkchoiceUpdated _ _ => none

theorem exists_run_osaka : ∃ calls t, Run (Op.Returns osakaKeeper) genesisWorld calls t ∧
    versionsOf t.log = [5, 4] := by
  have htx : payloadTx osakaKeeper.platform (samplePayload []) =
      .ok (encodePayloadTx (payloadMsg (samplePayload []))) := payloadTx_samplePayload []
  obtain ⟨w₁, hprepare, hstore, hlog₁⟩ :=
    prepareProposal_samplePayload htx [] [] (w := genesisWorld) rfl
  have hprepared : sampleProposal.run osakaKeeper 1 genesisWorld =
      (.ok (.prepared [encodePayloadTx (payloadMsg (samplePayload []))]), w₁) :=
    bind_of_ok (bind_of_ok hprepare _) _
  have hcheck : checkExecutionPayload osakaKeeper (sampleCtx .finalize)
      (payloadMsg (samplePayload [])) w₁.store = .ok (samplePayload []) :=
    (checkExecutionPayload_congr rfl rfl (congrArg Store.blockState hstore)).trans
      (checkExecutionPayload_samplePayload osakaSpec [] [])
  obtain ⟨w₂, hexecuted, -, hlog₂⟩ := sampleOp_run hcheck
  refine ⟨_, _, (Run.nil.snoc ⟨1, hprepared, by simp⟩).snoc ⟨1, hexecuted, by simp⟩, ?_⟩
  rw [hlog₂, hlog₁]
  decide

/-- The sample block is fetched with version 5 and sent with version 4. -/
theorem run_engineVersions_osaka :
    ∃ calls t, Run (Op.Returns osakaKeeper) genesisWorld calls t ∧
      (∀ c ∈ calls, CallVersions osakaKeeper c) ∧ versionsOf t.log = [5, 4] := by
  obtain ⟨calls, t, hrun, hlog⟩ := exists_run_osaka
  exact ⟨calls, t, hrun, (run_engineVersions (by decide) hrun).1, hlog⟩

end Sample

end NexusNode
