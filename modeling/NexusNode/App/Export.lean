import NexusNode.App.Agreement
import NexusNode.Evm.Genesis
import NexusNode.Staking.ZeroHeight

/-!
# Starting a chain from an export

An export names the height after the last block, and the chain that imports it starts there.
Its first block has no commit before it, so its proposal comes without votes. The handlers know
the first block of a chain by the height 1 alone: at any other height the check of the votes
counts none and refuses the block.

## Main definitions

* `exportAppStateAndValidators`: the export, at its height
* `firstRound`: import, the block of the first proposer and what a validator says to it

## Main results

* `processProposal_of_no_votes`: without votes only height 1 is accepted
* `firstRound_rejected`: the first block after an export is refused
-/

namespace NexusNode

open Program Proc

/-! ## The export -/

/-- A validator in a genesis file. -/
structure GenesisValidator where
  pubKey : PubKey
  power : ℤ
  deriving DecidableEq

/-- `ExportedApp`; of the genesis states of the modules only that of the `evm` module is kept. -/
structure ExportedApp where
  evm : Option GenesisState
  validators : List GenesisValidator
  height : Int64
  deriving DecidableEq

/-- The SDK as the whole export meets it. -/
structure GenesisSdk extends ExportSdk where
  /-- the error of `ExportGenesisForModules` on the other modules -/
  refuseModules : BlockContext → List String → AppState → Option String
  /-- `staking.WriteValidators` -/
  writeValidators : BlockContext → AppState → Except String (List GenesisValidator)

/-- `AppModule.ExportGenesis` of the `evm` module, when it is among the modules to export. No
list means all modules. -/
def exportEvmModule (modulesToExport : List String) (w : World) :
    Outcome String (Option GenesisState) :=
  if modulesToExport = [] ∨ "evm" ∈ modulesToExport then
    match (exportGenesis w).1 with
    | .ok genState => .ok (some genState)
    | .error (.error e) => .error (.panic ("failed to export evm genesis state: " ++ e.text))
    | .error (.panic e) => .error (.panic e.text)
    | .error .running => .error .running
  else .ok none

variable (sdk : GenesisSdk) (maxValidators : ℕ)

/-- The state of the application that is exported. -/
def exportedState (ctx : BlockContext) (forZeroHeight : Bool) (jailAllowedAddrs : List String)
    (s : AppState) : Outcome String AppState :=
  if forZeroHeight then
    let prepared := prepForZeroHeightGenesis sdk.toExportSdk ctx maxValidators jailAllowedAddrs s
    prepared.1.map fun _ => prepared.2
  else .ok s

/-- `ExportAppStateAndValidators`. What it writes goes to the state of checks, which is dropped. -/
def exportAppStateAndValidators (lastBlockHeight : Int64) (forZeroHeight : Bool)
    (jailAllowedAddrs modulesToExport : List String) (s : AppState) (w : World) :
    Outcome String ExportedApp := do
  let ctx : BlockContext := ⟨lastBlockHeight, zeroTime⟩
  -- "the height at which CometBFT will start InitChain"
  let height := if forZeroHeight then 0 else lastBlockHeight + 1
  let s' ← exportedState sdk maxValidators ctx forZeroHeight jailAllowedAddrs s
  match sdk.refuseModules ctx modulesToExport s' with
  | some e => .error (.error e)
  | none =>
    let evm ← exportEvmModule modulesToExport w
    match sdk.writeValidators ctx s' with
    | .error e => .error (.error e)
    | .ok validators => return ⟨evm, validators, height⟩

/-- The height of an export that is not for height zero. -/
theorem exportAppStateAndValidators_height {lastBlockHeight : Int64}
    {jailAllowedAddrs modulesToExport : List String} {s : AppState} {w : World}
    {exported : ExportedApp}
    (h : exportAppStateAndValidators sdk maxValidators lastBlockHeight false jailAllowedAddrs
      modulesToExport s w = .ok exported) :
    exported.height = lastBlockHeight + 1 := by
  unfold exportAppStateAndValidators at h
  obtain ⟨s', -, h⟩ := except_bind_eq_ok_iff.mp h
  split at h
  · cases h
  obtain ⟨evm, -, h⟩ := except_bind_eq_ok_iff.mp h
  split at h
  · cases h
  · exact congrArg ExportedApp.height (Except.ok.inj h).symm

/-! ## The first round of the new chain -/

/-- `InitGenesis` of the modules that the genesis file has an entry for. -/
def importEvmModule (exported : ExportedApp) : Evm Unit :=
  match exported.evm with
  | some genState => initGenesis genState
  | none => pure ()

/-- A node imports an export, its handler builds a block for the initial height from the
transactions of the mempool, and a validator with the same state checks that block. There are no
votes at the initial height. -/
def firstRound (k : Keeper) (eng : Engine) (maxCosmosTxs : Int) (ctx ctx' : SdkContext)
    (attempts : ℕ) (exported : ExportedApp) (txs : List Bytes) :
    Evm (List Bytes × ProposalStatus) := do
  importEvmModule exported
  let block ← makePrepareProposalHandler k eng maxCosmosTxs ctx attempts ⟨exported.height, txs⟩
  let w ← get
  let status ← ofOutcome
    (processProposal k maxCosmosTxs ctx' ⟨exported.height, block, []⟩ w.store)
  return (block, status)

section FirstRound

variable {k : Keeper} {eng : Engine} {maxCosmosTxs : Int} {ctx ctx' : SdkContext} {attempts : ℕ}
  {height : Int64} {exported : ExportedApp} {txs block : List Bytes} {store : Store}
  {w w' : World} {status : ProposalStatus}

/-- Past height 1 every block that comes without votes is refused, an empty one for being empty
and any other by the check of the votes. -/
theorem processProposal_of_no_votes (hh : height ≠ 1) :
    processProposal k maxCosmosTxs ctx ⟨height, block, []⟩ store =
      .ok (.reject (if block = [] then .noTransactions else .votingPower)) := by
  have hvotes : ¬ votingPowerOk [] = true := by decide
  unfold processProposal makeProcessProposalHandler
  rw [if_neg hh]
  by_cases hempty : block = []
  · rw [if_pos hempty, if_pos (List.length_eq_zero_iff.mpr hempty)]
  · rw [if_neg hempty, if_neg (mt List.length_eq_zero_iff.mp hempty), if_pos hvotes]

/-- Past height 1 the first round ends with a block that is refused for its votes. -/
theorem firstRound_ok (hh : exported.height ≠ 1)
    (h : firstRound k eng maxCosmosTxs ctx ctx' attempts exported txs w =
      (.ok (block, status), w')) :
    status = .reject .votingPower := by
  unfold firstRound at h
  obtain ⟨⟨⟩, w₁, -, h⟩ := bind_eq_ok_iff.mp h
  obtain ⟨block', w₂, hprepare, h⟩ := bind_eq_ok_iff.mp h
  rw [bind_of_ok (get_apply w₂)] at h
  obtain ⟨status', hprocess, h⟩ := ofOutcome_bind_eq_ok_iff.mp h
  obtain ⟨rfl, rfl⟩ := Prod.mk.inj (Except.ok.inj (Prod.mk.inj h).1)
  obtain ⟨e, -, rfl⟩ := makePrepareProposalHandler_ok hh hprepare
  rw [processProposal_of_no_votes hh, if_neg (by simp)] at hprocess
  exact (Except.ok.inj hprocess).symm

end FirstRound

/-! ## A sample -/

section Sample

open Wire

/-- The SDK of the samples, which exports the validator of the sample state. -/
def sampleGenesisSdk : GenesisSdk :=
  { sampleExport with
    refuseModules := fun _ _ _ => none
    writeValidators := fun _ _ => .ok [⟨sampleKey, 1⟩] }

/-- What the sample chain exports after its first block. -/
def sampleExported : ExportedApp :=
  ⟨some ⟨{}, (hexToHash "0x01").hex, (hexToHash "0x01").hex, 0, 0⟩, [⟨sampleKey, 1⟩], 2⟩

theorem exportAppStateAndValidators_sample :
    exportAppStateAndValidators sampleGenesisSdk 7 1 false [] [] (sampleState false) sampleWorld =
      .ok sampleExported := rfl

/-- A node that has imported nothing. -/
def emptyWorld : World := ⟨⟨none, none⟩, [], 0⟩

/-- The first round of a chain that starts from that export. -/
def sampleRound : Evm (List Bytes × ProposalStatus) :=
  firstRound (sampleKeeper defaultConfig cancunSpec (samplePayload []) [])
    (validEngine ⟨samplePayload [], []⟩) 1 (sampleCtx .prepareProposal)
    (sampleCtx .processProposal) 1 sampleExported []

theorem importEvmModule_sample :
    importEvmModule sampleExported emptyWorld = (.ok (), sampleWorld) :=
  initGenesis_exported {} sampleHead emptyWorld

theorem sampleRound_apply : (sampleRound emptyWorld).1 =
    .ok ([encodePayloadTx (payloadMsg (samplePayload []))], .reject .votingPower) := by
  have hh : sampleExported.height ≠ 1 := by decide
  obtain ⟨w', hprepare, -, -⟩ := prepareProposal_samplePayload (payloadTx_samplePayload [])
    (k := sampleKeeper defaultConfig cancunSpec (samplePayload []) []) [] [] (w := sampleWorld) rfl
  have hblock : makePrepareProposalHandler _ _ 1 _ 1 ⟨sampleExported.height, []⟩ sampleWorld = _ :=
    makePrepareProposalHandler_of_ok hh hprepare
  unfold sampleRound firstRound
  rw [bind_of_ok importEvmModule_sample, bind_of_ok hblock, bind_of_ok (get_apply w'),
    processProposal_of_no_votes hh]
  rfl

end Sample

section Restart

variable {sdk : GenesisSdk} {maxValidators : ℕ} {lastBlockHeight : Int64}
  {jailAllowedAddrs modulesToExport : List String} {s : AppState} {w₀ w w' : World}
  {exported : ExportedApp} {k : Keeper} {eng : Engine} {maxCosmosTxs : Int}
  {ctx ctx' : SdkContext} {attempts : ℕ} {txs block : List Bytes} {status : ProposalStatus}

/-- **The first block after an export.** The new chain starts past height 1. The block that its
first proposer builds is refused for its votes, whatever the engine and the mempool, and so is
any other block at that height. -/
theorem firstRound_rejected (hlast : 1 ≤ lastBlockHeight)
    (hexport : exportAppStateAndValidators sdk maxValidators lastBlockHeight false
      jailAllowedAddrs modulesToExport s w₀ = .ok exported)
    (hround : firstRound k eng maxCosmosTxs ctx ctx' attempts exported txs w =
      (.ok (block, status), w')) :
    exported.height = lastBlockHeight + 1 ∧ status = .reject .votingPower ∧
      ∀ other store, processProposal k maxCosmosTxs ctx' ⟨exported.height, other, []⟩ store ≠
        .ok .accept := by
  have hheight := exportAppStateAndValidators_height sdk maxValidators hexport
  have hh : exported.height ≠ 1 := by
    intro hone
    rw [hheight] at hone
    obtain rfl := Int64.add_eq_right.mp hone
    exact absurd hlast (by decide)
  refine ⟨hheight, firstRound_ok hh hround, fun other store haccept => ?_⟩
  rw [processProposal_of_no_votes hh] at haccept
  cases haccept

open Wire in
theorem firstRound_rejected_sample :
    (∃ w', sampleRound emptyWorld =
      (.ok ([encodePayloadTx (payloadMsg (samplePayload []))], .reject .votingPower), w')) ∧
    sampleExported.height = 1 + 1 := by
  obtain ⟨w', hround⟩ : ∃ w', sampleRound emptyWorld =
      (.ok ([encodePayloadTx (payloadMsg (samplePayload []))], .reject .votingPower), w') :=
    ⟨_, Prod.ext sampleRound_apply rfl⟩
  refine ⟨⟨w', hround⟩, ?_⟩
  unfold sampleRound at hround
  exact (firstRound_rejected (by decide) exportAppStateAndValidators_sample hround).1

open Wire in
/-- The sample chain exports after block 1. The new chain has the same block state, its first
block is built and it is refused. With the vote of a commit it would be accepted. -/
theorem sampleRound_rejected :
    exportAppStateAndValidators sampleGenesisSdk 7 1 false [] [] (sampleState false) sampleWorld =
      .ok sampleExported ∧
    (importEvmModule sampleExported emptyWorld).2.store = sampleStore ∧
    (sampleRound emptyWorld).1 =
      .ok ([encodePayloadTx (payloadMsg (samplePayload []))], .reject .votingPower) ∧
    processProposal (sampleKeeper defaultConfig cancunSpec (samplePayload []) []) 1
      (sampleCtx .processProposal)
      ⟨sampleExported.height, [encodePayloadTx (payloadMsg (samplePayload []))], [⟨1, .commit⟩]⟩
      sampleStore = .ok .accept := by
  refine ⟨exportAppStateAndValidators_sample, ?_, sampleRound_apply, ?_⟩
  · rw [importEvmModule_sample]
    rfl
  exact processProposal_sampleKeeper 1 rfl (payloadValid_samplePayload [] [] cancunSpec
    .processProposal) length_sampleTx (by decide) (by decide)

end Restart

end NexusNode
