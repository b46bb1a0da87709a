import NexusNode.Staking.Failure
import NexusNode.Staking.SetUpdates

/-!
# Hooks behind the end-block code

`EndBlocker` runs the end-block code of the modules and then the hooks of the height. The comment of
the reconciliation has it the other way round. Where the modules return, a reconciliation among the
hooks leaves funded pools behind the block. But what the modules of that block meet is the state the
block found, whatever hooks are scheduled. On a deficit the staking module fails where the
reconciliation would have covered it, and the hook is never reached.

## Main definitions

* `Reconciles`: among the hooks is a reconciliation, and no call of it is refused where it runs
* `hooksBeforeEndBlock`: the end of a block in the order of the comment

## Main results

* `hookLoop_funded`: hooks with a reconciliation leave funded pools
* `endBlock_funded_iff`: when the end-block code meets funded pools, and what the two orders leave
-/

namespace NexusNode

open Program Proc

section Order

variable (sdk : Sdk) (ctx : BlockContext)

/-- Among the hooks is a reconciliation, and none of its keeper calls is refused in the state that
the hooks before it leave. -/
def Reconciles (hooks : List BlockHook) (s : AppState) : Prop :=
  ∃ before block after u,
    hooks = before ++ ⟨block, .reconcileStakingPools, .reconcileStakingPools⟩ :: after ∧
      hookLoop sdk ctx before s = (.ok (), u) ∧ ReconcileSucceeds sdk ctx u

/-- The order that the comment of the reconciliation describes: the hooks of the height, then the
end-block code of the modules. -/
def hooksBeforeEndBlock {ρ : Type} (endBlock : Hook ρ) (hooks : Int64 → List BlockHook) :
    Hook ρ := do
  hookLoop sdk ctx (hooks ctx.height)
  endBlock

end Order

section Hooks

variable {sdk : Sdk} (laws : PoolLaws sdk.toSdkBase) (ctx : BlockContext)

theorem funded_iff_slack {b : SdkBase} {s : AppState} :
    Funded b s ↔ ∀ bonded, 0 ≤ slack b bonded s := by
  rw [funded_iff]
  refine forall_congr' fun bonded => ?_
  unfold deficit slack
  omega

include laws

/-- Hooks that return keep the denomination of the bond and funded pools. -/
theorem hookLoop_keeps {hooks : List BlockHook} {s t : AppState}
    (hdenom : s.staking.bondDenom = defaultBondDenom)
    (h : hookLoop sdk ctx hooks s = (.ok (), t)) :
    t.staking.bondDenom = defaultBondDenom ∧ Covers sdk.toSdkBase s t := by
  rw [hookLoop_eq_tryEach] at h
  refine tryEach_keeps (I := fun u => u.staking.bondDenom = defaultBondDenom ∧
    Covers sdk.toSdkBase s u) (fun hook u r v hrun hr hu => ?_) h ⟨hdenom, Std.Refl.refl s⟩
  have hcovers := (performHook_slack ctx laws hu.1 hrun hr).1
  exact ⟨(performHook_bondDenom sdk ctx hrun hr).trans hu.1, IsTrans.trans _ _ _ hu.2 hcovers⟩

/-- **Hooks with a reconciliation.** If they return, the pools are funded behind them. -/
theorem hookLoop_funded {hooks : List BlockHook} {s t : AppState}
    (hdenom : s.staking.bondDenom = defaultBondDenom) (hhooks : Reconciles sdk ctx hooks s)
    (h : hookLoop sdk ctx hooks s = (.ok (), t)) : Funded sdk.toSdkBase t := by
  obtain ⟨before, block, after, u, rfl, hbefore, hcalls⟩ := hhooks
  obtain ⟨hdenomu, -⟩ := hookLoop_keeps laws ctx hdenom hbefore
  obtain ⟨v, hrun, hfunded⟩ := executeReconcileStakingPools_funded laws.distinct hcalls
  have hhook : performHook sdk ctx ⟨block, .reconcileStakingPools, .reconcileStakingPools⟩ u =
      (.ok (), v) := hrun
  have hafter : hookLoop sdk ctx after v = (.ok (), t) := by
    rw [hookLoop_eq_tryEach] at h hbefore ⊢
    rwa [tryEach_append, bind_of_ok hbefore, tryEach_cons_of_ok hhook] at h
  have hdenomv := (performHook_bondDenom sdk ctx hhook rfl).trans hdenomu
  obtain ⟨-, hcovers⟩ := hookLoop_keeps laws ctx hdenomv hafter
  rw [funded_iff_slack] at hfunded ⊢
  exact fun bonded => (hfunded bonded).trans (hcovers bonded)

/-- **What the modules of a block meet.** Whatever hooks are scheduled at its height, the end-block
code runs on funded pools exactly when the pools were funded before the block ended. If it fails,
no hook runs. If it returns, and the hooks with a reconciliation among them do, the pools are
funded behind the block. In the order of the comment, the code would have run on funded pools,
whatever the pools were before. -/
theorem endBlock_funded_iff (hooks : Int64 → List BlockHook) {ρ : Type} (s : AppState) :
    ((∀ u, Meets (fun endBlock : Hook ρ => endBlocker sdk ctx endBlock hooks) s u →
      Funded sdk.toSdkBase u) ↔ Funded sdk.toSdkBase s) ∧
    (∀ (endBlock : Hook ρ) stop u, endBlock s = (.error stop, u) →
      endBlocker sdk ctx endBlock hooks s = (.error stop, u)) ∧
    (∀ (endBlock : Hook ρ) response u t, endBlock s = (.ok response, u) →
      u.staking.bondDenom = defaultBondDenom → Reconciles sdk ctx (hooks ctx.height) u →
      hookLoop sdk ctx (hooks ctx.height) u = (.ok (), t) →
        endBlocker sdk ctx endBlock hooks s = (.ok response, t) ∧ Funded sdk.toSdkBase t) ∧
    (s.staking.bondDenom = defaultBondDenom → Reconciles sdk ctx (hooks ctx.height) s →
      ∀ u, Meets (fun endBlock : Hook ρ => hooksBeforeEndBlock sdk ctx endBlock hooks) s u →
        Funded sdk.toSdkBase u) := by
  refine ⟨?_, fun endBlock stop u hend => ?_, fun endBlock response u t hend hdenom hhooks hloop =>
    ⟨?_, hookLoop_funded laws ctx hdenom hhooks hloop⟩, fun hdenom hhooks u hmeets => ?_⟩
  · have hmeets : ∀ u, Meets (fun endBlock : Hook ρ => endBlocker sdk ctx endBlock hooks) s u ↔
        u = s := fun u => meets_bind_iff _
    simp only [hmeets, forall_eq]
  · unfold endBlocker
    exact bind_of_stop hend _
  · unfold endBlocker
    rw [bind_of_ok hend, bind_of_ok hloop, pure_apply]
  · exact hookLoop_funded laws ctx hdenom hhooks ((meets_bind_last_iff _).mp hmeets)

end Hooks

section Sample

/-- A reconciliation at the height of the sample block. -/
def reconcileAt (height : Int64) : List BlockHook :=
  if height = sampleBlock.height then
    [⟨sampleBlock.height, .reconcileStakingPools, .reconcileStakingPools⟩]
  else []

/-- The local network with a second validator of two million tokens and the first one removed with
its tokens left to it, when the bonded pool has only `n` coins: the first validator is jailed, and
still bonded and in the last set. -/
def strainedState (n : ℕ) : AppState :=
  let removed := (performHook sampleSdk sampleBlock (removeHook none) (grownState 2000000)).2
  { removed with
    bank := { removed.bank with
      balance := fun a denom =>
        if a = sampleBase.moduleAddress bondedPoolName ∧ denom = defaultBondDenom then n else 0 } }

/-- The end of the sample block: the staking module, and the reconciliation behind it. -/
def strainedBlock (n : ℕ) : Outcome String (List ValidatorUpdate) × AppState :=
  endBlocker sampleSdk sampleBlock (stakingEndBlock sampleBase sampleBlock 7) reconcileAt
    (strainedState n)

theorem reconciles_reconcileAt {s : AppState} (h : ReconcileSucceeds sampleSdk sampleBlock s) :
    Reconciles sampleSdk sampleBlock (reconcileAt sampleBlock.height) s :=
  ⟨[], sampleBlock.height, [], s, rfl, rfl, h⟩

/-- The staking module meets a deficit that it can live with: the bonded pool has the coins of the
first validator, which move to the other pool, and the reconciliation mints the rest behind it. In
the order of the comment it would have met funded pools. -/
theorem endBlock_funded_behind :
    (¬ ∀ u, Meets (fun endBlock : Hook (List ValidatorUpdate) =>
      endBlocker sampleSdk sampleBlock endBlock reconcileAt) (strainedState 1000000) u →
        Funded sampleBase u) ∧
    (strainedBlock 1000000).1 = .ok [(secondKey, 2), (sampleKey, 0)] ∧
    Funded sampleBase (strainedBlock 1000000).2 ∧
    ∀ u, Meets (fun endBlock : Hook (List ValidatorUpdate) =>
      hooksBeforeEndBlock sampleSdk sampleBlock endBlock reconcileAt) (strainedState 1000000) u →
        Funded sampleBase u := by
  obtain ⟨hiff, -, hreturns, hcomment⟩ := @endBlock_funded_iff sampleSdk poolLaws_sampleBase
    sampleBlock reconcileAt (List ValidatorUpdate) (strainedState 1000000)
  have hdeficit : ¬ Funded sampleBase (strainedState 1000000) := by decide +kernel
  have hend : stakingEndBlock sampleBase sampleBlock 7 (strainedState 1000000) =
      (.ok [(secondKey, 2), (sampleKey, 0)], _) := Prod.ext (by decide +kernel) rfl
  have hloop : hookLoop sampleSdk sampleBlock (reconcileAt sampleBlock.height)
      (stakingEndBlock sampleBase sampleBlock 7 (strainedState 1000000)).2 = (.ok (), _) :=
    Prod.ext (by decide +kernel) rfl
  obtain ⟨hblock, hfunded⟩ := hreturns _ _ _ _ hend (by decide +kernel)
    (reconciles_reconcileAt ⟨rfl, rfl, by decide +kernel⟩) hloop
  have hsame : strainedBlock 1000000 = _ := hblock
  refine ⟨fun h => hdeficit (hiff.mp h), ?_, ?_, ?_⟩
  · rw [hsame]
  · rw [hsame]
    exact hfunded
  · exact hcomment (by decide +kernel) (reconciles_reconcileAt ⟨rfl, rfl, by decide +kernel⟩)

/-- On an empty pool the staking module fails, and the reconciliation that would have covered the
deficit is never reached. -/
theorem endBlock_meets_deficit :
    (reconcileAt sampleBlock.height).any (·.action = .reconcileStakingPools) ∧
    (∃ u, Meets (fun endBlock : Hook (List ValidatorUpdate) =>
      endBlocker sampleSdk sampleBlock endBlock reconcileAt) (strainedState 0) u ∧
        ¬ Funded sampleBase u) ∧
    (strainedBlock 0).1 = .error (.error "insufficient funds") ∧
    (hooksBeforeEndBlock sampleSdk sampleBlock (stakingEndBlock sampleBase sampleBlock 7)
      reconcileAt (strainedState 0)).1 = .ok [(secondKey, 2), (sampleKey, 0)] := by
  refine ⟨by decide +kernel, ⟨strainedState 0, (meets_bind_iff _).mpr rfl, by decide +kernel⟩,
    by decide +kernel, by decide +kernel⟩

end Sample

end NexusNode
