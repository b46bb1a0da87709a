import Mathlib.Data.List.Forall2
import NexusNode.Staking.Addition

/-!
# Loading the block hooks

`LoadHooks` runs when the node starts. It parses the parameters of every configured hook by the
action of the hook, panics on what does not parse, and files the hook under its block. At that
block `PerformHook` takes the parameters out again, under the type that the action calls for,
and decodes the address of the validator. The two sides share an untyped field only. The type
always fits; the address is looked at for the first time at the block, where an error is logged
and the hook skipped.

## Main definitions

* `ConfiguredHook`, `loadHooks`: the hooks of the file, and the map from blocks to hooks
* `ParamsFit action params validator`: the parameters that an action calls for
* `HookAction`, `readHook`: what a hook does, and how its parameters are read

## Main results

* `loadLoop_ok`: every configured hook is kept once under its block, in the order of the file
* `performHook_eq`: a hook reads its parameters and then acts
* `hookLoop_eq`: the hooks of a block are the actions of those that can be read
* `loadHooks_readable_iff`: the loaded hooks can all be read exactly when the addresses of their
  validators decode
-/

namespace NexusNode

open Program Proc

/-! ## The configured hooks -/

/-- A hook as it stands in the file. -/
structure ConfiguredHook where
  block : Int64
  action : HookType
  params : YamlValue

/-- The hooks of each block, in the order they run in. -/
abbrev BlockHooks := Int64 → List BlockHook

/-- `hooks[block] = append(hooks[block], hook)` -/
def BlockHooks.append (hooks : BlockHooks) (hook : BlockHook) : BlockHooks :=
  fun block => if block = hook.block then hooks block ++ [hook] else hooks block

/-- The configuration file as the node finds it. -/
inductive HooksFile where
  /-- no path is given -/
  | unset
  | missing (path : String)
  | unreadable (err : String)
  /-- a file that does not decode -/
  | malformed (err : String)
  | decoded (hooks : List ConfiguredHook)

section Load

-- `text` are the tables of Unicode, and `acc` is `sdk.AccAddressFromBech32`
variable (text : UnicodeText) (acc : String → Except String AccAddress)

/-- The parameters of a hook, parsed by its action. -/
def ConfiguredHook.parse (entry : ConfiguredHook) : Except String HookParams :=
  match entry.action with
  | .unjail => parseUnjailHook entry.params
  | .addValidator => parseAddValidatorHook text entry.params
  | .removeValidator => parseRemoveValidatorHook text acc entry.params
  -- whatever the file says, it is not looked at
  | .reconcileStakingPools => .ok .reconcileStakingPools
  | .other name => .error ("unexpected hook action " ++ name)

/-- The loop of `LoadHooks`. -/
def loadLoop (hooks : BlockHooks) : List ConfiguredHook → Except String BlockHooks
  | [] => .ok hooks
  | entry :: entries => do
    let params ← entry.parse text acc
    loadLoop (hooks.append ⟨entry.block, entry.action, params⟩) entries

/-- `LoadHooks`, or the message of its panic. -/
def loadHooks : HooksFile → Except String BlockHooks
  | .unset => .ok fun _ => []
  | .missing path => .error ("could not find file at path " ++ path)
  | .unreadable err => .error ("failed to read config " ++ err)
  | .malformed err => .error ("failed to decode config " ++ err)
  | .decoded hooks => loadLoop text acc (fun _ => []) hooks

/-- The hook that a configured one becomes. -/
structure Loaded (entry : ConfiguredHook) (hook : BlockHook) : Prop where
  block : hook.block = entry.block
  action : hook.action = entry.action
  params : entry.parse text acc = .ok hook.params

variable {text acc}

/-- **Every configured hook is kept once under its block**, in the order of the file, behind the
hooks that were there. -/
theorem loadLoop_ok {hooks hooks' : BlockHooks} {entries : List ConfiguredHook}
    (h : loadLoop text acc hooks entries = .ok hooks') :
    ∃ loaded, List.Forall₂ (Loaded text acc) entries loaded ∧
      ∀ block, hooks' block = hooks block ++ loaded.filter (·.block = block) := by
  induction entries generalizing hooks with
  | nil =>
    obtain rfl := Except.ok.inj h
    exact ⟨[], .nil, by simp⟩
  | cons entry entries ih =>
    obtain ⟨params, hparams, h⟩ := except_bind_eq_ok_iff.mp h
    obtain ⟨loaded, hloaded, hhooks⟩ := ih h
    refine ⟨⟨entry.block, entry.action, params⟩ :: loaded, .cons ⟨rfl, rfl, hparams⟩ hloaded, ?_⟩
    intro block
    rw [hhooks block]
    by_cases hb : entry.block = block
    · simp [BlockHooks.append, hb]
    · simp [BlockHooks.append, hb, Ne.symm hb]

end Load

/-! ## Reading the parameters -/

/-- The parameters that the perform function of an action takes, with the validator they name. -/
inductive ParamsFit : HookType → HookParams → Option String → Prop where
  | unjail (validator : String) (target : Option ℤ) :
    ParamsFit .unjail (.unjail validator target) (some validator)
  | addValidator (validator : String) (options : Option AddValidatorOptions) :
    ParamsFit .addValidator (.addValidator validator options) (some validator)
  | removeValidator (validator : String) (options : Option RemoveValidatorOptions) :
    ParamsFit .removeValidator (.removeValidator validator options) (some validator)
  | reconcileStakingPools : ParamsFit .reconcileStakingPools .reconcileStakingPools none

/-- The validator that a configured hook names. -/
def ConfiguredHook.validator (entry : ConfiguredHook) : Option String :=
  match entry.action with
  | .unjail => entry.params.validator
  | .addValidator => entry.params.validator
  | .removeValidator => entry.params.validator
  | .reconcileStakingPools => none
  | .other _ => none

/-- **What parses fits**: the two sides agree on the type of every action's parameters. -/
theorem ConfiguredHook.parse_fits {text : UnicodeText} {acc : String → Except String AccAddress}
    {entry : ConfiguredHook} {params : HookParams} (h : entry.parse text acc = .ok params) :
    ParamsFit entry.action params entry.validator := by
  obtain ⟨block, action, raw⟩ := entry
  cases action with
  | unjail =>
    obtain ⟨validator, target, rfl, hv, -⟩ := parseUnjailHook_ok h
    show ParamsFit .unjail _ raw.validator
    rw [hv]
    exact .unjail validator target
  | addValidator =>
    obtain ⟨validator, options, rfl, hv⟩ := parseAddValidatorHook_validator h
    show ParamsFit .addValidator _ raw.validator
    rw [hv]
    exact .addValidator validator options
  | removeValidator =>
    obtain ⟨validator, options, rfl, hv⟩ := parseRemoveValidatorHook_ok h
    show ParamsFit .removeValidator _ raw.validator
    rw [hv]
    exact .removeValidator validator (some options)
  | reconcileStakingPools =>
    obtain rfl := Except.ok.inj h
    exact .reconcileStakingPools
  | other name => cases h

/-- What a hook does once its parameters are read. -/
inductive HookAction where
  | unjail (valAddr : ValAddress) (targetTokens : Option ℤ)
  | addValidator (valAddr : ValAddress) (options : Option AddValidatorOptions)
  | removeValidator (valAddr : ValAddress) (options : Option RemoveValidatorOptions)
  | reconcileStakingPools

section Read

variable (sdk : Sdk)

def HookAction.execute (ctx : BlockContext) : HookAction → Hook Unit
  | .unjail valAddr targetTokens => executeUnjailing sdk ctx valAddr targetTokens
  | .addValidator valAddr options => executeAddValidator sdk ctx valAddr options
  | .removeValidator valAddr options => executeRemoveValidator sdk ctx valAddr options
  | .reconcileStakingPools => executeReconcileStakingPools sdk ctx

/-- The part of `PerformHook` that reads the parameters: the action is recognised, its parameters
have their type, and the address decodes. -/
def readHook (hook : BlockHook) : Except String HookAction :=
  match hook.action, hook.params with
  | .unjail, .unjail validator targetTokens =>
    (sdk.valAddressFromBech32 validator).map (.unjail · (targetTokens.filter (0 < ·)))
  | .unjail, _ => .error "invalid unjail params"
  | .addValidator, .addValidator validator options =>
    (sdk.valAddressFromBech32 validator).map (.addValidator · options)
  | .addValidator, _ => .error "invalid add_validator params"
  | .removeValidator, .removeValidator validator options =>
    (sdk.valAddressFromBech32 validator).map (.removeValidator · options)
  | .removeValidator, _ => .error "invalid remove_validator params"
  | .reconcileStakingPools, .reconcileStakingPools => .ok .reconcileStakingPools
  | .reconcileStakingPools, _ => .error "invalid reconcile_staking_pools params"
  | .other name, _ => .error ("unrecognized hook action " ++ name)

theorem ofExcept_map_bind {α β : Type} (x : Except String α) (f : α → β) (p : β → Hook Unit) :
    (ofExcept (x.map f) >>= p) = ofExcept x >>= fun a => p (f a) := by
  cases x <;> rfl

/-- **A hook reads its parameters and then acts.** -/
theorem performHook_eq (ctx : BlockContext) (hook : BlockHook) :
    performHook sdk ctx hook = ofExcept (readHook sdk hook) >>= HookAction.execute sdk ctx := by
  obtain ⟨block, action, params⟩ := hook
  cases action <;> cases params <;>
    simp only [performHook, performUnjailHook, performAddValidatorHook,
      performRemoveValidatorHook, performReconcileStakingPoolsHook, readHook,
      ofExcept_map_bind] <;> rfl

variable {sdk}

theorem performHook_of_read {hook : BlockHook} {action : HookAction}
    (h : readHook sdk hook = .ok action) (ctx : BlockContext) :
    performHook sdk ctx hook = action.execute sdk ctx := by
  rw [performHook_eq, h]
  rfl

/-- A hook that cannot be read returns the error and leaves the state as it is. -/
theorem performHook_of_unread {hook : BlockHook} {e : String}
    (h : readHook sdk hook = .error e) (ctx : BlockContext) (s : AppState) :
    performHook sdk ctx hook s = (.error (.error e), s) := by
  rw [performHook_eq, h]
  rfl

/-- Parameters that fit can be read when the address decodes. -/
theorem readHook_ok_iff {hook : BlockHook} {validator : Option String}
    (hfit : ParamsFit hook.action hook.params validator) :
    (∃ action, readHook sdk hook = .ok action) ↔
      ∀ v, validator = some v → ∃ a, sdk.valAddressFromBech32 v = .ok a := by
  obtain ⟨block, action, params⟩ := hook
  cases hfit with
  | reconcileStakingPools => simp [readHook]
  | _ => simp [readHook, except_map_eq_ok_iff]

end Read

/-! ## The hooks of a block -/

section Run

variable (sdk : Sdk) (ctx : BlockContext)

/-- The actions of a block, one after the other. An error is logged only. -/
def actionLoop : List HookAction → Hook Unit
  | [] => pure ()
  | action :: actions => do
    let _ ← attempt (action.execute sdk ctx)
    actionLoop actions

/-- **The hooks of a block are the actions of those that can be read**; the others are skipped. -/
theorem hookLoop_eq (hooks : List BlockHook) :
    hookLoop sdk ctx hooks =
      actionLoop sdk ctx (hooks.filterMap fun hook => (readHook sdk hook).toOption) := by
  induction hooks with
  | nil => rfl
  | cons hook hooks ih =>
    unfold hookLoop
    cases h : readHook sdk hook with
    | ok action =>
      rw [performHook_of_read h, ih, List.filterMap_cons_some (by rw [h]; rfl)]
      rfl
    | error e =>
      rw [ih, List.filterMap_cons_none (by rw [h]; rfl)]
      apply ext_apply
      intro s
      rw [bind_of_ok (attempt_of_error (performHook_of_unread h ctx s))]

end Run

/-! ## Loaded hooks at their block -/

section Loaded

variable {text : UnicodeText} {acc : String → Except String AccAddress}

theorem Loaded.fits {entry : ConfiguredHook} {hook : BlockHook} (h : Loaded text acc entry hook) :
    ParamsFit hook.action hook.params entry.validator := by
  rw [h.action]
  exact ConfiguredHook.parse_fits h.params

/-- A property of two related lists, entry by entry. -/
theorem forall_mem_iff_of_forall₂ {α β : Type} {R : α → β → Prop} {p : α → Prop} {q : β → Prop}
    (hpq : ∀ a b, R a b → (p a ↔ q b)) {as : List α} {bs : List β} (h : List.Forall₂ R as bs) :
    (∀ a ∈ as, p a) ↔ ∀ b ∈ bs, q b := by
  induction h with
  | nil => simp
  | cons hab _ ih => rw [List.forall_mem_cons, List.forall_mem_cons, hpq _ _ hab, ih]

/-- A property of the hooks of every block is one of all that were loaded. -/
theorem forall_block_iff {hooks : BlockHooks} {loaded : List BlockHook}
    (h : ∀ block, hooks block = loaded.filter (·.block = block)) (q : BlockHook → Prop) :
    (∀ block, ∀ hook ∈ hooks block, q hook) ↔ ∀ hook ∈ loaded, q hook := by
  constructor
  · intro hq hook hmem
    refine hq hook.block hook ?_
    rw [h]
    exact List.mem_filter.mpr ⟨hmem, by simp⟩
  · intro hq block hook hmem
    rw [h] at hmem
    exact hq hook (List.mem_filter.mp hmem).1

/-- **What loading checks.** When the hooks are loaded, every configured hook is kept once under
its block, in the order of the file, and its parameters are those its action takes. The hooks
can all be read at their blocks exactly when the addresses of the validators they name decode,
which loading does not look at. -/
theorem loadHooks_readable_iff {configured : List ConfiguredHook} {hooks : BlockHooks}
    (hload : loadHooks text acc (.decoded configured) = .ok hooks) (sdk : Sdk) :
    (∃ loaded, List.Forall₂ (Loaded text acc) configured loaded ∧
      ∀ block, hooks block = loaded.filter (·.block = block)) ∧
    (∀ block, ∀ hook ∈ hooks block, ∃ validator,
      ParamsFit hook.action hook.params validator) ∧
    ((∀ block, ∀ hook ∈ hooks block, ∃ action, readHook sdk hook = .ok action ∧
        ∀ ctx, performHook sdk ctx hook = action.execute sdk ctx) ↔
      ∀ entry ∈ configured, ∀ validator, entry.validator = some validator →
        ∃ valAddr, sdk.valAddressFromBech32 validator = .ok valAddr) := by
  obtain ⟨loaded, hloaded, hhooks⟩ := loadLoop_ok hload
  simp only [List.nil_append] at hhooks
  refine ⟨⟨loaded, hloaded, hhooks⟩, ?_, ?_⟩
  · rw [forall_block_iff hhooks, ← forall_mem_iff_of_forall₂ (p := fun _ => True) _ hloaded]
    · exact fun _ _ => trivial
    · exact fun entry hook h => ⟨fun _ => ⟨entry.validator, h.fits⟩, fun _ => trivial⟩
  · rw [forall_block_iff hhooks]
    refine (forall_mem_iff_of_forall₂ (fun entry hook h => ?_) hloaded).symm
    rw [← readHook_ok_iff h.fits]
    constructor
    · rintro ⟨action, hread⟩
      exact ⟨action, hread, performHook_of_read hread⟩
    · rintro ⟨action, hread, -⟩
      exact ⟨action, hread⟩

end Loaded

section Sample

/-- A node whose hooks name no recipient of tokens. -/
def noRecipients (_ : String) : Except String AccAddress := .error "decoding bech32 failed"

/-- Two interventions at one block around one at a later block. -/
def localHooks : List ConfiguredHook :=
  [⟨60, .unjail, .map [("validator", .str "nexusvaloper1m6jc29uar9n07mr0srspc7skjs7qvjkvw3h5kf"),
      ("target_tokens", .str "2000000")]⟩,
    ⟨90, .removeValidator, .map [("validator",
      .str "nexusvaloper17ze54jawc4etntrlz997wtkt8w3gwndvmehgex"), ("burn_tokens", .str "T")]⟩,
    ⟨60, .addValidator, secondConfig "1"⟩]

/-- The hooks of the local network are loaded, and can be read at their blocks. -/
theorem loadHooks_local :
    ∃ hooks, loadHooks sampleText noRecipients (.decoded localHooks) = .ok hooks ∧
      hooks 60 =
        [⟨60, .unjail, .unjail "nexusvaloper1m6jc29uar9n07mr0srspc7skjs7qvjkvw3h5kf"
          (some 2000000)⟩,
        ⟨60, .addValidator, .addValidator "nexusvaloper17ze54jawc4etntrlz997wtkt8w3gwndvmehgex"
          (some secondOptions)⟩] ∧
      ∀ block, ∀ hook ∈ hooks block, ∃ action, readHook sampleSdk hook = .ok action ∧
        ∀ ctx, performHook sampleSdk ctx hook = action.execute sampleSdk ctx := by
  have hload : (loadHooks sampleText noRecipients (.decoded localHooks)).toOption.map (· 60) =
      some [⟨60, .unjail, .unjail "nexusvaloper1m6jc29uar9n07mr0srspc7skjs7qvjkvw3h5kf"
          (some 2000000)⟩,
        ⟨60, .addValidator, .addValidator "nexusvaloper17ze54jawc4etntrlz997wtkt8w3gwndvmehgex"
          (some secondOptions)⟩] := by decide +kernel
  cases h : loadHooks sampleText noRecipients (.decoded localHooks) with
  | error e =>
    rw [h] at hload
    cases hload
  | ok hooks =>
    rw [h] at hload
    refine ⟨hooks, rfl, Option.some.inj hload, (loadHooks_readable_iff h sampleSdk).2.2.mpr ?_⟩
    intro entry hentry validator hv
    simp only [localHooks, List.mem_cons, List.not_mem_nil, or_false] at hentry
    rcases hentry with rfl | rfl | rfl <;> obtain rfl := Option.some.inj hv
    · exact ⟨sampleOperator, rfl⟩
    · exact ⟨secondOperator, rfl⟩
    · exact ⟨secondOperator, rfl⟩

/-- A hook with a misspelled validator. -/
def misspelledHooks : List ConfiguredHook :=
  [⟨60, .unjail, .map [("validator", .str "validator1")]⟩]

/-- It is loaded as well, and skipped at its block. -/
theorem loadHooks_misspelled :
    ∃ hooks, loadHooks sampleText noRecipients (.decoded misspelledHooks) = .ok hooks ∧
      hooks 60 = [⟨60, .unjail, .unjail "validator1" none⟩] ∧
      (∀ hook ∈ hooks 60, ∃ e, readHook sampleSdk hook = .error e ∧
        ∀ ctx s, performHook sampleSdk ctx hook s = (.error (.error e), s)) ∧
      ∀ ctx, hookLoop sampleSdk ctx (hooks 60) = pure () := by
  refine ⟨_, rfl, rfl, ?_, ?_⟩
  · intro hook hmem
    obtain rfl := List.mem_singleton.mp hmem
    have hread : readHook sampleSdk ⟨60, .unjail, .unjail "validator1" none⟩ =
      .error "decoding bech32 failed" := rfl
    exact ⟨_, hread, performHook_of_unread hread⟩
  · intro ctx
    exact hookLoop_eq sampleSdk ctx _

end Sample

end NexusNode
