import Mathlib.Algebra.Ring.Int.Defs
import NexusNode.Staking.State

/-!
# Block hooks

A block hook is an operator intervention scheduled at a height: unjail a validator, add one,
remove one, or top up the staking pools. `EndBlocker` runs the end-block code of all modules
and then the hooks of the height, one after the other, on one and the same state. A hook that
returns an error is logged and the loop goes on; there is no cached context around a hook, so
what it wrote before the error stays.

The functions follow the source statement by statement, with the texts of their errors and
panics. Log lines are left out.

## Main definitions

* `setValidatorBalance`, `executeUnjailing`, `executeAddValidator`, `executeRemoveValidator`,
  `executeReconcileStakingPools`: the actions
* `BlockHook`, `performHook`: scheduled hooks and their dispatch
* `hookLoop`, `endBlocker`: the hook loop and the end of a block
-/

namespace NexusNode

open Program Proc

/-- Programs over the application state whose errors are texts. -/
abbrev Hook := Proc AppState String

/-- Put `text` in front of a returned error. -/
def wrapError {α : Type} (text : String) (p : Hook α) : Hook α :=
  onError (fun e => .error (text ++ e)) p

/-- Panic on a returned error, with `text` in front of it. -/
def orPanic {α : Type} (text : String) (p : Hook α) : Hook α :=
  onError (fun e => .panic (text ++ e)) p

/-- An error of code that does not touch the state. -/
def ofExcept {α : Type} (x : Except String α) : Hook α := ask fun _ => x

/-! ## Options -/

structure AddValidatorOptions where
  pubKey : Option PubKey
  /-- nil in the zero value of `math.Int` -/
  initialTokens : Option ℤ
  minSelfDelegation : Option ℤ
  deriving DecidableEq

structure RemoveValidatorOptions where
  burnTokens : Bool
  tokenRecipient : Option AccAddress
  deriving DecidableEq

/-! ## Actions -/

section Actions

variable (sdk : Sdk) (ctx : BlockContext)

/-- The coins that lift the tokens of a validator to `target`. -/
def additionalTokens (validator : Validator) (target : ℤ) : Coin :=
  ⟨defaultBondDenom, (target - validator.tokens.getD 0).toNat⟩

/-- Mint and delegate tokens up to `target`. -/
def setValidatorBalance (valAddr : ValAddress) (validator : Validator) (target : ℤ) : Hook Unit :=
  if validator.tokens.getD 0 < target then do
    let coins := additionalTokens validator target
    (sdk.step ctx "failed to mint additional tokens: " (.mintCoins bondedPoolName coins)).run
    (sdk.step ctx "failed to send minted tokens to validator account: "
      (.sendCoinsFromModuleToAccount bondedPoolName valAddr coins)).run
    (sdk.step ctx "failed to delegate tokens to validator account: "
      (.delegate valAddr valAddr coins)).run
  else pure ()

/-- The top-up of `ExecuteUnjailing`, when it is asked for. -/
def restoreBalance (valAddr : ValAddress) (validator : Validator) : Option ℤ → Hook Unit
  | some target =>
    wrapError "failed to restore validator balance: "
      (setValidatorBalance sdk ctx valAddr validator target)
  | none => pure ()

/-- Unjail a validator, topping it up before that when a target is given. -/
def executeUnjailing (valAddr : ValAddress) (targetTokens : Option ℤ) : Hook Unit := do
  let validator ← wrapError "failed to get validator: " (ask (sdk.getValidator ctx valAddr))
  -- minted and delegated before the validator is unjailed
  restoreBalance sdk ctx valAddr validator targetTokens
  let consAddr ← wrapError "failed to get consensus address: "
    (ofExcept (sdk.getConsAddr validator))
  let signingInfo ← wrapError "failed to get signing info: "
    (ask (sdk.getValidatorSigningInfo ctx consAddr))
  (sdk.step ctx "failed to update signing info: " (.setValidatorSigningInfo consAddr
    { signingInfo with jailedUntil := ctx.time - second })).run
  (sdk.step ctx "failed to unjail validator: " (.unjail valAddr)).run

/-- `stakingtypes.NewValidator` with the status, tokens and shares that the hook then sets. -/
def newValidator (valAddr : ValAddress) (pubKey : PubKey) : Validator where
  operatorAddress := valAddr
  consensusPubkey := some pubKey
  jailed := false
  status := .bonded
  tokens := some 0
  delegatorShares := 0
  minSelfDelegation := 1

/-- The signing info of a validator that has none. -/
def newSigningInfo : ValidatorSigningInfo where
  startHeight := ctx.height
  indexOffset := ctx.height - 1
  jailedUntil := 0
  tombstoned := false
  missedBlocksCounter := 0

/-- Create the signing info when it cannot be read. -/
def ensureSigningInfo (consAddr : ConsAddress) : Hook Unit := do
  match ← attempt (ask (sdk.getValidatorSigningInfo ctx consAddr)) with
  | .ok _ => pure ()
  | .error _ =>
    (sdk.step ctx "failed to set signing info: "
      (.setValidatorSigningInfo consAddr (newSigningInfo ctx))).run

/-- Create the fee pool when it cannot be read. -/
def ensureFeePool : Hook Unit := do
  match ← attempt (ask (sdk.getFeePool ctx)) with
  | .ok _ => pure ()
  | .error _ => (sdk.step ctx "failed to initialize fee pool: " (.setFeePool [])).run

/-- The block of `ExecuteAddValidator` that stores the new validator and the records of the
other modules, and reads the validator back. -/
def persistValidator (valAddr : ValAddress) (validator : Validator) : Hook Validator := do
  (sdk.step ctx "failed to persist validator: " (.setValidator validator)).run
  (sdk.step ctx "failed to index validator by cons addr: " (.setValidatorByConsAddr validator)).run
  (sdk.step ctx "failed to index validator by power: " (.setNewValidatorByPowerIndex validator)).run
  let consAddr ← wrapError "failed to get consensus address: "
    (ofExcept (sdk.getConsAddr validator))
  ensureSigningInfo sdk ctx consAddr
  (sdk.step ctx "failed to set validator historical rewards: "
    (.setValidatorHistoricalRewards valAddr 0 ⟨[], 1⟩)).run
  (sdk.step ctx "failed to set validator current rewards: "
    (.setValidatorCurrentRewards valAddr ⟨[], 1⟩)).run
  (sdk.step ctx "failed to set validator accumulated commission: "
    (.setValidatorAccumulatedCommission valAddr [])).run
  ensureFeePool sdk ctx
  wrapError "failed to load validator after creation: " (ask (sdk.getValidator ctx valAddr))

/-- Only a positive `min_self_delegation` gets the new validator stored. -/
def persistWhenPositive (valAddr : ValAddress) (validator : Validator) : Option ℤ → Hook Validator
  | some n =>
    if 0 < n then persistValidator sdk ctx valAddr { validator with minSelfDelegation := n }
    else pure validator
  | none => pure validator

/-- The part of `ExecuteAddValidator` behind its checks. The tokens are minted and delegated
whether or not the record was stored. -/
def createValidator (valAddr : ValAddress) (pubKey : PubKey) (initialTokens : ℤ)
    (minSelfDelegation : Option ℤ) : Hook Unit := do
  -- `HasAccount`, then `NewAccountWithAddress` and `SetAccount`: none of them fails
  modify fun s => { s with auth := s.auth.ensureAccount valAddr }
  wrapError "failed to build validator: " (ofExcept (sdk.newAnyWithValue pubKey))
  let validator ←
    persistWhenPositive sdk ctx valAddr (newValidator valAddr pubKey) minSelfDelegation
  wrapError "failed to ensure validator balance: "
    (setValidatorBalance sdk ctx valAddr validator initialTokens)

/-- Add a validator that is not there yet. -/
def executeAddValidator (valAddr : ValAddress) (opts : Option AddValidatorOptions) :
    Hook Unit := do
  match ← attempt (ask (sdk.getValidator ctx valAddr)) with
  | .ok _ => pure ()
  -- every error is taken for a missing validator
  | .error err =>
    match opts.bind (·.pubKey), opts.bind (·.initialTokens) with
    | none, _ =>
      fail ("validator not found: " ++ err ++
        " (provide AddValidatorOptions with PubKey to create)")
    | some _, none => fail "initial_tokens must be a positive amount"
    | some pubKey, some initialTokens =>
      if 0 < initialTokens then
        createValidator sdk ctx valAddr pubKey initialTokens (opts.bind (·.minSelfDelegation))
      else fail "initial_tokens must be a positive amount"

/-- Mark a validator as tombstoned, for good. -/
def tombstoneValidator (consAddr : ConsAddress) : Hook Unit := do
  let signingInfo ← orPanic "[RMVAL] failed to get validator signing info: "
    (ask (sdk.getValidatorSigningInfo ctx consAddr))
  if signingInfo.tombstoned then pure ()
  else
    -- the end of the year 9999
    orPanic "[RMVAL] failed to tombstone validator: " (sdk.step ctx ""
      (.setValidatorSigningInfo consAddr { signingInfo with
        tombstoned := true, jailedUntil := 253402300799 * second })).run

/-- Take a validator that is not jailed out of the power index. -/
def unindexValidator (validator : Validator) : Hook Unit :=
  if validator.jailed then pure ()
  else
    orPanic "[RMVAL] failed to delete validator from power index: "
      (sdk.step ctx "" (.deleteValidatorByPowerIndex validator)).run

/-- The tokens that leave the pool of a removed validator: its own, as far as the pool goes. -/
def removedTokens (validator : Validator) (tokens : ℤ) (bondDenom : String) (s : AppState) : ℤ :=
  min tokens (s.bank.balance (sdk.moduleAddress (SdkBase.poolOf validator)) bondDenom)

/-- Burn or transfer the tokens of a removed validator. Returns whether it did. -/
def handleValidatorTokens (validator : Validator) (opts : Option RemoveValidatorOptions) :
    Hook Bool := do
  match opts, validator.tokens with
  | none, _ => pure false
  -- the tokens are compared without a test for nil
  | some _, none => Proc.panic "runtime error: invalid memory address or nil pointer dereference"
  | some opts, some tokens =>
    if ¬ 0 < tokens then pure false
    else if !opts.burnTokens && opts.tokenRecipient.isNone then pure false
    else do
      let bondDenom ← orPanic "[RMVAL] failed to get bond denom: " (ask (sdk.getBondDenom ctx))
      let poolName := SdkBase.poolOf validator
      let amount := removedTokens sdk validator tokens bondDenom (← get)
      let coins : Coin := ⟨bondDenom, amount.toNat⟩
      if ¬ 0 < amount then pure false
      -- a recipient is only looked at when the tokens are not burned
      else if opts.burnTokens then do
        orPanic ("[RMVAL] failed to burn tokens from " ++ poolName ++ ": ")
          (sdk.step ctx "" (.burnCoins poolName coins)).run
        pure true
      else
        match opts.tokenRecipient with
        | some recipient => do
          orPanic ("[RMVAL] failed to transfer tokens from " ++ poolName ++ ": ")
            (sdk.step ctx "" (.sendCoinsFromModuleToAccount poolName recipient coins)).run
          pure true
        | none => pure false

/-- The record of a removed validator. -/
def removedRecord (validator : Validator) (tokensBurned : Bool) : Validator :=
  if tokensBurned then { validator with jailed := true, tokens := some 0, delegatorShares := 0 }
  else { validator with jailed := true }

/-- Remove a validator from the active set, for good. Every failure is a panic. -/
def executeRemoveValidator (valAddr : ValAddress) (opts : Option RemoveValidatorOptions) :
    Hook Unit := do
  let validator ← orPanic "[RMVAL] validator not found: " (ask (sdk.getValidator ctx valAddr))
  let consAddr ← orPanic "[RMVAL] failed to get consensus address: "
    (ofExcept (sdk.getConsAddr validator))
  tombstoneValidator sdk ctx consAddr
  unindexValidator sdk ctx validator
  let tokensBurned ← handleValidatorTokens sdk ctx validator opts
  if !validator.jailed || tokensBurned then
    orPanic "[RMVAL] failed to update validator: "
      (sdk.step ctx "" (.setValidator (removedRecord validator tokensBurned))).run
  else pure ()

/-- The tokens of the validators that are bonded, or of those that are not. Nil tokens count
for nothing. -/
def tokensOf (bonded : Bool) (validators : Records ValAddress Validator) : ℤ :=
  total (fun _ v => if decide (v.status = .bonded) = bonded then v.tokens.getD 0 else 0) validators

/-- The positive entry balances of all unbonding delegations. -/
def unbondingBalance (ubds : Records (AccAddress × ValAddress) (List (Option ℤ))) : ℤ :=
  total (fun _ entries => ((entries.map (·.getD 0)).filter (0 < ·)).sum) ubds

/-- Mint what the bonded pool lacks of `sum`. An error is logged only. -/
def reconcileBondedPool (sum : ℤ) : Hook Unit := do
  let balance : ℤ := (← get).bank.balance (sdk.moduleAddress bondedPoolName) defaultBondDenom
  if balance < sum then do
    let coins : Coin := ⟨defaultBondDenom, (sum - balance).toNat⟩
    let _ ← attempt (sdk.step ctx "" (.mintCoins bondedPoolName coins)).run
  else pure ()

/-- Mint what the not-bonded pool lacks of `sum`. It may not mint, so its deficit is minted in
the bonded pool and sent on. Errors are logged only. -/
def reconcileNotBondedPool (sum : ℤ) : Hook Unit := do
  let balance : ℤ := (← get).bank.balance (sdk.moduleAddress notBondedPoolName) defaultBondDenom
  if balance < sum then do
    let coins : Coin := ⟨defaultBondDenom, (sum - balance).toNat⟩
    match ← attempt (sdk.step ctx "" (.mintCoins bondedPoolName coins)).run with
    | .error _ => pure ()
    | .ok _ =>
      let _ ← attempt (sdk.step ctx ""
        (.sendCoinsFromModuleToModule bondedPoolName notBondedPoolName coins)).run
  else pure ()

/-- Mint what the staking pools lack. -/
def executeReconcileStakingPools : Hook Unit := do
  match ← attempt (ask (sdk.getAllValidators ctx)) with
  | .error _ => pure ()
  | .ok validators =>
    let bondedSum := tokensOf true validators
    let unbonding ← attempt (ask (sdk.iterateUnbondingDelegations ctx))
    let notBondedSum := tokensOf false validators +
      match unbonding with
      | .ok ubds => unbondingBalance ubds
      -- logged, and the entries left out
      | .error _ => 0
    reconcileBondedPool sdk ctx bondedSum
    reconcileNotBondedPool sdk ctx notBondedSum

end Actions

/-! ## Dispatch -/

/-- The action of a hook. -/
inductive HookType where
  | unjail
  | addValidator
  | removeValidator
  | reconcileStakingPools
  | other (name : String)
  deriving DecidableEq

/-- The parameters of a hook, under the type they were stored with. -/
inductive HookParams where
  | unjail (validator : String) (targetTokens : Option ℤ)
  | addValidator (validator : String) (options : Option AddValidatorOptions)
  | removeValidator (validator : String) (options : Option RemoveValidatorOptions)
  | reconcileStakingPools
  | other
  deriving DecidableEq

structure BlockHook where
  block : Int64
  action : HookType
  params : HookParams
  deriving DecidableEq

section Dispatch

variable (sdk : Sdk) (ctx : BlockContext)

def performUnjailHook : HookParams → Hook Unit
  | .unjail validator targetTokens => do
    let valAddr ← ofExcept (sdk.valAddressFromBech32 validator)
    executeUnjailing sdk ctx valAddr (targetTokens.filter (0 < ·))
  | _ => fail "invalid unjail params"

def performAddValidatorHook : HookParams → Hook Unit
  | .addValidator validator options => do
    let valAddr ← ofExcept (sdk.valAddressFromBech32 validator)
    executeAddValidator sdk ctx valAddr options
  | _ => fail "invalid add_validator params"

def performRemoveValidatorHook : HookParams → Hook Unit
  | .removeValidator validator options => do
    let valAddr ← ofExcept (sdk.valAddressFromBech32 validator)
    executeRemoveValidator sdk ctx valAddr options
  | _ => fail "invalid remove_validator params"

def performReconcileStakingPoolsHook : HookParams → Hook Unit
  | .reconcileStakingPools => executeReconcileStakingPools sdk ctx
  | _ => fail "invalid reconcile_staking_pools params"

def performHook (hook : BlockHook) : Hook Unit :=
  match hook.action with
  | .unjail => performUnjailHook sdk ctx hook.params
  | .addValidator => performAddValidatorHook sdk ctx hook.params
  | .removeValidator => performRemoveValidatorHook sdk ctx hook.params
  | .reconcileStakingPools => performReconcileStakingPoolsHook sdk ctx hook.params
  | .other name => fail ("unrecognized hook action " ++ name)

/-- The hook loop of `EndBlocker`: a returned error is logged, and the loop goes on. -/
def hookLoop : List BlockHook → Hook Unit
  | [] => pure ()
  | hook :: hooks => do
    let _ ← attempt (performHook sdk ctx hook)
    hookLoop hooks

/-- `EndBlocker`: the end-block code of the modules, then the hooks of the height. -/
def endBlocker {ρ : Type} (endBlock : Hook ρ) (hooks : Int64 → List BlockHook) : Hook ρ := do
  let response ← endBlock
  hookLoop sdk ctx (hooks ctx.height)
  pure response

end Dispatch

end NexusNode
