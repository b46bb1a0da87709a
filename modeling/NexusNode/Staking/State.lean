import Mathlib.Data.Finset.Insert
import NexusNode.Evm.Types
import NexusNode.Program.Records
import NexusNode.Program.Steps

/-!
# The module state behind the block hooks

The block hooks write to five modules of the application: accounts, bank, staking, slashing and
distribution. `AppState` is their state as far as the hooks read or write it, with the records
that the set-up of a testnet and the export add. A staking state carries the proof that every
validator record is filed under its own operator address.

The keepers belong to the SDK. `SdkCall` lists the keeper calls the hooks make, and `effect`
gives the documented effect of each. `Sdk` says which calls are refused: at least those that
the SDK documents as errors (`mustRefuse`), and any others it likes. A refused call has no
effect, which is what `Sdk.step` states.

## Main definitions

* `Validator`, `ValidatorSigningInfo`, `AppState`: the stored records
* `SdkCall`, `SdkBase.effect`: the keeper calls and their documented effects
* `SdkBase.mustRefuse`: the calls that the SDK documents as errors
* `Sdk`, `Sdk.step`, `Sdk.answer`: the SDK as the hooks meet it, its writing and reading calls
-/

namespace NexusNode

open Program

/-! ## Records -/

abbrev AccAddress := Bytes

abbrev ValAddress := Bytes

abbrev ConsAddress := Bytes

/-- `ed25519.PubKey` -/
structure PubKey where
  key : Bytes
  deriving DecidableEq

inductive BondStatus where
  | unbonded
  | unbonding
  | bonded
  deriving DecidableEq

/-- `stakingtypes.Validator`. Shares are counted in units of `10 ^ -18`. -/
structure Validator where
  operatorAddress : ValAddress
  /-- the unpacked key, absent when the stored message is not a public key -/
  consensusPubkey : Option PubKey
  jailed : Bool
  status : BondStatus
  /-- nil in the zero value of `math.Int` -/
  tokens : Option ℤ
  delegatorShares : ℤ
  minSelfDelegation : ℤ
  unbondingHeight : Int64 := 0
  deriving DecidableEq

/-- Nanoseconds since the Unix epoch. -/
abbrev Time := ℤ

def second : Time := 1000000000

/-- `slashingtypes.ValidatorSigningInfo` -/
structure ValidatorSigningInfo where
  startHeight : Int64
  indexOffset : Int64
  jailedUntil : Time
  tombstoned : Bool
  missedBlocksCounter : ℤ
  deriving DecidableEq

/-- `sdk.DecCoins` -/
abbrev DecCoins := List (String × ℤ)

structure ValidatorHistoricalRewards where
  cumulativeRewardRatio : DecCoins
  referenceCount : ℕ
  deriving DecidableEq

structure ValidatorCurrentRewards where
  rewards : DecCoins
  period : ℕ
  deriving DecidableEq

/-- What the hooks read of the `sdk.Context` of a block. -/
structure BlockContext where
  height : Int64
  time : Time

/-! ## Module states -/

/-- The accounts, each with its number. -/
structure Auth where
  accounts : Records AccAddress ℕ
  nextAccountNumber : ℕ

/-- `NewAccountWithAddress` followed by `SetAccount`. -/
def Auth.newAccount (s : Auth) (a : AccAddress) : Auth where
  accounts := s.accounts.insert a s.nextAccountNumber
  nextAccountNumber := s.nextAccountNumber + 1

/-- `HasAccount` -/
def Auth.hasAccount (s : Auth) (a : AccAddress) : Bool := (s.accounts.lookup a).isSome

def Auth.ensureAccount (s : Auth) (a : AccAddress) : Auth :=
  if s.hasAccount a then s else s.newAccount a

structure Bank where
  balance : AccAddress → String → ℕ
  supply : String → ℕ

namespace Bank

/-- Replace the balance of `a` in the denomination of `c`. -/
def setBalance (s : Bank) (a : AccAddress) (denom : String) (amount : ℕ) : Bank where
  balance x d := if x = a ∧ d = denom then amount else s.balance x d
  supply := s.supply

def addCoins (s : Bank) (a : AccAddress) (c : Coin) : Bank :=
  s.setBalance a c.denom (s.balance a c.denom + c.amount)

def subCoins (s : Bank) (a : AccAddress) (c : Coin) : Bank :=
  s.setBalance a c.denom (s.balance a c.denom - c.amount)

def sendCoins (s : Bank) (src dst : AccAddress) (c : Coin) : Bank :=
  (s.subCoins src c).addCoins dst c

def mintCoins (s : Bank) (a : AccAddress) (c : Coin) : Bank where
  balance := (s.addCoins a c).balance
  supply d := if d = c.denom then s.supply d + c.amount else s.supply d

def burnCoins (s : Bank) (a : AccAddress) (c : Coin) : Bank where
  balance := (s.subCoins a c).balance
  supply d := if d = c.denom then s.supply d - c.amount else s.supply d

@[simp] theorem sendCoins_supply (s : Bank) (src dst : AccAddress) (c : Coin) :
    (s.sendCoins src dst c).supply = s.supply := rfl

end Bank

/-- The staking state. -/
structure Staking where
  validators : Records ValAddress Validator
  byConsAddr : Records ConsAddress ValAddress
  /-- the entries of the power index: consensus power and operator -/
  powerIndex : Finset (ℤ × ValAddress)
  /-- the shares of every delegation -/
  delegations : Records (AccAddress × ValAddress) ℤ
  /-- the entry balances of every unbonding delegation -/
  unbondingDelegations : Records (AccAddress × ValAddress) (List (Option ℤ))
  /-- the last validator set, with the powers reported for it -/
  lastValidatorPowers : Records ValAddress ℤ
  bondDenom : String
  /-- a validator record is stored under its operator address -/
  keyed : ∀ {a v}, validators.lookup a = some v → v.operatorAddress = a

structure Slashing where
  signingInfos : Records ConsAddress ValidatorSigningInfo
  /-- the consensus key behind an address, without which evidence against it is ignored -/
  addrPubkeyRelations : Records ConsAddress PubKey

structure Distribution where
  historicalRewards : Records (ValAddress × ℕ) ValidatorHistoricalRewards
  currentRewards : Records ValAddress ValidatorCurrentRewards
  accumulatedCommission : Records ValAddress DecCoins
  outstandingRewards : Records ValAddress DecCoins
  feePool : Option DecCoins

/-- The state of the application, as far as the hooks read or write it. -/
structure AppState where
  auth : Auth
  bank : Bank
  staking : Staking
  slashing : Slashing
  distribution : Distribution

/-! ## Staking operations -/

/-- `sdk.DefaultPowerReduction` -/
def powerReduction : ℤ := 1000000

/-- The key of a validator in the power index: its consensus power and its operator. -/
def Validator.powerKey (v : Validator) : ℤ × ValAddress :=
  ((v.tokens.getD 0).tdiv powerReduction, v.operatorAddress)

/-- The shares that a delegation of `amount` tokens gets: the first one fixes one share a
token, later ones buy at the current rate. -/
def Validator.issuedShares (v : Validator) (amount : ℕ) : ℤ :=
  if v.delegatorShares = 0 then amount * 10 ^ 18
  else (v.delegatorShares * amount).tdiv (v.tokens.getD 0)

/-- `AddTokensFromDel`: the validator after a delegation of `amount` tokens. -/
def Validator.addTokensFromDel (v : Validator) (amount : ℕ) : Validator :=
  { v with tokens := some (v.tokens.getD 0 + amount)
           delegatorShares := v.delegatorShares + v.issuedShares amount }

namespace Staking

/-- `SetValidator` -/
def setValidator (s : Staking) (v : Validator) : Staking where
  validators := s.validators.insert v.operatorAddress v
  byConsAddr := s.byConsAddr
  powerIndex := s.powerIndex
  delegations := s.delegations
  unbondingDelegations := s.unbondingDelegations
  lastValidatorPowers := s.lastValidatorPowers
  bondDenom := s.bondDenom
  keyed := by
    intro a w h
    by_cases ha : a = v.operatorAddress
    · -- the record just written is filed under its own address
      subst ha
      rw [Finmap.lookup_insert] at h
      rw [← Option.some.inj h]
    · rw [Finmap.lookup_insert_of_ne _ ha] at h
      exact s.keyed h

@[simp] theorem setValidator_validators (s : Staking) (v : Validator) :
    (s.setValidator v).validators = s.validators.insert v.operatorAddress v := rfl

@[simp] theorem setValidator_delegations (s : Staking) (v : Validator) :
    (s.setValidator v).delegations = s.delegations := rfl

/-- Writing a stored record changes nothing. -/
theorem setValidator_of_lookup {s : Staking} {v : Validator}
    (h : s.validators.lookup v.operatorAddress = some v) : s.setValidator v = s := by
  obtain ⟨validators, _, _, _, _, _, _, _⟩ := s
  simp only [setValidator, mk.injEq, and_true]
  exact insert_of_lookup h

/-- `SetNewValidatorByPowerIndex` -/
def indexByPower (s : Staking) (v : Validator) : Staking :=
  { s with powerIndex := insert v.powerKey s.powerIndex }

/-- `SetValidatorByPowerIndex`, which skips jailed validators. -/
def setByPowerIndex (s : Staking) (v : Validator) : Staking :=
  { s with powerIndex := if v.jailed then s.powerIndex else insert v.powerKey s.powerIndex }

/-- `DeleteValidatorByPowerIndex` -/
def unindexByPower (s : Staking) (v : Validator) : Staking :=
  { s with powerIndex := s.powerIndex.erase v.powerKey }

/-- `Delegate` of `amount` tokens: the validator and the delegation gain the same shares. -/
def delegate (s : Staking) (d : AccAddress) (v : Validator) (amount : ℕ) : Staking :=
  let v' := v.addTokensFromDel amount
  let key := (d, v.operatorAddress)
  { ((s.unindexByPower v).setValidator v').setByPowerIndex v' with
    delegations := s.delegations.insert key
      ((s.delegations.lookup key).getD 0 + v.issuedShares amount) }

@[simp] theorem delegate_validators (s : Staking) (d : AccAddress) (v : Validator) (n : ℕ) :
    (s.delegate d v n).validators =
      s.validators.insert v.operatorAddress (v.addTokensFromDel n) := rfl

@[simp] theorem delegate_delegations (s : Staking) (d : AccAddress) (v : Validator) (n : ℕ) :
    (s.delegate d v n).delegations = s.delegations.insert (d, v.operatorAddress)
      ((s.delegations.lookup (d, v.operatorAddress)).getD 0 + v.issuedShares n) := rfl

/-- `Unjail` -/
def unjail (s : Staking) (v : Validator) : Staking :=
  (s.setValidator { v with jailed := false }).setByPowerIndex { v with jailed := false }

@[simp] theorem unjail_validators (s : Staking) (v : Validator) :
    (s.unjail v).validators =
      s.validators.insert v.operatorAddress { v with jailed := false } := rfl

@[simp] theorem unjail_delegations (s : Staking) (v : Validator) :
    (s.unjail v).delegations = s.delegations := rfl

end Staking

/-! ## Keeper calls -/

def bondedPoolName : String := "bonded_tokens_pool"

def notBondedPoolName : String := "not_bonded_tokens_pool"

/-- `sdk.DefaultBondDenom`, as the application sets it. -/
def defaultBondDenom : String := "atnex"

/-- The module accounts that may not be sent coins. -/
def blockAccAddrs : List String :=
  ["fee_collector", "distribution", "mint", bondedPoolName, notBondedPoolName, "nft"]

/-- The keeper calls of the hooks that can return an error. -/
inductive SdkCall where
  | getValidator (a : ValAddress)
  | getValidatorSigningInfo (c : ConsAddress)
  | getFeePool
  | getBondDenom
  | getAllValidators
  | iterateUnbondingDelegations
  | mintCoins (pool : String) (c : Coin)
  | burnCoins (pool : String) (c : Coin)
  | sendCoinsFromModuleToAccount (pool : String) (dst : AccAddress) (c : Coin)
  | sendCoinsFromModuleToModule (src dst : String) (c : Coin)
  | delegate (d : AccAddress) (a : ValAddress) (c : Coin)
  | setValidator (v : Validator)
  | setValidatorByConsAddr (v : Validator)
  | setNewValidatorByPowerIndex (v : Validator)
  | deleteValidatorByPowerIndex (v : Validator)
  | setValidatorSigningInfo (c : ConsAddress) (info : ValidatorSigningInfo)
  | unjail (a : ValAddress)
  | setValidatorHistoricalRewards (a : ValAddress) (period : ℕ) (r : ValidatorHistoricalRewards)
  | setValidatorCurrentRewards (a : ValAddress) (r : ValidatorCurrentRewards)
  | setValidatorAccumulatedCommission (a : ValAddress) (c : DecCoins)
  | setFeePool (c : DecCoins)

/-- The SDK functions that the calls and their effects rest on. -/
structure SdkBase where
  /-- `GetModuleAddress` -/
  moduleAddress : String → AccAddress
  /-- the address of a consensus key -/
  pubKeyAddress : PubKey → ConsAddress
  /-- `sdk.ValAddressFromBech32` -/
  valAddressFromBech32 : String → Except String ValAddress
  /-- `codectypes.NewAnyWithValue` of a public key -/
  newAnyWithValue : PubKey → Except String Unit
  /-- what the distribution hooks of a delegation write: rewards paid out, and records -/
  distributionHooks : AccAddress → ValAddress → AppState → Bank × Distribution
  /-- rewards are paid in coins that exist -/
  distributionHooks_supply : ∀ d a s, (distributionHooks d a s).1.supply = s.bank.supply

namespace SdkBase

variable (b : SdkBase)

/-- `GetConsAddr` -/
def getConsAddr (v : Validator) : Except String ConsAddress :=
  match v.consensusPubkey with
  | some pk => .ok (b.pubKeyAddress pk)
  | none => .error "expecting cryptotypes.PubKey: invalid type"

/-- The pool that holds the tokens of a validator. -/
def poolOf (v : Validator) : String :=
  if v.status = .bonded then bondedPoolName else notBondedPoolName

/-- The documented effect of a call that is not refused. -/
def effect : SdkCall → AppState → AppState
  | .mintCoins pool c, s => { s with bank := s.bank.mintCoins (b.moduleAddress pool) c }
  | .burnCoins pool c, s => { s with bank := s.bank.burnCoins (b.moduleAddress pool) c }
  | .sendCoinsFromModuleToAccount pool dst c, s =>
    { s with bank := s.bank.sendCoins (b.moduleAddress pool) dst c
             auth := s.auth.ensureAccount dst }
  | .sendCoinsFromModuleToModule src dst c, s =>
    { s with bank := s.bank.sendCoins (b.moduleAddress src) (b.moduleAddress dst) c }
  | .delegate d a c, s =>
    match s.staking.validators.lookup a with
    | none => s
    | some v =>
      -- rewards are withdrawn before the shares change; the coins go to the validator's pool
      let paid := b.distributionHooks d a s
      { s with bank := paid.1.sendCoins d (b.moduleAddress (poolOf v)) c
               staking := s.staking.delegate d v c.amount
               distribution := paid.2 }
  | .setValidator v, s => { s with staking := s.staking.setValidator v }
  | .setValidatorByConsAddr v, s =>
    match b.getConsAddr v with
    | .ok c => { s with staking.byConsAddr := s.staking.byConsAddr.insert c v.operatorAddress }
    | .error _ => s
  | .setNewValidatorByPowerIndex v, s => { s with staking := s.staking.indexByPower v }
  | .deleteValidatorByPowerIndex v, s => { s with staking := s.staking.unindexByPower v }
  | .setValidatorSigningInfo c info, s =>
    { s with slashing.signingInfos := s.slashing.signingInfos.insert c info }
  -- the signing info is read, not written
  | .unjail a, s =>
    match s.staking.validators.lookup a with
    | none => s
    | some v => { s with staking := s.staking.unjail v }
  | .setValidatorHistoricalRewards a period r, s =>
    { s with distribution.historicalRewards :=
        s.distribution.historicalRewards.insert (a, period) r }
  | .setValidatorCurrentRewards a r, s =>
    { s with distribution.currentRewards := s.distribution.currentRewards.insert a r }
  | .setValidatorAccumulatedCommission a c, s =>
    { s with distribution.accumulatedCommission :=
        s.distribution.accumulatedCommission.insert a c }
  | .setFeePool c, s => { s with distribution.feePool := some c }
  -- the reading calls
  | _, s => s

/-- No call of the hooks writes the unbonding delegations, the last validator set or the bond
denomination. -/
theorem effect_staking_frame (c : SdkCall) (s : AppState) :
    (b.effect c s).staking.unbondingDelegations = s.staking.unbondingDelegations ∧
      (b.effect c s).staking.lastValidatorPowers = s.staking.lastValidatorPowers ∧
      (b.effect c s).staking.bondDenom = s.staking.bondDenom := by
  cases c with
  | delegate | setValidatorByConsAddr | unjail =>
    simp only [effect]
    split <;> exact ⟨rfl, rfl, rfl⟩
  | _ => exact ⟨rfl, rfl, rfl⟩

/-- Whether the signing info of a validator is tombstoned. -/
def isTombstoned (v : Validator) (s : AppState) : Bool :=
  match b.getConsAddr v with
  | .ok c => ((s.slashing.signingInfos.lookup c).map (·.tombstoned)).getD false
  | .error _ => false

/-- The calls that the SDK documents as errors: coins that are not there, blocked recipients,
delegations to a missing validator or in another coin, and unjailing a validator that is
missing, not jailed or tombstoned. -/
def mustRefuse : SdkCall → AppState → Bool
  | .burnCoins pool c, s => s.bank.balance (b.moduleAddress pool) c.denom < c.amount
  | .sendCoinsFromModuleToAccount pool dst c, s =>
    blockAccAddrs.any (fun m => b.moduleAddress m == dst) ||
      decide (s.bank.balance (b.moduleAddress pool) c.denom < c.amount)
  | .sendCoinsFromModuleToModule src _ c, s =>
    s.bank.balance (b.moduleAddress src) c.denom < c.amount
  | .delegate d a c, s =>
    (s.staking.validators.lookup a).isNone || c.denom != s.staking.bondDenom ||
      decide ((b.distributionHooks d a s).1.balance d c.denom < c.amount)
  | .setValidatorByConsAddr v, _ => v.consensusPubkey.isNone
  | .unjail a, s =>
    match s.staking.validators.lookup a with
    | none => true
    | some v => !v.jailed || b.isTombstoned v s
  | _, _ => false

end SdkBase

/-- **The SDK as the hooks meet it.** -/
structure Sdk extends SdkBase where
  /-- the error a call is refused with -/
  refuse : BlockContext → SdkCall → AppState → Option String
  /-- documented errors are returned -/
  refuses : ∀ {ctx c s}, toSdkBase.mustRefuse c s → (refuse ctx c s).isSome
  /-- a validator that is stored is found -/
  finds : ∀ {ctx a} {s : AppState}, (s.staking.validators.lookup a).isSome →
    refuse ctx (.getValidator a) s = none

/-- The text of a documented error. -/
def SdkCall.errorText : SdkCall → AppState → String
  | .delegate .., _ => "validator does not exist"
  | .unjail a, s =>
    match s.staking.validators.lookup a with
    | none => "address is not associated with any known validator"
    | some v =>
      -- what holds back a jailed validator is its tombstone
      if v.jailed then "validator still jailed; cannot be unjailed"
      else "validator not jailed; cannot be unjailed"
  | _, _ => "insufficient funds"

/-- The SDK that refuses only what it documents as an error. -/
def SdkBase.documented (b : SdkBase) : Sdk where
  toSdkBase := b
  refuse _ c s := if b.mustRefuse c s then some (c.errorText s) else none
  refuses h := by simp [h]
  finds _ := by simp [SdkBase.mustRefuse]

namespace Sdk

variable (sdk : Sdk) (ctx : BlockContext)

/-- A keeper call as a step: refused without effect, or with its documented effect. The error
is put behind `text`. -/
def step (text : String) (c : SdkCall) : Step AppState String where
  refuse s := (sdk.refuse ctx c s).map (text ++ ·)
  effect := sdk.effect c

/-- What a reading call returns. -/
def answer {α : Type} (c : SdkCall) (f : AppState → Except String α) (s : AppState) :
    Except String α :=
  match sdk.refuse ctx c s with
  | some e => .error e
  | none => f s

/-- `GetValidator` -/
def getValidator (a : ValAddress) : AppState → Except String Validator :=
  sdk.answer ctx (.getValidator a) fun s =>
    match s.staking.validators.lookup a with
    | some v => .ok v
    | none => .error "validator does not exist"

/-- `GetValidatorSigningInfo` -/
def getValidatorSigningInfo (c : ConsAddress) : AppState → Except String ValidatorSigningInfo :=
  sdk.answer ctx (.getValidatorSigningInfo c) fun s =>
    match s.slashing.signingInfos.lookup c with
    | some info => .ok info
    | none => .error "no validator signing info found"

/-- `FeePool.Get` -/
def getFeePool : AppState → Except String DecCoins :=
  sdk.answer ctx .getFeePool fun s =>
    match s.distribution.feePool with
    | some c => .ok c
    | none => .error "collections: not found"

/-- `BondDenom` -/
def getBondDenom : AppState → Except String String :=
  sdk.answer ctx .getBondDenom fun s => .ok s.staking.bondDenom

/-- `GetAllValidators` -/
def getAllValidators : AppState → Except String (Records ValAddress Validator) :=
  sdk.answer ctx .getAllValidators fun s => .ok s.staking.validators

/-- `IterateUnbondingDelegations` -/
def iterateUnbondingDelegations :
    AppState → Except String (Records (AccAddress × ValAddress) (List (Option ℤ))) :=
  sdk.answer ctx .iterateUnbondingDelegations fun s => .ok s.staking.unbondingDelegations

end Sdk

/-! ## The first validator of the local network -/

section Sample

/-- `nexusvaloper1m6jc29uar9n07mr0srspc7skjs7qvjkvw3h5kf` -/
def sampleOperator : ValAddress :=
  [222, 165, 133, 23, 157, 25, 102, 255, 108, 111, 128, 224, 28, 122, 22, 148, 60, 6, 74, 204]

def sampleKey : PubKey where
  key := [247, 113, 76, 118, 5, 248, 143, 235, 90, 20, 221, 24, 240, 16, 128, 166,
    207, 90, 201, 76, 100, 70, 202, 211, 26, 147, 97, 99, 239, 71, 208, 151]

def sampleConsAddress : ConsAddress :=
  [1, 189, 202, 205, 126, 166, 141, 249, 226, 49, 65, 143, 12, 70, 30, 171, 109, 0, 6, 70]

/-- `nexusvaloper17ze54jawc4etntrlz997wtkt8w3gwndvmehgex` -/
def secondOperator : ValAddress :=
  [240, 179, 74, 203, 174, 197, 114, 185, 172, 127, 17, 75, 231, 46, 203, 59, 162, 135, 77, 172]

def secondKey : PubKey where
  key := [37, 90, 62, 22, 100, 151, 40, 176, 2, 85, 77, 145, 52, 57, 53, 131,
    48, 164, 216, 38, 242, 70, 25, 43, 153, 22, 30, 134, 228, 112, 180, 224]

def secondConsAddress : ConsAddress :=
  [192, 10, 205, 10, 171, 50, 255, 171, 101, 3, 131, 27, 113, 249, 182, 192, 225, 61, 105, 72]

/-- The addresses of the local network. Nothing has been paid in fees, so there are no rewards
to withdraw. -/
def sampleBase : SdkBase where
  moduleAddress
    | "fee_collector" =>
      [241, 130, 150, 118, 219, 87, 118, 130, 233, 68, 252, 52, 147, 212, 81, 182, 127, 243, 226,
        159]
    | "distribution" =>
      [147, 53, 72, 69, 3, 2, 116, 205, 75, 241, 104, 106, 189, 96, 171, 40, 236, 82, 225, 167]
    | "mint" =>
      [220, 111, 23, 187, 236, 130, 79, 255, 143, 134, 88, 121, 102, 178, 4, 125, 182, 171, 115,
        103]
    | "bonded_tokens_pool" =>
      [79, 234, 118, 66, 123, 131, 69, 134, 30, 128, 163, 84, 10, 138, 157, 147, 111, 211, 147, 145]
    | "not_bonded_tokens_pool" =>
      [89, 17, 184, 68, 215, 188, 34, 70, 84, 254, 13, 205, 22, 186, 189, 45, 37, 63, 47, 223]
    | "nft" =>
      [184, 203, 16, 11, 18, 128, 123, 216, 168, 38, 120, 0, 71, 126, 229, 186, 75, 211, 135, 232]
    | _ => []
  pubKeyAddress pk := if pk = sampleKey then sampleConsAddress else secondConsAddress
  valAddressFromBech32
    | "nexusvaloper1m6jc29uar9n07mr0srspc7skjs7qvjkvw3h5kf" => .ok sampleOperator
    | "nexusvaloper17ze54jawc4etntrlz997wtkt8w3gwndvmehgex" => .ok secondOperator
    | _ => .error "decoding bech32 failed"
  newAnyWithValue _ := .ok ()
  distributionHooks _ _ s := (s.bank, s.distribution)
  distributionHooks_supply _ _ _ := rfl

def sampleSdk : Sdk := sampleBase.documented

/-- The bonded validator of the local network, with its million tokens. -/
def sampleValidator (jailed : Bool) : Validator where
  operatorAddress := sampleOperator
  consensusPubkey := some sampleKey
  jailed := jailed
  status := if jailed then .unbonding else .bonded
  tokens := some 1000000
  delegatorShares := 1000000 * 10 ^ 18
  minSelfDelegation := 1

/-- The local network with one validator, delegated to by its operator alone. -/
def sampleState (jailed : Bool) : AppState where
  auth := ⟨Finmap.singleton sampleOperator 0, 1⟩
  bank :=
    { balance := fun a d =>
        if a = sampleBase.moduleAddress (SdkBase.poolOf (sampleValidator jailed)) ∧
          d = defaultBondDenom then 1000000 else 0
      supply := fun d => if d = defaultBondDenom then 1000000 else 0 }
  staking :=
    { validators := Finmap.singleton sampleOperator (sampleValidator jailed)
      byConsAddr := Finmap.singleton sampleConsAddress sampleOperator
      powerIndex := if jailed then ∅ else {(sampleValidator false).powerKey}
      delegations := Finmap.singleton (sampleOperator, sampleOperator) (1000000 * 10 ^ 18)
      unbondingDelegations := ∅
      lastValidatorPowers := if jailed then ∅ else Finmap.singleton sampleOperator 1
      bondDenom := defaultBondDenom
      keyed := by
        intro a v h
        have ha : a = sampleOperator :=
          (Finmap.mem_singleton a sampleOperator _).mp (Finmap.mem_of_lookup_eq_some h)
        subst ha
        rw [Finmap.lookup_singleton_eq] at h
        rw [← Option.some.inj h]
        rfl }
  slashing :=
    { signingInfos := Finmap.singleton sampleConsAddress
        { startHeight := 0, indexOffset := 1, jailedUntil := 0, tombstoned := false
          missedBlocksCounter := 0 }
      addrPubkeyRelations := Finmap.singleton sampleConsAddress sampleKey }
  distribution :=
    { historicalRewards := Finmap.singleton (sampleOperator, 1) ⟨[], 2⟩
      currentRewards := Finmap.singleton sampleOperator ⟨[], 2⟩
      accumulatedCommission := Finmap.singleton sampleOperator []
      outstandingRewards := Finmap.singleton sampleOperator []
      feePool := some [] }

/-- A block one minute into the chain. -/
def sampleBlock : BlockContext := ⟨60, 60 * second⟩

end Sample

end NexusNode
