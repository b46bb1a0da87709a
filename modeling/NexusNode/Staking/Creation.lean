import NexusNode.Staking.Plan

/-!
# The two ways of creating a validator

`initAppForTestnet` writes the records of a new validator by hand, module by module, and calls
the creation hooks of the staking module in between. `add_validator` writes them by hand as well
and then delegates to the validator, but it does not call the hooks. Of all the kinds of records
in `RecordKind`, it misses the one that only the hooks write: the consensus key filed under its
address.

## Main definitions

* `RecordKind`, `RecordKind.Exists`: the kinds of records of a validator
* `SetupSdk`, `initAppForTestnet`: the validator of a testnet
* `recorded`: the staking state with the records of a new validator
* `funded`, `toppedUp`: the state before and after the delegation of a top-up
* `StartsPeriod`: what is assumed of the distribution hooks of a first delegation

## Main results

* `initAppForTestnet_exists`: the validator of a testnet has a record of every kind
* `executeAddValidator_inv`: how a missing validator is added
* `executeAddValidator_created`: what adding a missing validator does when it returns
* `executeAddValidator_exists_iff`: when an added validator has a record of every kind
-/

namespace NexusNode

open Program Proc

/-! ## Records -/

/-- The kinds of records that a validator has in the modules. -/
inductive RecordKind where
  | validator
  | byConsAddr
  | powerIndex
  | addrPubkeyRelation
  | historicalRewards
  | currentRewards
  | accumulatedCommission
  | outstandingRewards
  | signingInfo
  deriving DecidableEq

/-- There is a record of the kind for the validator `a` with the consensus address `c`. -/
def RecordKind.Exists (a : ValAddress) (c : ConsAddress) (s : AppState) : RecordKind → Prop
  | .validator => (s.staking.validators.lookup a).isSome
  | .byConsAddr => s.staking.byConsAddr.lookup c = some a
  | .powerIndex => ∃ p, (p, a) ∈ s.staking.powerIndex
  | .addrPubkeyRelation => (s.slashing.addrPubkeyRelations.lookup c).isSome
  | .historicalRewards => ∃ n, (s.distribution.historicalRewards.lookup (a, n)).isSome
  | .currentRewards => (s.distribution.currentRewards.lookup a).isSome
  | .accumulatedCommission => (s.distribution.accumulatedCommission.lookup a).isSome
  | .outstandingRewards => (s.distribution.outstandingRewards.lookup a).isSome
  | .signingInfo => (s.slashing.signingInfos.lookup c).isSome

/-- The kinds that `add_validator` files before it delegates, other than the staking records. -/
def RecordKind.isFiled : RecordKind → Bool
  | .historicalRewards | .currentRewards | .accumulatedCommission | .signingInfo => true
  | _ => false

section Calls

variable {b : SdkBase} {a : ValAddress} {c : ConsAddress} {s : AppState}

/-- Filing a record takes none away. -/
theorem RecordKind.Exists.effect {kind : RecordKind} (h : kind.Exists a c s) (hkind : kind.isFiled)
    {call : SdkCall} (hcall : call.isRecord ∨ ∃ v, call = .setValidator v) :
    kind.Exists a c (b.effect call s) := by
  rcases hcall with hcall | ⟨v, rfl⟩
  · cases call with
    | setValidatorSigningInfo c' info =>
      cases kind with
      | signingInfo => exact isSome_lookup_insert c' info h
      | _ => exact h
    | setValidatorHistoricalRewards a' n r =>
      cases kind with
      | historicalRewards =>
        obtain ⟨m, hm⟩ := h
        exact ⟨m, isSome_lookup_insert (a', n) r hm⟩
      | _ => exact h
    | setValidatorCurrentRewards a' r =>
      cases kind with
      | currentRewards => exact isSome_lookup_insert a' r h
      | _ => exact h
    | setValidatorAccumulatedCommission a' coins =>
      cases kind with
      | accumulatedCommission => exact isSome_lookup_insert a' coins h
      | _ => exact h
    | setValidatorByConsAddr v =>
      simp only [SdkBase.effect]
      split <;> (cases kind <;> first | exact h | cases hkind)
    | setNewValidatorByPowerIndex v => cases kind <;> first | exact h | cases hkind
    | setFeePool coins => cases kind <;> exact h
    | _ => cases hcall
  · cases kind <;> first | exact h | cases hkind

/-- No call of the hooks files a consensus key under its address. -/
theorem SdkBase.effect_addrPubkeyRelations (call : SdkCall) (s : AppState) :
    (b.effect call s).slashing.addrPubkeyRelations = s.slashing.addrPubkeyRelations := by
  cases call with
  | delegate | setValidatorByConsAddr | unjail =>
    simp only [effect]
    split <;> rfl
  | _ => rfl

/-- Filing a record other than those of the staking module. -/
theorem SdkBase.effect_staking_of_isRecord {call : SdkCall}
    (h : call.isRecord ∧ call.isIndexWrite = false) (s : AppState) :
    (b.effect call s).staking = s.staking := by
  obtain ⟨hrecord, hindex⟩ := h
  cases call with
  | setValidatorByConsAddr | setNewValidatorByPowerIndex => cases hindex
  | _ => first | rfl | cases hrecord

end Calls

/-! ## The testnet -/

/-- `distrkeeper.initializeValidator` -/
def Distribution.initializeValidator (s : Distribution) (a : ValAddress) : Distribution :=
  { s with
    historicalRewards := s.historicalRewards.insert (a, 0) ⟨[], 1⟩
    currentRewards := s.currentRewards.insert a ⟨[], 1⟩
    accumulatedCommission := s.accumulatedCommission.insert a []
    outstandingRewards := s.outstandingRewards.insert a [] }

/-- The keeper calls that only `initAppForTestnet` makes. -/
inductive SetupCall where
  | validatorsPowerStoreIterator
  | lastValidatorsIterator
  | setValidatorByPowerIndex (v : Validator)
  | setLastValidatorPower (a : ValAddress) (power : ℤ)
  | afterValidatorCreated (a : ValAddress)
  | setValidatorOutstandingRewards (a : ValAddress) (r : DecCoins)

/-- Their documented effects. -/
def SdkBase.setupEffect (b : SdkBase) : SetupCall → AppState → AppState
  | .setValidatorByPowerIndex v, s => { s with staking := s.staking.setByPowerIndex v }
  | .setLastValidatorPower a power, s =>
    { s with staking.lastValidatorPowers := s.staking.lastValidatorPowers.insert a power }
  | .afterValidatorCreated a, s =>
    match (s.staking.validators.lookup a).bind (·.consensusPubkey) with
    | none => s
    | some pk =>
      { s with slashing.addrPubkeyRelations :=
                 s.slashing.addrPubkeyRelations.insert (b.pubKeyAddress pk) pk
               distribution := s.distribution.initializeValidator a }
  | .setValidatorOutstandingRewards a r, s =>
    { s with distribution.outstandingRewards := s.distribution.outstandingRewards.insert a r }
  -- the iterators
  | _, s => s

/-- The SDK as `initAppForTestnet` meets it. -/
structure SetupSdk extends Sdk where
  refuseSetup : BlockContext → SetupCall → AppState → Option String
  /-- the address codec of the accounts -/
  accAddressFromBech32 : String → Except String AccAddress

structure ValArgs where
  newValAddr : ConsAddress
  newOperatorAddress : String
  newValPubKey : PubKey
  accountsToFund : List String

def valVotingPower : ℤ := 900000000000000

section Testnet

variable (sdk : SetupSdk) (ctx : BlockContext)

def SetupSdk.setupStep (c : SetupCall) : Step AppState String where
  refuse := sdk.refuseSetup ctx c
  effect := sdk.setupEffect c

/-- The validator of a testnet. -/
def testnetValidator (validator : ValAddress) (pubKey : PubKey) : Validator where
  operatorAddress := validator
  consensusPubkey := some pubKey
  jailed := false
  status := .bonded
  tokens := some valVotingPower
  delegatorShares := 10000000 * 10 ^ 18
  minSelfDelegation := 1

/-- Take all validators out of the stores. The unbonding queue is not part of the state. -/
def removeAllValidators : Hook Unit := do
  (sdk.setupStep ctx .validatorsPowerStoreIterator).run
  modify fun s => { s with staking.powerIndex := ∅ }
  (sdk.setupStep ctx .lastValidatorsIterator).run
  modify fun s => { s with staking.lastValidatorPowers := ∅ }
  modify fun s => { s with staking := { s.staking with validators := ∅, keyed := nofun } }

/-- The calls that create the validator of a testnet, each checked for an error. -/
def testnetSteps (validator : ValAddress) (newVal : Validator) : List (Step AppState String) :=
  [sdk.step ctx "" (.setValidator newVal),
    sdk.step ctx "" (.setValidatorByConsAddr newVal),
    sdk.setupStep ctx (.setValidatorByPowerIndex newVal),
    sdk.setupStep ctx (.setLastValidatorPower validator 0),
    sdk.setupStep ctx (.afterValidatorCreated validator),
    sdk.step ctx "" (.setValidatorHistoricalRewards validator 0 ⟨[], 1⟩),
    sdk.step ctx "" (.setValidatorCurrentRewards validator ⟨[], 1⟩),
    sdk.step ctx "" (.setValidatorAccumulatedCommission validator []),
    sdk.setupStep ctx (.setValidatorOutstandingRewards validator [])]

/-- Fund the accounts of a testnet out of the mint module. -/
def fundAccounts (coins : Coin) : List String → Hook Unit
  | [] => pure ()
  | accountStr :: accounts => do
    (sdk.step ctx "" (.mintCoins "mint" coins)).run
    let account ← ofExcept (sdk.accAddressFromBech32 accountStr)
    (sdk.step ctx "" (.sendCoinsFromModuleToAccount "mint" account coins)).run
    fundAccounts coins accounts

/-- The zero value of `time.Time`. -/
def zeroTime : Time := -62135596800 * second

/-- The context of an empty header. -/
def emptyContext : BlockContext := ⟨0, zeroTime⟩

/-- Replace all validators of the application by one. An error ends the program. -/
def initAppForTestnet (lastBlockHeight : Int64) (args : ValArgs) : Hook Unit := do
  let ctx := emptyContext
  ofExcept (sdk.newAnyWithValue args.newValPubKey)
  let validator ← ofExcept (sdk.valAddressFromBech32 args.newOperatorAddress)
  removeAllValidators sdk ctx
  runSteps (testnetSteps sdk ctx validator (testnetValidator validator args.newValPubKey))
  -- the error of this call is dropped
  let _ ← attempt (sdk.step ctx "" (.setValidatorSigningInfo args.newValAddr
    ⟨lastBlockHeight - 1, 0, zeroTime, false, 0⟩)).run
  let bondDenom ← ask (sdk.getBondDenom ctx)
  fundAccounts sdk ctx ⟨bondDenom, 1000000000⟩ args.accountsToFund

/-- Funding accounts moves coins only. -/
theorem within_fundAccounts (coins : Coin) (accounts : List String) :
    Within (Order.Preimage (fun s : AppState => (s.staking, s.slashing, s.distribution)) Eq)
      (fundAccounts sdk ctx coins accounts) := by
  induction accounts with
  | nil => exact .pure ()
  | cons accountStr accounts ih =>
    refine .bind (Step.within_run fun _ => rfl) fun _ => .bind (.ask _) fun account => ?_
    exact .bind (Step.within_run fun _ => rfl) fun _ => ih

theorem RecordKind.Exists.congr {a : ValAddress} {c : ConsAddress} {s t : AppState}
    {kind : RecordKind} (h : kind.Exists a c s)
    (heq : (s.staking, s.slashing, s.distribution) = (t.staking, t.slashing, t.distribution)) :
    kind.Exists a c t := by
  simp only [Prod.mk.injEq] at heq
  obtain ⟨hstaking, hslashing, hdistribution⟩ := heq
  cases kind <;> simpa only [Exists, hstaking, hslashing, hdistribution] using h

/-- What the calls that create the validator of a testnet leave behind: everything but the
signing info. -/
theorem testnetSteps_exists {a : ValAddress} {pubKey : PubKey} {s t : AppState}
    (h : runSteps (testnetSteps sdk ctx a (testnetValidator a pubKey)) s = (.ok (), t))
    {kind : RecordKind} (hkind : kind ≠ .signingInfo) :
    kind.Exists a (sdk.pubKeyAddress pubKey) t := by
  rw [← List.take_append_drop 4 (testnetSteps sdk ctx a (testnetValidator a pubKey))] at h
  obtain ⟨u, hfirst, hrest⟩ := runSteps_append_ok h
  obtain ⟨hv, hcons, hpower⟩ :
      u.staking.validators.lookup a = some (testnetValidator a pubKey) ∧
        u.staking.byConsAddr.lookup (sdk.pubKeyAddress pubKey) = some a ∧
        ∃ p, (p, a) ∈ u.staking.powerIndex := by
    obtain ⟨-, rfl⟩ := runSteps_eq_ok_iff.mp hfirst
    exact ⟨Finmap.lookup_insert _, Finmap.lookup_insert _, _, Finset.mem_insert_self _ _⟩
  obtain ⟨-, rfl⟩ := runSteps_eq_ok_iff.mp hrest
  simp only [testnetSteps, List.drop_succ_cons, List.drop_zero, effects, List.foldl_cons,
    List.foldl_nil, Sdk.step, SetupSdk.setupStep, SdkBase.effect, SdkBase.setupEffect, hv,
    Option.bind_some, testnetValidator]
  cases kind with
  | validator => exact Option.isSome_iff_exists.mpr ⟨_, hv⟩
  | byConsAddr => exact hcons
  | powerIndex => exact hpower
  | historicalRewards =>
    exact ⟨0, Option.isSome_iff_exists.mpr ⟨_, Finmap.lookup_insert _⟩⟩
  | signingInfo => exact absurd rfl hkind
  | _ => exact Option.isSome_iff_exists.mpr ⟨_, Finmap.lookup_insert _⟩

/-- **The records of the validator of a testnet.** With the address of its key and a signing info
that is written, it has a record of every kind. -/
theorem initAppForTestnet_exists {lastBlockHeight : Int64} {args : ValArgs} {a : ValAddress}
    {s t : AppState} (h : initAppForTestnet sdk lastBlockHeight args s = (.ok (), t))
    (ha : sdk.valAddressFromBech32 args.newOperatorAddress = .ok a)
    (haddress : args.newValAddr = sdk.pubKeyAddress args.newValPubKey)
    (hinfo : ∀ ctx info u, sdk.refuse ctx (.setValidatorSigningInfo args.newValAddr info) u = none)
    (kind : RecordKind) : kind.Exists a args.newValAddr t := by
  obtain ⟨⟨⟩, s₁, hbuild, h⟩ := bind_eq_ok_iff.mp h
  obtain ⟨x, s₂, hdecode, h⟩ := bind_eq_ok_iff.mp h
  obtain rfl : x = a := Except.ok.inj ((ask_eq_ok_iff.mp hdecode).1.symm.trans ha)
  obtain ⟨⟨⟩, s₃, hremove, h⟩ := bind_eq_ok_iff.mp h
  obtain ⟨⟨⟩, s₄, hsteps, h⟩ := bind_eq_ok_iff.mp h
  obtain ⟨r, s₅, hsigning, h⟩ := bind_eq_ok_iff.mp h
  obtain ⟨bondDenom, s₆, hdenom, hfund⟩ := bind_eq_ok_iff.mp h
  obtain ⟨-, rfl⟩ := ask_eq_ok_iff.mp hdenom
  have hcoins := within_fundAccounts sdk emptyContext ⟨bondDenom, 1000000000⟩ args.accountsToFund s₅
  rw [hfund] at hcoins
  refine RecordKind.Exists.congr ?_ hcoins
  have hwritten := attempt_of_ok (Step.run_of_accepted
    (c := sdk.step emptyContext "" (.setValidatorSigningInfo args.newValAddr
      ⟨lastBlockHeight - 1, 0, zeroTime, false, 0⟩)) (s := s₄)
    (by simp [Sdk.step, hinfo]))
  obtain rfl := (Prod.mk.inj (hwritten.symm.trans hsigning)).2
  by_cases hkind : kind = .signingInfo
  · subst hkind
    exact Option.isSome_iff_exists.mpr ⟨_, Finmap.lookup_insert _⟩
  · have hexists := testnetSteps_exists sdk emptyContext hsteps hkind
    rw [← haddress] at hexists
    cases kind <;> first | exact hexists | exact absurd rfl hkind

end Testnet

/-! ## Adding a validator -/

/-- The staking state with the record of a new validator and its two index entries. -/
def recorded (b : SdkBase) (pubKey : PubKey) (v : Validator) (s : Staking) : Staking :=
  { (s.setValidator v).indexByPower v with
    byConsAddr := s.byConsAddr.insert (b.pubKeyAddress pubKey) v.operatorAddress }

theorem lookup_of_recorded {b : SdkBase} {a : ValAddress} {pubKey : PubKey} {m : ℤ}
    {s u : Staking} (h : u = recorded b pubKey (storedValidator a pubKey m) s) :
    u.validators.lookup a = some (storedValidator a pubKey m) := by
  rw [h]
  exact Finmap.lookup_insert _

section Adding

variable {sdk : Sdk} (ctx : BlockContext) {a : ValAddress} {pubKey : PubKey} {v : Validator}
  {s t : AppState}

theorem performs_recordSteps_all (a : ValAddress) (pubKey : PubKey) (v : Validator) :
    ∀ d ∈ recordSteps sdk ctx a pubKey v,
      Performs sdk (fun call => call.isRecord ∨ ∃ w, call = .setValidator w) d := by
  intro d hd
  rcases List.mem_cons.mp hd with rfl | hd
  · exact .step (.inr ⟨v, rfl⟩)
  · exact (performs_recordSteps sdk ctx a pubKey v d hd).mono fun _ => .inl

/-- Storing a validator, as the staking module sees it. -/
theorem recordSteps_staking (hkey : v.consensusPubkey = some pubKey)
    (h : runSteps (recordSteps sdk ctx a pubKey v) s = (.ok (), t)) :
    t.staking = recorded sdk.toSdkBase pubKey v s.staking := by
  rw [← List.take_append_drop 3 (recordSteps sdk ctx a pubKey v)] at h
  obtain ⟨u, hfirst, hrest⟩ := runSteps_append_ok h
  have hu : u.staking = recorded sdk.toSdkBase pubKey v s.staking := by
    obtain ⟨-, hfirst⟩ := runSteps_cons_ok hfirst
    obtain ⟨-, hfirst⟩ := runSteps_cons_ok hfirst
    obtain ⟨-, hfirst⟩ := runSteps_cons_ok hfirst
    obtain rfl := (Prod.mk.inj hfirst).2
    simp only [Sdk.step, SdkBase.effect, SdkBase.getConsAddr, hkey]
    rfl
  have hkeep : (runSteps ((recordSteps sdk ctx a pubKey v).drop 3) u).2.staking =
      recorded sdk.toSdkBase pubKey v s.staking := by
    refine runSteps_keeps (P := fun x : AppState =>
      x.staking = recorded sdk.toSdkBase pubKey v s.staking) (fun d hd => ?_) hu
    refine (performs_recordSteps_drop sdk ctx a pubKey v d hd).keeps (fun _ _ hx => hx) ?_
    intro call hcall x hx
    rw [SdkBase.effect_staking_of_isRecord hcall, hx]
  rwa [hrest] at hkeep

/-- Storing a validator files a record of every kind that it is meant to. -/
theorem recordSteps_exists (h : runSteps (recordSteps sdk ctx a pubKey v) s = (.ok (), t))
    {kind : RecordKind} (hkind : kind.isFiled) : kind.Exists a (sdk.pubKeyAddress pubKey) t := by
  have hkeep : ∀ d ∈ recordSteps sdk ctx a pubKey v, ∀ u,
      kind.Exists a (sdk.pubKeyAddress pubKey) u →
        kind.Exists a (sdk.pubKeyAddress pubKey) (d.effect u) := by
    intro d hd u hu
    refine (performs_recordSteps_all ctx a pubKey v d hd).keeps
      (P := fun x => kind.Exists a (sdk.pubKeyAddress pubKey) x) ?_ ?_ u hu
    · intro x _ hx
      cases kind <;> exact hx
    · exact fun call hcall x hx => hx.effect hkind hcall
  have hfiled : ∀ d ∈ recordSteps sdk ctx a pubKey v,
      (∀ u, d.refuse u = none → kind.Exists a (sdk.pubKeyAddress pubKey) (d.effect u)) →
        kind.Exists a (sdk.pubKeyAddress pubKey) t := fun d hd hestablish =>
    runSteps_ok_of_mem (P := fun u => kind.Exists a (sdk.pubKeyAddress pubKey) u) h hd
      hestablish hkeep
  cases kind with
  | historicalRewards =>
    refine hfiled (sdk.step ctx "failed to set validator historical rewards: "
      (.setValidatorHistoricalRewards a 0 ⟨[], 1⟩)) (by simp [recordSteps]) fun u _ => ?_
    exact ⟨0, Option.isSome_iff_exists.mpr ⟨_, Finmap.lookup_insert _⟩⟩
  | currentRewards =>
    refine hfiled (sdk.step ctx "failed to set validator current rewards: "
      (.setValidatorCurrentRewards a ⟨[], 1⟩)) (by simp [recordSteps]) fun u _ => ?_
    exact Option.isSome_iff_exists.mpr ⟨_, Finmap.lookup_insert _⟩
  | accumulatedCommission =>
    refine hfiled (sdk.step ctx "failed to set validator accumulated commission: "
      (.setValidatorAccumulatedCommission a [])) (by simp [recordSteps]) fun u _ => ?_
    exact Option.isSome_iff_exists.mpr ⟨_, Finmap.lookup_insert _⟩
  | signingInfo =>
    refine hfiled ((sdk.step ctx "failed to set signing info: "
      (.setValidatorSigningInfo (sdk.pubKeyAddress pubKey) (newSigningInfo ctx))).ifMissing
        (sdk.getValidatorSigningInfo ctx (sdk.pubKeyAddress pubKey))) (by simp [recordSteps])
      fun u _ => ?_
    cases hread : sdk.getValidatorSigningInfo ctx (sdk.pubKeyAddress pubKey) u with
    | ok info =>
      obtain ⟨-, hinfo⟩ := Sdk.getValidatorSigningInfo_eq_ok_iff.mp hread
      simp only [Step.ifMissing, hread]
      exact Option.isSome_iff_exists.mpr ⟨info, hinfo⟩
    | error e =>
      simp only [Step.ifMissing, hread]
      exact Option.isSome_iff_exists.mpr ⟨_, Finmap.lookup_insert _⟩
  | _ => cases hkind

/-- The state in which the coins of a top-up have reached the operator. -/
def funded (b : SdkBase) (a : ValAddress) (coins : Coin) (s : AppState) : AppState :=
  b.effect (.sendCoinsFromModuleToAccount bondedPoolName a coins)
    (b.effect (.mintCoins bondedPoolName coins) s)

/-- The state after a top-up. -/
def toppedUp (b : SdkBase) (a : ValAddress) (coins : Coin) (s : AppState) : AppState :=
  b.effect (.delegate a a coins) (funded b a coins s)

/-- A top-up goes through only where the coins may be sent and delegated. -/
theorem topUpSteps_ok {n : ℤ} {f : String → String} (hn : v.tokens.getD 0 < n)
    (h : runSteps ((topUpSteps sdk ctx a v n).map (Step.wrap f)) s = (.ok (), t)) :
    sdk.mustRefuse (.sendCoinsFromModuleToAccount bondedPoolName a (additionalTokens v n))
        (sdk.effect (.mintCoins bondedPoolName (additionalTokens v n)) s) = false ∧
      sdk.mustRefuse (.delegate a a (additionalTokens v n))
        (funded sdk.toSdkBase a (additionalTokens v n) s) = false ∧
      t = toppedUp sdk.toSdkBase a (additionalTokens v n) s := by
  rw [topUpSteps, if_pos hn] at h
  obtain ⟨-, h⟩ := runSteps_cons_ok h
  obtain ⟨hsend, h⟩ := runSteps_cons_ok h
  obtain ⟨hdelegate, h⟩ := runSteps_cons_ok h
  obtain rfl := (Prod.mk.inj h).2
  exact ⟨sdk.mustRefuse_of_wrap hsend, sdk.mustRefuse_of_wrap hdelegate, rfl⟩

theorem additionalTokens_newValidator (a : ValAddress) (pubKey : PubKey) (n : ℤ) :
    additionalTokens (newValidator a pubKey) n = ⟨defaultBondDenom, n.toNat⟩ := by
  simp [additionalTokens, newValidator]

/-- Storing a validator moves no coins. -/
theorem recordSteps_bank (h : runSteps (recordSteps sdk ctx a pubKey v) s = (.ok (), t)) :
    t.bank = s.bank := by
  have hkeep : (runSteps (recordSteps sdk ctx a pubKey v) s).2.bank = s.bank := by
    refine runSteps_keeps (P := fun u : AppState => u.bank = s.bank) (fun d hd => ?_) rfl
    refine (performs_recordSteps_all ctx a pubKey v d hd).keeps (fun _ _ hu => hu) ?_
    rintro call (hcall | ⟨w, rfl⟩) u hu
    · rw [(sdk.effect_of_isRecord hcall u).1, hu]
    · exact hu
  rwa [h] at hkeep

/-- **How a missing validator is added.** When it returns, `min_self_delegation` was positive:
all records have been filed, and then the initial tokens were minted, sent and delegated. -/
theorem executeAddValidator_inv {opts : Option AddValidatorOptions}
    (hmissing : s.staking.validators.lookup a = none)
    (h : executeAddValidator sdk ctx a opts s = (.ok (), t)) :
    ∃ pubKey n m w, usableOptions opts = some (pubKey, n) ∧
      opts.bind (·.minSelfDelegation) = some m ∧ 0 < m ∧
      w.staking = recorded sdk.toSdkBase pubKey (storedValidator a pubKey m) s.staking ∧
      w.bank = s.bank ∧
      (∀ kind : RecordKind, kind.isFiled → kind.Exists a (sdk.pubKeyAddress pubKey) w) ∧
      sdk.mustRefuse (.sendCoinsFromModuleToAccount bondedPoolName a ⟨defaultBondDenom, n.toNat⟩)
        (sdk.effect (.mintCoins bondedPoolName ⟨defaultBondDenom, n.toNat⟩) w) = false ∧
      sdk.mustRefuse (.delegate a a ⟨defaultBondDenom, n.toNat⟩)
        (funded sdk.toSdkBase a ⟨defaultBondDenom, n.toNat⟩ w) = false ∧
      t = toppedUp sdk.toSdkBase a ⟨defaultBondDenom, n.toNat⟩ w := by
  cases hopts : usableOptions opts with
  | none =>
    obtain ⟨e, he⟩ := executeAddValidator_of_unusable sdk ctx hmissing hopts
    exact nomatch he.symm.trans h
  | some usable =>
    obtain ⟨pubKey, n⟩ := usable
    rw [executeAddValidator_eq sdk ctx hmissing hopts, createSteps] at h
    obtain ⟨-, h⟩ := runSteps_cons_ok h
    obtain ⟨-, h⟩ := runSteps_cons_ok h
    rw [buildStep, Step.check_effect] at h
    obtain ⟨w, hpersist, htopUp⟩ := runSteps_append_ok h
    obtain ⟨hsend, hdelegate, ht⟩ := topUpSteps_ok ctx (usableOptions_pos hopts) htopUp
    rw [additionalTokens_newValidator] at hsend hdelegate ht
    rcases persistSteps_eq sdk ctx a pubKey (opts.bind (·.minSelfDelegation)) with
      hnil | ⟨m, hm, hpos, hsteps⟩
    · -- without a record the delegation is refused
      rw [hnil] at hpersist
      obtain rfl := (Prod.mk.inj hpersist).2
      have hnone : (funded sdk.toSdkBase a ⟨defaultBondDenom, n.toNat⟩
          ((accountStep a).effect s)).staking.validators.lookup a = none := hmissing
      simp [SdkBase.mustRefuse, hnone] at hdelegate
    · rw [hsteps] at hpersist
      obtain ⟨w', hrecords, hcheck⟩ := runSteps_append_ok hpersist
      obtain ⟨-, hcheck⟩ := runSteps_cons_ok hcheck
      rw [Step.check_effect] at hcheck
      obtain rfl := (Prod.mk.inj hcheck).2
      have hstaking := recordSteps_staking ctx (v := storedValidator a pubKey m) rfl hrecords
      have hbank := recordSteps_bank ctx hrecords
      exact ⟨pubKey, n, m, w', rfl, hm, hpos, hstaking, hbank, fun kind hkind =>
        recordSteps_exists ctx hrecords hkind, hsend, hdelegate, ht⟩

/-- **What adding a validator does.** Adding a missing validator, when it returns, has filed all
its records and then delegated the initial tokens to it. -/
theorem executeAddValidator_created {opts : Option AddValidatorOptions}
    (hmissing : s.staking.validators.lookup a = none)
    (h : executeAddValidator sdk ctx a opts s = (.ok (), t)) :
    ∃ pubKey n m u, usableOptions opts = some (pubKey, n) ∧
      u.staking = recorded sdk.toSdkBase pubKey (storedValidator a pubKey m) s.staking ∧
      (∀ kind : RecordKind, kind.isFiled → kind.Exists a (sdk.pubKeyAddress pubKey) u) ∧
      t = sdk.effect (.delegate a a ⟨defaultBondDenom, n.toNat⟩) u := by
  obtain ⟨pubKey, n, m, w, hopts, -, -, hstaking, -, hfiled, -, -, ht⟩ :=
    executeAddValidator_inv ctx hmissing h
  refine ⟨pubKey, n, m, funded sdk.toSdkBase a ⟨defaultBondDenom, n.toNat⟩ w, hopts, hstaking,
    fun kind hkind => ?_, ht⟩
  have hexists := hfiled kind hkind
  cases kind <;> exact hexists

/-- The staking state that adding a missing validator leaves. -/
theorem executeAddValidator_staking {opts : Option AddValidatorOptions}
    (hmissing : s.staking.validators.lookup a = none)
    (h : executeAddValidator sdk ctx a opts s = (.ok (), t)) :
    ∃ pubKey n m, usableOptions opts = some (pubKey, n) ∧
      t.staking = (recorded sdk.toSdkBase pubKey (storedValidator a pubKey m) s.staking).delegate a
        (storedValidator a pubKey m) n.toNat := by
  obtain ⟨pubKey, n, m, u, hopts, hstaking, -, rfl⟩ := executeAddValidator_created ctx hmissing h
  have hv := lookup_of_recorded hstaking
  refine ⟨pubKey, n, m, hopts, ?_⟩
  simp only [SdkBase.effect, hv]
  rw [hstaking]

/-- No outcome of `add_validator` files a consensus key under its address. -/
theorem executeAddValidator_addrPubkeyRelations (a : ValAddress)
    (opts : Option AddValidatorOptions) (s : AppState) :
    (executeAddValidator sdk ctx a opts s).2.slashing.addrPubkeyRelations =
      s.slashing.addrPubkeyRelations := by
  refine executeAddValidator_induct sdk ctx (P := fun u =>
    u.slashing.addrPubkeyRelations = s.slashing.addrPubkeyRelations) rfl fun _ pubKey n _ => ?_
  refine runSteps_keeps (P := fun u : AppState =>
    u.slashing.addrPubkeyRelations = s.slashing.addrPubkeyRelations) (fun d hd => ?_) rfl
  refine (performs_createSteps sdk ctx a pubKey n _ d hd).keeps (fun _ _ hu => hu) ?_
  intro call _ u hu
  rw [SdkBase.effect_addrPubkeyRelations, hu]

/-- The distribution hooks of a delegation to a validator without tokens start its next period:
they keep a record of every kind filed for it, and write its outstanding rewards. -/
def StartsPeriod (b : SdkBase) : Prop :=
  ∀ d a c s v, s.staking.validators.lookup a = some v → v.tokens.getD 0 = 0 →
    (∀ kind : RecordKind, kind.isFiled → kind.Exists a c s) →
    ∀ kind : RecordKind, kind.isFiled ∨ kind = .outstandingRewards →
      kind.Exists a c { s with distribution := (b.distributionHooks d a s).2 }

/-- The delegation to a validator that has just been stored, without tokens, and whose records
have been filed completes them, the relation of its key aside. -/
theorem exists_of_delegate (hperiod : StartsPeriod sdk.toSdkBase) {u : AppState}
    {minSelfDelegation n : ℤ}
    (hstaking : u.staking =
      recorded sdk.toSdkBase pubKey (storedValidator a pubKey minSelfDelegation) s.staking)
    (hfiled : ∀ kind : RecordKind, kind.isFiled → kind.Exists a (sdk.pubKeyAddress pubKey) u)
    {kind : RecordKind} (hkind : kind ≠ .addrPubkeyRelation) :
    kind.Exists a (sdk.pubKeyAddress pubKey)
      (sdk.effect (.delegate a a ⟨defaultBondDenom, n.toNat⟩) u) := by
  have hv := lookup_of_recorded hstaking
  have hpaid := hperiod a a (sdk.pubKeyAddress pubKey) u _ hv rfl hfiled
  simp only [SdkBase.effect, hv]
  cases kind with
  | addrPubkeyRelation => exact absurd rfl hkind
  | validator => exact Option.isSome_iff_exists.mpr ⟨_, Finmap.lookup_insert _⟩
  | byConsAddr =>
    change u.staking.byConsAddr.lookup _ = some a
    rw [hstaking]
    exact Finmap.lookup_insert _
  | powerIndex => exact ⟨_, Finset.mem_insert_self _ _⟩
  | outstandingRewards => exact hpaid .outstandingRewards (.inr rfl)
  | historicalRewards => exact hpaid .historicalRewards (.inl rfl)
  | currentRewards => exact hpaid .currentRewards (.inl rfl)
  | accumulatedCommission => exact hpaid .accumulatedCommission (.inl rfl)
  | signingInfo => exact hpaid .signingInfo (.inl rfl)

/-- **The records of an added validator.** Adding a missing validator, when it returns, leaves a
record of every kind exactly when the consensus key was filed under its address before. -/
theorem executeAddValidator_exists_iff (hperiod : StartsPeriod sdk.toSdkBase)
    {opts : Option AddValidatorOptions} (hmissing : s.staking.validators.lookup a = none)
    (h : executeAddValidator sdk ctx a opts s = (.ok (), t)) :
    ∃ pubKey, opts.bind (·.pubKey) = some pubKey ∧
      ((∀ kind : RecordKind, kind.Exists a (sdk.pubKeyAddress pubKey) t) ↔
        RecordKind.addrPubkeyRelation.Exists a (sdk.pubKeyAddress pubKey) s) := by
  have hrelations : t.slashing.addrPubkeyRelations = s.slashing.addrPubkeyRelations := by
    have hkept : (executeAddValidator sdk ctx a opts s).2.slashing.addrPubkeyRelations =
      s.slashing.addrPubkeyRelations := executeAddValidator_addrPubkeyRelations ctx a opts s
    rwa [h] at hkept
  obtain ⟨pubKey, n, m, u, hopts, hstaking, hfiled, ht⟩ :=
    executeAddValidator_created ctx hmissing h
  refine ⟨pubKey, usableOptions_pubKey hopts, fun hall => ?_, fun hrelation kind => ?_⟩
  · have hexists := hall .addrPubkeyRelation
    simpa only [RecordKind.Exists, hrelations] using hexists
  · by_cases hkind : kind = .addrPubkeyRelation
    · subst hkind
      simpa only [RecordKind.Exists, hrelations] using hrelation
    · rw [ht]
      exact exists_of_delegate hperiod hstaking hfiled hkind

end Adding

section Sample

/-- `IncrementValidatorPeriod` for `a`, where nothing has been paid in fees, followed by the first
reference of a delegation to the period. -/
def Distribution.startPeriod (s : Distribution) (a : ValAddress) : Distribution :=
  let n := ((s.currentRewards.lookup a).map (·.period)).getD 0
  { s with
    historicalRewards := (s.historicalRewards.erase (a, n - 1)).insert (a, n) ⟨[], 2⟩
    currentRewards := s.currentRewards.insert a ⟨[], n + 1⟩
    outstandingRewards := s.outstandingRewards.insert a ((s.outstandingRewards.lookup a).getD []) }

/-- The local network with the periods of its validators. -/
def periodBase : SdkBase :=
  { sampleBase with
    distributionHooks := fun _ a s => (s.bank, s.distribution.startPeriod a)
    distributionHooks_supply := fun _ _ _ => rfl }

theorem startsPeriod_periodBase : StartsPeriod periodBase := by
  intro d a c s v _ _ hfiled kind hkind
  cases kind with
  | historicalRewards => exact ⟨_, Option.isSome_iff_exists.mpr ⟨_, Finmap.lookup_insert _⟩⟩
  | currentRewards => exact Option.isSome_iff_exists.mpr ⟨_, Finmap.lookup_insert _⟩
  | outstandingRewards => exact Option.isSome_iff_exists.mpr ⟨_, Finmap.lookup_insert _⟩
  | accumulatedCommission => exact hfiled .accumulatedCommission rfl
  | signingInfo => exact hfiled .signingInfo rfl
  | _ => simp [RecordKind.isFiled] at hkind

/-- The second validator with two million tokens. -/
def secondOptions : AddValidatorOptions := ⟨some secondKey, some 2000000, some 1⟩

/-- The local network, where the key of the second validator has been used before. -/
def relatedState : AppState :=
  { sampleState false with
    slashing := { (sampleState false).slashing with
      addrPubkeyRelations :=
        (sampleState false).slashing.addrPubkeyRelations.insert secondConsAddress secondKey } }

/-- A key that is filed already stays filed, and the other records are written. -/
theorem executeAddValidator_exists_related :
    (executeAddValidator periodBase.documented sampleBlock secondOperator (some secondOptions)
      relatedState).1 = .ok () ∧
    ∀ kind : RecordKind, kind.Exists secondOperator secondConsAddress
      (executeAddValidator periodBase.documented sampleBlock secondOperator (some secondOptions)
        relatedState).2 := by
  have hmissing : relatedState.staking.validators.lookup secondOperator = none := by
    decide +kernel
  have hadd : executeAddValidator periodBase.documented sampleBlock secondOperator
      (some secondOptions) relatedState = (.ok (), _) := Prod.ext (by decide +kernel) rfl
  have hperiod : StartsPeriod periodBase.documented.toSdkBase := startsPeriod_periodBase
  obtain ⟨pubKey, hkey, hiff⟩ := executeAddValidator_exists_iff sampleBlock hperiod hmissing hadd
  obtain rfl : secondKey = pubKey := Option.some.inj hkey
  refine ⟨congrArg Prod.fst hadd, hiff.mpr ?_⟩
  exact Option.isSome_iff_exists.mpr ⟨secondKey, Finmap.lookup_insert _⟩

/-- The second validator of the local network is added with all but one of its records: evidence
against its key is ignored. -/
theorem executeAddValidator_lacks_relation :
    (sampleState false).staking.validators.lookup secondOperator = none ∧
    (executeAddValidator periodBase.documented sampleBlock secondOperator (some secondOptions)
      (sampleState false)).1 = .ok () ∧
    ¬ RecordKind.addrPubkeyRelation.Exists secondOperator secondConsAddress
      (executeAddValidator periodBase.documented sampleBlock secondOperator (some secondOptions)
        (sampleState false)).2 := by
  refine ⟨by decide +kernel, by decide +kernel, ?_⟩
  unfold RecordKind.Exists
  decide +kernel

end Sample

end NexusNode
