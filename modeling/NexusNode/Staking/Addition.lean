import NexusNode.Staking.Creation
import NexusNode.Staking.HookConfig
import NexusNode.Staking.Pools

/-!
# What adding a validator achieves

A hook that passes the checks at the start of the node is meant to add its validator: with a
record, the initial tokens and the shares for them. The record is only stored when
`min_self_delegation` is positive, and this is not checked when the hook is loaded. The tokens
are minted and sent to the operator either way, and without a record they cannot be delegated.

A validator that is there already is left as it is, whatever its tokens and even if it is jailed.

## Main definitions

* `AddLaws`: what is assumed of the SDK
* `Addable`: the states and options with which a validator can be added
* `Added`: the state after the validator has been added

## Main results

* `executeAddValidator_added_iff`: when a hook that was loaded adds its validator
* `executeAddValidator_present_iff`: when a validator that is there ends up as documented
-/

namespace NexusNode

open Program Proc

/-- What is assumed of the SDK: it refuses only what it documents as an error, it packs public
keys, and a delegation without shares earns no rewards. -/
structure AddLaws (sdk : Sdk) : Prop where
  documented : ∀ ctx c s, sdk.mustRefuse c s = false → sdk.refuse ctx c s = none
  packs : ∀ pubKey, sdk.newAnyWithValue pubKey = .ok ()
  rewards : ∀ d a s, (s.staking.delegations.lookup (d, a)).getD 0 = 0 →
    (sdk.distributionHooks d a s).1 = s.bank

/-- A validator can be added: its `min_self_delegation` is positive, the bond denomination is the
one of the minted tokens, the operator may be sent coins, and it has no shares left. -/
structure Addable (b : SdkBase) (a : ValAddress) (opts : AddValidatorOptions) (s : AppState) :
    Prop where
  minSelfDelegation : 0 < opts.minSelfDelegation.getD 0
  bondDenom : s.staking.bondDenom = defaultBondDenom
  unblocked : ∀ m ∈ blockAccAddrs, b.moduleAddress m ≠ a
  noShares : (s.staking.delegations.lookup (a, a)).getD 0 = 0

/-- Between `s` and `t` the validator `a` has been added with `n` tokens, all its own. -/
structure Added (b : SdkBase) (a : ValAddress) (n : ℤ) (s t : AppState) : Prop where
  record : ∃ v, t.staking.validators.lookup a = some v ∧ v.jailed = false ∧ v.tokens = some n ∧
    v.delegatorShares = n * 10 ^ 18
  selfDelegation : t.staking.delegations.lookup (a, a) = some (n * 10 ^ 18)
  pool : (t.bank.balance (b.moduleAddress bondedPoolName) defaultBondDenom : ℤ) =
    s.bank.balance (b.moduleAddress bondedPoolName) defaultBondDenom + n
  supply : (t.bank.supply defaultBondDenom : ℤ) = s.bank.supply defaultBondDenom + n
  balance : ∀ d, t.bank.balance a d = s.bank.balance a d

/-! ## The coins of a top-up -/

section TopUp

variable {b : SdkBase} {a : ValAddress} {coins : Coin} {v : Validator} {w : AppState}

theorem mustRefuse_send_minted : b.mustRefuse (.sendCoinsFromModuleToAccount bondedPoolName a coins)
      (b.effect (.mintCoins bondedPoolName coins) w) = false ↔
    ∀ m ∈ blockAccAddrs, b.moduleAddress m ≠ a := by
  simp [SdkBase.mustRefuse, SdkBase.effect, Bank.mintCoins, Bank.balance_addCoins]

theorem balance_funded (x : AccAddress) (d : String) :
    (funded b a coins w).bank.balance x d =
      w.bank.balance x d + if x = a ∧ d = coins.denom then coins.amount else 0 := by
  simp only [funded, SdkBase.effect, Bank.sendCoins, Bank.mintCoins, Bank.balance_addCoins,
    Bank.balance_subCoins]
  split_ifs <;> omega

/-- Only coins of the bond denomination are delegated. -/
theorem mustRefuse_delegate_denom
    (h : b.mustRefuse (.delegate a a coins) (funded b a coins w) = false) :
    w.staking.bondDenom = coins.denom := by
  simp only [SdkBase.mustRefuse, Bool.or_eq_false_iff, bne_eq_false_iff_eq] at h
  exact h.1.2.symm

/-- Minted coins that are sent to the operator can be delegated, in the bond denomination. -/
theorem mustRefuse_delegate_funded (hv : w.staking.validators.lookup a = some v)
    (hdenom : w.staking.bondDenom = coins.denom)
    (hpaid : (b.distributionHooks a a (funded b a coins w)).1 = (funded b a coins w).bank) :
    b.mustRefuse (.delegate a a coins) (funded b a coins w) = false := by
  have hv' : (funded b a coins w).staking.validators.lookup a = some v := hv
  have hdenom' : (funded b a coins w).staking.bondDenom = coins.denom := hdenom
  simp [SdkBase.mustRefuse, hv', hdenom', hpaid, balance_funded]

theorem toppedUp_staking (hv : w.staking.validators.lookup a = some v) :
    (toppedUp b a coins w).staking = w.staking.delegate a v coins.amount := by
  have hv' : (funded b a coins w).staking.validators.lookup a = some v := hv
  simp only [toppedUp, SdkBase.effect, hv']
  rfl

/-- The shares of the operator grow by those that its coins buy. -/
theorem selfDelegation_toppedUp (hv : w.staking.validators.lookup a = some v) :
    (toppedUp b a coins w).staking.delegations.lookup (a, a) =
      some ((w.staking.delegations.lookup (a, a)).getD 0 + v.issuedShares coins.amount) := by
  rw [toppedUp_staking hv, Staking.delegate_delegations, w.staking.keyed hv]
  exact Finmap.lookup_insert _

/-- A top-up of a bonded validator mints into the bonded pool, in the end. -/
theorem balance_toppedUp (hv : w.staking.validators.lookup a = some v)
    (hbonded : v.status = .bonded)
    (hpaid : (b.distributionHooks a a (funded b a coins w)).1 = (funded b a coins w).bank)
    (x : AccAddress) (d : String) :
    (toppedUp b a coins w).bank.balance x d = w.bank.balance x d +
      if x = b.moduleAddress bondedPoolName ∧ d = coins.denom then coins.amount else 0 := by
  have hv' : (funded b a coins w).staking.validators.lookup a = some v := hv
  simp only [toppedUp, SdkBase.effect, hv', hpaid, SdkBase.poolOf, if_pos hbonded, Bank.sendCoins,
    Bank.balance_addCoins, Bank.balance_subCoins, balance_funded]
  split_ifs <;> omega

theorem supply_toppedUp (hv : w.staking.validators.lookup a = some v) :
    (toppedUp b a coins w).bank.supply coins.denom =
      w.bank.supply coins.denom + coins.amount := by
  have hv' : (funded b a coins w).staking.validators.lookup a = some v := hv
  simp only [toppedUp, SdkBase.effect, hv', Bank.sendCoins_supply, b.distributionHooks_supply]
  simp [funded, SdkBase.effect, Bank.mintCoins]

end TopUp

/-! ## Adding -/

/-- A new validator sells one share for a token. -/
theorem issuedShares_storedValidator (a : ValAddress) (pubKey : PubKey) (m : ℤ) (n : ℕ) :
    (storedValidator a pubKey m).issuedShares n = n * 10 ^ 18 := if_pos rfl

section Adding

variable {sdk : Sdk} (laws : AddLaws sdk) (ctx : BlockContext) {a : ValAddress}
  {s t : AppState}

include laws

theorem AddLaws.step_accepted {text : String} {call : SdkCall} {u : AppState}
    (h : sdk.mustRefuse call u = false) : (sdk.step ctx text call).refuse u = none := by
  simp [Sdk.step, laws.documented ctx call u h]

/-- The calls that store a validator are accepted. -/
theorem AddLaws.accepts_recordSteps (pubKey : PubKey) {v : Validator}
    (hkey : v.consensusPubkey = some pubKey) (s : AppState) :
    Accepts (recordSteps sdk ctx a pubKey v) s := by
  refine accepts_of_forall ?_ s
  simp only [recordSteps, List.forall_mem_cons]
  refine ⟨fun u => ?_, fun u => ?_, fun u => ?_, Step.refuse_ifMissing fun u => ?_, fun u => ?_,
    fun u => ?_, fun u => ?_, Step.refuse_ifMissing fun u => ?_, by simp⟩
  all_goals apply laws.step_accepted ctx
  case refine_2 => simp [SdkBase.mustRefuse, hkey]
  all_goals rfl

/-- A top-up goes through where the coins may be sent and delegated. -/
theorem AddLaws.runSteps_topUpSteps {v : Validator} {n : ℤ} {f : String → String}
    (hn : v.tokens.getD 0 < n)
    (hsend : sdk.mustRefuse
      (.sendCoinsFromModuleToAccount bondedPoolName a (additionalTokens v n))
      (sdk.effect (.mintCoins bondedPoolName (additionalTokens v n)) s) = false)
    (hdelegate : sdk.mustRefuse (.delegate a a (additionalTokens v n))
      (funded sdk.toSdkBase a (additionalTokens v n) s) = false) :
    runSteps ((topUpSteps sdk ctx a v n).map (Step.wrap f)) s =
      (.ok (), toppedUp sdk.toSdkBase a (additionalTokens v n) s) := by
  have hmint : sdk.mustRefuse (.mintCoins bondedPoolName (additionalTokens v n)) s = false := rfl
  rw [topUpSteps, if_pos hn, runSteps_eq_ok_iff]
  refine ⟨⟨?_, ?_, ?_, trivial⟩, rfl⟩
  · rw [Step.wrap_refuse, laws.step_accepted ctx hmint]
    rfl
  · rw [Step.wrap_refuse]
    exact congrArg _ (laws.step_accepted ctx hsend)
  · rw [Step.wrap_refuse]
    exact congrArg _ (laws.step_accepted ctx hdelegate)

/-- Without shares of its own, the operator is paid no rewards when its validator is topped up. -/
theorem AddLaws.paid_funded {coins : Coin} {w : AppState}
    (hshares : (w.staking.delegations.lookup (a, a)).getD 0 = 0) :
    (sdk.distributionHooks a a (funded sdk.toSdkBase a coins w)).1 =
      (funded sdk.toSdkBase a coins w).bank := laws.rewards a a _ hshares

/-- A validator that can be added is added. -/
theorem AddLaws.executeAddValidator_succeeds {opts : AddValidatorOptions} {pubKey : PubKey}
    {n m : ℤ} (hmissing : s.staking.validators.lookup a = none)
    (hopts : usableOptions (some opts) = some (pubKey, n))
    (hm : opts.minSelfDelegation = some m) (haddable : Addable sdk.toSdkBase a opts s) :
    ∃ t, executeAddValidator sdk ctx a (some opts) s = (.ok (), t) := by
  have hpos : 0 < m := by simpa [hm] using haddable.minSelfDelegation
  have hbuild : (buildStep sdk pubKey).refuse ((accountStep a).effect s) = none := by
    simp [buildStep, Step.check, Step.reading, laws.packs, Except.mapError]
  obtain ⟨w, hrecords⟩ : ∃ w, runSteps (recordSteps sdk ctx a pubKey (storedValidator a pubKey m))
      ((accountStep a).effect s) = (.ok (), w) :=
    ⟨_, runSteps_eq_ok_iff.mpr ⟨laws.accepts_recordSteps ctx pubKey rfl _, rfl⟩⟩
  have hw : w.staking.validators.lookup a = some (storedValidator a pubKey m) :=
    recordSteps_lookup sdk ctx rfl hrecords
  have hstaking := recordSteps_staking ctx (v := storedValidator a pubKey m) rfl hrecords
  have hdenom : w.staking.bondDenom = defaultBondDenom := by
    rw [hstaking]
    exact haddable.bondDenom
  have hshares : (w.staking.delegations.lookup (a, a)).getD 0 = 0 := by
    rw [hstaking]
    exact haddable.noShares
  rw [executeAddValidator_eq sdk ctx hmissing hopts, createSteps, Option.bind_some, hm,
    persistSteps, if_pos hpos, runSteps_cons_of_accepted rfl, runSteps_cons_of_accepted hbuild,
    buildStep, Step.check_effect, List.append_assoc, runSteps_append, bind_of_ok hrecords,
    List.singleton_append, runSteps_cons_of_accepted, Step.check_effect]
  · refine ⟨_, laws.runSteps_topUpSteps ctx (usableOptions_pos hopts) ?_ ?_⟩
    · exact mustRefuse_send_minted.mpr haddable.unblocked
    · rw [additionalTokens_newValidator]
      exact mustRefuse_delegate_funded hw hdenom (laws.paid_funded hshares)
  · simp [Step.check, Step.reading, sdk.getValidator_of_lookup ctx hw, Except.mapError]

/-- What is there after a missing validator was added to a state it can be added to. -/
theorem AddLaws.added {opts : AddValidatorOptions} {pubKey : PubKey} {n : ℤ}
    (hmissing : s.staking.validators.lookup a = none)
    (hopts : usableOptions (some opts) = some (pubKey, n))
    (haddable : Addable sdk.toSdkBase a opts s)
    (h : executeAddValidator sdk ctx a (some opts) s = (.ok (), t)) :
    Added sdk.toSdkBase a n s t := by
  obtain ⟨pubKey', n', m, w, hopts', -, -, hstaking, hbank, -, -, -, rfl⟩ :=
    executeAddValidator_inv ctx hmissing h
  obtain ⟨rfl, rfl⟩ := Prod.mk.inj (Option.some.inj (hopts.symm.trans hopts'))
  have hn : (n.toNat : ℤ) = n := Int.toNat_of_nonneg (usableOptions_pos hopts).le
  have hv := lookup_of_recorded hstaking
  have hshares : (w.staking.delegations.lookup (a, a)).getD 0 = 0 := by
    rw [hstaking]
    exact haddable.noShares
  have hbalance := @balance_toppedUp sdk.toSdkBase a ⟨defaultBondDenom, n.toNat⟩ _ w hv rfl
    (laws.paid_funded hshares)
  have hsupply := @supply_toppedUp sdk.toSdkBase a ⟨defaultBondDenom, n.toNat⟩ _ w hv
  have hpool : sdk.moduleAddress bondedPoolName ≠ a :=
    haddable.unblocked bondedPoolName (by simp [blockAccAddrs])
  rw [hbank] at hbalance hsupply
  refine ⟨⟨(storedValidator a pubKey m).addTokensFromDel n.toNat, ?_, rfl, ?_, ?_⟩, ?_, ?_, ?_,
    fun d => ?_⟩
  · rw [toppedUp_staking hv]
    exact Finmap.lookup_insert _
  · simp [Validator.addTokensFromDel, storedValidator, newValidator, hn]
  · show 0 + (storedValidator a pubKey m).issuedShares n.toNat = n * 10 ^ 18
    rw [issuedShares_storedValidator, hn, zero_add]
  · rw [selfDelegation_toppedUp hv, hshares, issuedShares_storedValidator, hn, zero_add]
  · rw [hbalance, if_pos ⟨rfl, rfl⟩, Nat.cast_add, hn]
  · rw [hsupply, Nat.cast_add, hn]
  · rw [hbalance, if_neg fun h => hpool h.1.symm, Nat.add_zero]

/-- **When a hook adds its validator.** A hook that was loaded, for a validator that is missing,
adds the validator exactly when it can be added. That the initial tokens are positive was checked
when the hook was loaded; that `min_self_delegation` is, was not. -/
theorem executeAddValidator_added_iff {text : UnicodeText} {raw : YamlValue} {validator : String}
    {opts : AddValidatorOptions}
    (hload : parseAddValidatorHook text raw = .ok (.addValidator validator (some opts)))
    (ha : sdk.valAddressFromBech32 validator = .ok a)
    (hmissing : s.staking.validators.lookup a = none) :
    performAddValidatorHook sdk ctx (.addValidator validator (some opts)) s =
        executeAddValidator sdk ctx a (some opts) s ∧
      ((∃ t, executeAddValidator sdk ctx a (some opts) s = (.ok (), t) ∧
          Added sdk.toSdkBase a (opts.initialTokens.getD 0) s t) ↔
        Addable sdk.toSdkBase a opts s) := by
  obtain ⟨_, pubKey, n, m, hparams, -, hn⟩ := parseAddValidatorHook_ok hload
  obtain ⟨-, rfl⟩ : _ ∧ opts = ⟨some pubKey, some n, some m⟩ := by simpa using hparams
  have hopts : usableOptions (some ⟨some pubKey, some n, some m⟩) = some (pubKey, n) := if_pos hn
  have hdecode : (ofExcept (sdk.valAddressFromBech32 validator)) s = (.ok a, s) := by
    rw [ha]
    rfl
  refine ⟨bind_of_ok hdecode _, ?_, fun haddable => ?_⟩
  · rintro ⟨t, hrun, hadded⟩
    obtain ⟨pubKey', n', m', w, hopts', hm, hpos, hstaking, -, -, hsend, hdelegate, rfl⟩ :=
      executeAddValidator_inv ctx hmissing hrun
    obtain ⟨rfl, rfl⟩ := Prod.mk.inj (Option.some.inj (hopts.symm.trans hopts'))
    obtain rfl : m = m' := Option.some.inj hm
    have hv := lookup_of_recorded hstaking
    refine ⟨hpos, ?_, mustRefuse_send_minted.mp hsend, ?_⟩
    · have hdenom := mustRefuse_delegate_denom hdelegate
      rw [hstaking] at hdenom
      exact hdenom
    · -- shares left from before would be counted on top
      have hshares := (selfDelegation_toppedUp hv).symm.trans hadded.selfDelegation
      rw [issuedShares_storedValidator, Int.toNat_of_nonneg hn.le, hstaking] at hshares
      exact add_eq_right.mp (Option.some.inj hshares)
  · obtain ⟨t, hrun⟩ := laws.executeAddValidator_succeeds ctx hmissing hopts rfl haddable
    exact ⟨t, hrun, laws.added ctx hmissing hopts haddable hrun⟩

end Adding

section Sample

theorem addLaws_sampleSdk : AddLaws sampleSdk where
  documented _ _ _ h := if_neg (Bool.eq_false_iff.mp h)
  packs _ := rfl
  rewards _ _ _ _ := rfl

def sampleText : UnicodeText where
  toLower := String.toLower
  quote s := "\"" ++ s ++ "\""

/-- The hook that adds the second validator with two million tokens. -/
def secondConfig (minSelfDelegation : String) : YamlValue :=
  .map [("validator", .str "nexusvaloper17ze54jawc4etntrlz997wtkt8w3gwndvmehgex"),
    ("pub_key", .map [("type", .str "tendermint/PubKeyEd25519"),
      ("value", .str "JVo+FmSXKLACVU2RNDk1gzCk2CbyRhkrmRYehuRwtOA=")]),
    ("min_self_delegation", .str minSelfDelegation),
    ("initial_tokens", .str "2000000")]

/-- With a `min_self_delegation` of one, the second validator of the local network is added. -/
theorem executeAddValidator_added_second :
    parseAddValidatorHook sampleText (secondConfig "1") =
      .ok (.addValidator "nexusvaloper17ze54jawc4etntrlz997wtkt8w3gwndvmehgex"
        (some secondOptions)) ∧
    ∃ t, executeAddValidator sampleSdk sampleBlock secondOperator (some secondOptions)
        (sampleState false) = (.ok (), t) ∧
      Added sampleBase secondOperator 2000000 (sampleState false) t := by
  have hload : parseAddValidatorHook sampleText (secondConfig "1") =
      .ok (.addValidator "nexusvaloper17ze54jawc4etntrlz997wtkt8w3gwndvmehgex"
        (some secondOptions)) := by decide +kernel
  have haddable : Addable sampleBase secondOperator secondOptions (sampleState false) :=
    ⟨by decide, rfl, by decide +kernel, by decide +kernel⟩
  exact ⟨hload, (executeAddValidator_added_iff addLaws_sampleSdk sampleBlock hload rfl
    (by decide +kernel)).2.mpr haddable⟩

def zeroOptions : AddValidatorOptions := { secondOptions with minSelfDelegation := some 0 }

/-- With a `min_self_delegation` of zero, the hook is loaded as well, but the validator is not
added: its tokens are left with the operator. -/
theorem executeAddValidator_mints_without_record :
    parseAddValidatorHook sampleText (secondConfig "0") =
      .ok (.addValidator "nexusvaloper17ze54jawc4etntrlz997wtkt8w3gwndvmehgex"
        (some zeroOptions)) ∧
    sampleBase.valAddressFromBech32 "nexusvaloper17ze54jawc4etntrlz997wtkt8w3gwndvmehgex" =
      .ok secondOperator ∧
    AddLaws sampleSdk ∧
    (sampleState false).staking.validators.lookup secondOperator = none ∧
    ∃ t, executeAddValidator sampleSdk sampleBlock secondOperator (some zeroOptions)
        (sampleState false) =
      (.error (.error ("failed to ensure validator balance: " ++
        "failed to delegate tokens to validator account: validator does not exist")), t) ∧
      t.staking.validators.lookup secondOperator = none ∧
      t.bank.balance secondOperator defaultBondDenom = 2000000 := by
  exact ⟨by decide +kernel, rfl, addLaws_sampleSdk, by decide +kernel, _,
    Prod.ext (by decide +kernel) rfl, by decide +kernel, by decide +kernel⟩

end Sample

/-! ## A validator that is there -/

/-- What `add_validator` documents for a validator that is there: it is not jailed, and it has
the initial tokens at least. -/
def MeetsOptions (opts : Option AddValidatorOptions) (v : Validator) : Prop :=
  v.jailed = false ∧ ∀ n, opts.bind (·.initialTokens) = some n → n ≤ v.tokens.getD 0

/-- **A validator that is there is left alone**, so it ends up as documented exactly when it was
so before. -/
theorem executeAddValidator_present_iff (sdk : Sdk) (ctx : BlockContext) {a : ValAddress}
    {s : AppState} {v : Validator} (hv : s.staking.validators.lookup a = some v)
    (opts : Option AddValidatorOptions) :
    (∀ t, executeAddValidator sdk ctx a opts s = (.ok (), t) →
        ∃ v', t.staking.validators.lookup a = some v' ∧ MeetsOptions opts v') ↔
      MeetsOptions opts v := by
  rw [executeAddValidator_of_lookup sdk ctx hv]
  constructor
  · intro h
    obtain ⟨v', hv', hmeets⟩ := h s rfl
    obtain rfl : v = v' := Option.some.inj (hv.symm.trans hv')
    exact hmeets
  · rintro hmeets t ⟨⟩
    exact ⟨v, hv, hmeets⟩

/-- The validator of the local network has the million tokens that a hook asks for. -/
theorem executeAddValidator_present_sample :
    ∃ v, (sampleState false).staking.validators.lookup sampleOperator = some v ∧
      ∀ t, executeAddValidator sampleSdk sampleBlock sampleOperator
          (some ⟨some sampleKey, some 1000000, some 1⟩) (sampleState false) = (.ok (), t) →
        ∃ v', t.staking.validators.lookup sampleOperator = some v' ∧
          MeetsOptions (some ⟨some sampleKey, some 1000000, some 1⟩) v' := by
  have hv : (sampleState false).staking.validators.lookup sampleOperator =
      some (sampleValidator false) := Finmap.lookup_singleton_eq
  refine ⟨_, hv, (executeAddValidator_present_iff sampleSdk sampleBlock hv _).mpr ⟨rfl, ?_⟩⟩
  rintro n ⟨⟩
  exact le_refl _

/-- A jailed validator stays jailed and gets no tokens, and no error is returned. -/
theorem executeAddValidator_leaves_jailed :
    sampleBase.isTombstoned (sampleValidator true) (sampleState true) = false ∧
    ∃ v t, (sampleState true).staking.validators.lookup sampleOperator = some v ∧
      executeAddValidator sampleSdk sampleBlock sampleOperator
        (some ⟨some sampleKey, some 2000000, some 1⟩) (sampleState true) = (.ok (), t) ∧
      t.staking.validators.lookup sampleOperator = some v ∧ v.jailed = true ∧
      v.tokens = some 1000000 := by
  have hv : (sampleState true).staking.validators.lookup sampleOperator =
      some (sampleValidator true) := Finmap.lookup_singleton_eq
  exact ⟨by decide +kernel, _, _, hv, executeAddValidator_of_lookup _ _ hv _, hv, rfl, rfl⟩

end NexusNode
