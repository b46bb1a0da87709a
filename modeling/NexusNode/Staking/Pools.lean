import NexusNode.Staking.Shares

/-!
# Solvency of the staking pools

The tokens of bonded validators sit in one module account, those of all others in a second one,
together with what is being unbonded. The slack of a pool is its balance less what it has to
cover. The hooks mint through the bonded pool, also for validators that are not bonded, and a
removal takes out no more than the pool has. No hook that returns lowers a slack, and the hooks
that move single validators keep pools level that were.

## Main definitions

* `slack bonded s`: the slack of a pool, with `slackB` and `slackN` for the two of them
* `Staking.NonNegativePower`: the invariant of the staking module on tokens
* `PoolLaws`: what is assumed of the addresses of the pools and of the paid rewards
* `KeepsSlack`: an outcome that lowers no slack, and moves none when it is a success

## Main results

* `topUp_keepsSlack`: minting, sending and delegating as one block
* `executeUnjailing_keepsSlack`, `executeAddValidator_keepsSlack`,
  `executeRemoveValidator_slack`, `executeReconcileStakingPools_slack`: the four actions
* `run_slack`: every hook of a run
-/

namespace NexusNode

open Program Proc

/-! ## Slack -/

/-- The name of a pool. -/
def poolName : Bool → String
  | true => bondedPoolName
  | false => notBondedPoolName

/-- What a pool has to cover. -/
def owed (bonded : Bool) (s : Staking) : ℤ :=
  tokensOf bonded s.validators + if bonded then 0 else unbondingBalance s.unbondingDelegations

/-- The `NonNegativePowerInvariant` of the staking module: no validator has negative tokens. -/
def Staking.NonNegativePower (s : Staking) : Prop :=
  ∀ a v, s.validators.lookup a = some v → 0 ≤ v.tokens.getD 0

section Slack

variable (b : SdkBase)

/-- What a pool holds of the bond denomination. -/
def poolBalance (bonded : Bool) (bank : Bank) : ℤ :=
  bank.balance (b.moduleAddress (poolName bonded)) defaultBondDenom

/-- The balance of a pool, less what it has to cover. -/
def slack (bonded : Bool) (s : AppState) : ℤ := poolBalance b bonded s.bank - owed bonded s.staking

/-- The slack of the bonded pool: its balance, less the tokens of the bonded validators. -/
def slackB (s : AppState) : ℤ :=
  s.bank.balance (b.moduleAddress bondedPoolName) defaultBondDenom -
    tokensOf true s.staking.validators

/-- The slack of the not-bonded pool: its balance, less the tokens of the other validators and
the positive balances of unbonding entries. -/
def slackN (s : AppState) : ℤ :=
  s.bank.balance (b.moduleAddress notBondedPoolName) defaultBondDenom -
    (tokensOf false s.staking.validators + unbondingBalance s.staking.unbondingDelegations)

theorem slack_true (s : AppState) : slack b true s = slackB b s := by
  simp [slack, slackB, poolBalance, poolName, owed]

theorem slack_false (s : AppState) : slack b false s = slackN b s := by
  simp [slack, slackN, poolBalance, poolName, owed]

/-- What is assumed of the pools: they are two accounts, and rewards are paid from and to
others. -/
structure PoolLaws : Prop where
  distinct : b.moduleAddress bondedPoolName ≠ b.moduleAddress notBondedPoolName
  rewards : ∀ d a s bonded,
    poolBalance b bonded (b.distributionHooks d a s).1 = poolBalance b bonded s.bank

variable {b} {s t : AppState} (bonded : Bool)

omit bonded in
theorem poolAddress_inj (hne : b.moduleAddress bondedPoolName ≠ b.moduleAddress notBondedPoolName)
    {p q : Bool} : b.moduleAddress (poolName p) = b.moduleAddress (poolName q) ↔ p = q := by
  cases p <;> cases q <;> simp [poolName, hne, hne.symm]

omit bonded in
theorem PoolLaws.address_inj (laws : PoolLaws b) {p q : Bool} :
    b.moduleAddress (poolName p) = b.moduleAddress (poolName q) ↔ p = q :=
  poolAddress_inj laws.distinct

/-- The slack depends on the balance of the pool, the records and the unbonding entries. -/
theorem slack_congr (hbank : poolBalance b bonded t.bank = poolBalance b bonded s.bank)
    (hv : t.staking.validators = s.staking.validators)
    (hu : t.staking.unbondingDelegations = s.staking.unbondingDelegations) :
    slack b bonded t = slack b bonded s := by
  unfold slack owed
  rw [hbank, hv, hu]

/-- Coins alone move the slack by what they move the balance. -/
theorem slack_of_poolBalance {x : ℤ} (hstaking : t.staking = s.staking)
    (hbank : poolBalance b bonded t.bank = poolBalance b bonded s.bank + x) :
    slack b bonded t = slack b bonded s + x := by
  unfold slack
  rw [hstaking, hbank]
  omega

/-! ## Balances -/

theorem Bank.balance_addCoins (bank : Bank) (a x : AccAddress) (c : Coin) (d : String) :
    (bank.addCoins a c).balance x d =
      bank.balance x d + if x = a ∧ d = c.denom then c.amount else 0 := by
  by_cases h : x = a ∧ d = c.denom
  · obtain ⟨rfl, rfl⟩ := h
    simp [Bank.addCoins, Bank.setBalance]
  · simp [Bank.addCoins, Bank.setBalance, h]

theorem Bank.balance_subCoins (bank : Bank) (a x : AccAddress) (c : Coin) (d : String) :
    (bank.subCoins a c).balance x d =
      bank.balance x d - if x = a ∧ d = c.denom then c.amount else 0 := by
  by_cases h : x = a ∧ d = c.denom
  · obtain ⟨rfl, rfl⟩ := h
    simp [Bank.subCoins, Bank.setBalance]
  · simp [Bank.subCoins, Bank.setBalance, h]

/-- Coins that are added to a pool. -/
theorem PoolLaws.poolBalance_addCoins (laws : PoolLaws b) (bank : Bank) (p : Bool) (n : ℕ) :
    poolBalance b bonded (bank.addCoins (b.moduleAddress (poolName p)) ⟨defaultBondDenom, n⟩) =
      poolBalance b bonded bank + if bonded = p then (n : ℤ) else 0 := by
  simp only [poolBalance, Bank.balance_addCoins, laws.address_inj, and_true]
  split_ifs <;> simp

/-- Coins that are taken out of a pool that has them. -/
theorem PoolLaws.poolBalance_subCoins (laws : PoolLaws b) (bank : Bank) {p : Bool} {n : ℕ}
    (hn : n ≤ bank.balance (b.moduleAddress (poolName p)) defaultBondDenom) :
    poolBalance b bonded (bank.subCoins (b.moduleAddress (poolName p)) ⟨defaultBondDenom, n⟩) =
      poolBalance b bonded bank + -(if bonded = p then (n : ℤ) else 0) := by
  simp only [poolBalance, Bank.balance_subCoins, laws.address_inj, and_true]
  split_ifs with h
  · subst h
    omega
  · simp

/-- An account that is not a pool. -/
def NoPool (b : SdkBase) (a : AccAddress) : Prop := ∀ p, a ≠ b.moduleAddress (poolName p)

theorem NoPool.poolBalance_addCoins {a : AccAddress} (h : NoPool b a) (bank : Bank) (c : Coin) :
    poolBalance b bonded (bank.addCoins a c) = poolBalance b bonded bank := by
  simp [poolBalance, Bank.balance_addCoins, (h bonded).symm]

theorem NoPool.poolBalance_subCoins {a : AccAddress} (h : NoPool b a) (bank : Bank) (c : Coin) :
    poolBalance b bonded (bank.subCoins a c) = poolBalance b bonded bank := by
  simp [poolBalance, Bank.balance_subCoins, (h bonded).symm]

/-- The pools are not sent coins as plain accounts, and coins that are sent are there. -/
theorem noPool_of_sent {pool : String} {dst : AccAddress} {c : Coin}
    (h : b.mustRefuse (.sendCoinsFromModuleToAccount pool dst c) s = false) :
    NoPool b dst ∧ c.amount ≤ s.bank.balance (b.moduleAddress pool) c.denom := by
  simp only [SdkBase.mustRefuse, Bool.or_eq_false_iff, List.any_eq_false, decide_eq_false_iff_not,
    not_lt] at h
  refine ⟨fun p heq => ?_, h.2⟩
  have hmem : poolName p ∈ blockAccAddrs := by cases p <;> simp [poolName, blockAccAddrs]
  exact h.1 (poolName p) hmem (by simp [heq])

/-! ## Tokens -/

/-- What a validator adds to the tokens of one of the two kinds. -/
def Validator.tokensIn (bonded : Bool) (v : Validator) : ℤ :=
  if decide (v.status = .bonded) = bonded then v.tokens.getD 0 else 0

theorem tokensOf_insert_of_lookup {m : Records ValAddress Validator} {a : ValAddress}
    {v : Validator} (h : m.lookup a = some v) (v' : Validator) :
    tokensOf bonded (m.insert a v') =
      tokensOf bonded m - v.tokensIn bonded + v'.tokensIn bonded := by
  unfold tokensOf
  rw [total_insert, countAt_of_lookup h]
  rfl

theorem tokensOf_insert_of_missing {m : Records ValAddress Validator} {a : ValAddress}
    (h : m.lookup a = none) (v : Validator) :
    tokensOf bonded (m.insert a v) = v.tokensIn bonded + tokensOf bonded m := by
  unfold tokensOf
  rw [total_insert_of_missing _ _ h]
  rfl

omit bonded in
theorem unbondingBalance_nonneg (ubds : Records (AccAddress × ValAddress) (List (Option ℤ))) :
    0 ≤ unbondingBalance ubds := by
  refine total_nonneg fun k entries _ => List.sum_nonneg fun x hx => ?_
  exact (of_decide_eq_true (List.mem_filter.mp hx).2).le

theorem poolOf_eq (v : Validator) : SdkBase.poolOf v = poolName (decide (v.status = .bonded)) := by
  by_cases h : v.status = .bonded <;> simp [SdkBase.poolOf, poolName, h]

/-! ## Calls -/

theorem PoolLaws.slack_mintCoins (laws : PoolLaws b) (n : ℕ) (s : AppState) :
    slack b bonded (b.effect (.mintCoins bondedPoolName ⟨defaultBondDenom, n⟩) s) =
      slack b bonded s + if bonded = true then (n : ℤ) else 0 :=
  slack_of_poolBalance bonded rfl (laws.poolBalance_addCoins bonded s.bank true n)

/-- Sending coins of the bonded pool to an account. -/
theorem PoolLaws.slack_sendToAccount (laws : PoolLaws b) {dst : AccAddress} {n : ℕ}
    (h : b.mustRefuse (.sendCoinsFromModuleToAccount bondedPoolName dst ⟨defaultBondDenom, n⟩) s =
      false) :
    slack b bonded (b.effect
        (.sendCoinsFromModuleToAccount bondedPoolName dst ⟨defaultBondDenom, n⟩) s) =
      slack b bonded s + -(if bonded = true then (n : ℤ) else 0) := by
  obtain ⟨hdst, hn⟩ := noPool_of_sent h
  refine slack_of_poolBalance bonded rfl ?_
  exact (hdst.poolBalance_addCoins bonded _ _).trans
    (laws.poolBalance_subCoins bonded (p := true) s.bank hn)

/-- Sending coins of the bonded pool to the other one. -/
theorem PoolLaws.slack_sendToModule (laws : PoolLaws b) {n : ℕ}
    (h : b.mustRefuse (.sendCoinsFromModuleToModule bondedPoolName notBondedPoolName
      ⟨defaultBondDenom, n⟩) s = false) :
    slack b bonded (b.effect (.sendCoinsFromModuleToModule bondedPoolName notBondedPoolName
        ⟨defaultBondDenom, n⟩) s) =
      slack b bonded s + (-(if bonded = true then (n : ℤ) else 0) +
        if bonded = false then (n : ℤ) else 0) := by
  have hn : n ≤ s.bank.balance (b.moduleAddress (poolName true)) defaultBondDenom := by
    simpa [SdkBase.mustRefuse, poolName] using h
  refine slack_of_poolBalance bonded rfl ?_
  have hadd := laws.poolBalance_addCoins bonded
    (s.bank.subCoins (b.moduleAddress (poolName true)) ⟨defaultBondDenom, n⟩) false n
  rw [laws.poolBalance_subCoins bonded s.bank hn] at hadd
  exact hadd.trans (by omega)

/-- A delegation adds the same to a validator and to its pool. -/
theorem PoolLaws.slack_delegate (laws : PoolLaws b) {d : AccAddress} (hd : NoPool b d)
    (a : ValAddress) (n : ℕ) (s : AppState) :
    slack b bonded (b.effect (.delegate d a ⟨defaultBondDenom, n⟩) s) = slack b bonded s := by
  simp only [SdkBase.effect]
  split
  · rfl
  next v hv =>
    obtain rfl := s.staking.keyed hv
    have hpool := laws.poolBalance_addCoins bonded
      ((b.distributionHooks d v.operatorAddress s).1.subCoins d ⟨defaultBondDenom, n⟩)
      (decide (v.status = .bonded)) n
    rw [hd.poolBalance_subCoins, laws.rewards, ← poolOf_eq] at hpool
    have htokens := tokensOf_insert_of_lookup bonded hv (v.addTokensFromDel n)
    have hin : (v.addTokensFromDel n).tokensIn bonded = v.tokensIn bonded +
        if bonded = decide (v.status = .bonded) then (n : ℤ) else 0 := by
      simp only [Validator.tokensIn, Validator.addTokensFromDel, Option.getD_some, eq_comm]
      split_ifs <;> simp
    simp only [slack, owed, Bank.sendCoins, hpool, Staking.delegate_validators, htokens, hin]
    change _ - (_ + if bonded then 0 else unbondingBalance s.staking.unbondingDelegations) = _
    omega

theorem slack_unjail (a : ValAddress) (s : AppState) :
    slack b bonded (b.effect (.unjail a) s) = slack b bonded s := by
  simp only [SdkBase.effect]
  split
  · rfl
  next v hv =>
    obtain rfl := s.staking.keyed hv
    have htokens := tokensOf_insert_of_lookup bonded hv { v with jailed := false }
    simp only [slack, owed, Staking.unjail_validators, htokens]
    change _ - (_ + if bonded then 0 else unbondingBalance s.staking.unbondingDelegations) = _
    simp only [Validator.tokensIn]
    omega

theorem slack_of_isRecord {call : SdkCall} (h : call.isRecord) (s : AppState) :
    slack b bonded (b.effect call s) = slack b bonded s := by
  obtain ⟨hbank, hvalidators⟩ := b.effect_of_isRecord h s
  exact slack_congr bonded (by rw [hbank]) hvalidators (b.effect_staking_frame call s).1

/-! ## Outcomes -/

/-- The pools of `t` have at least the slack of those of `s`. -/
def Covers (b : SdkBase) (s t : AppState) : Prop := ∀ bonded, slack b bonded s ≤ slack b bonded t

instance : Std.Refl (Covers b) := ⟨fun _ _ => le_rfl⟩

instance : IsTrans AppState (Covers b) := ⟨fun _ _ _ h h' bonded => (h bonded).trans (h' bonded)⟩

/-- No slack is lower than in `s`, and after a success each is what it was. -/
def KeepsSlack (b : SdkBase) (s : AppState) (x : Outcome String Unit × AppState) : Prop :=
  Covers b s x.2 ∧ (x.1 = .ok () → ∀ bonded, slack b bonded x.2 = slack b bonded s)

omit bonded in
theorem KeepsSlack.of_eq {x : Outcome String Unit × AppState}
    (h : ∀ bonded, slack b bonded x.2 = slack b bonded s) : KeepsSlack b s x :=
  ⟨fun bonded => (h bonded).ge, fun _ => h⟩

omit bonded in
/-- Steps that move no slack. -/
theorem KeepsSlack.of_steps {cs : List (Step AppState String)}
    (h : ∀ c ∈ cs, ∀ t bonded, slack b bonded (c.effect t) = slack b bonded t) (s : AppState) :
    KeepsSlack b s (runSteps cs s) := by
  apply KeepsSlack.of_eq
  refine runSteps_keeps (P := fun t => ∀ bonded, slack b bonded t = slack b bonded s) ?_
    fun _ => rfl
  intro c hc t ht bonded
  exact (h c hc t bonded).trans (ht bonded)

omit bonded in
/-- Run behind states with slacks `s₀`: a refusal keeps what is there, and an acceptance goes
on. -/
theorem KeepsSlack.cons {s₀ : AppState} {c : Step AppState String}
    {cs : List (Step AppState String)} (hrefused : Covers b s₀ s)
    (haccepted : c.refuse s = none → KeepsSlack b s₀ (runSteps cs (c.effect s))) :
    KeepsSlack b s₀ (runSteps (c :: cs) s) := by
  cases hc : c.refuse s with
  | none =>
    rw [runSteps_cons_of_accepted hc]
    exact haccepted hc
  | some e =>
    rw [runSteps_cons_of_refused hc]
    exact ⟨hrefused, fun hr => nomatch hr⟩

omit bonded in
theorem KeepsSlack.append {cs ds : List (Step AppState String)}
    (h : KeepsSlack b s (runSteps cs s))
    (h' : ∀ t, runSteps cs s = (.ok (), t) → KeepsSlack b t (runSteps ds t)) :
    KeepsSlack b s (runSteps (cs ++ ds) s) := by
  rw [runSteps_append]
  rcases hrun : runSteps cs s with ⟨r | ⟨⟩, t⟩
  · rw [bind_of_stop hrun]
    rw [hrun] at h
    exact ⟨h.1, fun hr => nomatch hr⟩
  · rw [bind_of_ok hrun]
    rw [hrun] at h
    obtain ⟨hcovers, hlevel⟩ := h' t hrun
    refine ⟨IsTrans.trans _ _ _ h.1 hcovers, fun hr bonded => ?_⟩
    exact (hlevel hr bonded).trans (h.2 rfl bonded)

omit bonded in
/-- The same slacks, told from another state. -/
theorem KeepsSlack.congr {x : Outcome String Unit × AppState} (h : KeepsSlack b t x)
    (hst : ∀ bonded, slack b bonded t = slack b bonded s) : KeepsSlack b s x :=
  ⟨fun bonded => (hst bonded).ge.trans (h.1 bonded),
    fun hr bonded => (h.2 hr bonded).trans (hst bonded)⟩

theorem Performs.slack {sdk : Sdk} {Q : SdkCall → Prop} {c : Step AppState String}
    (h : Performs sdk Q c) (hQ : ∀ call, Q call → ∀ t,
      slack sdk.toSdkBase bonded (sdk.effect call t) = NexusNode.slack sdk.toSdkBase bonded t)
    (t : AppState) :
    NexusNode.slack sdk.toSdkBase bonded (c.effect t) = NexusNode.slack sdk.toSdkBase bonded t := by
  rcases h t with hsame | ⟨a, hsame⟩ | ⟨call, hcall, hsame⟩ <;> rw [hsame]
  · rfl
  · exact hQ call hcall t

end Slack

section Actions

variable {sdk : Sdk} (ctx : BlockContext) (laws : PoolLaws sdk.toSdkBase)

/-! ## Unjailing and adding -/

include laws

/-- **Minting, sending and delegating.** What is minted into the bonded pool stays there when
the coins cannot be sent; otherwise it leaves that pool again, and comes back, if it does,
together with tokens of a validator. -/
theorem topUp_keepsSlack (valAddr : ValAddress) (v : Validator) (target : ℤ) (f : String → String)
    (s : AppState) :
    KeepsSlack sdk.toSdkBase s
      (runSteps ((topUpSteps sdk ctx valAddr v target).map (Step.wrap f)) s) := by
  unfold topUpSteps
  split_ifs
  swap
  · exact .of_eq fun _ => rfl
  simp only [additionalTokens, List.map_cons, List.map_nil]
  generalize (target - v.tokens.getD 0).toNat = n
  refine .cons (refl_of (Covers _) s) fun _ => ?_
  have hmint (bonded : Bool) := laws.slack_mintCoins bonded n s
  refine .cons (fun bonded => ?_) fun hsend => ?_
  · rw [Step.wrap_effect, Sdk.step, hmint]
    split_ifs <;> omega
  have hsend := sdk.mustRefuse_of_wrap hsend
  have hlevel (bonded : Bool) := (laws.slack_sendToAccount bonded hsend).trans
    (by rw [Step.wrap_effect, Sdk.step, hmint]; omega : _ = slack sdk.toSdkBase bonded s)
  refine .cons (fun bonded => (hlevel bonded).ge) fun _ => .of_eq fun bonded => ?_
  exact (laws.slack_delegate bonded (noPool_of_sent hsend).1 valAddr n _).trans (hlevel bonded)

theorem executeUnjailing_keepsSlack (valAddr : ValAddress) (target : Option ℤ) (s : AppState) :
    KeepsSlack sdk.toSdkBase s (executeUnjailing sdk ctx valAddr target s) := by
  cases hv : s.staking.validators.lookup valAddr with
  | none =>
    obtain ⟨e, he⟩ := executeUnjailing_of_missing sdk ctx hv target
    rw [he]
    exact .of_eq fun _ => rfl
  | some v =>
    rw [executeUnjailing_eq sdk ctx hv]
    refine .append ?_ fun t _ => .of_steps ?_ t
    · cases target with
      | none => exact .of_eq fun _ => rfl
      | some target => exact topUp_keepsSlack ctx laws valAddr v target _ s
    · intro c hc u bonded
      refine (performs_releaseSteps sdk ctx valAddr v c hc).slack bonded ?_ u
      rintro call (rfl | ⟨c, info, rfl⟩) w
      · exact slack_unjail bonded valAddr w
      · exact slack_of_isRecord bonded rfl w

omit laws in
/-- A new record has no tokens. -/
theorem slack_storedValidator {valAddr : ValAddress} {s : AppState}
    (h : s.staking.validators.lookup valAddr = none) (pubKey : PubKey) (m : ℤ) (bonded : Bool) :
    slack sdk.toSdkBase bonded
        (sdk.effect (.setValidator (storedValidator valAddr pubKey m)) s) =
      slack sdk.toSdkBase bonded s := by
  have htokens := tokensOf_insert_of_missing bonded h (storedValidator valAddr pubKey m)
  have hzero : (storedValidator valAddr pubKey m).tokensIn bonded = 0 := by
    simp [Validator.tokensIn, storedValidator, newValidator]
  rw [hzero, zero_add] at htokens
  unfold slack owed
  exact congrArg (fun x => _ - (x + _)) htokens

omit laws in
theorem persist_keepsSlack {valAddr : ValAddress} {s : AppState}
    (h : s.staking.validators.lookup valAddr = none) (pubKey : PubKey) (n : Option ℤ) :
    KeepsSlack sdk.toSdkBase s (runSteps (persistSteps sdk ctx valAddr pubKey n) s) := by
  rcases persistSteps_cases sdk ctx valAddr pubKey n with ⟨-, hnil⟩ | ⟨m, cs, -, hcons, hcs⟩
  · rw [hnil]
    exact .of_eq fun _ => rfl
  · rw [hcons]
    refine .cons (refl_of (Covers _) s) fun _ => ?_
    refine KeepsSlack.congr (.of_steps ?_ _) (slack_storedValidator h pubKey m)
    intro c hc u bonded
    exact (hcs c hc).slack bonded (fun call hcall => slack_of_isRecord bonded hcall) u

theorem executeAddValidator_keepsSlack (valAddr : ValAddress) (opts : Option AddValidatorOptions)
    (s : AppState) : KeepsSlack sdk.toSdkBase s (executeAddValidator sdk ctx valAddr opts s) := by
  cases hv : s.staking.validators.lookup valAddr with
  | some v =>
    rw [executeAddValidator_of_lookup sdk ctx hv]
    exact .of_eq fun _ => rfl
  | none =>
    cases hopts : usableOptions opts with
    | none =>
      obtain ⟨e, he⟩ := executeAddValidator_of_unusable sdk ctx hv hopts
      rw [he]
      exact .of_eq fun _ => rfl
    | some usable =>
      rw [executeAddValidator_eq sdk ctx hv hopts, createSteps]
      refine .cons (refl_of (Covers _) s) fun _ => .cons (fun _ => le_rfl) fun _ => ?_
      rw [buildStep, Step.check_effect]
      refine KeepsSlack.congr (.append ?_ fun t _ => ?_) fun _ => rfl
      · exact persist_keepsSlack ctx (s := (accountStep valAddr).effect s) hv usable.1 _
      · exact topUp_keepsSlack ctx laws valAddr _ usable.2 _ t

/-! ## Removal -/

/-- Taking the coins of a removal out of the pool of the validator. -/
theorem poolBalance_of_takesCoins {v : Validator} {n : ℕ} {call : SdkCall} {u : AppState}
    (h : TakesCoins v ⟨defaultBondDenom, n⟩ call) (haccept : sdk.mustRefuse call u = false)
    (bonded : Bool) :
    poolBalance sdk.toSdkBase bonded (sdk.effect call u).bank =
      poolBalance sdk.toSdkBase bonded u.bank +
        -(if bonded = decide (v.status = .bonded) then (n : ℤ) else 0) := by
  rcases h with rfl | ⟨recipient, rfl⟩
  · have hn : n ≤ u.bank.balance (sdk.moduleAddress (SdkBase.poolOf v)) defaultBondDenom := by
      simpa [SdkBase.mustRefuse] using haccept
    rw [poolOf_eq] at hn ⊢
    exact laws.poolBalance_subCoins bonded u.bank hn
  · obtain ⟨hdst, hn⟩ := noPool_of_sent haccept
    rw [poolOf_eq] at hn ⊢
    exact (hdst.poolBalance_addCoins bonded _ _).trans (laws.poolBalance_subCoins bonded u.bank hn)

omit laws in
/-- The removed record has the tokens of the old one, or none. -/
theorem tokensIn_removedRecord (v : Validator) (moved bonded : Bool) :
    (removedRecord v moved).tokensIn bonded = if moved then 0 else v.tokensIn bonded := by
  cases moved <;> simp [removedRecord, Validator.tokensIn]

omit laws in
/-- Where no tokens are negative, a pool has to cover the tokens of each of its validators. -/
theorem le_owed {s : Staking} (hall : s.NonNegativePower) {a : ValAddress} {v : Validator}
    (hv : s.validators.lookup a = some v) (bonded : Bool) : v.tokensIn bonded ≤ owed bonded s := by
  have htokens : v.tokensIn bonded ≤ tokensOf bonded s.validators := by
    refine le_total (f := fun _ v => Validator.tokensIn bonded v) ?_ hv
    intro a w hw
    have := hall a w hw
    unfold Validator.tokensIn
    split_ifs
    · exact this
    · exact le_rfl
  have hunbonding := unbondingBalance_nonneg s.unbondingDelegations
  unfold owed
  split_ifs <;> omega

omit laws in
/-- What a pool has to cover for a removed validator changes by its tokens, if they were moved. -/
theorem owed_removedRecord {v : Validator} {s : Staking}
    (hv : s.validators.lookup v.operatorAddress = some v) (moved bonded : Bool) :
    owed bonded ((unindexed v s).setValidator (removedRecord v moved)) =
      owed bonded s - v.tokensIn bonded + if moved then 0 else v.tokensIn bonded := by
  have htokens := tokensOf_insert_of_lookup bonded hv (removedRecord v moved)
  unfold owed
  rw [Staking.setValidator_validators, removedRecord_operatorAddress, unindexed_validators, htokens,
    tokensIn_removedRecord]
  change _ + (if bonded then 0 else unbondingBalance (unindexed v s).unbondingDelegations) = _
  rw [unindexed_unbondingDelegations]
  omega

/-- **A removal** lowers no slack, and leaves a level pool level when no validator has negative
tokens: such a pool has all the tokens that are moved. -/
theorem executeRemoveValidator_slack {valAddr : ValAddress} {opts : Option RemoveValidatorOptions}
    {s t : AppState} (hdenom : s.staking.bondDenom = defaultBondDenom)
    (h : executeRemoveValidator sdk ctx valAddr opts s = (.ok (), t)) (bonded : Bool) :
    slack sdk.toSdkBase bonded s ≤ slack sdk.toSdkBase bonded t ∧
      (s.staking.NonNegativePower →
        slack sdk.toSdkBase bonded s = 0 → slack sdk.toSdkBase bonded t = 0) := by
  obtain ⟨v, -, -, moved, hv, -, -, hstaking, -, hcoins⟩ := executeRemoveValidator_ok sdk ctx h
  obtain rfl := s.staking.keyed hv
  have howed := owed_removedRecord hv moved bonded
  rw [← hstaking] at howed
  rcases hcoins with
    ⟨rfl, -, hbank⟩ | ⟨tokens, call, u, rfl, -, htokens, hpos, htakes, haccept, hu, hbank⟩
  · -- nothing is moved: the record keeps its tokens
    have hsame : slack sdk.toSdkBase bonded t = slack sdk.toSdkBase bonded s := by
      unfold slack
      rw [hbank, howed]
      simp
    exact ⟨hsame.ge, fun _ hzero => hsame.trans hzero⟩
  · -- the tokens of the record are dropped, and at most as many leave its pool
    have hremoved : removedTokens sdk v tokens s.staking.bondDenom s = min tokens
        (poolBalance sdk.toSdkBase (decide (v.status = .bonded)) s.bank) := by
      rw [removedTokens, hdenom, poolOf_eq]
      rfl
    rw [removedCoins, hdenom] at htakes
    rw [hdenom] at hremoved
    have hpool := poolBalance_of_takesCoins laws htakes haccept bonded
    rw [hu, ← hbank, hremoved] at hpool
    have hnonneg : 0 ≤ poolBalance sdk.toSdkBase (decide (v.status = .bonded)) s.bank :=
      Int.natCast_nonneg _
    have hin : v.tokensIn bonded = if bonded = decide (v.status = .bonded) then tokens else 0 := by
      simp [Validator.tokensIn, htokens, eq_comm]
    by_cases hside : bonded = decide (v.status = .bonded)
    · subst hside
      simp only [if_true] at hpool hin howed
      unfold slack
      rw [hpool, howed, hin]
      refine ⟨by omega, fun hall hzero => ?_⟩
      have hle := le_owed hall hv (decide (v.status = .bonded))
      rw [hin] at hle
      omega
    · simp only [hside, if_false] at hpool hin
      have hsame : slack sdk.toSdkBase bonded t = slack sdk.toSdkBase bonded s := by
        unfold slack
        rw [hpool, howed, hin]
        simp
      exact ⟨hsame.ge, fun _ hzero => hsame.trans hzero⟩

/-! ## Reconciliation -/

theorem reconcileBondedPool_covers (sum : ℤ) :
    Within (Covers sdk.toSdkBase) (reconcileBondedPool sdk ctx sum) := by
  refine .bind .get fun w => .ite ?_ (.pure ())
  refine .bind (.attempt (Step.within_run ?_)) fun _ => .pure ()
  intro u bonded
  rw [Sdk.step, laws.slack_mintCoins]
  split_ifs <;> omega

/-- The deficit of the not-bonded pool is minted in the bonded pool and stays there if it cannot
be sent on. -/
theorem reconcileNotBondedPool_covers (sum : ℤ) :
    Within (Covers sdk.toSdkBase) (reconcileNotBondedPool sdk ctx sum) := by
  refine .bind .get fun w => .ite ?_ (.pure ())
  generalize (sum - _).toNat = n
  intro s
  have hmint (bonded : Bool) := laws.slack_mintCoins bonded n s
  cases hr : sdk.refuse ctx (.mintCoins bondedPoolName ⟨defaultBondDenom, n⟩) s with
  | some e =>
    rw [bind_of_ok (attempt_of_error (Step.run_of_refused (by simp [Sdk.step, hr]; rfl)))]
    exact refl_of (Covers _) s
  | none =>
    rw [bind_of_ok (attempt_of_ok (Step.run_of_accepted (by simp [Sdk.step, hr])))]
    dsimp only [Sdk.step]
    generalize sdk.effect (.mintCoins bondedPoolName ⟨defaultBondDenom, n⟩) s = s₁ at hmint
    cases hr' : sdk.refuse ctx (.sendCoinsFromModuleToModule bondedPoolName notBondedPoolName
        ⟨defaultBondDenom, n⟩) s₁ with
    | some e =>
      rw [bind_of_ok (attempt_of_error (Step.run_of_refused (by simp [hr']; rfl)))]
      intro bonded
      rw [pure_apply, hmint]
      split_ifs <;> omega
    | none =>
      have hsend := laws.slack_sendToModule (s := s₁) (n := n)
      rw [bind_of_ok (attempt_of_ok (Step.run_of_accepted (by simp [hr'])))]
      intro bonded
      rw [pure_apply, hsend bonded (sdk.mustRefuse_of_accepted hr'), hmint]
      split_ifs <;> omega

/-- **A reconciliation** lowers no slack. -/
theorem executeReconcileStakingPools_slack (s : AppState) :
    Covers sdk.toSdkBase s (executeReconcileStakingPools sdk ctx s).2 := by
  have hwithin : Within (Covers sdk.toSdkBase) (executeReconcileStakingPools sdk ctx) := by
    refine .bind (.attempt (.ask _)) fun validators => ?_
    split
    · exact .pure ()
    · exact .bind (.attempt (.ask _)) fun _ =>
        .bind (reconcileBondedPool_covers ctx laws _) fun _ =>
          reconcileNotBondedPool_covers ctx laws _
  exact hwithin s

/-! ## Hooks -/

/-- **One hook.** A hook that returns lowers no slack. One for a single validator that succeeds
on level pools leaves them level. -/
theorem performHook_slack {hook : BlockHook} {s t : AppState} {r : Outcome String Unit}
    (hdenom : s.staking.bondDenom = defaultBondDenom)
    (h : performHook sdk ctx hook s = (r, t)) (hr : r.returned) :
    Covers sdk.toSdkBase s t ∧
      (r = .ok () → hook.action ≠ .reconcileStakingPools →
        s.staking.NonNegativePower →
        (∀ bonded, slack sdk.toSdkBase bonded s = 0) →
          ∀ bonded, slack sdk.toSdkBase bonded t = 0) := by
  have hacts := performHook_acts sdk ctx h hr
  generalize hook.action = action at hacts
  have hkeeps : KeepsSlack sdk.toSdkBase s (r, t) → Covers sdk.toSdkBase s t ∧
      (r = .ok () → action ≠ .reconcileStakingPools →
        s.staking.NonNegativePower →
        (∀ bonded, slack sdk.toSdkBase bonded s = 0) →
          ∀ bonded, slack sdk.toSdkBase bonded t = 0) := fun hk =>
    ⟨hk.1, fun hok _ _ hzero bonded => (hk.2 hok bonded).trans (hzero bonded)⟩
  cases hacts with
  | refused => exact hkeeps (.of_eq fun _ => rfl)
  | unjail a target hrun => exact hkeeps (hrun ▸ executeUnjailing_keepsSlack ctx laws a target s)
  | addValidator a opts hrun =>
    exact hkeeps (hrun ▸ executeAddValidator_keepsSlack ctx laws a opts s)
  | removeValidator a opts hrun =>
    have hslack := executeRemoveValidator_slack ctx laws hdenom hrun
    exact ⟨fun bonded => (hslack bonded).1,
      fun _ _ hall hzero bonded => (hslack bonded).2 hall (hzero bonded)⟩
  | reconcile hrun =>
    have hcovers := executeReconcileStakingPools_slack ctx laws s
    rw [hrun] at hcovers
    exact ⟨hcovers, fun _ hne => absurd rfl hne⟩

omit ctx in
/-- **The pools along the hooks.** In a run of hooks that return, none makes a pool less solvent.
An `add_validator`, `unjail` or `remove_validator` hook that succeeds where both pools are level
leaves both level, under the invariant of the staking module that no tokens are negative. -/
theorem run_slack {s₀ t : AppState}
    {cs : List (Call (BlockContext × BlockHook) (Outcome String Unit) AppState)}
    (hrun : Run (hookStep sdk) s₀ cs t) (hdenom : s₀.staking.bondDenom = defaultBondDenom) :
    ∀ c ∈ cs,
      (slackB sdk.toSdkBase c.before ≤ slackB sdk.toSdkBase c.after ∧
        slackN sdk.toSdkBase c.before ≤ slackN sdk.toSdkBase c.after) ∧
      (c.result = .ok () → c.op.2.action ≠ .reconcileStakingPools →
        c.before.staking.NonNegativePower →
        slackB sdk.toSdkBase c.before = 0 → slackN sdk.toSdkBase c.before = 0 →
          slackB sdk.toSdkBase c.after = 0 ∧ slackN sdk.toSdkBase c.after = 0) := by
  intro c hc
  have hstep := hrun.step_of_mem c hc
  have hbefore : c.before.staking.bondDenom = defaultBondDenom :=
    hrun.forall_before hdenom (fun op s r u hs hstep =>
      (performHook_bondDenom sdk op.1 hstep.1 hstep.2).trans hs) c hc
  obtain ⟨hcovers, hlevel⟩ := performHook_slack c.op.1 laws hbefore hstep.1 hstep.2
  simp only [← slack_true, ← slack_false]
  refine ⟨⟨hcovers true, hcovers false⟩, fun hok haction hall htrue hfalse => ?_⟩
  have hzero := hlevel hok haction hall (Bool.forall_bool.mpr ⟨hfalse, htrue⟩)
  exact ⟨hzero true, hzero false⟩

end Actions

section Sample

theorem poolLaws_sampleBase : PoolLaws sampleBase where
  distinct := by decide
  rewards _ _ _ _ := rfl

/-- The local network with its validator removed and the tokens of it burned. -/
def burnedState : AppState :=
  (performHook sampleSdk sampleBlock (removeHook (some ⟨true, none⟩)) (sampleState false)).2

/-- The pools of the local network are level, and a removal that burns keeps them level. -/
theorem run_slack_remove :
    slackB sampleBase (sampleState false) = 0 ∧ slackN sampleBase (sampleState false) = 0 ∧
      slackB sampleBase burnedState = 0 ∧ slackN sampleBase burnedState = 0 := by
  have hremove : performHook sampleSdk sampleBlock (removeHook (some ⟨true, none⟩))
      (sampleState false) = (.ok (), burnedState) := Prod.ext (by decide +kernel) rfl
  have hrun : Run (hookStep sampleSdk) (sampleState false) _ burnedState :=
    .snoc .nil (a := (sampleBlock, removeHook (some ⟨true, none⟩))) ⟨hremove, rfl⟩
  have hB : slackB sampleBase (sampleState false) = 0 := by decide +kernel
  have hN : slackN sampleBase (sampleState false) = 0 := by decide +kernel
  obtain ⟨-, hlevel⟩ := run_slack poolLaws_sampleBase hrun rfl _ (List.mem_singleton.mpr rfl)
  refine ⟨hB, hN, hlevel rfl (by decide) ?_ hB hN⟩
  intro a v hv
  exact ((nonNegative_sampleState false).validators a v hv).1

end Sample

end NexusNode
