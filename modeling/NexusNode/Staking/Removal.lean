import NexusNode.Staking.Plan

/-!
# Removal and reconciliation

A removal panics on every failure, so where it returns it has gone through to its end. It takes
the validator out of the power index, tombstones it, moves its tokens if it is told where to,
and writes the record back. A reconciliation mints into the two pools and drops its errors.
Both therefore never return an error of the SDK.

## Main definitions

* `MovesTokens`: when a removal moves tokens
* `TakesCoins`, `removalCall`, `MovesCoins`: the call by which it does, and what becomes of the
  coins

## Main results

* `handleValidatorTokens_ok`: what becomes of the tokens of a removed validator
* `executeRemoveValidator_inv`, `executeRemoveValidator_ok`: what a removal does when it returns
* `neverFails_executeRemoveValidator`, `neverFails_executeReconcileStakingPools`: neither
  returns an error
* `performHook_keeps`: the invariant rule of the hooks
-/

namespace NexusNode

open Program Proc

variable (sdk : Sdk) (ctx : BlockContext)

/-! ## No error is returned -/

theorem neverFails_orPanic {α : Type} (text : String) (p : Hook α) :
    NeverFails (orPanic text p) := NeverFails.onError (text ++ ·) p

theorem neverFails_tombstoneValidator (consAddr : ConsAddress) :
    NeverFails (tombstoneValidator sdk ctx consAddr) :=
  .bind (neverFails_orPanic _ _) fun _ => NeverFails.ite (.pure ()) (neverFails_orPanic _ _)

theorem neverFails_unindexValidator (v : Validator) : NeverFails (unindexValidator sdk ctx v) :=
  NeverFails.ite (.pure ()) (neverFails_orPanic _ _)

theorem neverFails_handleValidatorTokens (v : Validator) (opts : Option RemoveValidatorOptions) :
    NeverFails (handleValidatorTokens sdk ctx v opts) := by
  unfold handleValidatorTokens
  split
  · exact .pure _
  · exact .panic _
  · refine NeverFails.ite (.pure _) (NeverFails.ite (.pure _) ?_)
    refine .bind (neverFails_orPanic _ _) fun _ => .bind .get fun _ => ?_
    refine NeverFails.ite (.pure _) (NeverFails.ite ?_ ?_)
    · exact .bind (neverFails_orPanic _ _) fun _ => .pure _
    · split
      · exact .bind (neverFails_orPanic _ _) fun _ => .pure _
      · exact .pure _

/-- A removal succeeds or panics. -/
theorem neverFails_executeRemoveValidator (valAddr : ValAddress)
    (opts : Option RemoveValidatorOptions) :
    NeverFails (executeRemoveValidator sdk ctx valAddr opts) := by
  refine .bind (neverFails_orPanic _ _) fun v => .bind (neverFails_orPanic _ _) fun c => ?_
  refine .bind (neverFails_tombstoneValidator sdk ctx c) fun _ => ?_
  refine .bind (neverFails_unindexValidator sdk ctx v) fun _ => ?_
  refine .bind (neverFails_handleValidatorTokens sdk ctx v opts) fun _ => ?_
  exact .ite (neverFails_orPanic _ _) (.pure ())

/-- A reconciliation drops its errors. -/
theorem neverFails_executeReconcileStakingPools :
    NeverFails (executeReconcileStakingPools sdk ctx) := by
  refine .bind (.attempt _) fun validators => ?_
  split
  · exact .pure ()
  · refine .bind (.attempt _) fun _ => .bind ?_ fun _ => ?_
    · refine .bind .get fun _ => NeverFails.ite ?_ (.pure ())
      exact .bind (.attempt _) fun _ => .pure ()
    · refine .bind .get fun _ => NeverFails.ite ?_ (.pure ())
      refine .bind (.attempt _) fun r => ?_
      split
      · exact .pure ()
      · exact .bind (.attempt _) fun _ => .pure ()

/-! ## What a removal writes -/

/-- A removal moves tokens: it is told where to, and both the validator and its pool have
some. -/
def MovesTokens (v : Validator) (opts : Option RemoveValidatorOptions) (s : AppState) : Prop :=
  ∃ o tokens, opts = some o ∧ (o.burnTokens ∨ o.tokenRecipient.isSome) ∧
    v.tokens = some tokens ∧ 0 < tokens ∧ 0 < removedTokens sdk v tokens s.staking.bondDenom s

/-- The coins that a removal takes out of the pool of a validator with `tokens`. -/
def removedCoins (v : Validator) (tokens : ℤ) (s : AppState) : Coin :=
  ⟨s.staking.bondDenom, (removedTokens sdk v tokens s.staking.bondDenom s).toNat⟩

/-- The call by which a removal takes coins out of the pool of a validator: they are burned, or
sent to a recipient. -/
def TakesCoins (v : Validator) (coins : Coin) (call : SdkCall) : Prop :=
  call = .burnCoins (SdkBase.poolOf v) coins ∨
    ∃ recipient, call = .sendCoinsFromModuleToAccount (SdkBase.poolOf v) recipient coins

/-- The call that a removal makes for its options. A recipient is only looked at when the tokens
are not burned. -/
def removalCall (v : Validator) (opts : RemoveValidatorOptions) (coins : Coin) : SdkCall :=
  if opts.burnTokens then .burnCoins (SdkBase.poolOf v) coins
  else .sendCoinsFromModuleToAccount (SdkBase.poolOf v) (opts.tokenRecipient.getD []) coins

theorem takesCoins_removalCall (v : Validator) (opts : RemoveValidatorOptions) (coins : Coin) :
    TakesCoins v coins (removalCall v opts coins) := by
  unfold removalCall
  split_ifs
  · exact .inl rfl
  · exact .inr ⟨_, rfl⟩

theorem Sdk.getBondDenom_eq_ok {s : AppState} {denom : String}
    (h : sdk.getBondDenom ctx s = .ok denom) : denom = s.staking.bondDenom := by
  unfold Sdk.getBondDenom Sdk.answer at h
  split at h
  · cases h
  · exact (Except.ok.inj h).symm

theorem Sdk.refuse_of_step {text : String} {call : SdkCall} {s : AppState}
    (h : (sdk.step ctx text call).refuse s = none) : sdk.refuse ctx call s = none :=
  Option.map_eq_none_iff.mp h

/-- A call made for a removal, when the removal goes on. -/
theorem orPanic_step_ok {text : String} {call : SdkCall} {s t : AppState}
    (h : orPanic text (sdk.step ctx "" call).run s = (.ok (), t)) :
    sdk.refuse ctx call s = none ∧ t = sdk.effect call s := by
  obtain ⟨hrefuse, rfl⟩ := Step.run_eq_ok_iff.mp (onError_eq_ok_iff.mp h)
  exact ⟨sdk.refuse_of_step ctx hrefuse, rfl⟩

/-- What a removal does with the tokens of a validator, when it returns: nothing, or one call
that takes them out of the pool. -/
theorem handleValidatorTokens_ok {v : Validator} {opts : Option RemoveValidatorOptions}
    {s t : AppState} {moved : Bool} (h : handleValidatorTokens sdk ctx v opts s = (.ok moved, t)) :
    (moved = false ∧ ¬ MovesTokens sdk v opts s ∧ t = s) ∨
      ∃ o tokens, moved = true ∧ opts = some o ∧ MovesTokens sdk v opts s ∧
        v.tokens = some tokens ∧ 0 < tokens ∧
        sdk.refuse ctx (removalCall v o (removedCoins sdk v tokens s)) s = none ∧
        t = sdk.effect (removalCall v o (removedCoins sdk v tokens s)) s := by
  unfold handleValidatorTokens at h
  split at h
  · obtain ⟨rfl, rfl⟩ : false = moved ∧ s = t := by simpa using h
    exact .inl ⟨rfl, by simp [MovesTokens], rfl⟩
  · cases h
  next o tokens htokens =>
    have hmoves : MovesTokens sdk v (some o) s ↔ (o.burnTokens ∨ o.tokenRecipient.isSome) ∧
        0 < tokens ∧ 0 < removedTokens sdk v tokens s.staking.bondDenom s := by
      simp [MovesTokens, htokens]
    rw [hmoves]
    by_cases hpos : 0 < tokens
    · by_cases hto : !o.burnTokens && o.tokenRecipient.isNone
      · rw [if_neg (by simpa using hpos), if_pos hto] at h
        obtain ⟨rfl, rfl⟩ : false = moved ∧ s = t := by simpa using h
        have hto : o.burnTokens = false ∧ o.tokenRecipient = none := by simpa using hto
        exact .inl ⟨rfl, by simp [hto.1, hto.2], rfl⟩
      · rw [if_neg (by simpa using hpos), if_neg hto] at h
        obtain ⟨denom, u, hread, hmove⟩ := bind_eq_ok_iff.mp h
        obtain ⟨hdenom, rfl⟩ := ask_eq_ok_iff.mp (onError_eq_ok_iff.mp hread)
        obtain rfl := Sdk.getBondDenom_eq_ok sdk ctx hdenom
        rw [bind_of_ok (get_apply s)] at hmove
        by_cases hamount : 0 < removedTokens sdk v tokens s.staking.bondDenom s
        · rw [if_neg (by simpa using hamount)] at hmove
          have hto : o.burnTokens ∨ o.tokenRecipient.isSome := by
            cases hburn : o.burnTokens <;> cases hrecipient : o.tokenRecipient <;>
              simp [hburn, hrecipient] at hto ⊢
          have hdone : moved = true ∧
              sdk.refuse ctx (removalCall v o (removedCoins sdk v tokens s)) s = none ∧
              t = sdk.effect (removalCall v o (removedCoins sdk v tokens s)) s := by
            unfold removalCall
            split_ifs at hmove ⊢ with hburn
            · obtain ⟨⟨⟩, u, hcall, hpure⟩ := bind_eq_ok_iff.mp hmove
              obtain ⟨rfl, rfl⟩ : true = moved ∧ u = t := by simpa using hpure
              exact ⟨rfl, orPanic_step_ok sdk ctx hcall⟩
            · split at hmove
              next recipient hsome =>
                obtain ⟨⟨⟩, u, hcall, hpure⟩ := bind_eq_ok_iff.mp hmove
                obtain ⟨rfl, rfl⟩ : true = moved ∧ u = t := by simpa using hpure
                rw [hsome, Option.getD_some]
                exact ⟨rfl, orPanic_step_ok sdk ctx hcall⟩
              next hnone => simp [hburn, hnone] at hto
          obtain ⟨hmoved, hrest⟩ := hdone
          exact .inr ⟨o, tokens, hmoved, rfl, ⟨hto, hpos, hamount⟩, htokens, hpos, hrest⟩
        · rw [if_pos (by simpa using hamount)] at hmove
          obtain ⟨rfl, rfl⟩ : false = moved ∧ s = t := by simpa using hmove
          exact .inl ⟨rfl, by simp [hamount], rfl⟩
    · simp only [hpos, not_false_eq_true, if_true] at h
      obtain ⟨rfl, rfl⟩ : false = moved ∧ s = t := by simpa using h
      exact .inl ⟨rfl, by simp [hpos], rfl⟩

theorem removedRecord_operatorAddress (v : Validator) (moved : Bool) :
    (removedRecord v moved).operatorAddress = v.operatorAddress := by
  cases moved <;> rfl

@[simp] theorem removedRecord_jailed (v : Validator) (moved : Bool) :
    (removedRecord v moved).jailed = true := by
  cases moved <;> rfl

@[simp] theorem getConsAddr_removedRecord (b : SdkBase) (v : Validator) (moved : Bool) :
    b.getConsAddr (removedRecord v moved) = b.getConsAddr v := by
  cases moved <;> rfl

/-- A jailed validator whose tokens stay keeps its record. -/
theorem removedRecord_of_jailed {v : Validator} (h : v.jailed = true) :
    removedRecord v false = v := by
  obtain ⟨_, _, jailed, _, _, _, _, _⟩ := v
  obtain rfl : jailed = true := h
  rfl

/-- The signing info of a removed validator. -/
def tombstonedInfo (info : ValidatorSigningInfo) : ValidatorSigningInfo :=
  if info.tombstoned then info
  else { info with tombstoned := true, jailedUntil := 253402300799 * second }

@[simp] theorem tombstonedInfo_tombstoned (info : ValidatorSigningInfo) :
    (tombstonedInfo info).tombstoned = true := by
  unfold tombstonedInfo
  split_ifs with h
  · exact h
  · rfl

/-- Tombstoning writes the signing info of the validator, when it goes through. -/
theorem tombstoneValidator_ok {consAddr : ConsAddress} {s t : AppState}
    (h : tombstoneValidator sdk ctx consAddr s = (.ok (), t)) :
    ∃ info, s.slashing.signingInfos.lookup consAddr = some info ∧
      t = { s with slashing.signingInfos :=
        s.slashing.signingInfos.insert consAddr (tombstonedInfo info) } := by
  obtain ⟨info, u, hread, hwrite⟩ := bind_eq_ok_iff.mp h
  obtain ⟨hget, rfl⟩ := ask_eq_ok_iff.mp (onError_eq_ok_iff.mp hread)
  obtain ⟨-, hinfo⟩ := Sdk.getValidatorSigningInfo_eq_ok_iff.mp hget
  refine ⟨info, hinfo, ?_⟩
  by_cases htomb : info.tombstoned = true
  · -- a tombstoned info is not written again
    rw [if_pos htomb] at hwrite
    obtain rfl : s = t := (Prod.mk.inj hwrite).2
    rw [tombstonedInfo, if_pos htomb, insert_of_lookup hinfo]
  · rw [if_neg htomb] at hwrite
    obtain ⟨-, rfl⟩ := orPanic_step_ok sdk ctx hwrite
    rw [tombstonedInfo, if_neg htomb]
    rfl

/-- The staking state without the index entry of a validator that has one. -/
def unindexed (v : Validator) (s : Staking) : Staking :=
  if v.jailed then s else s.unindexByPower v

@[simp] theorem unindexed_validators (v : Validator) (s : Staking) :
    (unindexed v s).validators = s.validators := by
  unfold unindexed
  split_ifs <;> rfl

@[simp] theorem unindexed_delegations (v : Validator) (s : Staking) :
    (unindexed v s).delegations = s.delegations := by
  unfold unindexed
  split_ifs <;> rfl

@[simp] theorem unindexed_unbondingDelegations (v : Validator) (s : Staking) :
    (unindexed v s).unbondingDelegations = s.unbondingDelegations := by
  unfold unindexed
  split_ifs <;> rfl

@[simp] theorem unindexed_bondDenom (v : Validator) (s : Staking) :
    (unindexed v s).bondDenom = s.bondDenom := by
  unfold unindexed
  split_ifs <;> rfl

theorem unindexed_powerIndex_subset (v : Validator) (s : Staking) :
    (unindexed v s).powerIndex ⊆ s.powerIndex := by
  unfold unindexed
  split_ifs
  · exact Finset.Subset.refl _
  · exact Finset.erase_subset _ _

theorem unindexValidator_ok {v : Validator} {s t : AppState}
    (h : unindexValidator sdk ctx v s = (.ok (), t)) :
    t = { s with staking := unindexed v s.staking } := by
  unfold unindexValidator at h
  unfold unindexed
  split_ifs at h ⊢
  · exact (Prod.mk.inj h).2.symm
  · exact (orPanic_step_ok sdk ctx h).2

theorem TakesCoins.effect {v : Validator} {coins : Coin} {call : SdkCall}
    (h : TakesCoins v coins call) (b : SdkBase) (s : AppState) :
    (b.effect call s).staking = s.staking ∧ (b.effect call s).slashing = s.slashing := by
  rcases h with rfl | ⟨recipient, rfl⟩
  · exact ⟨rfl, rfl⟩
  · exact ⟨rfl, rfl⟩

/-- What becomes of the coins of a removed validator: they stay, or a call takes them out of its
pool. -/
def MovesCoins (v : Validator) (opts : Option RemoveValidatorOptions) (moved : Bool)
    (s t : AppState) : Prop :=
  (moved = false ∧ ¬ MovesTokens sdk v opts s ∧ t.bank = s.bank) ∨
    ∃ tokens call u, moved = true ∧ MovesTokens sdk v opts s ∧ v.tokens = some tokens ∧
      0 < tokens ∧ TakesCoins v (removedCoins sdk v tokens s) call ∧
      sdk.mustRefuse call u = false ∧ u.bank = s.bank ∧ t.bank = (sdk.effect call u).bank

variable {sdk} in
theorem MovesCoins.moved_iff {v : Validator} {opts : Option RemoveValidatorOptions} {moved : Bool}
    {s t : AppState} (h : MovesCoins sdk v opts moved s t) :
    moved = true ↔ MovesTokens sdk v opts s := by
  rcases h with ⟨rfl, hmoves, -⟩ | ⟨-, -, -, rfl, hmoves, -⟩ <;> simpa using hmoves

/-- The coins are moved as in `s`, in a later state with the same bank and the same coin. -/
theorem handleValidatorTokens_movesCoins {v : Validator} {opts : Option RemoveValidatorOptions}
    {s u t : AppState} {moved : Bool} (hbank : u.bank = s.bank)
    (hdenom : u.staking.bondDenom = s.staking.bondDenom)
    (h : handleValidatorTokens sdk ctx v opts u = (.ok moved, t)) :
    t.staking = u.staking ∧ t.slashing = u.slashing ∧ MovesCoins sdk v opts moved s t := by
  have hmovesIff : MovesTokens sdk v opts u ↔ MovesTokens sdk v opts s := by
    simp only [MovesTokens, removedTokens, hbank, hdenom]
  have hcoins : ∀ tokens, removedCoins sdk v tokens u = removedCoins sdk v tokens s := by
    intro tokens
    simp only [removedCoins, removedTokens, hbank, hdenom]
  rcases handleValidatorTokens_ok sdk ctx h with
    ⟨hmoved, hmoves, rfl⟩ | ⟨o, tokens, hmoved, -, hmoves, hv, hpos, haccept, rfl⟩
  · exact ⟨rfl, rfl, .inl ⟨hmoved, hmovesIff.not.mp hmoves, hbank⟩⟩
  · rw [hcoins] at haccept ⊢
    have htakes := takesCoins_removalCall v o (removedCoins sdk v tokens s)
    obtain ⟨hstaking, hslashing⟩ := htakes.effect sdk.toSdkBase u
    exact ⟨hstaking, hslashing, .inr ⟨tokens, _, u, hmoved, hmovesIff.mp hmoves, hv, hpos,
      htakes, sdk.mustRefuse_of_accepted haccept, hbank, rfl⟩⟩

/-- The parts that a removal has gone through when it returns: the validator is tombstoned and
out of the index before its tokens are handled, and the removed record is filed behind that. -/
theorem executeRemoveValidator_inv {valAddr : ValAddress} {opts : Option RemoveValidatorOptions}
    {s t : AppState} (h : executeRemoveValidator sdk ctx valAddr opts s = (.ok (), t)) :
    ∃ v consAddr info moved u, s.staking.validators.lookup valAddr = some v ∧
      sdk.getConsAddr v = .ok consAddr ∧ s.slashing.signingInfos.lookup consAddr = some info ∧
      handleValidatorTokens sdk ctx v opts
        { s with staking := unindexed v s.staking
                 slashing.signingInfos :=
                   s.slashing.signingInfos.insert consAddr (tombstonedInfo info) } =
        (.ok moved, u) ∧
      t = { u with staking := u.staking.setValidator (removedRecord v moved) } := by
  obtain ⟨v, u, hread, hrest⟩ := bind_eq_ok_iff.mp h
  obtain ⟨hget, rfl⟩ := ask_eq_ok_iff.mp (onError_eq_ok_iff.mp hread)
  have hv := Sdk.lookup_of_getValidator hget
  obtain rfl := s.staking.keyed hv
  obtain ⟨consAddr, u, haddress, hrest⟩ := bind_eq_ok_iff.mp hrest
  obtain ⟨hcons, rfl⟩ := ask_eq_ok_iff.mp (onError_eq_ok_iff.mp haddress)
  obtain ⟨⟨⟩, s₁, htombstone, hindexed⟩ := bind_eq_ok_iff.mp hrest
  obtain ⟨⟨⟩, s₂, hunindex, hrest⟩ := bind_eq_ok_iff.mp hindexed
  obtain ⟨moved, u, htokens, hwritten⟩ := bind_eq_ok_iff.mp hrest
  obtain ⟨info, hinfo, rfl⟩ := tombstoneValidator_ok sdk ctx htombstone
  obtain rfl := unindexValidator_ok sdk ctx hunindex
  refine ⟨v, consAddr, info, moved, u, hv, hcons, hinfo, htokens, ?_⟩
  by_cases hwrite : !v.jailed || moved
  · rw [if_pos hwrite] at hwritten
    exact (orPanic_step_ok sdk ctx hwritten).2
  · -- already jailed and nothing moved: the removed record is the stored one
    rw [if_neg hwrite] at hwritten
    obtain rfl : u = t := (Prod.mk.inj hwritten).2
    obtain ⟨hjailed, rfl⟩ : v.jailed = true ∧ moved = false := by simpa using hwrite
    have hstaking := (handleValidatorTokens_movesCoins sdk ctx rfl rfl htokens).1
    have hstored : u.staking.validators.lookup v.operatorAddress = some v := by
      rw [hstaking, unindexed_validators, hv]
    rw [removedRecord_of_jailed hjailed, Staking.setValidator_of_lookup hstored]

/-- **What a removal does.** A removal that returns has tombstoned the validator, taken its
entry out of the index, moved its tokens or left them alone, and filed the removed record. -/
theorem executeRemoveValidator_ok {valAddr : ValAddress} {opts : Option RemoveValidatorOptions}
    {s t : AppState} (h : executeRemoveValidator sdk ctx valAddr opts s = (.ok (), t)) :
    ∃ v consAddr info moved, s.staking.validators.lookup valAddr = some v ∧
      sdk.getConsAddr v = .ok consAddr ∧ s.slashing.signingInfos.lookup consAddr = some info ∧
      t.staking = (unindexed v s.staking).setValidator (removedRecord v moved) ∧
      t.slashing.signingInfos =
        s.slashing.signingInfos.insert consAddr (tombstonedInfo info) ∧
      MovesCoins sdk v opts moved s t := by
  obtain ⟨v, consAddr, info, moved, u, hv, hcons, hinfo, htokens, rfl⟩ :=
    executeRemoveValidator_inv sdk ctx h
  obtain ⟨hstaking, hslashing, hcoins⟩ :=
    handleValidatorTokens_movesCoins sdk ctx (s := s) (by rfl) (by simp) htokens
  refine ⟨v, consAddr, info, moved, hv, hcons, hinfo, ?_, ?_, hcoins⟩
  · dsimp only
    rw [hstaking]
  · dsimp only
    rw [hslashing]

/-- What a removal writes to the records: it files the removed one and leaves the delegations
alone. -/
theorem executeRemoveValidator_records {valAddr : ValAddress}
    {opts : Option RemoveValidatorOptions} {s t : AppState}
    (h : executeRemoveValidator sdk ctx valAddr opts s = (.ok (), t)) :
    ∃ v moved, s.staking.validators.lookup valAddr = some v ∧
      (moved = true ↔ MovesTokens sdk v opts s) ∧
      t.staking.validators = s.staking.validators.insert valAddr (removedRecord v moved) ∧
      t.staking.delegations = s.staking.delegations := by
  obtain ⟨v, -, -, moved, hv, -, -, hstaking, -, hcoins⟩ := executeRemoveValidator_ok sdk ctx h
  obtain rfl := s.staking.keyed hv
  refine ⟨v, moved, hv, hcoins.moved_iff, ?_, ?_⟩
  · rw [hstaking, Staking.setValidator_validators, removedRecord_operatorAddress,
      unindexed_validators]
  · rw [hstaking, Staking.setValidator_delegations, unindexed_delegations]

/-! ## What a reconciliation leaves alone -/

/-- A reconciliation mints and sends coins only. -/
theorem executeReconcileStakingPools_frame (s : AppState) :
    (executeReconcileStakingPools sdk ctx s).2.staking = s.staking ∧
      (executeReconcileStakingPools sdk ctx s).2.slashing = s.slashing := by
  have hwithin : Within (Order.Preimage (fun u : AppState => (u.staking, u.slashing)) Eq)
      (executeReconcileStakingPools sdk ctx) := by
    refine .bind (.attempt (.ask _)) fun validators => ?_
    split
    · exact .pure ()
    · refine .bind (.attempt (.ask _)) fun _ => .bind ?_ fun _ => ?_
      · refine .bind .get fun _ => .ite ?_ (.pure ())
        exact .bind (.attempt (Step.within_run fun _ => rfl)) fun _ => .pure ()
      · refine .bind .get fun _ => .ite ?_ (.pure ())
        refine .bind (.attempt (Step.within_run fun _ => rfl)) fun r => ?_
        split
        · exact .pure ()
        · exact .bind (.attempt (Step.within_run fun _ => rfl)) fun _ => .pure ()
  exact Prod.mk.inj (hwithin s).symm

theorem executeReconcileStakingPools_staking (s : AppState) :
    (executeReconcileStakingPools sdk ctx s).2.staking = s.staking :=
  (executeReconcileStakingPools_frame sdk ctx s).1

/-! ## Hooks -/

theorem ofExcept_bind_apply {α β : Type} (x : Except String α) (f : α → Hook β) (s : AppState) :
    (ofExcept x >>= f) s = match x with
      | .ok a => f a s
      | .error e => (.error (.error e), s) := by
  cases x <;> rfl

theorem eq_ok_of_neverFails {p : Hook Unit} (hp : NeverFails p) {s t : AppState}
    {r : Outcome String Unit} (h : p s = (r, t)) (hr : r.returned) : r = .ok () := by
  rcases r with (e | e | _) | ⟨⟩
  · exact absurd h (hp s e t)
  · cases hr
  · cases hr
  · rfl

/-- What a hook that returns amounts to, by its action: an error before the action begins, or
the action itself. -/
inductive Acts (s : AppState) : HookType → Outcome String Unit → AppState → Prop
  | refused (action : HookType) (e : String) : Acts s action (.error (.error e)) s
  | unjail {r : Outcome String Unit} {t : AppState} (a : ValAddress) (target : Option ℤ)
      (h : executeUnjailing sdk ctx a target s = (r, t)) : Acts s .unjail r t
  | addValidator {r : Outcome String Unit} {t : AppState} (a : ValAddress)
      (opts : Option AddValidatorOptions)
      (h : executeAddValidator sdk ctx a opts s = (r, t)) : Acts s .addValidator r t
  | removeValidator {t : AppState} (a : ValAddress) (opts : Option RemoveValidatorOptions)
      (h : executeRemoveValidator sdk ctx a opts s = (.ok (), t)) :
      Acts s .removeValidator (.ok ()) t
  | reconcile {r : Outcome String Unit} {t : AppState}
      (h : executeReconcileStakingPools sdk ctx s = (r, t)) : Acts s .reconcileStakingPools r t

theorem performHook_acts {hook : BlockHook} {s t : AppState} {r : Outcome String Unit}
    (h : performHook sdk ctx hook s = (r, t)) (hr : r.returned) :
    Acts sdk ctx s hook.action r t := by
  obtain ⟨block, action, params⟩ := hook
  have hrefused : ∀ e, (.error (.error e), s) = (r, t) → Acts sdk ctx s action r t := by
    intro e he
    obtain ⟨rfl, rfl⟩ := Prod.mk.inj he
    exact .refused action e
  cases action with
  | unjail =>
    cases params with
    | unjail validator target =>
      simp only [performHook, performUnjailHook, ofExcept_bind_apply] at h
      split at h
      · exact .unjail _ _ h
      · exact hrefused _ h
    | _ => exact hrefused _ h
  | addValidator =>
    cases params with
    | addValidator validator opts =>
      simp only [performHook, performAddValidatorHook, ofExcept_bind_apply] at h
      split at h
      · exact .addValidator _ _ h
      · exact hrefused _ h
    | _ => exact hrefused _ h
  | removeValidator =>
    cases params with
    | removeValidator validator opts =>
      simp only [performHook, performRemoveValidatorHook, ofExcept_bind_apply] at h
      split at h
      next a _ =>
        obtain rfl := eq_ok_of_neverFails (neverFails_executeRemoveValidator sdk ctx a opts) h hr
        exact .removeValidator a opts h
      · exact hrefused _ h
    | _ => exact hrefused _ h
  | reconcileStakingPools =>
    cases params with
    | reconcileStakingPools => exact .reconcile h
    | _ => exact hrefused _ h
  | other name => exact hrefused _ h

/-- What the four actions keep, a hook that returns keeps. -/
theorem performHook_keeps {P : AppState → Prop}
    (hunjail : ∀ a target s, P s → P (executeUnjailing sdk ctx a target s).2)
    (hadd : ∀ a opts s, P s → P (executeAddValidator sdk ctx a opts s).2)
    (hremove : ∀ a opts s t, executeRemoveValidator sdk ctx a opts s = (.ok (), t) → P s → P t)
    (hreconcile : ∀ s, P s → P (executeReconcileStakingPools sdk ctx s).2)
    {hook : BlockHook} {s t : AppState} {r : Outcome String Unit}
    (h : performHook sdk ctx hook s = (r, t)) (hr : r.returned) (hs : P s) : P t := by
  have hacts := performHook_acts sdk ctx h hr
  generalize hook.action = action at hacts
  cases hacts with
  | refused => exact hs
  | unjail a target hrun => simpa [hrun] using hunjail a target s hs
  | addValidator a opts hrun => simpa [hrun] using hadd a opts s hs
  | removeValidator a opts hrun => exact hremove a opts s t hrun hs
  | reconcile hrun => simpa [hrun] using hreconcile s hs

/-- No hook that returns writes the bond denomination. -/
theorem performHook_bondDenom {hook : BlockHook} {s t : AppState} {r : Outcome String Unit}
    (h : performHook sdk ctx hook s = (r, t)) (hr : r.returned) :
    t.staking.bondDenom = s.staking.bondDenom := by
  let P : AppState → Prop := fun u => u.staking.bondDenom = s.staking.bondDenom
  have hsteps : ∀ {Q : SdkCall → Prop} {cs : List (Step AppState String)} (u : AppState),
      (∀ c ∈ cs, Performs sdk Q c) → P u → P (runSteps cs u).2 := by
    intro Q cs u hcs hu
    refine runSteps_keeps (fun c hc => (hcs c hc).keeps (fun _ _ hx => hx) ?_) hu
    intro call _ x hx
    exact (sdk.effect_staking_frame call x).2.2.trans hx
  refine performHook_keeps sdk ctx (P := P) ?_ ?_ ?_ ?_ h hr rfl
  · intro a target u hu
    exact executeUnjailing_induct sdk ctx hu fun v _ =>
      hsteps u (performs_unjailSteps sdk ctx a v target) hu
  · intro a opts u hu
    exact executeAddValidator_induct sdk ctx hu fun _ pubKey n _ =>
      hsteps u (performs_createSteps sdk ctx a pubKey n _) hu
  · intro a opts u w hrun hu
    obtain ⟨v, -, -, moved, -, -, -, hstaking, -⟩ := executeRemoveValidator_ok sdk ctx hrun
    change w.staking.bondDenom = s.staking.bondDenom
    rw [hstaking, ← hu]
    exact unindexed_bondDenom v u.staking
  · intro u hu
    exact (congrArg Staking.bondDenom (executeReconcileStakingPools_staking sdk ctx u)).trans hu

end NexusNode
