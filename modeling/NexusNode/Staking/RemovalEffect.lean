import NexusNode.Staking.Permanence
import NexusNode.Staking.Pools

/-!
# The effect of a removal

A removal that returns leaves a jailed and tombstoned validator without an index entry. When it is
told where to, it takes the tokens of the validator out of the pool that holds them, as far as that
pool goes. All that belongs to other validators, and the other pool, stays as it was, and a second
removal finds nothing left to do.

## Main definitions

* `removalAmount`: the coins that a removal can take
* `CoinsMoved`: what the bank looks like when coins were taken
* `DistinctConsAddrs`: no two validators share a consensus address
* `RemovalEffect`: all that a removal does, and what it leaves alone

## Main results

* `coinsMoved_effect`: the call that takes the coins
* `executeRemoveValidator_again`: a removal on a removed validator
* `executeRemoveValidator_exact`: the effect of a removal
-/

namespace NexusNode

open Program Proc

/-! ## Coins -/

/-- The options say what becomes of the tokens. -/
def WantsTokens (opts : Option RemoveValidatorOptions) : Prop :=
  ∃ o, opts = some o ∧ (o.burnTokens ∨ o.tokenRecipient.isSome)

section Coins

variable (b : SdkBase) (v : Validator) (o : RemoveValidatorOptions)

/-- The tokens of a validator, as far as its pool goes. -/
def removalAmount (s : AppState) : ℤ :=
  min (v.tokens.getD 0) (s.bank.balance (b.moduleAddress (SdkBase.poolOf v)) s.staking.bondDenom)

/-- Exactly `n` coins have left the pool of the validator. They are burned, or the recipient has
them. -/
structure CoinsMoved (denom : String) (n : ℤ) (s t : Bank) : Prop where
  pool : (t.balance (b.moduleAddress (SdkBase.poolOf v)) denom : ℤ) =
    s.balance (b.moduleAddress (SdkBase.poolOf v)) denom - n
  burned : o.burnTokens = true →
    ∀ d, t.supply d = s.supply d - if d = denom then n.toNat else 0
  credited : o.burnTokens = false → ∃ recipient, o.tokenRecipient = some recipient ∧
    (t.balance recipient denom : ℤ) = s.balance recipient denom + n ∧ t.supply = s.supply
  rest : ∀ a d, (a ≠ b.moduleAddress (SdkBase.poolOf v) ∧
      (o.burnTokens = false → o.tokenRecipient ≠ some a) ∨ d ≠ denom) →
    t.balance a d = s.balance a d

variable {b v o}

/-- Burned coins leave the pool and the supply. -/
theorem coinsMoved_burn {denom : String} {n : ℤ} {s : AppState} (hburn : o.burnTokens = true)
    (hn : 0 ≤ n) (hle : n.toNat ≤ s.bank.balance (b.moduleAddress (SdkBase.poolOf v)) denom) :
    CoinsMoved b v o denom n s.bank
      (b.effect (.burnCoins (SdkBase.poolOf v) ⟨denom, n.toNat⟩) s).bank := by
  refine ⟨?_, fun _ d => ?_, fun h => ?_, fun a d h => ?_⟩
  · simp only [SdkBase.effect, Bank.burnCoins, Bank.balance_subCoins, and_self, if_true]
    omega
  · simp only [SdkBase.effect, Bank.burnCoins]
    split_ifs <;> rfl
  · cases hburn.symm.trans h
  · have hnot : ¬ (a = b.moduleAddress (SdkBase.poolOf v) ∧ d = denom) := by tauto
    simp [SdkBase.effect, Bank.burnCoins, Bank.balance_subCoins, hnot]

/-- Coins that are sent leave the pool for the recipient, which is another account. -/
theorem coinsMoved_send {denom : String} {n : ℤ} {s : AppState} {recipient : AccAddress}
    (hburn : o.burnTokens = false) (hrecipient : o.tokenRecipient = some recipient)
    (hne : recipient ≠ b.moduleAddress (SdkBase.poolOf v)) (hn : 0 ≤ n)
    (hle : n.toNat ≤ s.bank.balance (b.moduleAddress (SdkBase.poolOf v)) denom) :
    CoinsMoved b v o denom n s.bank
      (b.effect (.sendCoinsFromModuleToAccount (SdkBase.poolOf v) recipient ⟨denom, n.toNat⟩)
        s).bank := by
  have hbalance := fun a d => (Bank.balance_addCoins
    (s.bank.subCoins (b.moduleAddress (SdkBase.poolOf v)) ⟨denom, n.toNat⟩) recipient a
    ⟨denom, n.toNat⟩ d)
  simp only [Bank.balance_subCoins] at hbalance
  refine ⟨?_, fun h => ?_, fun _ => ⟨recipient, hrecipient, ?_, rfl⟩, fun a d h => ?_⟩
  · simp only [SdkBase.effect, Bank.sendCoins, hbalance, hne.symm, false_and, and_self, if_true,
      if_false]
    omega
  · cases hburn.symm.trans h
  · simp only [SdkBase.effect, Bank.sendCoins, hbalance, hne, false_and, and_self, if_true,
      if_false]
    omega
  · have hpool : ¬ (a = b.moduleAddress (SdkBase.poolOf v) ∧ d = denom) := by tauto
    have hother : ¬ (a = recipient ∧ d = denom) := by
      rintro ⟨rfl, rfl⟩
      rcases h with ⟨-, h⟩ | h
      · exact h hburn hrecipient
      · exact h rfl
    simp only [SdkBase.effect, Bank.sendCoins, hbalance, hpool, hother, if_false]
    rfl

/-- The call of a removal takes the coins out of the pool, and gives them to no pool. -/
theorem coinsMoved_effect {denom : String} {n : ℤ} {s : AppState}
    (hto : o.burnTokens ∨ o.tokenRecipient.isSome) (hn : 0 ≤ n)
    (haccept : b.mustRefuse (removalCall v o ⟨denom, n.toNat⟩) s = false) :
    CoinsMoved b v o denom n s.bank (b.effect (removalCall v o ⟨denom, n.toNat⟩) s).bank ∧
      (o.burnTokens = false → ∀ p, o.tokenRecipient ≠ some (b.moduleAddress (poolName p))) := by
  cases hburn : o.burnTokens with
  | true =>
    rw [removalCall, if_pos hburn] at haccept ⊢
    have hle : n.toNat ≤ s.bank.balance (b.moduleAddress (SdkBase.poolOf v)) denom := by
      simpa [SdkBase.mustRefuse] using haccept
    exact ⟨coinsMoved_burn hburn hn hle, fun h => by cases h⟩
  | false =>
    obtain ⟨recipient, hrecipient⟩ : ∃ recipient, o.tokenRecipient = some recipient := by
      simpa [hburn, Option.isSome_iff_exists] using hto
    rw [removalCall, if_neg (by simp [hburn]), hrecipient, Option.getD_some] at haccept ⊢
    obtain ⟨hno, hle⟩ := noPool_of_sent haccept
    have hne : recipient ≠ b.moduleAddress (SdkBase.poolOf v) := by
      rw [poolOf_eq]
      exact hno _
    refine ⟨coinsMoved_send hburn hrecipient hne hn hle, ?_⟩
    rintro - p heq
    exact hno p (Option.some.inj heq)

end Coins

section Removal

variable {sdk : Sdk} {ctx : BlockContext} {a : ValAddress} {c : ConsAddress} {v : Validator}
  {opts : Option RemoveValidatorOptions} {s t : AppState}

/-! ## A second removal -/

/-- The calls by which a removal of a removed validator reads are not refused. -/
structure ReadsSucceed (sdk : Sdk) (ctx : BlockContext) (c : ConsAddress) (s : AppState) :
    Prop where
  signingInfo : sdk.refuse ctx (.getValidatorSigningInfo c) s = none
  bondDenom : sdk.refuse ctx .getBondDenom s = none

/-- Where no tokens are to be moved, nothing is written, and what is read decides between an end
and a panic. -/
theorem handleValidatorTokens_of_not_moves (ctx : BlockContext) (h : ¬ MovesTokens sdk v opts s) :
    handleValidatorTokens sdk ctx v opts s = (.ok false, s) ∨
      (opts.isSome ∧ v.tokens = none ∨ sdk.refuse ctx .getBondDenom s ≠ none) ∧
        ∃ r, handleValidatorTokens sdk ctx v opts s = (.error r, s) := by
  unfold handleValidatorTokens
  split
  · exact .inl rfl
  next htokens => exact .inr ⟨.inl ⟨rfl, htokens⟩, _, rfl⟩
  next o tokens htokens =>
    by_cases hpos : 0 < tokens
    swap
    · exact .inl (by simp [hpos])
    rw [if_neg (not_not.mpr hpos)]
    by_cases hto : !o.burnTokens && o.tokenRecipient.isNone
    · exact .inl (by simp [hto])
    rw [if_neg hto]
    cases hread : sdk.getBondDenom ctx s with
    | error e =>
      refine .inr ⟨.inr fun haccepted => ?_, _,
        bind_of_stop (onError_of_error (ask_of_error hread) _) _⟩
      simp [Sdk.getBondDenom, Sdk.answer, haccepted] at hread
    | ok denom =>
      obtain rfl := Sdk.getBondDenom_eq_ok sdk ctx hread
      have hto : o.burnTokens ∨ o.tokenRecipient.isSome := by
        cases hburn : o.burnTokens <;> cases hrecipient : o.tokenRecipient <;>
          simp [hburn, hrecipient] at hto ⊢
      have hamount : ¬ 0 < removedTokens sdk v tokens s.staking.bondDenom s := fun hamount =>
        h ⟨o, tokens, rfl, hto, htokens, hpos, hamount⟩
      left
      rw [orPanic, bind_of_ok (onError_of_ok (ask_of_ok hread) _), bind_of_ok (get_apply s)]
      dsimp only
      rw [if_pos hamount]
      rfl

/-- **A removal of a removed validator** whose tokens are not to be moved writes nothing, and
returns when it can read. -/
theorem executeRemoveValidator_again (hremoved : Removed sdk.toSdkBase a c s)
    (hv : s.staking.validators.lookup a = some v) (hmoves : ¬ MovesTokens sdk v opts s)
    (htokens : opts.isSome → v.tokens.isSome) :
    (executeRemoveValidator sdk ctx a opts s).2 = s ∧
      (ReadsSucceed sdk ctx c s → executeRemoveValidator sdk ctx a opts s = (.ok (), s)) := by
  obtain ⟨⟨w, hw, hjailed, hcons⟩, -, info, hinfo, htombstoned⟩ := hremoved
  obtain rfl := Option.some.inj (hv.symm.trans hw)
  have haddress (text : String) : orPanic text (ofExcept (sdk.getConsAddr v)) s = (.ok c, s) := by
    rw [hcons]
    rfl
  unfold executeRemoveValidator
  rw [orPanic, bind_of_ok (onError_of_ok (ask_of_ok (Sdk.getValidator_of_lookup sdk ctx hv)) _),
    bind_of_ok (haddress _)]
  cases hread : sdk.getValidatorSigningInfo ctx c s with
  | error e =>
    have htombstone : tombstoneValidator sdk ctx c s = (.error (.panic _), s) :=
      bind_of_stop (onError_of_error (ask_of_error hread) _) _
    rw [bind_of_stop htombstone]
    refine ⟨rfl, fun hreads => ?_⟩
    have := Sdk.getValidatorSigningInfo_eq_ok_iff.mpr ⟨hreads.signingInfo, hinfo⟩
    exact nomatch hread.symm.trans this
  | ok info' =>
    obtain ⟨-, hinfo'⟩ := Sdk.getValidatorSigningInfo_eq_ok_iff.mp hread
    obtain rfl := Option.some.inj (hinfo.symm.trans hinfo')
    have htombstone : tombstoneValidator sdk ctx c s = (.ok (), s) := by
      unfold tombstoneValidator
      rw [orPanic, bind_of_ok (onError_of_ok (ask_of_ok hread) _), if_pos htombstoned]
      rfl
    have hunindex : unindexValidator sdk ctx v s = (.ok (), s) := by
      rw [unindexValidator, if_pos hjailed]
      rfl
    rw [bind_of_ok htombstone, bind_of_ok hunindex]
    rcases handleValidatorTokens_of_not_moves ctx hmoves with hok | ⟨hwhy, r, hstop⟩
    · rw [bind_of_ok hok, hjailed]
      exact ⟨rfl, fun _ => rfl⟩
    · rw [bind_of_stop hstop]
      refine ⟨rfl, fun hreads => ?_⟩
      rcases hwhy with ⟨hsome, hnone⟩ | hrefused
      · have := htokens hsome
        simp [hnone] at this
      · exact absurd hreads.bondDenom hrefused

/-! ## The effect -/

/-- No two validators share a consensus address. -/
def DistinctConsAddrs (b : SdkBase) (s : AppState) : Prop :=
  ∀ a v a' v' c, s.staking.validators.lookup a = some v →
    s.staking.validators.lookup a' = some v' → b.getConsAddr v = .ok c → b.getConsAddr v' = .ok c →
    a = a'

/-- **All that a removal does** to the validator `v` with the operator `a` and the consensus
address `c`, and what it leaves alone. -/
structure RemovalEffect (b : SdkBase) (a : ValAddress) (c : ConsAddress) (v : Validator)
    (opts : Option RemoveValidatorOptions) (s t : AppState) : Prop where
  removed : Removed b a c t
  moved : WantsTokens opts → 0 < removalAmount b v s →
    (∃ o, opts = some o ∧
      CoinsMoved b v o s.staking.bondDenom (removalAmount b v s) s.bank t.bank) ∧
      ∃ w, t.staking.validators.lookup a = some w ∧ w.tokens = some 0 ∧ w.delegatorShares = 0
  kept : ¬ (WantsTokens opts ∧ 0 < removalAmount b v s) → t.bank = s.bank ∧
    ∃ w, t.staking.validators.lookup a = some w ∧ w.tokens = v.tokens ∧
      w.delegatorShares = v.delegatorShares
  otherPool : ∀ denom,
    t.bank.balance (b.moduleAddress (poolName (decide (v.status ≠ .bonded)))) denom =
      s.bank.balance (b.moduleAddress (poolName (decide (v.status ≠ .bonded)))) denom
  records : ∀ a', a' ≠ a → t.staking.validators.lookup a' = s.staking.validators.lookup a'
  index : ∀ p a', a' ≠ a → ((p, a') ∈ t.staking.powerIndex ↔ (p, a') ∈ s.staking.powerIndex)
  signingInfos : ∀ a' w c', a' ≠ a → s.staking.validators.lookup a' = some w →
    b.getConsAddr w = .ok c' →
      t.slashing.signingInfos.lookup c' = s.slashing.signingInfos.lookup c'

theorem movesTokens_iff : MovesTokens sdk v opts s ↔
    WantsTokens opts ∧ 0 < removalAmount sdk.toSdkBase v s := by
  constructor
  · rintro ⟨o, tokens, rfl, hto, htokens, -, hamount⟩
    refine ⟨⟨o, rfl, hto⟩, ?_⟩
    simpa [removalAmount, removedTokens, htokens] using hamount
  · rintro ⟨⟨o, rfl, hto⟩, hamount⟩
    cases htokens : v.tokens with
    | none => simp [removalAmount, htokens] at hamount
    | some tokens =>
      simp only [removalAmount, htokens, Option.getD_some] at hamount
      exact ⟨o, tokens, rfl, hto, htokens, (lt_min_iff.mp hamount).1, hamount⟩

theorem removedCoins_eq {tokens : ℤ} (htokens : v.tokens = some tokens) :
    removedCoins sdk v tokens s =
      ⟨s.staking.bondDenom, (removalAmount sdk.toSdkBase v s).toNat⟩ := by
  simp only [removedCoins, removedTokens, removalAmount, htokens, Option.getD_some]

/-- Nil tokens are not compared without a panic. -/
theorem isSome_tokens_of_handled {moved : Bool}
    (h : handleValidatorTokens sdk ctx v opts s = (.ok moved, t)) (hopts : opts.isSome) :
    v.tokens.isSome := by
  obtain ⟨o, rfl⟩ := Option.isSome_iff_exists.mp hopts
  cases htokens : v.tokens with
  | some tokens => rfl
  | none =>
    simp only [handleValidatorTokens, htokens] at h
    cases h

/-- What becomes of the coins of a removed validator and of the other pool. -/
theorem coins_of_handled
    (hne : sdk.moduleAddress bondedPoolName ≠ sdk.moduleAddress notBondedPoolName) {moved : Bool}
    (h : handleValidatorTokens sdk ctx v opts s = (.ok moved, t)) :
    (moved = true → ∃ o, opts = some o ∧ CoinsMoved sdk.toSdkBase v o s.staking.bondDenom
        (removalAmount sdk.toSdkBase v s) s.bank t.bank) ∧
      (moved = false → t.bank = s.bank) ∧
      ∀ denom,
        t.bank.balance (sdk.moduleAddress (poolName (decide (v.status ≠ .bonded)))) denom =
          s.bank.balance (sdk.moduleAddress (poolName (decide (v.status ≠ .bonded)))) denom := by
  rcases handleValidatorTokens_ok sdk ctx h with
    ⟨rfl, -, rfl⟩ | ⟨o, tokens, rfl, rfl, hmoves, htokens, hpos, haccept, rfl⟩
  · exact ⟨nofun, fun _ => rfl, fun denom => rfl⟩
  obtain ⟨⟨o', ho, hto⟩, hamount⟩ := movesTokens_iff.mp hmoves
  obtain rfl := Option.some.inj ho
  rw [removedCoins_eq htokens] at haccept ⊢
  obtain ⟨hcoins, hrecipient⟩ :=
    coinsMoved_effect hto hamount.le (sdk.mustRefuse_of_accepted haccept)
  refine ⟨fun _ => ⟨o, rfl, hcoins⟩, nofun, fun denom => hcoins.rest _ _ (.inl ⟨?_, ?_⟩)⟩
  · rw [poolOf_eq, ne_eq, poolAddress_inj hne]
    simp
  · exact fun hburn => hrecipient hburn _

/-- A removal that returns, in the terms of its effect: what is filed, and when the coins are
moved. -/
theorem executeRemoveValidator_spec
    (hne : sdk.moduleAddress bondedPoolName ≠ sdk.moduleAddress notBondedPoolName)
    (h : executeRemoveValidator sdk ctx a opts s = (.ok (), t)) :
    ∃ v c info moved, s.staking.validators.lookup a = some v ∧ sdk.getConsAddr v = .ok c ∧
      (opts.isSome → v.tokens.isSome) ∧
      t.staking.validators = s.staking.validators.insert a (removedRecord v moved) ∧
      t.staking.bondDenom = s.staking.bondDenom ∧
      t.slashing.signingInfos = s.slashing.signingInfos.insert c (tombstonedInfo info) ∧
      (moved = true ↔ WantsTokens opts ∧ 0 < removalAmount sdk.toSdkBase v s) ∧
      (moved = true → ∃ o, opts = some o ∧ CoinsMoved sdk.toSdkBase v o s.staking.bondDenom
        (removalAmount sdk.toSdkBase v s) s.bank t.bank) ∧
      (moved = false → t.bank = s.bank) ∧
      ∀ denom,
        t.bank.balance (sdk.moduleAddress (poolName (decide (v.status ≠ .bonded)))) denom =
          s.bank.balance (sdk.moduleAddress (poolName (decide (v.status ≠ .bonded)))) denom := by
  obtain ⟨v, c, info, moved, u, hv, hcons, -, hhandled, rfl⟩ :=
    executeRemoveValidator_inv sdk ctx h
  obtain rfl := s.staking.keyed hv
  obtain ⟨hstaking, hslashing, hmoves⟩ :=
    handleValidatorTokens_movesCoins sdk ctx (s := s) (by rfl) (by simp) hhandled
  have hcoins := coins_of_handled hne hhandled
  simp only [removalAmount, unindexed_bondDenom] at hcoins
  refine ⟨v, c, info, moved, hv, hcons, isSome_tokens_of_handled hhandled, ?_, ?_, ?_,
    hmoves.moved_iff.trans movesTokens_iff, hcoins⟩
  · dsimp only
    rw [Staking.setValidator_validators, removedRecord_operatorAddress, hstaking,
      unindexed_validators]
  · exact (congrArg Staking.bondDenom hstaking).trans (unindexed_bondDenom v s.staking)
  · dsimp only
    rw [hslashing]

/-- The tokens of a removed record have been moved, or there is nothing to move. -/
theorem not_movesTokens_removedRecord {moved : Bool}
    (hmoved : moved = true ↔ WantsTokens opts ∧ 0 < removalAmount sdk.toSdkBase v s)
    (hkept : moved = false → t.bank = s.bank)
    (hdenom : t.staking.bondDenom = s.staking.bondDenom) :
    ¬ MovesTokens sdk (removedRecord v moved) opts t := by
  rw [movesTokens_iff]
  cases moved with
  | true =>
    rintro ⟨-, hamount⟩
    simp [removalAmount, removedRecord] at hamount
  | false =>
    have hsame : removalAmount sdk.toSdkBase (removedRecord v false) t =
        removalAmount sdk.toSdkBase v s := by
      unfold removalAmount
      rw [hkept rfl, hdenom]
      rfl
    rw [hsame, ← hmoved]
    simp

/-- **The effect of a removal.** Where no two validators share a consensus address and the power
index is exact, a removal that returns has all of `RemovalEffect`, and a second one with the same
options changes nothing further. -/
theorem executeRemoveValidator_exact
    (hne : sdk.moduleAddress bondedPoolName ≠ sdk.moduleAddress notBondedPoolName)
    (hdistinct : DistinctConsAddrs sdk.toSdkBase s) (hindex : IndexExact s)
    (h : executeRemoveValidator sdk ctx a opts s = (.ok (), t)) :
    ∃ v c, s.staking.validators.lookup a = some v ∧ sdk.getConsAddr v = .ok c ∧
      RemovalEffect sdk.toSdkBase a c v opts s t ∧
      ∀ ctx', (executeRemoveValidator sdk ctx' a opts t).2 = t ∧
        (ReadsSucceed sdk ctx' c t → executeRemoveValidator sdk ctx' a opts t = (.ok (), t)) := by
  have hexact := indexExact_executeRemoveValidator ctx h hindex
  obtain ⟨v', c', hv', hcons', hremoved⟩ := removed_of_executeRemoveValidator ctx h hindex
  obtain ⟨v, c, info, moved, hv, hcons, htokens, hvalidators, hdenom, hinfos, hiff, hmoved, hkept,
    hother⟩ := executeRemoveValidator_spec hne h
  obtain rfl := Option.some.inj (hv'.symm.trans hv)
  obtain rfl := Except.ok.inj (hcons'.symm.trans hcons)
  have hrecord : t.staking.validators.lookup a = some (removedRecord v' moved) := by
    rw [hvalidators, Finmap.lookup_insert]
  have hrecords (a' : ValAddress) (ha : a' ≠ a) :
      t.staking.validators.lookup a' = s.staking.validators.lookup a' := by
    rw [hvalidators, Finmap.lookup_insert_of_ne _ ha]
  refine ⟨v', c', hv, hcons, ?_, fun ctx' => executeRemoveValidator_again hremoved hrecord
    (not_movesTokens_removedRecord hiff hkept hdenom) fun hopts => ?_⟩
  · refine ⟨hremoved, fun hto hamount => ?_, fun hnot => ?_, hother, hrecords, ?_, ?_⟩
    · obtain rfl := hiff.mpr ⟨hto, hamount⟩
      exact ⟨hmoved rfl, _, hrecord, rfl, rfl⟩
    · obtain rfl : moved = false := by simpa using hiff.not.mpr hnot
      exact ⟨hkept rfl, _, hrecord, rfl, rfl⟩
    · intro p a' ha
      rw [hexact, hindex, hrecords a' ha]
    · intro a' w c ha hw hc
      have hne : c ≠ c' := by
        rintro rfl
        exact ha (hdistinct a' w a v' c hw hv hc hcons)
      rw [hinfos, Finmap.lookup_insert_of_ne _ hne]
  · cases moved with
    | true => rfl
    | false => exact htokens hopts

end Removal

section Sample

theorem distinctConsAddrs_sampleState (jailed : Bool) :
    DistinctConsAddrs sampleBase (sampleState jailed) := by
  intro a v a' v' c hv hv' _ _
  exact (sampleState_lookup hv).1.trans (sampleState_lookup hv').1.symm

/-- With both options the tokens of the validator of the local network are burned, and a second
removal finds it removed. -/
theorem executeRemoveValidator_exact_burn :
    let opts : Option RemoveValidatorOptions := some ⟨true, some secondOperator⟩
    ∃ t, executeRemoveValidator sampleSdk sampleBlock sampleOperator opts (sampleState false) =
        (.ok (), t) ∧
      RemovalEffect sampleBase sampleOperator sampleConsAddress (sampleValidator false) opts
        (sampleState false) t ∧
      executeRemoveValidator sampleSdk sampleBlock sampleOperator opts t = (.ok (), t) := by
  intro opts
  have hreturns : (executeRemoveValidator sampleSdk sampleBlock sampleOperator opts
      (sampleState false)).1 = .ok () := by decide +kernel
  obtain ⟨v, c, hv, hcons, heffect, hagain⟩ :=
    executeRemoveValidator_exact poolLaws_sampleBase.distinct (distinctConsAddrs_sampleState false)
      (indexExact_sampleState false) (Prod.ext hreturns rfl)
  obtain rfl := (sampleState_lookup hv).2
  obtain rfl := Except.ok.inj hcons
  exact ⟨_, Prod.ext hreturns rfl, heffect, (hagain sampleBlock).2 ⟨rfl, rfl⟩⟩

end Sample

end NexusNode
