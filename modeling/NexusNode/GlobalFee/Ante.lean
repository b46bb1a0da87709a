import NexusNode.Evm.Types
import NexusNode.GlobalFee.Params

/-!
# The minimum fee of a transaction

`MinGasPriceDecorator` asks for the gas limit times the stored price, rounded up. The product is
one of unbounded integers at 18 fractional digits, so the rounded comparison is the exact one for
every gas limit, as long as the product fits a decimal of the SDK.

## Main definitions

* `AnteContext`, `AnteTx`, `AnteHandler`: what ante handlers work on
* `requiredFee`, `anteHandle`: the decorator
* `Passes`: the decorator hands the transaction to the next handler
* `Chargeable`: transactions with a valid fee, within the bit limit

## Main results

* `requiredFee_eq`: the required fee is the product, rounded up once
* `passes_iff`, `anteHandle_exact`: the rule is exact
* `stored_price_usable_iff`: when a price from a genesis file is usable
-/

namespace NexusNode.GlobalFee

open Program

/-! ## The decorator -/

/-- `sdk.FeeTx` -/
structure FeeTx where
  gas : UInt64
  fee : List SdkCoin
  deriving DecidableEq

/-- `sdk.Tx` as ante handlers see it; `feeTx` is the result of the type assertion to
`sdk.FeeTx`, and `rest` is what only the SDK reads, such as the signatures. -/
structure AnteTx where
  msgs : List Msg
  feeTx : Option FeeTx
  rest : Bytes

/-- `sdk.Context`: its mode, the store of the module, and the rest. -/
structure AnteContext (σ : Type) where
  isCheckTx : Bool
  isReCheckTx : Bool
  params : ParamsStore
  rest : σ

/-- A handler returns a context and an error, if it does not panic. -/
abbrev AnteHandler (σ : Type) :=
  AnteContext σ → AnteTx → Bool → Outcome String (AnteContext σ × Option String)

section Decorator

variable {σ : Type} (m : SdkMath)

/-- The price times the gas limit, rounded up. -/
def requiredFee (minPrice : DecCoin) (gas : UInt64) : Outcome String ℤ :=
  match minPrice.amount with
  | none => .error (.panic nilDereference)
  | some price => do
    let product ← m.mulInt price gas.toNat
    m.truncateInt (m.ceil product)

def insufficientFees (minPrice : DecCoin) (gas : UInt64) (paid required : ℤ) : String :=
  "insufficient fees: got " ++ toString paid ++ minPrice.denom ++ ", required " ++
    toString required ++ minPrice.denom ++ " (gas " ++ toString gas ++ " × price " ++
    minPrice.amount.elim "" m.decString ++ ")"

/-- `MinGasPriceDecorator.AnteHandle` -/
def anteHandle (ctx : AnteContext σ) (tx : AnteTx) (simulate : Bool) (next : AnteHandler σ) :
    Outcome String (AnteContext σ × Option String) :=
  if simulate then next ctx tx simulate
  else do
    let minPrice := (← getParams m ctx.params).minimumGasPrice
    if ← minPrice.isZero then next ctx tx simulate
    else
      match tx.feeTx with
      | none => .ok (ctx, some "tx must implement sdk.FeeTx")
      | some feeTx => do
        let required ← requiredFee m minPrice feeTx.gas
        let paid ← m.amountOf feeTx.fee minPrice.denom
        if paid < required then
          .ok (ctx, some (insufficientFees m minPrice feeTx.gas paid required))
        else next ctx tx simulate

/-- The transaction was accepted. -/
def Accepts (r : Outcome String (AnteContext σ × Option String)) : Prop :=
  ∃ ctx, r = .ok (ctx, none)

/-- The handler that accepts everything. -/
def acceptAll : AnteHandler σ := fun ctx _ _ => .ok (ctx, none)

/-- Outside simulation, the decorator hands the transaction to the next handler, whatever that
is. -/
def Passes (ctx : AnteContext σ) (tx : AnteTx) : Prop :=
  ∀ next, anteHandle m ctx tx false next = next ctx tx false

end Decorator

variable {σ : Type}

/-- The decorator hands the transaction on, or rejects it whatever comes next. -/
theorem anteHandle_cases (m : SdkMath) (ctx : AnteContext σ) (tx : AnteTx) (simulate : Bool) :
    (∀ next, anteHandle m ctx tx simulate next = next ctx tx simulate) ∨
      ∃ r, ¬Accepts r ∧ ∀ next, anteHandle m ctx tx simulate next = r := by
  have hstop : ∀ s : Stop String,
      ¬Accepts (.error s : Outcome String (AnteContext σ × Option String)) := by
    rintro s ⟨ctx', h⟩
    cases h
  have hrejects : ∀ e, ¬Accepts (.ok (ctx, some e)) := by
    rintro e ⟨ctx', h⟩
    cases h
  unfold anteHandle
  cases simulate with
  | true => exact .inl fun _ => rfl
  | false =>
    simp only [Bool.false_eq_true, if_false, bind, Except.bind]
    cases getParams m ctx.params with
    | error s => exact .inr ⟨_, hstop s, fun _ => rfl⟩
    | ok p =>
      dsimp only
      cases p.minimumGasPrice.isZero with
      | error s => exact .inr ⟨_, hstop s, fun _ => rfl⟩
      | ok zero =>
        cases zero with
        | true => exact .inl fun _ => rfl
        | false =>
          cases tx.feeTx with
          | none => exact .inr ⟨_, hrejects _, fun _ => rfl⟩
          | some feeTx =>
            dsimp only
            cases requiredFee m p.minimumGasPrice feeTx.gas with
            | error s => exact .inr ⟨_, hstop s, fun _ => rfl⟩
            | ok required =>
              dsimp only
              cases m.amountOf feeTx.fee p.minimumGasPrice.denom with
              | error s => exact .inr ⟨_, hstop s, fun _ => rfl⟩
              | ok paid =>
                by_cases hshort : paid < required
                · exact .inr ⟨_, hrejects _, fun _ => if_pos hshort⟩
                · exact .inl fun _ => if_neg hshort

/-- A transaction is accepted when it is by the rule alone and by the next handler. -/
theorem accepts_anteHandle_iff (m : SdkMath) (ctx : AnteContext σ) (tx : AnteTx)
    (simulate : Bool) (next : AnteHandler σ) :
    Accepts (anteHandle m ctx tx simulate next) ↔
      Accepts (anteHandle m ctx tx simulate acceptAll) ∧ Accepts (next ctx tx simulate) := by
  rcases anteHandle_cases m ctx tx simulate with hpasses | ⟨r, hr, hrejects⟩
  · rw [hpasses, hpasses]
    exact ⟨fun h => ⟨⟨ctx, rfl⟩, h⟩, And.right⟩
  · rw [hrejects, hrejects]
    exact ⟨fun h => absurd h hr, fun h => absurd h.1 hr⟩

/-! ## Rounding up -/

/-- The least integer that is not below a decimal. -/
def ceilQuo (d : ℤ) : ℤ := -(-d / precision)

theorem precision_pos : 0 < precision := by decide

/-- Rounding up does not change a comparison with an integer. -/
theorem ceilQuo_le_iff {d n : ℤ} : ceilQuo d ≤ n ↔ d ≤ n * precision := by
  unfold ceilQuo
  rw [neg_le, Int.le_ediv_iff_mul_le precision_pos, neg_mul, neg_le_neg_iff]

theorem natAbs_lt_two_pow_iff {d : ℤ} (hd : 0 ≤ d) (k : ℕ) : d.natAbs < 2 ^ k ↔ d < 2 ^ k := by
  obtain ⟨n, rfl⟩ := Int.eq_ofNat_of_zero_le hd
  rw [Int.natAbs_natCast]
  exact_mod_cast Iff.rfl

theorem ceilQuo_nonneg {d : ℤ} (hd : 0 ≤ d) : 0 ≤ ceilQuo d := by
  by_contra hneg
  have hle := ceilQuo_le_iff.mp (Int.le_sub_one_of_lt (not_le.mp hneg))
  have : (0 - 1) * precision < 0 := by decide
  omega

/-- The digits before the point of a decimal within its bit limit fit an integer. -/
theorem ceilQuo_natAbs_lt {d : ℤ} (h₀ : 0 ≤ d) (hd : d < 2 ^ maxDecBitLen) :
    (ceilQuo d).natAbs < 2 ^ maxBitLen := by
  have hlimit : (2 : ℤ) ^ maxDecBitLen ≤ (2 ^ maxBitLen - 1) * precision := by
    have hdigits : (2 : ℤ) ^ 59 + 1 ≤ precision := by decide
    have hprecision : precision ≤ 2 ^ maxBitLen := by decide
    calc (2 : ℤ) ^ maxDecBitLen = 2 ^ maxBitLen * (2 ^ 59 + 1) - 2 ^ maxBitLen := by
          rw [mul_add_one, add_sub_cancel_right, ← pow_add]
          rfl
      _ ≤ 2 ^ maxBitLen * precision - precision :=
          sub_le_sub (mul_le_mul_of_nonneg_left hdigits (by decide)) hprecision
      _ = (2 ^ maxBitLen - 1) * precision := by rw [sub_mul, one_mul]
  have hle : ceilQuo d ≤ 2 ^ maxBitLen - 1 := ceilQuo_le_iff.mpr (hd.le.trans hlimit)
  exact (natAbs_lt_two_pow_iff (ceilQuo_nonneg h₀) maxBitLen).mpr (Int.lt_of_le_sub_one hle)

variable {m : SdkMath}

/-- **The required fee** is the exact product, rounded up. -/
theorem requiredFee_eq (hm : m.Lawful) {minPrice : DecCoin} {price : ℤ} {gas : UInt64}
    (hamount : minPrice.amount = some price) (hprice : 0 ≤ price)
    (hbits : price * gas.toNat < 2 ^ maxDecBitLen) :
    requiredFee m minPrice gas = .ok (ceilQuo (price * gas.toNat)) := by
  have h₀ : 0 ≤ price * (gas.toNat : ℤ) := mul_nonneg hprice (Int.natCast_nonneg _)
  have hmul : m.mulInt price gas.toNat = .ok (price * gas.toNat) :=
    hm.mulInt_eq price gas.toNat ((natAbs_lt_two_pow_iff h₀ maxDecBitLen).mpr hbits)
  have hceil : (m.ceil (price * gas.toNat)).tdiv precision = ceilQuo (price * gas.toNat) := by
    rw [hm.ceil_eq]
    exact Int.mul_tdiv_cancel _ precision_pos.ne'
  have htruncate := hm.truncateInt_eq (m.ceil (price * gas.toNat))
    (hceil ▸ ceilQuo_natAbs_lt h₀ hbits)
  unfold requiredFee
  rw [hamount]
  change (m.mulInt price gas.toNat >>= fun product => m.truncateInt (m.ceil product)) = _
  rw [hmul]
  exact htruncate.trans (congrArg _ hceil)

/-! ## The rule -/

/-- A transaction with a valid fee, within the bit limit of the product. -/
structure Chargeable (price : ℤ) (tx : AnteTx) (feeTx : FeeTx) : Prop where
  feeTx_eq : tx.feeTx = some feeTx
  coins : ValidCoins feeTx.fee
  bits : price * feeTx.gas.toNat < 2 ^ maxDecBitLen

/-- A context whose store has a valid price. -/
structure HasPrice (m : SdkMath) (ctx : AnteContext σ) (minPrice : DecCoin) (price : ℤ) :
    Prop where
  read : getParams m ctx.params = .ok ⟨minPrice⟩
  valid : (Params.mk minPrice).validate m = .ok ()
  amount_eq : minPrice.amount = some price

theorem HasPrice.denom_eq (hm : m.Lawful) {ctx : AnteContext σ} {minPrice : DecCoin} {price : ℤ}
    (h : HasPrice m ctx minPrice price) : minPrice.denom = chainDenom :=
  ((Params.validate_eq_ok_iff hm _).mp h.valid).1

theorem HasPrice.nonneg (hm : m.Lawful) {ctx : AnteContext σ} {minPrice : DecCoin} {price : ℤ}
    (h : HasPrice m ctx minPrice price) : 0 ≤ price := by
  obtain ⟨-, d, hd, hnonneg⟩ := (Params.validate_eq_ok_iff hm _).mp h.valid
  obtain rfl := Option.some.inj (h.amount_eq.symm.trans hd)
  exact hnonneg

/-- What the decorator does with a transaction it can charge. -/
theorem anteHandle_eq (hm : m.Lawful) {ctx : AnteContext σ} {minPrice : DecCoin} {price : ℤ}
    (hprice : HasPrice m ctx minPrice price) {tx : AnteTx} {feeTx : FeeTx}
    (htx : Chargeable price tx feeTx) (next : AnteHandler σ) :
    anteHandle m ctx tx false next =
      if price = 0 ∨ price * feeTx.gas.toNat ≤ amountIn minPrice.denom feeTx.fee * precision then
        next ctx tx false
      else
        .ok (ctx, some (insufficientFees m minPrice feeTx.gas (amountIn minPrice.denom feeTx.fee)
          (ceilQuo (price * feeTx.gas.toNat)))) := by
  have hrequired := requiredFee_eq hm hprice.amount_eq (hprice.nonneg hm) htx.bits
  have hpaid := hm.amountOf_eq feeTx.fee minPrice.denom htx.coins
    (hprice.denom_eq hm ▸ hm.validateDenom_chainDenom)
  unfold anteHandle
  simp only [Bool.false_eq_true, if_false, hprice.read, DecCoin.isZero, hprice.amount_eq,
    htx.feeTx_eq, hrequired, hpaid, bind, Except.bind, decide_eq_true_eq]
  by_cases hzero : price = 0
  · rw [if_pos hzero, if_pos (.inl hzero)]
  · -- the required fee was rounded up, which the comparison does not see
    rw [if_neg hzero]
    by_cases hcovers : price * feeTx.gas.toNat ≤ amountIn minPrice.denom feeTx.fee * precision
    · rw [if_neg (not_lt.mpr (ceilQuo_le_iff.mpr hcovers)), if_pos (.inr hcovers)]
    · rw [if_pos (not_le.mp (mt ceilQuo_le_iff.mp hcovers)), if_neg (not_or_intro hzero hcovers)]

theorem passes_iff (hm : m.Lawful) {ctx : AnteContext σ} {minPrice : DecCoin} {price : ℤ}
    (hprice : HasPrice m ctx minPrice price) {tx : AnteTx} {feeTx : FeeTx}
    (htx : Chargeable price tx feeTx) :
    Passes m ctx tx ↔
      price = 0 ∨ price * feeTx.gas.toNat ≤ amountIn minPrice.denom feeTx.fee * precision := by
  constructor
  · intro hpasses
    by_contra hshort
    -- a handler that accepts everything tells the two outcomes apart
    have hnext := hpasses fun ctx _ _ => .ok (ctx, none)
    rw [anteHandle_eq hm hprice htx, if_neg hshort] at hnext
    cases hnext
  · intro hpaid next
    rw [anteHandle_eq hm hprice htx, if_pos hpaid]

/-- **The minimum fee is exact.** For every gas limit, every valid price and every valid fee, the
decorator calls the next handler exactly when the price is zero or the fee, at 18 fractional
digits, is at least the price times the gas limit; otherwise it returns an error. So a higher fee
or a lower gas limit never turns acceptance into rejection. -/
theorem anteHandle_exact (hm : m.Lawful) {ctx : AnteContext σ} {minPrice : DecCoin} {price : ℤ}
    (hprice : HasPrice m ctx minPrice price) {tx : AnteTx} {feeTx : FeeTx}
    (htx : Chargeable price tx feeTx) :
    (Passes m ctx tx ↔
      price = 0 ∨ price * feeTx.gas.toNat ≤ amountIn minPrice.denom feeTx.fee * 10 ^ 18) ∧
    (¬Passes m ctx tx → ∃ e, ∀ next, anteHandle m ctx tx false next = .ok (ctx, some e)) ∧
    ∀ tx' feeTx', tx'.feeTx = some feeTx' → ValidCoins feeTx'.fee → feeTx'.gas ≤ feeTx.gas →
      amountIn minPrice.denom feeTx.fee ≤ amountIn minPrice.denom feeTx'.fee →
      Passes m ctx tx → Passes m ctx tx' := by
  refine ⟨passes_iff hm hprice htx, ?_, ?_⟩
  · intro hfails
    rw [passes_iff hm hprice htx] at hfails
    exact ⟨_, fun next => (anteHandle_eq hm hprice htx next).trans (if_neg hfails)⟩
  · intro tx' feeTx' hfeeTx' hcoins' hgas hfee hpasses
    have hproduct : price * feeTx'.gas.toNat ≤ price * feeTx.gas.toNat :=
      mul_le_mul_of_nonneg_left (by exact_mod_cast UInt64.le_iff_toNat_le.mp hgas)
        (hprice.nonneg hm)
    have htx' : Chargeable price tx' feeTx' := ⟨hfeeTx', hcoins', hproduct.trans_lt htx.bits⟩
    refine (passes_iff hm hprice htx').mpr (((passes_iff hm hprice htx).mp hpasses).imp_right ?_)
    intro hpaid
    exact (hproduct.trans hpaid).trans (mul_le_mul_of_nonneg_right hfee precision_pos.le)

/-- The texts of zero and a quarter. -/
def sampleDecString (d : ℤ) : String :=
  if d = 0 then "0.000000000000000000"
  else if d = 250000000000000000 then "0.250000000000000000"
  else ""

/-- The SDK on the inputs of the examples below, where the decimals are zero and a quarter, with
`unset` written for a decimal that was never set. -/
def sampleMathOf (unset : Json) : SdkMath where
  marshalDec amount := amount.elim unset fun d => .str (sampleDecString d)
  unmarshalDec
    | .str s =>
      if s = "0" ∨ s = "0.000000000000000000" then .ok 0
      else if s = "0.25" ∨ s = "0.250000000000000000" then .ok 250000000000000000
      else .error (.custom "failed to set decimal string")
    | .null => .error (.custom "decimal string cannot be empty")
    | j => .error (.mismatch j.kind "string")
  decString := sampleDecString
  validateDenom denom := if denom = chainDenom then .ok () else .error ("invalid denom: " ++ denom)
  mulInt d i :=
    if (d * i).natAbs < 2 ^ maxDecBitLen then .ok (d * i) else .error (.panic "Int overflow")
  ceil d := -(-d / precision) * precision
  truncateInt d :=
    if (d.tdiv precision).natAbs < 2 ^ maxBitLen then .ok (d.tdiv precision)
    else .error (.panic "NewIntFromBigInt() out of bound")
  amountOf coins denom := .ok (amountIn denom coins)

theorem sampleMathOf_lawful (unset : Json) : (sampleMathOf unset).Lawful where
  unmarshalDec_marshalDec j d h := by
    cases j with
    | str s =>
      simp only [sampleMathOf] at h
      split_ifs at h
      · obtain rfl := Except.ok.inj h
        rfl
      · obtain rfl := Except.ok.inj h
        rfl
    | _ => cases h
  validateDenom_chainDenom := rfl
  mulInt_eq _ _ h := by simp only [sampleMathOf, h, if_true]
  mulInt_abort _ _ h := ⟨"Int overflow", by simp only [sampleMathOf, not_lt.mpr h, if_false]⟩
  ceil_eq _ := rfl
  truncateInt_eq _ h := if_pos h
  truncateInt_abort _ h := ⟨_, if_neg (not_lt.mpr h)⟩
  amountOf_eq _ _ _ _ := rfl

/-- The SDK that writes zero for a decimal that was never set. -/
def sampleMath : SdkMath := sampleMathOf (.str "0")

theorem sampleMath_lawful : sampleMath.Lawful := sampleMathOf_lawful _

/-- A genesis file with a price of a quarter. -/
def quarterGenesis : Json :=
  .obj [("params", .obj [("minimum_gas_price",
    .obj [("denom", .str "atnex"), ("amount", .str "0.25")])])]

def quarterParams : Params := ⟨⟨chainDenom, some 250000000000000000⟩⟩

/-- A context after that genesis. -/
def quarterContext : AnteContext Unit :=
  ⟨true, false, some (quarterParams.toJson sampleMath), ()⟩

theorem anteHandle_exact_quarter :
    Passes sampleMath quarterContext ⟨[], some ⟨100, [⟨"atnex", 25⟩]⟩, []⟩ := by
  have hprice : HasPrice sampleMath quarterContext ⟨chainDenom, some 250000000000000000⟩
      250000000000000000 := ⟨rfl, rfl, rfl⟩
  have hbits : (250000000000000000 * 100 : ℤ) < 2 ^ maxDecBitLen :=
    lt_of_lt_of_le (show _ < (2 : ℤ) ^ maxBitLen by decide)
      (pow_le_pow_right₀ (by decide) (by decide))
  have htx : Chargeable 250000000000000000 ⟨[], some ⟨100, [⟨"atnex", 25⟩]⟩, []⟩
      ⟨100, [⟨"atnex", 25⟩]⟩ := ⟨rfl, ⟨by simp, by simp⟩, hbits⟩
  exact (anteHandle_exact sampleMath_lawful hprice htx).1.mpr (.inr (by decide))

/-! ## Prices from a genesis file -/

/-- A required fee is never negative when the price is not. -/
theorem requiredFee_nonneg (hm : m.Lawful) {minPrice : DecCoin} {price required : ℤ}
    {gas : UInt64} (hamount : minPrice.amount = some price) (hprice : 0 ≤ price)
    (h : requiredFee m minPrice gas = .ok required) : 0 ≤ required := by
  have h₀ : 0 ≤ price * (gas.toNat : ℤ) := mul_nonneg hprice (Int.natCast_nonneg _)
  by_cases hbits : price * (gas.toNat : ℤ) < 2 ^ maxDecBitLen
  · rw [requiredFee_eq hm hamount hprice hbits] at h
    obtain rfl := Except.ok.inj h
    exact ceilQuo_nonneg h₀
  · -- past the limit the product aborts
    have habort := not_lt.mp (mt (natAbs_lt_two_pow_iff h₀ maxDecBitLen).mp hbits)
    obtain ⟨e, he⟩ := hm.mulInt_abort price gas.toNat habort
    simp [requiredFee, hamount, he, bind, Except.bind] at h

/-- **Usable prices.** After every genesis that `InitGenesis` accepts, a read of the parameters
returns, with parameters that pass the check, whose zero test does not panic and which never ask
for a negative fee or for one in another denomination, exactly when the file has the denomination
of the chain and an amount that is not negative; or has that denomination and no amount, and what
the SDK writes for a decimal that was never set reads back as one that is not negative. -/
theorem stored_price_usable_iff (hm : m.Lawful) {text : Except String Json}
    {store store' : ParamsStore} (h : initGenesis m text store = .ok store') :
    (∃ p, getParams m store' = .ok p ∧ p.validate m = .ok () ∧
      (∃ zero, p.minimumGasPrice.isZero = .ok zero) ∧
      p.minimumGasPrice.denom = chainDenom ∧
      ∀ gas required, requiredFee m p.minimumGasPrice gas = .ok required → 0 ≤ required) ↔
    ∃ gs, unmarshalGenesis m text = .ok gs ∧ gs.params.minimumGasPrice.denom = chainDenom ∧
      ((∃ price, gs.params.minimumGasPrice.amount = some price ∧ 0 ≤ price) ∨
        gs.params.minimumGasPrice.amount = none ∧
          ∃ price, m.unmarshalDec (m.marshalDec none) = .ok price ∧ 0 ≤ price) := by
  obtain ⟨gs, hgs, -⟩ := initGenesis_eq_ok_iff.mp h
  have hvalid := getParams_valid_iff hm h
  simp only [hgs, Except.ok.injEq, exists_eq_left',
    readBack_nonneg_iff hm (unmarshalGenesis_fromJson hgs)] at hvalid ⊢
  rw [SdkMath.readBack] at hvalid
  rw [← hvalid]
  constructor
  · rintro ⟨p, hread, hcheck, -⟩
    exact ⟨p, hread, hcheck⟩
  · rintro ⟨p, hread, hcheck⟩
    obtain ⟨hdenom, price, hamount, hprice⟩ := (p.validate_eq_ok_iff hm).mp hcheck
    refine ⟨p, hread, hcheck, ⟨_, by rw [DecCoin.isZero, hamount]⟩, hdenom, ?_⟩
    intro gas required hrequired
    exact requiredFee_nonneg hm hamount hprice hrequired

theorem stored_price_usable_quarter :
    ∃ p, getParams sampleMath (some (quarterParams.toJson sampleMath)) = .ok p ∧
      p.validate sampleMath = .ok () := by
  have hinit : initGenesis sampleMath (.ok quarterGenesis) none =
      .ok (some (quarterParams.toJson sampleMath)) := rfl
  obtain ⟨p, hread, hvalid, -⟩ := (stored_price_usable_iff sampleMath_lawful hinit).mpr
    ⟨⟨quarterParams⟩, rfl, rfl, .inl ⟨_, rfl, by decide⟩⟩
  exact ⟨p, hread, hvalid⟩

/-- An empty genesis is accepted. Every later read gives a price without a denomination, which the
check of the module refuses, where zero is written for the amount that was never set, and panics
where `null` is. -/
theorem empty_genesis_unusable :
    (∃ store, initGenesis sampleMath (.ok (.obj [])) none = .ok store ∧
      getParams sampleMath store = .ok ⟨⟨"", some 0⟩⟩ ∧
      Params.validate sampleMath ⟨⟨"", some 0⟩⟩ =
        .error (.error "minimum_gas_price: invalid denom: ")) ∧
    ∃ store, initGenesis (sampleMathOf .null) (.ok (.obj [])) none = .ok store ∧
      getParams (sampleMathOf .null) store = .error (.panic "decimal string cannot be empty") :=
  ⟨⟨_, rfl, rfl, rfl⟩, _, rfl, rfl⟩

end NexusNode.GlobalFee
