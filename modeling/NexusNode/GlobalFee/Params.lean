import Mathlib.Algebra.Order.Ring.Int
import NexusNode.Program.Json

/-!
# The stored minimum gas price

The module `x/globalfee` keeps one parameter, the minimum gas price, as JSON in its store. The
genesis file is decoded and the result is encoded into the store; nothing on that path validates
it. A price that the file does not set is a decimal that was never set. What the library of the SDK
writes for it is left open here: a later read panics if that does not decode, and otherwise finds
a decimal that the file never had.

## Main definitions

* `SdkMath`, `SdkMath.Lawful`: the decimals and coins of the SDK, and what they promise
* `DecCoin`, `Params`, `Params.validate`: the parameter and its check
* `setParams`, `getParams`, `initGenesis`, `validateGenesis`: the keeper and the module
* `PriceSet`: the price is set, not negative and in the denomination of the chain
* `SdkMath.readBack`: what a stored amount decodes to

## Main results

* `Params.validate_eq_ok_iff`: the check accepts exactly the prices that are set
* `getParams_setParams`: what a read finds after a write
* `getParams_valid_iff`: after which genesis files a read finds a price that passes the check
-/

namespace NexusNode.GlobalFee

open Program

/-! ## Decimals and coins of the SDK -/

/-- `LegacyDec`: a decimal by its value at 18 fractional digits, or nil if it was never set. -/
abbrev LegacyDec := Option ℤ

/-- One at 18 fractional digits. -/
def precision : ℤ := 10 ^ 18

/-- `sdk.Coin` -/
structure SdkCoin where
  denom : String
  amount : ℤ
  deriving DecidableEq, Repr

/-- A coin list as the SDK keeps it: sorted by denomination, and positive. -/
structure ValidCoins (coins : List SdkCoin) : Prop where
  sorted : coins.Pairwise fun c c' => c.denom < c'.denom
  positive : ∀ c ∈ coins, 0 < c.amount

/-- The amount of a denomination, zero if the list does not have it. -/
def amountIn (denom : String) (coins : List SdkCoin) : ℤ :=
  ((coins.find? fun c => c.denom = denom).map SdkCoin.amount).getD 0

/-- The functions of the SDK that the module calls; arithmetic and texts on decimals that are set,
the JSON also of one that was never set. -/
structure SdkMath where
  /-- `LegacyDec.MarshalJSON` -/
  marshalDec : LegacyDec → Json
  /-- `LegacyDec.UnmarshalJSON` -/
  unmarshalDec : Json → Except JsonError ℤ
  /-- `LegacyDec.String` -/
  decString : ℤ → String
  validateDenom : String → Except String Unit
  mulInt : ℤ → ℤ → Outcome String ℤ
  ceil : ℤ → ℤ
  truncateInt : ℤ → Outcome String ℤ
  amountOf : List SdkCoin → String → Outcome String ℤ

def chainDenom : String := "atnex"

/-- The bits of a decimal: 256 for the digits before the point and 59 for those after it. -/
def maxDecBitLen : ℕ := 315

def maxBitLen : ℕ := 256

/-- What the SDK promises: a decimal that was read reads back from its JSON, the denomination of the
chain is one, arithmetic is exact and aborts past its bit limit, and a valid list is searched for
a denomination. -/
structure SdkMath.Lawful (m : SdkMath) : Prop where
  unmarshalDec_marshalDec : ∀ j d, m.unmarshalDec j = .ok d →
    m.unmarshalDec (m.marshalDec (some d)) = .ok d
  validateDenom_chainDenom : m.validateDenom chainDenom = .ok ()
  mulInt_eq : ∀ d i, (d * i).natAbs < 2 ^ maxDecBitLen → m.mulInt d i = .ok (d * i)
  mulInt_abort : ∀ d i, 2 ^ maxDecBitLen ≤ (d * i).natAbs → ∃ e, m.mulInt d i = .error (.panic e)
  ceil_eq : ∀ d, m.ceil d = -(-d / precision) * precision
  truncateInt_eq : ∀ d, (d.tdiv precision).natAbs < 2 ^ maxBitLen →
    m.truncateInt d = .ok (d.tdiv precision)
  truncateInt_abort : ∀ d, 2 ^ maxBitLen ≤ (d.tdiv precision).natAbs →
    ∃ e, m.truncateInt d = .error (.panic e)
  amountOf_eq : ∀ coins denom, ValidCoins coins → m.validateDenom denom = .ok () →
    m.amountOf coins denom = .ok (amountIn denom coins)

/-- What the runtime says when a decimal that was never set is used. -/
def nilDereference : String := "runtime error: invalid memory address or nil pointer dereference"

/-- `sdk.DecCoin` -/
structure DecCoin where
  denom : String
  amount : LegacyDec
  deriving DecidableEq, Repr

def DecCoin.isZero (coin : DecCoin) : Outcome String Bool :=
  match coin.amount with
  | none => .error (.panic nilDereference)
  | some d => .ok (d = 0)

def DecCoin.isNegative (coin : DecCoin) : Outcome String Bool :=
  match coin.amount with
  | none => .error (.panic nilDereference)
  | some d => .ok (d < 0)

section Module

variable (m : SdkMath)

/-- `DecCoin.Validate` -/
def DecCoin.validate (coin : DecCoin) : Outcome String Unit :=
  match m.validateDenom coin.denom with
  | .error e => .error (.error e)
  | .ok () => do
    if ← coin.isNegative then
      .error (.error ("decimal coin " ++ (coin.amount.elim "" m.decString) ++ coin.denom ++
        " amount cannot be negative"))
    else .ok ()

/-! ## The parameter -/

structure Params where
  minimumGasPrice : DecCoin
  deriving DecidableEq, Repr

def defaultParams : Params := ⟨⟨chainDenom, some 0⟩⟩

def Params.validate (p : Params) : Outcome String Unit :=
  match p.minimumGasPrice.validate m with
  | .error (.error e) => .error (.error ("minimum_gas_price: " ++ e))
  | .error s => .error s
  | .ok () =>
    if p.minimumGasPrice.denom ≠ chainDenom then
      .error (.error ("minimum_gas_price: denom must be " ++ chainDenom ++ ", got " ++
        p.minimumGasPrice.denom))
    else .ok ()

structure GenesisState where
  params : Params
  deriving DecidableEq, Repr

def GenesisState.validate (gs : GenesisState) : Outcome String Unit := gs.params.validate m

/-- The variable that is decoded into, before anything is. -/
def zeroParams : Params := ⟨⟨"", none⟩⟩

/-! ### JSON -/

def decCoinDecoder : Decoder DecCoin :=
  .struct "types.DecCoin"
    [("denom", .field DecCoin.denom (fun d c => { c with denom := d }) .string),
      ("amount", .field DecCoin.amount (fun d c => { c with amount := d })
        (.custom fun j => (m.unmarshalDec j).map some))]

def paramsDecoder : Decoder Params :=
  .struct "types.Params"
    [("minimum_gas_price",
      .field Params.minimumGasPrice (fun c _ => ⟨c⟩) (decCoinDecoder m))]

def genesisDecoder : Decoder GenesisState :=
  .struct "types.GenesisState"
    [("params", .field GenesisState.params (fun p _ => ⟨p⟩) (paramsDecoder m))]

/-- The encoding of a coin: an empty denomination is left out. -/
def DecCoin.toJson (coin : DecCoin) : Json :=
  .obj ((if coin.denom = "" then [] else [("denom", .str coin.denom)]) ++
    [("amount", m.marshalDec coin.amount)])

def Params.toJson (p : Params) : Json :=
  .obj [("minimum_gas_price", p.minimumGasPrice.toJson m)]

/-! ### Keeper and module -/

def unmarshalGenesis (text : Except String Json) : Except JsonError GenesisState :=
  unmarshal (genesisDecoder m) text ⟨zeroParams⟩

/-- The store of the module: the value under `ParamsKey`. -/
abbrev ParamsStore := Option Json

def setParams (p : Params) (_store : ParamsStore) : ParamsStore := some (p.toJson m)

def getParams (store : ParamsStore) : Outcome String Params :=
  match store with
  | none => .ok defaultParams
  | some bz =>
    match unmarshal (paramsDecoder m) (.ok bz) zeroParams with
    | .error e => .error (.panic e.text)
    | .ok p => .ok p

def validateGenesis (text : Except String Json) : Outcome String Unit :=
  match unmarshalGenesis m text with
  | .error e => .error (.error e.text)
  | .ok gs => gs.validate m

def initGenesis (text : Except String Json) (store : ParamsStore) : Outcome String ParamsStore :=
  match unmarshalGenesis m text with
  | .error e => .error (.panic e.text)
  | .ok gs => .ok (setParams m gs.params store)

end Module

/-! ## The check -/

/-- The price is set, not negative and in the denomination of the chain. -/
def PriceSet (p : Params) : Prop :=
  p.minimumGasPrice.denom = chainDenom ∧ ∃ d, p.minimumGasPrice.amount = some d ∧ 0 ≤ d

variable {m : SdkMath}

theorem DecCoin.validate_eq_ok_iff (coin : DecCoin) :
    coin.validate m = .ok () ↔
      m.validateDenom coin.denom = .ok () ∧ ∃ d, coin.amount = some d ∧ 0 ≤ d := by
  unfold DecCoin.validate DecCoin.isNegative
  cases m.validateDenom coin.denom with
  | error e => simp
  | ok u =>
    cases coin.amount with
    | none => simp [bind, Except.bind]
    | some d =>
      by_cases hd : d < 0
      · simp [bind, Except.bind, hd]
      · simp [bind, Except.bind, hd, not_lt.mp hd]

/-- **The check of the module** accepts exactly the prices that are set. -/
theorem Params.validate_eq_ok_iff (hm : m.Lawful) (p : Params) :
    p.validate m = .ok () ↔ PriceSet p := by
  have hcoin := p.minimumGasPrice.validate_eq_ok_iff (m := m)
  unfold Params.validate PriceSet
  constructor
  · intro h
    split at h
    · cases h
    · cases h
    · rename_i hvalid
      split_ifs at h with hdenom
      exact ⟨not_not.mp hdenom, (hcoin.mp hvalid).2⟩
  · rintro ⟨hdenom, hamount⟩
    have hvalid := hcoin.mpr ⟨hdenom ▸ hm.validateDenom_chainDenom, hamount⟩
    simp [hvalid, hdenom]

theorem defaultParams_validate (hm : m.Lawful) : defaultParams.validate m = .ok () :=
  (defaultParams.validate_eq_ok_iff hm).mpr ⟨rfl, 0, rfl, le_rfl⟩

theorem validateGenesis_eq_ok_iff (hm : m.Lawful) (text : Except String Json) :
    validateGenesis m text = .ok () ↔
      ∃ gs, unmarshalGenesis m text = .ok gs ∧ PriceSet gs.params := by
  unfold validateGenesis
  cases unmarshalGenesis m text with
  | error e => simp
  | ok gs => simp [GenesisState.validate, gs.params.validate_eq_ok_iff hm]

/-! ## What is stored -/

/-- What a stored amount decodes to. -/
def SdkMath.readBack (m : SdkMath) (amount : LegacyDec) : Except JsonError ℤ :=
  m.unmarshalDec (m.marshalDec amount)

/-- The amount, if it is set, was read from JSON. -/
def FromJson (m : SdkMath) (amount : LegacyDec) : Prop :=
  ∀ d, amount = some d → ∃ j, m.unmarshalDec j = .ok d

theorem SdkMath.Lawful.readBack_of_fromJson (hm : m.Lawful) {d : ℤ} (h : FromJson m (some d)) :
    m.readBack (some d) = .ok d := by
  obtain ⟨j, hj⟩ := h d rfl
  exact hm.unmarshalDec_marshalDec j d hj

theorem fromJson_of_unmarshalDec {j : Json} {d : ℤ} (h : m.unmarshalDec j = .ok d) :
    FromJson m (some d) := by
  intro d' hd'
  obtain rfl := Option.some.inj hd'
  exact ⟨j, h⟩

theorem decCoinDecoder_keeps :
    Decoder.Keeps (fun c => FromJson m c.amount) (decCoinDecoder m) := by
  refine Decoder.Keeps.struct ?_
  simp only [List.forall_mem_cons, List.not_mem_nil, false_implies, implies_true, and_true]
  have hdenom : Decoder.Keeps (fun _ => True) Decoder.string := fun _ _ _ _ _ => trivial
  have hamount : Decoder.Keeps (FromJson m) (.custom fun j => (m.unmarshalDec j).map some) := by
    refine .custom fun j amount h => ?_
    obtain ⟨d, hd, rfl⟩ := except_map_eq_ok_iff.mp h
    exact fromJson_of_unmarshalDec hd
  refine ⟨hdenom.field ?_ ?_, hamount.field ?_ ?_⟩
  · exact fun _ _ => trivial
  · exact fun _ _ hc _ => hc
  · exact fun _ hc => hc
  · exact fun _ _ _ hd => hd

/-- A decoded genesis has a price that was read, or none. -/
theorem unmarshalGenesis_fromJson {text : Except String Json} {gs : GenesisState}
    (h : unmarshalGenesis m text = .ok gs) : FromJson m gs.params.minimumGasPrice.amount := by
  obtain ⟨j, -, hj⟩ := unmarshal_eq_ok_iff.mp h
  have hparams : Decoder.Keeps (fun p => FromJson m p.minimumGasPrice.amount)
      (paramsDecoder m) := by
    refine Decoder.Keeps.struct ?_
    simp only [List.forall_mem_singleton]
    exact decCoinDecoder_keeps.field (fun _ hp => hp) fun _ _ _ hc => hc
  have hgenesis : Decoder.Keeps (fun g => FromJson m g.params.minimumGasPrice.amount)
      (genesisDecoder m) := by
    refine Decoder.Keeps.struct ?_
    simp only [List.forall_mem_singleton]
    exact hparams.field (fun _ hg => hg) fun _ _ _ hp => hp
  -- nothing is set before decoding
  refine hgenesis j ⟨zeroParams⟩ _ ?_ hj
  intro d hd
  cases hd

/-- Decoding the encoding of a coin reads its amount again. -/
theorem decCoinDecoder_toJson (coin : DecCoin) :
    decCoinDecoder m (coin.toJson m) ⟨"", none⟩ =
      (m.readBack coin.amount).map fun d => ⟨⟨coin.denom, some d⟩, none⟩ := by
  have hname : foldName "denom" ≠ foldName "amount" := by decide
  unfold DecCoin.toJson SdkMath.readBack
  split_ifs with h
  · simp only [decCoinDecoder, Decoder.struct, Decoder.members, Decoder.member, Decoder.field,
      Decoder.custom, List.nil_append, List.find?_cons, hname, h, decide_false, decide_true]
    cases m.unmarshalDec (m.marshalDec coin.amount) <;> rfl
  · simp only [decCoinDecoder, Decoder.struct, Decoder.members, Decoder.member, Decoder.field,
      Decoder.custom, Decoder.string, List.cons_append, List.nil_append, List.find?_cons, hname,
      decide_false, decide_true]
    cases m.unmarshalDec (m.marshalDec coin.amount) <;> rfl

/-- **A read after a write** finds the amount that the stored one decodes to, and panics if it
does not decode. -/
theorem getParams_setParams (p : Params) (store : ParamsStore) :
    getParams m (setParams m p store) =
      match m.readBack p.minimumGasPrice.amount with
      | .error e => .error (.panic e.text)
      | .ok d => .ok ⟨⟨p.minimumGasPrice.denom, some d⟩⟩ := by
  unfold setParams getParams Params.toJson unmarshal
  simp only [paramsDecoder, Decoder.struct, Decoder.members, Decoder.member, Decoder.field,
    List.find?_cons, decide_true, zeroParams, decCoinDecoder_toJson]
  cases m.readBack p.minimumGasPrice.amount <;> rfl

theorem initGenesis_eq_ok_iff {text : Except String Json} {store store' : ParamsStore} :
    initGenesis m text store = .ok store' ↔
      ∃ gs, unmarshalGenesis m text = .ok gs ∧ store' = setParams m gs.params store := by
  unfold initGenesis
  cases unmarshalGenesis m text with
  | error e => simp
  | ok gs => simp [eq_comm]

/-- The amount of a price from a genesis file reads back as a decimal that is not negative exactly
when the file sets such an amount, or sets none and what is written for none reads back so. -/
theorem readBack_nonneg_iff (hm : m.Lawful) {amount : LegacyDec} (h : FromJson m amount) :
    (∃ d, m.readBack amount = .ok d ∧ 0 ≤ d) ↔
      (∃ d, amount = some d ∧ 0 ≤ d) ∨
        amount = none ∧ ∃ d, m.readBack none = .ok d ∧ 0 ≤ d := by
  cases amount with
  | none => simp
  | some d =>
    rw [hm.readBack_of_fromJson h]
    simp

/-- A read after an accepted genesis gives parameters that pass the check exactly when the file has
the denomination of the chain and an amount that reads back as one that is not negative. -/
theorem getParams_valid_iff (hm : m.Lawful) {text : Except String Json}
    {store store' : ParamsStore} (h : initGenesis m text store = .ok store') :
    (∃ p, getParams m store' = .ok p ∧ p.validate m = .ok ()) ↔
      ∃ gs, unmarshalGenesis m text = .ok gs ∧ gs.params.minimumGasPrice.denom = chainDenom ∧
        ∃ d, m.readBack gs.params.minimumGasPrice.amount = .ok d ∧ 0 ≤ d := by
  obtain ⟨gs, hgs, rfl⟩ := initGenesis_eq_ok_iff.mp h
  simp only [getParams_setParams, Params.validate_eq_ok_iff hm, PriceSet, hgs, Except.ok.injEq,
    exists_eq_left']
  cases m.readBack gs.params.minimumGasPrice.amount with
  | error e => simp
  | ok d => simp

end NexusNode.GlobalFee
