import NexusNode.GlobalFee.Ante

/-!
# Exporting the price

The price of a chain is set by its genesis file and by nothing else. To start the chain anew, the
module exports a genesis with the price that it reads from its store. The export of a price that is
set decodes to what the first file did, and its import writes the store again. A price that is
missing in the file is stored all the same: it stops the export if it does not decode, and is
exported as the decimal it decodes to otherwise.

## Main definitions

* `marshalGenesis`, `exportGenesis`: the genesis of a store

## Main results

* `unmarshalGenesis_marshalGenesis`: what an exported genesis decodes to
* `exportGenesis_exact_iff`: which chains can be exported and started anew
-/

namespace NexusNode.GlobalFee

open Program

section Module

variable (m : SdkMath)

def marshalGenesis (gs : GenesisState) : Json := .obj [("params", gs.params.toJson m)]

/-- `ExportGenesis`; a panic of `GetParams` is one of the export. -/
def exportGenesis (store : ParamsStore) : Outcome String Json := do
  let params ← getParams m store
  pure (marshalGenesis m ⟨params⟩)

end Module

variable {m : SdkMath} {store store₀ : ParamsStore} {text : Except String Json}

/-- Decoding an exported genesis reads the amount again. -/
theorem unmarshalGenesis_marshalGenesis (p : Params) :
    unmarshalGenesis m (.ok (marshalGenesis m ⟨p⟩)) =
      (m.readBack p.minimumGasPrice.amount).map
        fun d => ⟨⟨⟨p.minimumGasPrice.denom, some d⟩⟩⟩ := by
  simp only [unmarshalGenesis, marshalGenesis, unmarshal, genesisDecoder, paramsDecoder,
    Params.toJson, Decoder.struct, Decoder.members, Decoder.member, Decoder.field,
    List.find?_cons, decide_true, zeroParams, decCoinDecoder_toJson]
  cases m.readBack p.minimumGasPrice.amount <;> rfl

/-- A price that was read once is exported as one that reads back. -/
theorem unmarshalGenesis_export (hm : m.Lawful) (denom : String) {d : ℤ}
    (h : FromJson m (some d)) :
    unmarshalGenesis m (.ok (marshalGenesis m ⟨⟨⟨denom, some d⟩⟩⟩)) =
      .ok ⟨⟨⟨denom, some d⟩⟩⟩ := by
  rw [unmarshalGenesis_marshalGenesis, hm.readBack_of_fromJson h]
  rfl

theorem exportGenesis_setParams (p : Params) :
    exportGenesis m (setParams m p store₀) =
      match m.readBack p.minimumGasPrice.amount with
      | .error e => .error (.panic e.text)
      | .ok d => .ok (marshalGenesis m ⟨⟨⟨p.minimumGasPrice.denom, some d⟩⟩⟩) := by
  rw [exportGenesis, getParams_setParams]
  cases m.readBack p.minimumGasPrice.amount <;> rfl

/-- **Export and import.** After every genesis that `InitGenesis` accepts, the export returns or
panics as the stored amount decodes or not. A file that it returns decodes to the parameters of the
chain, passes the check of the module exactly when their price is set, not negative and in the
denomination of the chain, and is imported into any store, from which the same parameters are
read. If the first file sets the amount, the export returns, decodes to what that file did, and
its import leaves the store as it was. -/
theorem exportGenesis_exact_iff (hm : m.Lawful) (hinit : initGenesis m text store₀ = .ok store) :
    ∃ gs, unmarshalGenesis m text = .ok gs ∧
      ((∃ bz, exportGenesis m store = .ok bz) ↔
        ∃ d, m.readBack gs.params.minimumGasPrice.amount = .ok d) ∧
      ((∃ e, exportGenesis m store = .error (.panic e)) ↔
        ∃ e, m.readBack gs.params.minimumGasPrice.amount = .error e) ∧
      (∀ bz, exportGenesis m store = .ok bz → ∃ p, getParams m store = .ok p ∧
        unmarshalGenesis m (.ok bz) = .ok ⟨p⟩ ∧
        (validateGenesis m (.ok bz) = .ok () ↔ PriceSet p) ∧
        ∀ store₁, ∃ store₂, initGenesis m (.ok bz) store₁ = .ok store₂ ∧
          getParams m store₂ = .ok p) ∧
      ∀ d, gs.params.minimumGasPrice.amount = some d → ∃ bz, exportGenesis m store = .ok bz ∧
        unmarshalGenesis m (.ok bz) = .ok gs ∧
        ∀ store₁, initGenesis m (.ok bz) store₁ = .ok store := by
  obtain ⟨gs, hgs, rfl⟩ := initGenesis_eq_ok_iff.mp hinit
  have hfrom := unmarshalGenesis_fromJson hgs
  obtain ⟨⟨⟨denom, amount⟩⟩⟩ := gs
  refine ⟨_, hgs, ?_, ?_, fun bz hbz => ?_, fun d hamount => ?_⟩
  · rw [exportGenesis_setParams]
    cases m.readBack amount <;> simp
  · rw [exportGenesis_setParams]
    cases m.readBack amount <;> simp
  · rw [exportGenesis_setParams] at hbz
    rw [getParams_setParams]
    dsimp only at hbz ⊢
    cases hread : m.readBack amount with
    | error e =>
      rw [hread] at hbz
      cases hbz
    | ok d =>
      rw [hread] at hbz
      obtain rfl := Except.ok.inj hbz
      have hd : FromJson m (some d) := fromJson_of_unmarshalDec hread
      have hdecode := unmarshalGenesis_export hm denom hd
      refine ⟨_, rfl, hdecode, ?_, fun store₁ =>
        ⟨_, initGenesis_eq_ok_iff.mpr ⟨_, hdecode, rfl⟩, ?_⟩⟩
      · rw [validateGenesis_eq_ok_iff hm, hdecode]
        simp
      · rw [getParams_setParams]
        simp only [hm.readBack_of_fromJson hd]
  · obtain rfl : amount = some d := hamount
    have hdecode := unmarshalGenesis_export hm denom hfrom
    refine ⟨_, ?_, hdecode, fun store₁ => initGenesis_eq_ok_iff.mpr ⟨_, hdecode, rfl⟩⟩
    rw [exportGenesis_setParams]
    simp only [hm.readBack_of_fromJson hfrom]

/-- A file without an amount is exported with the amount that was read for it, and the chain that
is started from the export has the same parameters. -/
theorem exportGenesis_exact_unset :
    ∃ store bz, initGenesis sampleMath (.ok (.obj [("params", .obj [("minimum_gas_price",
        .obj [("denom", .str "atnex")])])])) none = .ok store ∧
      exportGenesis sampleMath store = .ok bz ∧ validateGenesis sampleMath (.ok bz) = .ok () ∧
      ∃ store₂, initGenesis sampleMath (.ok bz) none = .ok store₂ ∧
        getParams sampleMath store₂ = .ok ⟨⟨chainDenom, some 0⟩⟩ := by
  have hinit : initGenesis sampleMath (.ok (.obj [("params", .obj [("minimum_gas_price",
      .obj [("denom", .str "atnex")])])])) none = .ok _ := rfl
  obtain ⟨gs, hgs, hreturns, -, hexport, -⟩ := exportGenesis_exact_iff sampleMath_lawful hinit
  obtain rfl : _ = gs := Except.ok.inj hgs
  obtain ⟨bz, hbz⟩ := hreturns.mpr ⟨0, rfl⟩
  obtain ⟨p, hp, -, hcheck, himport⟩ := hexport bz hbz
  obtain rfl : _ = p := Except.ok.inj hp
  obtain ⟨store₂, hinit₂, hread⟩ := himport none
  exact ⟨_, bz, hinit, hbz, hcheck.mpr ⟨rfl, 0, rfl, le_rfl⟩, store₂, hinit₂, hread⟩

end NexusNode.GlobalFee
