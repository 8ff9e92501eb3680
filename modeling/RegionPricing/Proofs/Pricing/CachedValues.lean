import RegionPricing.Proofs.Decimal.Text
import RegionPricing.Proofs.Json.Decoding
import RegionPricing.Proofs.Pricing.Parts

/-!
# Cached factors are read back

The caches hold factors as JSON text, and a factor that was cached is used in place of the
one that would be looked up. `cached_values_read_back`: of every value that a part of the
caches holds, the text is read back as this very value. The one exception is a decimal zero
with a minus sign, which loses the sign (`minusZero_loses_sign`) but not its value.
-/

namespace RegionPricing

/-! ## Regions and choices -/

theorem Region.ofText_text (r : Region) : Region.ofText r.text = r := by
  obtain ⟨code, normal⟩ := r
  simp only [Region.ofText, Region.text, String.toList_ofList, normal]

theorem Region.ofJson?_toJson (r : Region) : Region.ofJson? r.toJson = some r :=
  congrArg some r.ofText_text

theorem Id.uint64?_toJson (id : Id) : Json.uint64? id.toJson = some id :=
  Json.uint64?_toNat id

namespace Fee.Choice

theorem ofJson?_toJson (c : Choice) : Choice.ofJson? c.toJson = some c := by
  have hown : Json.nullable? Json.string? (c.own.elim .null .string) = some c.own :=
    Json.nullable?_elim Json.string?_string (fun _ h => by cases h) c.own
  have habroad : Json.map? Region.ofText Json.string?
      (.object (c.abroad.entries.map fun e => (e.1.text, .string e.2))) = some c.abroad :=
    Json.map?_object Region.ofText_text Json.string?_string c.abroad
  have hrecord : Json.record? fieldNames c.toJson = some ⟨false, c.toFields⟩ :=
    Json.record?_object rfl (by decide)
  rw [Choice.ofJson?, hrecord, Option.bind_some]
  simp [ofFields?, Json.Fields.orDefault, Json.Fields.get?, toFields, hown, habroad]

theorem plain_toJson (c : Choice) : Json.Plain 2 c.toJson := by
  refine Json.plain_object ?_
  simp only [toFields, List.forall_mem_cons]
  refine ⟨Json.plain_elim Json.plain_string _, Json.plain_object fun f hf => ?_, by simp⟩
  obtain ⟨e, _, rfl⟩ := List.mem_map.mp hf
  exact Json.plain_string e.2

/-- A choice or null. -/
theorem nullable?_toJson (o : Option Choice) :
    Json.nullable? Choice.ofJson? (o.elim .null Choice.toJson) = some o :=
  Json.nullable?_elim ofJson?_toJson (fun _ h => by cases h) o

end Fee.Choice

namespace Market

open Json.Fields

/-! ## Shops, items and commissions -/

theorem Shop.ofJson?_toJson (s : Shop) : Shop.ofJson? s.toJson = some s := by
  have hmerchant : Json.nullable? Json.uint64? (s.merchantId.elim .null Id.toJson)
      = some s.merchantId :=
    Json.nullable?_elim Id.uint64?_toJson (fun _ h => by cases h) _
  have hregion : Json.nullable? Region.ofJson? (s.merchantRegion.elim .null Region.toJson)
      = some s.merchantRegion :=
    Json.nullable?_elim Region.ofJson?_toJson (fun _ h => by cases h) _
  have hwarehouses : Json.list? Json.string? (.array (s.warehouses.map .string))
      = some s.warehouses :=
    Json.list?_array Json.string?_string _
  rw [Shop.ofJson?, Shop.toJson, Json.record?_object]
  · simp [required, orDefault, get?, hmerchant, hregion, hwarehouses, Id.uint64?_toJson,
      Region.ofJson?_toJson, Fee.Choice.nullable?_toJson, Json.bool?, s.warehouses_lt]
  · rfl
  · decide

theorem Item.ofJson?_toJson (i : Item) : Item.ofJson? i.toJson = some i := by
  rw [Item.ofJson?, Item.toJson, Json.record?_object]
  · simp [required, orDefault, get?, Id.uint64?_toJson, Json.int64?_toInt,
      Fee.Choice.nullable?_toJson]
  · rfl
  · decide

theorem Commission.ofJson?_toJson (c : Commission) : Commission.ofJson? c.toJson = some c := by
  have hrecord : Json.record? fieldNames c.toJson = some ⟨false, c.toFields⟩ :=
    Json.record?_object rfl (by decide)
  rw [Commission.ofJson?, hrecord, Option.bind_some]
  simp [ofFields?, required, get?, toFields, Json.int64?_toInt]

theorem Shop.plain_toJson (s : Shop) : Json.Plain 3 s.toJson := by
  have hchoice : Json.Plain 2 (s.choice.elim .null Fee.Choice.toJson) :=
    Json.plain_elim Fee.Choice.plain_toJson _
  have hwarehouses : Json.Plain 2 (.array (s.warehouses.map .string)) := by
    refine Json.plain_array fun x hx => ?_
    obtain ⟨w, _, rfl⟩ := List.mem_map.mp hx
    exact Json.plain_string w
  refine Json.plain_object ?_
  simp only [List.forall_mem_cons]
  exact ⟨Json.plain_uint64 s.id, Json.plain_string _, Json.plain_elim Json.plain_uint64 _,
    Json.plain_elim (fun _ => Json.plain_string _) _, Json.plain_bool _, hchoice, hwarehouses,
    by simp⟩

theorem Item.plain_toJson (i : Item) : Json.Plain 3 i.toJson := by
  refine Json.plain_object ?_
  simp only [List.forall_mem_cons]
  exact ⟨Json.plain_uint64 i.id, Json.plain_uint64 i.shopId, Json.plain_int64 i.weight,
    Json.plain_elim Fee.Choice.plain_toJson _, by simp⟩

theorem Commission.plain_toJson (c : Commission) : Json.Plain 1 c.toJson := by
  refine Json.plain_object ?_
  simp only [toFields, List.forall_mem_cons]
  exact ⟨Json.plain_int64 _, Json.plain_int64 _, Json.plain_int64 _, by simp⟩

end Market

/-! ## Limits -/

theorem ProfitRateLimit.ofJson?_toJson (l : ProfitRateLimit) :
    ProfitRateLimit.ofJson? l.toJson = some l := by
  rw [ProfitRateLimit.ofJson?, ProfitRateLimit.toJson, Json.record?_object]
  · simp [Json.Fields.required, Json.Fields.get?, Id.uint64?_toJson, Json.int64?_toInt]
  · rfl
  · decide

theorem ProfitRateLimit.plain_toJson (l : ProfitRateLimit) : Json.Plain 1 l.toJson := by
  refine Json.plain_object ?_
  simp only [List.forall_mem_cons]
  exact ⟨Json.plain_uint64 l.merchantId, Json.plain_int64 _, Json.plain_int64 _, by simp⟩

/-- What is decoded from the JSON of a value is what the caches give for it. -/
theorem Factor.decode_json {ν : Type} (name : String) {toJson : ν → Json}
    {ofJson? : Json.Decoder ν} {v w : ν} {n : ℕ} (hplain : Json.Plain n (toJson v))
    (hn : n ≤ Json.maxDepth) (hof : ofJson? (toJson v) = some w) :
    (Space.json name toJson ofJson?).decode ((Space.json name toJson ofJson?).encode v)
      = some w := by
  show (Json.parse? (toJson v).render).bind ofJson? = some w
  rw [Json.parse?_plain hplain hn]
  exact hof

namespace Pricing

open Factor Market

/-! ## The parts of the caches -/

theorem decode_rate (rate : Int64) : rateSpace.decode (rateSpace.encode rate) = some rate :=
  decode_json (n := 0) _ (Json.plain_int64 rate) (Nat.zero_le _) (Json.int64?_toInt rate)

theorem decode_limit (l : ProfitRateLimit) : limitSpace.decode (limitSpace.encode l) = some l :=
  decode_json _ l.plain_toJson (by decide) l.ofJson?_toJson

theorem decode_decimal (name : String) (d : Decimal) :
    (Space.json name Decimal.toJson Decimal.ofJson?).decode
      ((Space.json name Decimal.toJson Decimal.ofJson?).encode d) = some d.plainZero :=
  decode_json (n := 0) name (Json.plain_string _) (Nat.zero_le _) d.ofJson?_toJson

/-- A cached factor is read back as it was; a decimal zero loses a minus sign, and nothing
but this. -/
theorem cached_values_read_back :
    (∀ s : Shop, shopSpace.decode (shopSpace.encode s) = some s) ∧
    (∀ i : Item, itemSpace.decode (itemSpace.encode i) = some i) ∧
    (∀ c : Commission, commissionSpace.decode (commissionSpace.encode c) = some c) ∧
    (∀ l : ProfitRateLimit, limitSpace.decode (limitSpace.encode l) = some l) ∧
    (∀ r : Int64, rateSpace.decode (rateSpace.encode r) = some r) ∧
    ∀ d : Decimal,
      (¬(d.negative ∧ d.mantissa = 0) →
        exchangeSpace.decode (exchangeSpace.encode d) = some d ∧
          hiddenFeeSpace.decode (hiddenFeeSpace.encode d) = some d) ∧
      (d.negative ∧ d.mantissa = 0 →
        exchangeSpace.decode (exchangeSpace.encode d) = some { d with negative := false } ∧
          hiddenFeeSpace.decode (hiddenFeeSpace.encode d) = some { d with negative := false } ∧
          ({ d with negative := false } : Decimal).sameValue d) := by
  refine ⟨fun s => decode_json _ s.plain_toJson (by decide) s.ofJson?_toJson,
    fun i => decode_json _ i.plain_toJson (by decide) i.ofJson?_toJson,
    fun c => decode_json _ c.plain_toJson (by decide) c.ofJson?_toJson, decode_limit, decode_rate,
    fun d => ?_⟩
  have hexchange : exchangeSpace.decode (exchangeSpace.encode d) = some d.plainZero :=
    decode_decimal "fx" d
  have hfee : hiddenFeeSpace.decode (hiddenFeeSpace.encode d) = some d.plainZero :=
    decode_decimal "hidden_fee" d
  rw [hexchange, hfee]
  refine ⟨fun h => ?_, fun ⟨hneg, hzero⟩ => ?_⟩
  · have hself : d.plainZero = d := by
      refine Decimal.plainZero_eq_self ?_
      rw [← Bool.not_eq_true]
      exact not_and_or.mp h
    rw [hself]
    exact ⟨rfl, rfl⟩
  · have hplain : d.plainZero = { d with negative := false } := by
      simp [Decimal.plainZero, hzero]
    rw [← hplain]
    exact ⟨rfl, rfl, (Decimal.sameValue_iff _ _).mpr d.value_plainZero⟩

/-- A shop with everything a shop can have, in names with quotes, a backslash, a control
character and letters of other scripts, and a decimal with all digits and places. -/
theorem cached_values_read_back_full :
    (let s : Shop := ⟨18446744073709551615, .ofText " sg", some 0, some (.ofText "cñ"), true,
      some ⟨some "\"fee\\\t", .ofList [(.ofText "my", "表\u0001"), (.ofText "", "")]⟩,
      ["Wörk \"A\"", "", "倉庫"], by decide⟩
    shopSpace.decode (shopSpace.encode s) = some s) ∧
    let d : Decimal := ⟨true, 79228162514264337593543950335, 28, by decide, by decide⟩
    exchangeSpace.decode (exchangeSpace.encode d) = some d := by
  obtain ⟨hshops, _, _, _, _, hdecimals⟩ := cached_values_read_back
  exact ⟨hshops _, ((hdecimals _).1 (by decide)).1⟩

/-- What negating zero gives: a zero with a minus sign. -/
def minusZero : Decimal := Decimal.zero.neg

theorem minusZero_loses_sign :
    exchangeSpace.decode (exchangeSpace.encode minusZero) ≠ some minusZero := by
  have hread : exchangeSpace.decode (exchangeSpace.encode minusZero) = some minusZero.plainZero :=
    decode_decimal "fx" minusZero
  rw [hread]
  decide

end Pricing

end RegionPricing
