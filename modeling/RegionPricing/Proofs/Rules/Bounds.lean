import RegionPricing.Proofs.Json.RoundTrip
import RegionPricing.Proofs.PriceRounding
import RegionPricing.Proofs.Rules.Loading

/-!
# What a configuration may hold

Whatever the text of a configuration, the brackets that are loaded from it have exponents of
at most 18 in size and limits from zero to the unbounded weight. Two numbers are not bounded
when they are read: the exponent of a row whose text is the least number of 32 bits stops the
loading by a fault instead of an error, and decimal places from 4294967294 on are accepted,
though no tolerance can be computed for them. `loading_bounds` says that nothing else goes
wrong.
-/

namespace RegionPricing.Rules

open Fee

/-! ## Texts -/

/-- A text that holds a document. -/
def Written (text : String) (d : Document) : Prop :=
  ∃ v, Json.parse? text = some v ∧ Document.ofJson? v = some d

variable {text : String} {d : Document} {b : Book}

theorem Written.ofText_eq (h : Written text d) :
    Book.ofText text = (Book.ofDocument d).adapt Book.LoadError.table := by
  obtain ⟨v, hv, hd⟩ := h
  unfold Book.ofText Book.ofJson
  rw [hv]
  dsimp only
  rw [hd]

theorem ofText_of_not_written (h : ∀ d, ¬Written text d) :
    Book.ofText text = throw Book.LoadError.document := by
  unfold Book.ofText Book.ofJson
  cases hv : Json.parse? text with
  | none => rfl
  | some v =>
    dsimp only
    cases hd : Document.ofJson? v with
    | none => rfl
    | some d => exact absurd ⟨v, hv, hd⟩ (h d)

theorem comesTo_ofText_iff :
    ComesTo (Book.ofText text) b ↔ ∃ d, Written text d ∧ ComesTo (Book.ofDocument d) b := by
  constructor
  · intro h
    by_cases hd : ∃ d, Written text d
    · obtain ⟨d, hd⟩ := hd
      rw [hd.ofText_eq, comesTo_adapt_iff] at h
      exact ⟨d, hd, h⟩
    · rw [ofText_of_not_written (not_exists.mp hd)] at h
      exact absurd h (not_comesTo_throw _ _)
  · rintro ⟨d, hd, h⟩
    rw [hd.ofText_eq]
    exact comesTo_adapt_iff.mpr h

theorem ofText_fault_iff {fault : Fault} : StopsBy (Book.ofText text) (.error fault) ↔
    ∃ d, Written text d ∧ StopsBy (Book.ofDocument d) (.error fault) := by
  constructor
  · intro h
    by_cases hd : ∃ d, Written text d
    · obtain ⟨d, hd⟩ := hd
      rw [hd.ofText_eq, adapt_fault_iff] at h
      exact ⟨d, hd, h⟩
    · rw [ofText_of_not_written (not_exists.mp hd), stopsBy_throw_iff] at h
      cases h
  · rintro ⟨d, hd, h⟩
    rw [hd.ofText_eq]
    exact adapt_fault_iff.mpr h

/-! ## Bounds -/

/-- Whether exponents and limits of a schedule are within the bounds for rows. -/
def Bounded (s : Schedule) : Prop :=
  ∀ b ∈ s.brackets, (-18 ≤ b.roundExponent ∧ b.roundExponent ≤ 18) ∧
    0 ≤ b.weightLimit ∧ b.weightLimit ≤ FixedPoint.unboundedWeight

theorem Loaded.bounded_schedule (h : Loaded d b) {key : String} {s : Schedule}
    (hs : b.tariff.schedules.get? key = some s) : Bounded s := by
  have htable := h.tables key
  split at htable
  next =>
    rw [htable] at hs
    cases hs
  next =>
    obtain ⟨s', hs', harranges⟩ := htable
    obtain rfl := Option.some.inj (hs'.symm.trans hs)
    exact fun _ => harranges.bounds

theorem Loaded.bounded_fallback (h : Loaded d b) {f : Fallback} {r : Region} {s : Schedule}
    (hf : b.tariff.fallback = some f) (hs : f.get? r = some s) : Bounded s :=
  fun _ => ((h.regions f hf).holds r s hs).bounds

/-- Loading a text stops by a fault only for the exponent of a row that is the least number of
32 bits. What is loaded is within its bounds, and the rounding of a currency has a tolerance
unless its places are one of the two greatest numbers of 32 bits; those, and no others, spoil
the rounding of positive prices to price points. -/
theorem loading_bounds (text : String) :
    (∀ fault, (Book.ofText text).run = .error fault ↔
      fault = .magnitudeOverflow ∧ ∃ d, Written text d ∧ d.Overflow) ∧
    ∀ b, (Book.ofText text).run = .ok (.ok b) →
      (∀ key s, b.tariff.schedules.get? key = some s → Bounded s) ∧
      (∀ f, b.tariff.fallback = some f → ∀ r s, f.get? r = some s → Bounded s) ∧
      ∀ r rule, b.currencies.get? r = some rule →
        (rule.places.toNat + 2 < 4294967296 →
          ∃ eps, PriceRounding.tolerance rule.places = .ok eps ∧
            eps.value = PriceRounding.toleranceOf rule.places) ∧
        ∀ price, rule.round price = .error .placesOverflow ↔
          rule.pricePoints = true ∧ 0 < price.value ∧ 4294967296 ≤ rule.places.toNat + 2 := by
  constructor
  · intro fault
    show StopsBy (Book.ofText text) (.error fault) ↔ _
    simp only [ofText_fault_iff, ofDocument_fault_iff]
    constructor
    · rintro ⟨d, hd, hfault, hoverflow⟩
      exact ⟨hfault, d, hd, hoverflow⟩
    · rintro ⟨hfault, d, hd, hoverflow⟩
      exact ⟨d, hd, hfault, hoverflow⟩
  · intro b hb
    have hcomes : ComesTo (Book.ofText text) b := hb
    obtain ⟨d, _, hdcomes⟩ := comesTo_ofText_iff.mp hcomes
    have hloaded := loaded_of_comesTo hdcomes
    refine ⟨fun key s hs => hloaded.bounded_schedule hs,
      fun f hf r s hs => hloaded.bounded_fallback hf hs, fun r rule _ => ⟨?_, fun price => ?_⟩⟩
    · exact PriceRounding.exists_tolerance
    · exact PriceRounding.round_placesOverflow_iff

/-! A configuration of one table and one currency, with these places and this exponent. -/

def sampleJson (places : UInt32) (exponent : String) : Json :=
  Document.toJson {
    terms := []
    currencies := .ofList [(.ofText "us", ⟨places, true⟩)]
    tables := [⟨"t", [(rowOfOne "inf" []).put "round_size" exponent]⟩]
    regional := []
    fallback := [] }

theorem ofText_render {v : Json} (hexact : v.isExact) (hdepth : v.depth ≤ Json.maxDepth) :
    Book.ofText v.render = Book.ofJson v := by
  unfold Book.ofText
  rw [Json.parse?_render hexact hdepth]

/-- The greatest places that have a tolerance and the least exponent that is in its bounds. -/
theorem loading_bounds_sample :
    ∃ b s, (Book.ofText (sampleJson 4294967293 "-18").render).run = .ok (.ok b) ∧
      b.tariff.schedules.get? "t" = some s ∧ Bounded s ∧
      b.currencies.get? (.ofText "us") = some ⟨4294967293, true⟩ ∧
      ∀ price, (⟨4294967293, true⟩ : PriceRounding).round price ≠ .error .placesOverflow := by
  have htext : Book.ofText (sampleJson 4294967293 "-18").render =
      Book.ofJson (sampleJson 4294967293 "-18") :=
    ofText_render (by decide +kernel) (by decide +kernel)
  have hcurrency : ((value? (Book.ofJson (sampleJson 4294967293 "-18"))).bind fun b =>
      b.currencies.get? (.ofText "us")) = some ⟨4294967293, true⟩ := by decide +kernel
  have htable : ((value? (Book.ofJson (sampleJson 4294967293 "-18"))).bind fun b =>
      b.tariff.schedules.get? "t").isSome = true := by decide +kernel
  obtain ⟨s, hs⟩ := Option.isSome_iff_exists.mp htable
  obtain ⟨b, hb, hbs⟩ := Option.bind_eq_some_iff.mp hs
  rw [hb, Option.bind_some] at hcurrency
  rw [← htext, value?_eq_some_iff] at hb
  obtain ⟨hbounded, _, hround⟩ := (loading_bounds (sampleJson 4294967293 "-18").render).2 b hb
  refine ⟨b, s, hb, hbs, hbounded "t" s hbs, hcurrency, fun price hprice => ?_⟩
  obtain ⟨_, _, hplaces⟩ := ((hround _ _ hcurrency).2 price).mp hprice
  exact absurd hplaces (by decide)

/-- The least exponent of 32 bits stops the loading by a fault, and places without a tolerance
are loaded and spoil the rounding of a price. -/
theorem loading_leaves_bounds :
    (Book.ofText (sampleJson 2 "-2147483648").render).run = .error .magnitudeOverflow ∧
    ∃ b, (Book.ofText (sampleJson 4294967294 "0").render).run = .ok (.ok b) ∧
      (b.rounding (.ofText "us")).round Decimal.one = .error .placesOverflow := by
  constructor
  · rw [ofText_render (by decide +kernel) (by decide +kernel)]
    have hfault : fault? (Book.ofJson (sampleJson 2 "-2147483648")) = some .magnitudeOverflow := by
      decide +kernel
    exact fault?_eq_some_iff.mp hfault
  · rw [ofText_render (by decide +kernel) (by decide +kernel)]
    have hround : (value? (Book.ofJson (sampleJson 4294967294 "0"))).map (fun b =>
        (b.rounding (.ofText "us")).round Decimal.one) = some (.error .placesOverflow) := by
      decide +kernel
    obtain ⟨b, hb, hplaces⟩ := Option.map_eq_some_iff.mp hround
    exact ⟨b, value?_eq_some_iff.mp hb, hplaces⟩

end RegionPricing.Rules
