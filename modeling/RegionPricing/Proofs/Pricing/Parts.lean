import RegionPricing.Pricing.Conversion
import RegionPricing.Proofs.Factor.Keys

/-!
# The parts of the caches

Every source of factors has a part of the caches in front of it, under a name of its own
(`sources_through`). All parts share the same tiers, so a factor is found again only under a
text that no other key of any part has. `tierKeys_apart` says which keys do have texts of
their own: all identifiers, merchants with shops and hidden fees, and corridors, unless a
region code has a colon in it.
-/

namespace RegionPricing.Pricing

open RegionPricing.Factor RegionPricing.Market

/-! ## The parts -/

/-- Where shops are cached. -/
def shopSpace : Space Shop := .json "shop" Shop.toJson Shop.ofJson?

/-- Where items are cached. -/
def itemSpace : Space Item := .json "item" Item.toJson Item.ofJson?

/-- Where commissions are cached. -/
def commissionSpace : Space Commission := .json "commission" Commission.toJson Commission.ofJson?

/-- Where exchange rates are cached. -/
def exchangeSpace : Space Decimal := .json "fx" Decimal.toJson Decimal.ofJson?

/-- Where profit rates are cached. -/
def rateSpace : Space Int64 := .json "profit_rate" numberJson Json.int64?

/-- Where limits are cached. -/
def limitSpace : Space ProfitRateLimit :=
  .json "profit_rate_limit" ProfitRateLimit.toJson ProfitRateLimit.ofJson?

/-- Where hidden fees are cached. -/
def hiddenFeeSpace : Space Decimal := .json "hidden_fee" Decimal.toJson Decimal.ofJson?

/-- Each source is asked through its part of the caches. -/
theorem sources_through {σ : Type} (s : Setup σ) :
    s.shops = .through shopSpace s.rawShops ∧
    s.items = .through itemSpace s.rawItems ∧
    s.commissions
      = .through commissionSpace (fromService "commission rates for shop" s.services.commissions) ∧
    (exchangeRates : Source (Backing σ) _ _) = .through exchangeSpace
      (fromStore Store.exchangeRate? FixedPoint.rateOfRaw fun c => "exchange rate " ++ c.text) ∧
    (profitRates : Source (Backing σ) _ _) = .through rateSpace
      (fromStore Store.profitRate? id fun k =>
        "profit rate for merchant " ++ k.merchantId.text ++ " shop " ++ k.shopId.text) ∧
    (profitRateLimits : Source (Backing σ) _ _) = .through limitSpace
      (fromStore Store.limit? id fun m => "profit rate limit for merchant " ++ m.text) ∧
    s.hiddenFees = .through hiddenFeeSpace (s.hiddenFeesFrom s.shops s.items) :=
  ⟨rfl, rfl, rfl, rfl, rfl, rfl, rfl⟩

/-! ## Their keys -/

/-- The names of the parts. -/
def partNames : List String :=
  [shopSpace.name, itemSpace.name, commissionSpace.name, exchangeSpace.name, rateSpace.name,
    limitSpace.name, hiddenFeeSpace.name]

theorem colon_notMem_partName {name : String} (h : name ∈ partNames) : ':' ∉ name.toList := by
  have hall : ∀ name ∈ partNames, ':' ∉ name.toList := by decide +kernel
  exact hall name h

/-- Keys of two parts have texts of their own, and so have two keys of a part, but for
corridors whose codes have a colon in them. -/
theorem tierKeys_apart {ν ν' : Type} {s : Space ν} {s' : Space ν'} (hs : s.name ∈ partNames)
    (hs' : s'.name ∈ partNames) :
    (∀ {κ κ' : Type} [KeyText κ] [KeyText κ'] (k : κ) (k' : κ'),
      s.tierKey k = s'.tierKey k' → s.name = s'.name) ∧
    (∀ i j : Id, s.tierKey i = s'.tierKey j → s.name = s'.name ∧ i = j) ∧
    (∀ k l : MerchantShop, s.tierKey k = s'.tierKey l → s.name = s'.name ∧ k = l) ∧
    (∀ k l : HiddenFeeKey, s.tierKey k = s'.tierKey l → s.name = s'.name ∧ k = l) ∧
    (∀ c d : Corridor, s.tierKey c = s'.tierKey d ↔
      s.name = s'.name ∧ (c = d ∨ c.Shifts d ∨ d.Shifts c)) ∧
    ∀ c d : Corridor, (':' ∉ c.primary.code ∧ ':' ∉ d.primary.code) ∨
        (':' ∉ c.affiliate.code ∧ ':' ∉ d.affiliate.code) →
      s.tierKey c = s'.tierKey d → s.name = s'.name ∧ c = d := by
  have hcolon := colon_notMem_partName hs
  have hcolon' := colon_notMem_partName hs'
  have hcorridor : ∀ c d : Corridor, s.tierKey c = s'.tierKey d ↔
      s.name = s'.name ∧ (c = d ∨ c.Shifts d ∨ d.Shifts c) := fun c d => by
    rw [tierKey_eq_iff hcolon hcolon', corridorText_eq_iff]
  refine ⟨fun k k' h => ((tierKey_eq_iff hcolon hcolon').mp h).1, fun i j h => ?_, fun k l h => ?_,
    fun k l h => ?_, hcorridor, fun c d hcodes h => ?_⟩
  · obtain ⟨hname, hkey⟩ := (tierKey_eq_iff hcolon hcolon').mp h
    exact ⟨hname, text_injective hkey⟩
  · obtain ⟨hname, hkey⟩ := (tierKey_eq_iff hcolon hcolon').mp h
    exact ⟨hname, merchantShopText_injective hkey⟩
  · obtain ⟨hname, hkey⟩ := (tierKey_eq_iff hcolon hcolon').mp h
    exact ⟨hname, hiddenFeeText_injective hkey⟩
  · obtain ⟨hname, hsame | hshifts | hshifts⟩ := (hcorridor c d).mp h
    · exact ⟨hname, hsame⟩
    · -- a code on each side would have a colon
      rcases hcodes with hprimary | haffiliate
      · exact absurd hshifts (not_shifts_of_primary hprimary.2)
      · exact absurd hshifts (not_shifts_of_affiliate haffiliate.1)
    · rcases hcodes with hprimary | haffiliate
      · exact absurd hshifts (not_shifts_of_primary hprimary.1)
      · exact absurd hshifts (not_shifts_of_affiliate haffiliate.2)

/-- A profit rate and a limit, whose parts have names that begin alike, merchants with shops
whose numerals are the same one after the other, and a corridor and its way back. -/
theorem tierKeys_apart_alike :
    rateSpace.tierKey (⟨1, 23⟩ : MerchantShop) ≠ limitSpace.tierKey (1 : Id) ∧
    rateSpace.tierKey (⟨1, 23⟩ : MerchantShop) ≠ rateSpace.tierKey (⟨12, 3⟩ : MerchantShop) ∧
    exchangeSpace.tierKey (⟨.ofText "SG", .ofText "MY"⟩ : Corridor)
      ≠ exchangeSpace.tierKey (⟨.ofText "MY", .ofText "SG"⟩ : Corridor) := by
  have hrate : rateSpace.name ∈ partNames := by decide +kernel
  have hlimit : limitSpace.name ∈ partNames := by decide +kernel
  have hexchange : exchangeSpace.name ∈ partNames := by decide +kernel
  refine ⟨fun h => ?_, fun h => ?_, fun h => ?_⟩
  · exact absurd ((tierKeys_apart hrate hlimit).1 _ _ h) (by decide +kernel)
  · obtain ⟨_, _, hrates, _⟩ := tierKeys_apart hrate hrate
    exact absurd (hrates _ _ h).2 (by decide +kernel)
  · obtain ⟨_, _, _, _, _, hcorridors⟩ := tierKeys_apart hexchange hexchange
    exact absurd (hcorridors _ _ (.inl (by decide +kernel)) h).2 (by decide +kernel)

/-- From the region with the code "A:B" to "C". -/
def colonInPrimary : Corridor := ⟨.ofText "A:B", .ofText "C"⟩

/-- From "A" to the region with the code "B:C". -/
def colonInAffiliate : Corridor := ⟨.ofText "A", .ofText "B:C"⟩

/-- Two corridors whose exchange rates are cached under one text. -/
theorem corridorKeys_collide :
    colonInPrimary ≠ colonInAffiliate ∧
      exchangeSpace.tierKey colonInPrimary = exchangeSpace.tierKey colonInAffiliate := by
  decide +kernel

end RegionPricing.Pricing
