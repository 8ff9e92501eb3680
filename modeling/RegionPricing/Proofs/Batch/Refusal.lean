import RegionPricing.Proofs.Batch.Dispatch

/-!
# Which batches are refused, and what for

The rules of a query are told by its fields: identifiers and regions that must be there,
amounts that must be positive, weights that must not be negative and rates that have a
greatest value (`Breaks`). A batch is taken when it has queries, not more than the limit, with
identifiers of their own, and none of them breaks a rule; otherwise the refusal is for the
first query that repeats an identifier or breaks a rule, and all queries before it are
faultless (`Refused`). Both are proved of `refusal?` (`refusal?_eq_none_iff`,
`refused_of_refusal?`). The text of a refusal names the query by its number and the fields by
their names (`Worded`).
-/

namespace RegionPricing.Batch

/-! ## Rules by fields -/

/-- The fields of a query that rules are about, some of them with their names. -/
structure Fields where
  ids : List (String × Id) := []
  corridors : List Corridor := []
  amounts : List (String × Int64) := []
  weights : List (String × Int64) := []
  profitRates : List Int64 := []

/-- Fields that break the rule of a violation. -/
inductive Breaks (f : Fields) : Violation → Prop
  | absent {name : String} (h : (name, 0) ∈ f.ids) : Breaks f (.absent name)
  | regionAbsent {c : Corridor} (h : c ∈ f.corridors)
      (hempty : c.primary.isEmpty ∨ c.affiliate.isEmpty) : Breaks f .regionAbsent
  | notPositive {name : String} {n : Int64} (h : (name, n) ∈ f.amounts) (hn : n ≤ 0) :
      Breaks f (.notPositive name)
  | negative {name : String} {n : Int64} (h : (name, n) ∈ f.weights) (hn : n < 0) :
      Breaks f (.negative name)
  | aboveMaxProfitRate {n : Int64} (h : n ∈ f.profitRates) (hn : maxProfitRate < n) :
      Breaks f .aboveMaxProfitRate

/-- The rules for fields, in the order in which they are checked. -/
def Fields.rules (f : Fields) : List Rule :=
  f.ids.map (fun i => .present i.1 i.2) ++ f.corridors.map Rule.regionsPresent ++
    f.amounts.map (fun a => .positive a.1 a.2) ++ f.weights.map (fun w => .notNegative w.1 w.2) ++
    f.profitRates.map Rule.withinMaxProfitRate

/-- Queries whose rules are those for their fields. -/
class HasFields (α : Type) [Checked α] where
  fieldsOf : α → Fields
  rules_eq : ∀ q : α, Checked.rules q = (fieldsOf q).rules

export HasFields (fieldsOf)

instance : HasFields ListingQuery where
  fieldsOf q := {
    ids := [("shop_id", q.shopId), ("item_id", q.itemId)]
    corridors := [q.corridor]
    weights := [("weight", q.weight)] }
  rules_eq _ := rfl

instance : HasFields ListingPriceQuery where
  fieldsOf q := {
    ids := [("shop_id", q.shopId), ("item_id", q.itemId)]
    corridors := [q.corridor]
    amounts := [("primary_price", q.primaryPrice)] }
  rules_eq _ := rfl

instance : HasFields CrossBorderQuery where
  fieldsOf q := {
    ids := [("shop_id", q.shopId), ("item_id", q.itemId)]
    corridors := [q.corridor]
    amounts := [("primary_price", q.primaryPrice)]
    weights := [("weight", q.weight)] }
  rules_eq _ := rfl

instance : HasFields ArticleQuery where
  fieldsOf q := {
    ids := [("merchant_id", q.merchantId), ("shop_id", q.shopId), ("item_id", q.itemId)] }
  rules_eq _ := rfl

instance : HasFields ConversionQuery where
  fieldsOf q := {
    ids := [("merchant_id", q.merchantId), ("shop_id", q.shopId), ("item_id", q.article.itemId)]
    amounts := [("price", q.price)] }
  rules_eq _ := rfl

instance : HasFields DiscountQuery where
  fieldsOf q := { amounts := [("mtsku_price", q.merchantPrice)] }
  rules_eq _ := rfl

instance : HasFields ProfitRateEntry where
  fieldsOf e := {
    ids := [("merchant_id", e.merchantId), ("shop_id", e.shopId)]
    amounts := [("profit_rate", e.rate)]
    profitRates := [e.rate] }
  rules_eq _ := rfl

/-- Fields break a rule where a rule for them does not hold. -/
theorem breaks_iff {f : Fields} {v : Violation} :
    Breaks f v ↔ ∃ r ∈ f.rules, r.holds = false ∧ r.violation = v := by
  simp only [Fields.rules, List.mem_append, List.mem_map]
  constructor
  · rintro (h | ⟨h, hempty⟩ | ⟨h, hn⟩ | ⟨h, hn⟩ | ⟨h, hn⟩)
    · exact ⟨_, .inl (.inl (.inl (.inl ⟨_, h, rfl⟩))), rfl, rfl⟩
    · refine ⟨_, .inl (.inl (.inl (.inr ⟨_, h, rfl⟩))), ?_, rfl⟩
      simpa only [Rule.regionsPresent, Bool.and_eq_false_iff, Bool.not_eq_false'] using hempty
    · refine ⟨_, .inl (.inl (.inr ⟨_, h, rfl⟩)), ?_, rfl⟩
      exact decide_eq_false (Int64.not_lt.mpr hn)
    · refine ⟨_, .inl (.inr ⟨_, h, rfl⟩), ?_, rfl⟩
      exact decide_eq_false (Int64.not_le.mpr hn)
    · refine ⟨_, .inr ⟨_, h, rfl⟩, ?_, rfl⟩
      exact decide_eq_false (Int64.not_le.mpr hn)
  · rintro ⟨r, (((⟨⟨name, id⟩, h, rfl⟩ | ⟨c, h, rfl⟩) | ⟨⟨name, n⟩, h, rfl⟩) |
      ⟨⟨name, n⟩, h, rfl⟩) | ⟨n, h, rfl⟩, hfails, rfl⟩
    · obtain rfl : id = 0 := by simpa [Rule.present] using hfails
      exact .absent h
    · refine .regionAbsent h ?_
      simpa only [Rule.regionsPresent, Bool.and_eq_false_iff, Bool.not_eq_false'] using hfails
    · exact .notPositive h (Int64.not_lt.mp (of_decide_eq_false hfails))
    · exact .negative h (Int64.not_le.mp (of_decide_eq_false hfails))
    · exact .aboveMaxProfitRate h (Int64.not_le.mp (of_decide_eq_false hfails))

/-! ## Refusals -/

section

variable {α : Type} [Checked α]

/-- What is found is the fault of some query, after queries without one. -/
theorem split_of_firstFault? {qs : List α} {seen : List Id} {r : Refusal}
    (h : firstFault? seen qs = some r) :
    ∃ before q after, qs = before ++ q :: after ∧ firstFault? seen before = none ∧
      fault? ((before.map queryId).reverse ++ seen) q = some r := by
  induction qs generalizing seen with
  | nil => cases h
  | cons q rest ih =>
    unfold firstFault? at h
    cases hq : fault? seen q with
    | some r' =>
      rw [hq] at h
      exact ⟨[], q, rest, rfl, rfl, hq.trans h⟩
    | none =>
      rw [hq] at h
      obtain ⟨before, q', after, rfl, hbefore, hfault⟩ := ih h
      refine ⟨q :: before, q', after, rfl, ?_, ?_⟩
      · rw [firstFault?, hq]
        exact hbefore
      · rw [List.map_cons, List.reverse_cons, List.append_assoc]
        exact hfault

variable [HasFields α]

/-- Queries with identifiers of their own that break no rule. -/
structure Faultless (qs : List α) : Prop where
  distinct : (qs.map queryId).Nodup
  kept : ∀ q ∈ qs, ∀ v, ¬Breaks (fieldsOf q) v

/-- Why a batch is refused: it is empty or too large, or there is a first query with a fault.
A query that repeats an identifier is refused for that, whatever its fields are. -/
inductive Refused (limit : ℕ) (qs : List α) : Refusal → Prop
  | empty (h : qs = []) : Refused limit qs .empty
  | tooLarge (h : limit < qs.length) : Refused limit qs (.tooLarge qs.length limit)
  | repeated {before after : List α} {q : α} (hsize : qs.length ≤ limit)
      (hsplit : qs = before ++ q :: after) (hbefore : Faultless before)
      (h : queryId q ∈ before.map queryId) : Refused limit qs (.repeated (queryId q))
  | broken {before after : List α} {q : α} {v : Violation} (hsize : qs.length ≤ limit)
      (hsplit : qs = before ++ q :: after) (hbefore : Faultless before)
      (hfresh : queryId q ∉ before.map queryId) (h : Breaks (fieldsOf q) v) :
      Refused limit qs (.broken (queryId q) v)

/-- What is said of a rule that is broken. -/
inductive Said : Violation → String → Prop
  | absent (field : String) : Said (.absent field) s!"{field} is required"
  | regionAbsent : Said .regionAbsent "primary_region and affiliate_region are required"
  | notPositive (field : String) : Said (.notPositive field) s!"{field} must be positive"
  | negative (field : String) : Said (.negative field) s!"{field} must not be negative"
  | aboveMaxProfitRate : Said .aboveMaxProfitRate "profit_rate above 100000"

/-- What is said of a refusal. -/
inductive Worded : Refusal → String → Prop
  | empty : Worded .empty "empty batch"
  | tooLarge (size limit : ℕ) :
      Worded (.tooLarge size limit) s!"batch of {size} exceeds the maximum of {limit}"
  | repeated (id : Id) : Worded (.repeated id) s!"duplicate query_id {id}"
  | broken (id : Id) {v : Violation} {text : String} (h : Said v text) :
      Worded (.broken id v) s!"query {id}: {text}"

theorem said_message (v : Violation) : Said v v.message := by
  cases v with
  | absent field => exact .absent field
  | regionAbsent => exact .regionAbsent
  | notPositive field => exact .notPositive field
  | negative field => exact .negative field
  | aboveMaxProfitRate =>
    have hmax : Violation.aboveMaxProfitRate.message = "profit_rate above 100000" := by
      decide +kernel
    rw [hmax]
    exact .aboveMaxProfitRate

theorem worded_detail (r : Refusal) : Worded r r.detail := by
  cases r with
  | empty => exact .empty
  | tooLarge size limit =>
    show Worded _ ("batch of " ++ Text.numeral size ++ _ ++ Text.numeral limit)
    rw [Text.numeral_eq_repr, Text.numeral_eq_repr]
    exact .tooLarge size limit
  | repeated id =>
    show Worded _ ("duplicate query_id " ++ id.text)
    rw [text_eq_toString]
    exact .repeated id
  | broken id v =>
    show Worded _ ("query " ++ id.text ++ ": " ++ v.message)
    rw [text_eq_toString]
    exact .broken id (said_message v)

theorem breaks_of_violation? {q : α} {v : Violation} (h : violation? q = some v) :
    Breaks (fieldsOf q) v := by
  obtain ⟨r, hfind, hviolation⟩ := Option.map_eq_some_iff.mp h
  have hfails := List.find?_some hfind
  rw [Bool.not_eq_true'] at hfails
  refine breaks_iff.mpr ⟨r, ?_, hfails, hviolation⟩
  rw [← HasFields.rules_eq]
  exact List.mem_of_find?_eq_some hfind

theorem not_breaks_of_violation? {q : α} (h : violation? q = none) (v : Violation) :
    ¬Breaks (fieldsOf q) v := by
  intro hbreaks
  obtain ⟨r, hr, hfails, _⟩ := breaks_iff.mp hbreaks
  rw [← HasFields.rules_eq] at hr
  have hholds := List.find?_eq_none.mp (Option.map_eq_none_iff.mp h) r hr
  rw [hfails] at hholds
  exact hholds rfl

theorem faultless_of_firstFault? {qs : List α} (h : firstFault? [] qs = none) : Faultless qs := by
  obtain ⟨hdistinct, hkept⟩ := sound_of_firstFault? h
  exact ⟨hdistinct, fun q hq => not_breaks_of_violation? (hkept q hq).2⟩

theorem refused_of_refusal? {limit : ℕ} {qs : List α} {r : Refusal}
    (h : refusal? limit qs = some r) : Refused limit qs r := by
  unfold refusal? at h
  split at h
  next hempty =>
    cases h
    exact .empty (List.isEmpty_iff.mp hempty)
  next =>
    split at h
    next hsize =>
      cases h
      exact .tooLarge hsize
    next hsize =>
      obtain ⟨before, q, after, hsplit, hbefore, hfault⟩ := split_of_firstFault? h
      have hfaultless := faultless_of_firstFault? hbefore
      rw [List.append_nil] at hfault
      unfold fault? at hfault
      split at hfault
      next hmem =>
        cases hfault
        exact .repeated (Nat.not_lt.mp hsize) hsplit hfaultless (List.mem_reverse.mp hmem)
      next hfresh =>
        obtain ⟨v, hv, rfl⟩ := Option.map_eq_some_iff.mp hfault
        exact .broken (Nat.not_lt.mp hsize) hsplit hfaultless (mt List.mem_reverse.mpr hfresh)
          (breaks_of_violation? hv)

/-- The second query has no shop, and the third repeats the identifier of the first. -/
example : refusal? 3 [(⟨1, 5, 50, 12000⟩ : ProfitRateEntry), ⟨2, 5, 0, 12000⟩, ⟨1, 5, 51, 12000⟩]
    = some (.broken 2 (.absent "shop_id")) := by
  decide

/-- A batch is taken exactly when nothing is wrong with it. -/
theorem refusal?_eq_none_iff {limit : ℕ} {qs : List α} :
    refusal? limit qs = none ↔ qs ≠ [] ∧ qs.length ≤ limit ∧ Faultless qs := by
  constructor
  · intro h
    unfold refusal? at h
    split at h
    next => cases h
    next hempty =>
      split at h
      next => cases h
      next hsize =>
        exact ⟨mt List.isEmpty_iff.mpr hempty, Nat.not_lt.mp hsize, faultless_of_firstFault? h⟩
  · rintro ⟨hempty, hsize, hdistinct, hkept⟩
    rw [Option.eq_none_iff_forall_ne_some]
    intro r h
    cases refused_of_refusal? h with
    | empty hnil => exact hempty hnil
    | tooLarge hlarge => omega
    | repeated _ hsplit _ hmem =>
      subst hsplit
      rw [List.map_append, List.map_cons] at hdistinct
      exact List.disjoint_of_nodup_append hdistinct hmem List.mem_cons_self
    | broken _ hsplit _ _ hbreaks =>
      subst hsplit
      exact hkept _ (List.mem_append_right _ List.mem_cons_self) _ hbreaks

theorem refusal?_ne_none_iff {limit : ℕ} {qs : List α} :
    refusal? limit qs ≠ none ↔ qs = [] ∨ limit < qs.length ∨ ¬(qs.map queryId).Nodup ∨
      ∃ q ∈ qs, ∃ v, Breaks (fieldsOf q) v := by
  have hfaultless : Faultless qs ↔ (qs.map queryId).Nodup ∧
      ¬∃ q ∈ qs, ∃ v, Breaks (fieldsOf q) v := by
    constructor
    · rintro ⟨hdistinct, hkept⟩
      exact ⟨hdistinct, fun ⟨q, hq, v, hbreaks⟩ => hkept q hq v hbreaks⟩
    · rintro ⟨hdistinct, hnone⟩
      exact ⟨hdistinct, fun q hq v hbreaks => hnone ⟨q, hq, v, hbreaks⟩⟩
  simp only [ne_eq, refusal?_eq_none_iff, hfaultless, ← Nat.not_lt, not_and_or, not_not]

end

end RegionPricing.Batch
