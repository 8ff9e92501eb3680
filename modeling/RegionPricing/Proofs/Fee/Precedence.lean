import RegionPricing.Fee.Tariff
import RegionPricing.Pricing.CrossBorder
import RegionPricing.Proofs.FixedPoint
import RegionPricing.Proofs.KeyMap

/-!
# Which bracket a parcel gets

A parcel is looked for at four levels in turn: by the choice for its item, for its shop
and for its region, and in the fallback. A level has many ways to find nothing: there is
no choice, the choice names no key for the corridor, nothing is loaded under the key, or
the weight is not covered. `Sheet.Finds` says in one relation what it is that a level
finds, whatever the other levels do, and `bracket?_precedence` puts the levels together:

- the bracket is that of the first level that finds one, marked with the level;
- what lies behind that level, and what no choice down to it names, does not matter.
-/

namespace RegionPricing.Fee

/-! ## What a level finds -/

/-- The parts that a tariff is made of, in the order in which they are loaded. -/
structure Sheet where
  schedules : List Schedule
  /-- By merchant region and primary region. -/
  regional : List ((Region × Region) × Choice)
  fallback : Option Fallback

def Sheet.tariff (a : Sheet) : Tariff := .ofParts a.schedules a.regional a.fallback

/-- The last schedule that is loaded under a key. -/
def LoadedLast (schedules : List Schedule) (key : String) (s : Schedule) : Prop :=
  ∃ before after, schedules = before ++ s :: after ∧ s.key = key ∧ ∀ s' ∈ after, s'.key ≠ key

/-- The first bracket of a schedule whose limit a weight does not exceed. -/
def Schedule.Covers (s : Schedule) (weight : Int64) (b : Bracket) : Prop :=
  ∃ before after, s.brackets = before ++ b :: after ∧ weight ≤ b.weightLimit ∧
    ∀ b' ∈ before, b'.weightLimit < weight

/-- The stored weight of a parcel. -/
def Parcel.weight (p : Parcel) : Int64 := FixedPoint.rawOfGrams p.grams

/-- Where a parcel is sold from: in the merchant's region, or in the home region when there is
none or it is empty. -/
def Parcel.SoldFrom (p : Parcel) (m : Region) : Prop :=
  (p.merchantRegion = some m ∧ m.isEmpty = false) ∨
    ((∀ r, p.merchantRegion = some r → r.isEmpty = true) ∧ m = homeRegion)

/-- The choice that there is for a parcel at a level. -/
inductive Sheet.Chooses (a : Sheet) (p : Parcel) : Level → Choice → Prop where
  | item {c : Choice} (h : p.itemChoice = some c) : Chooses a p .item c
  | shop {c : Choice} (h : p.shopChoice = some c) : Chooses a p .shop c
  | region {c : Choice} {m : Region} {before after : List ((Region × Region) × Choice)}
      (sold : p.SoldFrom m)
      (stored : a.regional = before ++ ((m, p.corridor.primary), c) :: after)
      (last : ∀ e ∈ after, e.1 ≠ (m, p.corridor.primary)) : Chooses a p .region c

/-- The schedule that is consulted for a parcel at a level. -/
inductive Sheet.Consults (a : Sheet) (p : Parcel) : Level → Schedule → Prop where
  | chosen {l : Level} {c : Choice} {key : String} {s : Schedule} (choice : a.Chooses p l c)
      (named : c.keyFor p.corridor = some key) (loaded : LoadedLast a.schedules key s) :
      Consults a p l s
  | fallback {f : Fallback} {s : Schedule} (usable : a.fallback = some f)
      (has : f.get? p.corridor.affiliate = some s) : Consults a p .fallback s

/-- The bracket that a level has for a parcel. -/
def Sheet.Finds (a : Sheet) (p : Parcel) (l : Level) (b : Bracket) : Prop :=
  ∃ s, a.Consults p l s ∧ s.Covers p.weight b

/-- The place of a level in the order in which the levels are asked. -/
def Level.rank : Level → ℕ
  | .item => 0
  | .shop => 1
  | .region => 2
  | .fallback => 3
  | .table => 4

/-- A level that has a bracket for a parcel, when no level before it has one. -/
structure Sheet.Decides (a : Sheet) (p : Parcel) (l : Level) (b : Bracket) : Prop where
  found : a.Finds p l b
  first : ∀ l' b', l'.rank < l.rank → ¬a.Finds p l' b'

/-! ## What a level finds, computed -/

theorem select_eq_some_iff {s : Schedule} {weight : Int64} {b : Bracket} :
    s.select weight = some b ↔ s.Covers weight b := by
  unfold Schedule.select Schedule.Covers
  rw [List.find?_eq_some_iff_append]
  constructor
  · rintro ⟨hb, before, after, heq, hbefore⟩
    refine ⟨before, after, heq, of_decide_eq_true hb, fun b' hb' => ?_⟩
    have hnot := hbefore b' hb'
    rw [Bool.not_eq_true', decide_eq_false_iff_not] at hnot
    exact Int64.not_le.mp hnot
  · rintro ⟨before, after, heq, hb, hbefore⟩
    refine ⟨decide_eq_true hb, before, after, heq, fun b' hb' => ?_⟩
    rw [Bool.not_eq_true', decide_eq_false_iff_not]
    exact Int64.not_le.mpr (hbefore b' hb')

theorem soldFrom_iff {p : Parcel} {m : Region} : p.SoldFrom m ↔ m = p.merchant := by
  unfold Parcel.SoldFrom Parcel.merchant
  cases p.merchantRegion with
  | none => simp
  | some r =>
    cases hr : r.isEmpty with
    | true =>
      -- an empty region counts as none
      simp only [Option.filter, hr, Option.some.injEq, forall_eq']
      constructor
      · rintro (⟨rfl, hm⟩ | ⟨_, rfl⟩)
        · exact absurd (hr.symm.trans hm) (by simp)
        · rfl
      · exact fun h => Or.inr ⟨trivial, h⟩
    | false =>
      simp only [Option.filter, hr, Bool.not_false, Option.some.injEq, forall_eq']
      constructor
      · rintro (⟨rfl, _⟩ | ⟨h, _⟩)
        · rfl
        · exact absurd h (by simp)
      · rintro rfl
        exact Or.inl ⟨rfl, hr⟩

theorem get?_schedules {schedules : List Schedule} {key : String} {s : Schedule} :
    (KeyMap.ofList (schedules.map fun s => (s.key, s))).get? key = some s ↔
      LoadedLast schedules key s := by
  rw [KeyMap.get?_ofList_eq_some_iff]
  constructor
  · rintro ⟨before, after, heq, hafter⟩
    -- where the entries are cut, the schedules that they come from are
    obtain ⟨before', rest, rfl, _, hrest⟩ := List.map_eq_append_iff.mp heq
    obtain ⟨s', after', rfl, hs, rfl⟩ := List.map_eq_cons_iff.mp hrest
    obtain ⟨rfl, rfl⟩ := Prod.mk.inj hs
    exact ⟨before', after', rfl, rfl, fun s'' hs'' => hafter _ (List.mem_map_of_mem hs'')⟩
  · rintro ⟨before, after, rfl, rfl, hafter⟩
    refine ⟨before.map fun s => (s.key, s), after.map fun s => (s.key, s), by simp, ?_⟩
    intro e he
    obtain ⟨s', hs', rfl⟩ := List.mem_map.mp he
    exact hafter s' hs'

namespace Tariff

/-- The bracket that a level has for a parcel. -/
def found? (t : Tariff) (p : Parcel) : Level → Option Bracket
  | .item => t.chosen? p.corridor p.weight p.itemChoice
  | .shop => t.chosen? p.corridor p.weight p.shopChoice
  | .region => t.chosen? p.corridor p.weight (t.regional.get? (p.merchant, p.corridor.primary))
  | .fallback => t.fallback? p.corridor p.weight
  | .table => none

/-- The levels in the order in which they are asked. -/
def order : List Level := [.item, .shop, .region, .fallback]

/-- The bracket for a parcel is what the first level has that has one. -/
theorem bracket?_eq (t : Tariff) (p : Parcel) :
    t.bracket? p = order.findSome? fun l => (t.found? p l).map fun b => { b with level := l } := by
  have hw : FixedPoint.rawOfGrams p.grams = p.weight := rfl
  unfold bracket? choices order
  simp only [List.findSome?_cons, List.findSome?_nil, found?, hw]
  -- by which levels have a bracket
  cases t.chosen? p.corridor p.weight p.itemChoice <;>
    cases t.chosen? p.corridor p.weight p.shopChoice <;>
    cases t.chosen? p.corridor p.weight (t.regional.get? (p.merchant, p.corridor.primary)) <;>
    cases t.fallback? p.corridor p.weight <;> rfl

/-- Where the order is cut at a level, the levels of a lower rank stand before it. -/
theorem mem_before_iff {before after : List Level} {l l' : Level}
    (h : order = before ++ l :: after) : l' ∈ before ↔ l'.rank < l.rank := by
  have hsorted : order.Pairwise fun x y => x.rank < y.rank := by decide
  have hmem : l'.rank < 4 → l' ∈ order := by cases l' <;> simp [order, Level.rank]
  rw [h] at hsorted hmem
  obtain ⟨_, hafter, hbefore⟩ := List.pairwise_append.mp hsorted
  constructor
  · exact fun hl' => hbefore l' hl' l List.mem_cons_self
  · intro hlt
    -- every level of a rank below 4 is in the order, hence on one side of the cut
    have hrank : l.rank ≤ 4 := by cases l <;> decide
    rcases List.mem_append.mp (hmem (by omega)) with hl' | hl'
    · exact hl'
    · rcases List.mem_cons.mp hl' with rfl | hl'
      · exact absurd hlt (Nat.lt_irrefl _)
      · have := (List.pairwise_cons.mp hafter).1 l' hl'
        omega

theorem mem_order_of_found? {t : Tariff} {p : Parcel} {l : Level} {b : Bracket}
    (h : t.found? p l = some b) : l ∈ order := by
  cases l with
  | item => exact List.mem_cons_self
  | shop => simp [order]
  | region => simp [order]
  | fallback => simp [order]
  | table => exact absurd h (by simp [found?])

theorem bracket?_eq_some_iff {t : Tariff} {p : Parcel} {b : Bracket} :
    t.bracket? p = some b ↔ ∃ row, t.found? p b.level = some row ∧
      (∀ l, l.rank < b.level.rank → t.found? p l = none) ∧ b = { row with level := b.level } := by
  rw [bracket?_eq, List.findSome?_eq_some_iff]
  constructor
  · rintro ⟨before, l, after, horder, hfound, hbefore⟩
    obtain ⟨row, hrow, rfl⟩ := Option.map_eq_some_iff.mp hfound
    refine ⟨row, hrow, fun l' hl' => ?_, rfl⟩
    exact Option.map_eq_none_iff.mp (hbefore l' ((mem_before_iff horder).mpr hl'))
  · rintro ⟨row, hrow, hfirst, hb⟩
    obtain ⟨before, after, horder⟩ := List.append_of_mem (mem_order_of_found? hrow)
    refine ⟨before, b.level, after, horder, ?_, fun l' hl' => ?_⟩
    · rw [hrow, Option.map_some, ← hb]
    · rw [hfirst l' ((mem_before_iff horder).mp hl'), Option.map_none]

theorem bracket?_eq_none_iff {t : Tariff} {p : Parcel} :
    t.bracket? p = none ↔ ∀ l, t.found? p l = none := by
  rw [bracket?_eq, List.findSome?_eq_none_iff]
  constructor
  · intro h l
    cases hl : t.found? p l with
    | none => rfl
    | some b =>
      have := h l (mem_order_of_found? hl)
      rw [hl] at this
      exact absurd this (by simp)
  · intro h l _
    rw [h l, Option.map_none]

end Tariff

namespace Sheet

variable {a a' : Sheet} {p p' : Parcel} {l : Level}

theorem chosen?_eq_some_iff {choice : Option Choice} {b : Bracket} :
    a.tariff.chosen? p.corridor p.weight choice = some b ↔
      ∃ c key s, choice = some c ∧ c.keyFor p.corridor = some key ∧
        LoadedLast a.schedules key s ∧ s.Covers p.weight b := by
  unfold Tariff.chosen?
  simp only [Option.bind_eq_bind, Option.bind_eq_some_iff]
  constructor
  · rintro ⟨c, hc, key, hkey, s, hs, hb⟩
    exact ⟨c, key, s, hc, hkey, get?_schedules.mp hs, select_eq_some_iff.mp hb⟩
  · rintro ⟨c, key, s, hc, hkey, hs, hb⟩
    exact ⟨c, hc, key, hkey, s, get?_schedules.mpr hs, select_eq_some_iff.mpr hb⟩

theorem get?_regional {c : Choice} :
    a.tariff.regional.get? (p.merchant, p.corridor.primary) = some c ↔ a.Chooses p .region c := by
  show (KeyMap.ofList a.regional).get? _ = some c ↔ _
  rw [KeyMap.get?_ofList_eq_some_iff]
  constructor
  · rintro ⟨before, after, hstored, hlast⟩
    exact .region (soldFrom_iff.mpr rfl) hstored hlast
  · rintro (_ | _ | ⟨hsold, hstored, hlast⟩)
    rw [soldFrom_iff.mp hsold] at hstored hlast
    exact ⟨_, _, hstored, hlast⟩

/-- A level with a choice finds what the choice leads to. -/
theorem finds_iff_of_choice {choice : Option Choice}
    (h : ∀ c, choice = some c ↔ a.Chooses p l c) (hl : l ≠ .fallback) {b : Bracket} :
    a.Finds p l b ↔ a.tariff.chosen? p.corridor p.weight choice = some b := by
  rw [chosen?_eq_some_iff]
  constructor
  · rintro ⟨s, hs, hb⟩
    cases hs with
    | chosen hc hkey hloaded => exact ⟨_, _, s, (h _).mpr hc, hkey, hloaded, hb⟩
    | fallback => exact absurd rfl hl
  · rintro ⟨c, key, s, hc, hkey, hs, hb⟩
    exact ⟨s, .chosen ((h c).mp hc) hkey hs, hb⟩

theorem finds_iff {b : Bracket} : a.Finds p l b ↔ a.tariff.found? p l = some b := by
  cases l with
  | item => exact finds_iff_of_choice (fun c => ⟨.item, fun | .item h => h⟩) (by simp)
  | shop => exact finds_iff_of_choice (fun c => ⟨.shop, fun | .shop h => h⟩) (by simp)
  | region => exact finds_iff_of_choice (fun c => get?_regional) (by simp)
  | fallback =>
    unfold Tariff.found? Tariff.fallback?
    simp only [Option.bind_eq_bind, Option.bind_eq_some_iff]
    constructor
    · rintro ⟨s, hs, hb⟩
      cases hs with
      | chosen hc => cases hc
      | fallback hf hget => exact ⟨_, hf, s, hget, select_eq_some_iff.mpr hb⟩
    · rintro ⟨f, hf, s, hget, hb⟩
      exact ⟨s, .fallback hf hget, select_eq_some_iff.mp hb⟩
  | table =>
    constructor
    · rintro ⟨s, ⟨hc⟩, _⟩
      cases hc
    · exact fun h => absurd h (by simp [Tariff.found?])

/-! ## Precedence and locality -/

theorem bracket?_eq_some_iff {b : Bracket} : a.tariff.bracket? p = some b ↔
    ∃ row, a.Decides p b.level row ∧ b = { row with level := b.level } := by
  rw [Tariff.bracket?_eq_some_iff]
  constructor
  · rintro ⟨row, hrow, hfirst, hb⟩
    refine ⟨row, ⟨finds_iff.mpr hrow, fun l' b' hl' hfinds => ?_⟩, hb⟩
    rw [finds_iff, hfirst l' hl'] at hfinds
    exact absurd hfinds (by simp)
  · rintro ⟨row, ⟨hrow, hfirst⟩, hb⟩
    refine ⟨row, finds_iff.mp hrow, fun l' hl' => ?_, hb⟩
    exact Option.eq_none_iff_forall_ne_some.mpr fun b' hb' => hfirst l' b' hl' (finds_iff.mpr hb')

theorem bracket?_eq_none_iff : a.tariff.bracket? p = none ↔ ∀ l b, ¬a.Finds p l b := by
  rw [Tariff.bracket?_eq_none_iff]
  simp only [finds_iff, Option.eq_none_iff_forall_ne_some, ne_eq]

/-- Whether all that is consulted down to a level is the same for two parcels under two
sheets: the choices, what is loaded under the keys that these name, and the fallback if the
level is not before it. -/
structure SameDownTo (l : Level) (a : Sheet) (p : Parcel) (a' : Sheet) (p' : Parcel) : Prop where
  corridor : p'.corridor = p.corridor
  weight : p'.weight = p.weight
  choices : ∀ l' c, l'.rank ≤ l.rank → (a'.Chooses p' l' c ↔ a.Chooses p l' c)
  schedules : ∀ l' c key s, l'.rank ≤ l.rank → a.Chooses p l' c →
    c.keyFor p.corridor = some key → (LoadedLast a'.schedules key s ↔ LoadedLast a.schedules key s)
  fallback : Level.fallback.rank ≤ l.rank →
    (a'.fallback.bind fun f => f.get? p.corridor.affiliate)
      = a.fallback.bind fun f => f.get? p.corridor.affiliate

theorem SameDownTo.consults (h : SameDownTo l a p a' p') {l' : Level} (hl : l'.rank ≤ l.rank)
    {s : Schedule} : a'.Consults p' l' s ↔ a.Consults p l' s := by
  constructor
  · intro hs
    cases hs with
    | chosen hc hkey hloaded =>
      rw [h.choices _ _ hl] at hc
      rw [h.corridor] at hkey
      exact .chosen hc hkey ((h.schedules _ _ _ _ hl hc hkey).mp hloaded)
    | fallback hf hget =>
      rw [h.corridor] at hget
      have hbind := h.fallback hl
      rw [hf, Option.bind_some, hget] at hbind
      obtain ⟨f, hf, hget⟩ := Option.bind_eq_some_iff.mp hbind.symm
      exact .fallback hf hget
  · intro hs
    cases hs with
    | chosen hc hkey hloaded =>
      refine .chosen ((h.choices _ _ hl).mpr hc) (h.corridor ▸ hkey) ?_
      exact (h.schedules _ _ _ _ hl hc hkey).mpr hloaded
    | fallback hf hget =>
      have hbind := h.fallback hl
      rw [hf, Option.bind_some, hget] at hbind
      obtain ⟨f, hf, hget⟩ := Option.bind_eq_some_iff.mp hbind
      exact .fallback hf (h.corridor ▸ hget)

theorem SameDownTo.finds (h : SameDownTo l a p a' p') {l' : Level} (hl : l'.rank ≤ l.rank)
    {b : Bracket} : a'.Finds p' l' b ↔ a.Finds p l' b := by
  unfold Sheet.Finds
  simp only [h.consults hl, h.weight]

/-- The level that a search has gone down to: where it found a bracket, or else the last. -/
def reached (b : Option Bracket) : Level := (b.map Bracket.level).getD .fallback

theorem SameDownTo.bracket?_eq (h : SameDownTo (reached (a.tariff.bracket? p)) a p a' p') :
    a'.tariff.bracket? p' = a.tariff.bracket? p := by
  cases hb : a.tariff.bracket? p with
  | none =>
    rw [hb] at h
    rw [Sheet.bracket?_eq_none_iff] at hb ⊢
    intro l b hfinds
    cases l with
    | table => exact absurd (finds_iff.mp hfinds) (by simp [Tariff.found?])
    | item | shop | region | fallback => exact hb _ b ((h.finds (by decide)).mp hfinds)
  | some b =>
    rw [hb] at h
    obtain ⟨row, hdecides, heq⟩ := bracket?_eq_some_iff.mp hb
    refine bracket?_eq_some_iff.mpr ⟨row, ⟨?_, fun l' b' hl' hfinds => ?_⟩, heq⟩
    · exact (h.finds (Nat.le_refl _)).mpr hdecides.found
    · exact hdecides.first l' b' hl' ((h.finds (Nat.le_of_lt hl')).mp hfinds)

end Sheet

/-- A price of one up to a weight. -/
def sampleBracket (key : String) (limit : Int64) : Bracket :=
  ⟨limit, .one, .zero, 0, .zero, .zero, .zero, key, .table⟩

/-- The choice of a schedule for what is sold to Malaysia. -/
def sampleChoice (key : String) : Choice := ⟨none, .ofList [(.ofText "MY", key)]⟩

/-- Two grams from Singapore to Malaysia. -/
def sampleParcel : Parcel where
  itemChoice := some (sampleChoice "of_item")
  shopChoice := some (sampleChoice "of_shop")
  merchantRegion := none
  corridor := ⟨.ofText "SG", .ofText "MY"⟩
  grams := .ofInt64 2

def sampleQuery : Batch.CrossBorderQuery :=
  ⟨1, 1, 10, sampleParcel.corridor, 200000, 200000, .one, .one, .zero, .zero, .zero, .one⟩

end RegionPricing.Fee
