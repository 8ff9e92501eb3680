import RegionPricing.Fee.Bracket

/-!
# Fee schedules

A `Schedule` is a named list of brackets in the order of their weight limits;
brackets with the same limit keep the order in which they were given. A weight
belongs to the first bracket whose limit it does not exceed.
-/

namespace RegionPricing.Fee

/-- Whether the limit of `a` is at most that of `b`. -/
def Bracket.limitLe (a b : Bracket) : Bool := a.weightLimit ≤ b.weightLimit

/-- Brackets in the order of their limits, under a key. -/
structure Schedule where
  key : String
  brackets : List Bracket
  ordered : brackets.Pairwise fun a b => a.limitLe b

namespace Schedule

theorem limitLe_trans (a b c : Bracket) (h : a.limitLe b) (h' : b.limitLe c) : a.limitLe c := by
  simp only [Bracket.limitLe, decide_eq_true_eq] at *
  exact Int64.le_trans h h'

theorem limitLe_total (a b : Bracket) : a.limitLe b || b.limitLe a := by
  simp only [Bracket.limitLe, Bool.or_eq_true, decide_eq_true_eq]
  exact Int64.le_total _ _

/-- The schedule of some brackets. -/
def ofBrackets (key : String) (bs : List Bracket) : Schedule :=
  ⟨key, bs.mergeSort Bracket.limitLe,
    List.pairwise_mergeSort limitLe_trans limitLe_total bs⟩

/-- The bracket that covers a stored weight. -/
def select (s : Schedule) (weight : Int64) : Option Bracket :=
  s.brackets.find? fun b => weight ≤ b.weightLimit

end Schedule

end RegionPricing.Fee
