import RegionPricing.Rules.Book

/-!
# Publishing rule books

A `Publication` is where the current rule book is found. Publishing replaces
it; whoever has taken the book before keeps the one that was taken. A reader
who remembers the edition that was seen last learns whether there is a newer
one.
-/

namespace RegionPricing.Rules

/-- The current book and how many books have been published before it. -/
structure Publication where
  current : Book
  edition : Nat

namespace Publication

/-- The first book. -/
def first (b : Book) : Publication := ⟨b, 0⟩

/-- A new book takes the place of the current one. -/
def publish (p : Publication) (b : Book) : Publication := ⟨b, p.edition + 1⟩

/-- Whether a book has been published since the edition seen last. -/
def changedSince (p : Publication) (seen : Nat) : Bool := p.edition != seen

end Publication

end RegionPricing.Rules
