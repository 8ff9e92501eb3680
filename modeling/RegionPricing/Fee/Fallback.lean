import RegionPricing.Fee.Row

/-!
# The fallback schedules

When no schedule has been chosen for a corridor, the schedule of its affiliate
region is taken from one table that holds the rows of all regions. The table
is used only when it covers every region of `requiredRegions`.
-/

namespace RegionPricing.Fee

/-- The regions that the fallback must cover. -/
def requiredRegions : List String := ["PH", "TH", "SG", "MY", "VN", "ID", "TW", "BR"]

/-- The key of the schedule of a region. -/
def fallbackKey (region : Region) : String := "default:" ++ region.text

/-- A schedule for each region. -/
abbrev Fallback := KeyMap Region Schedule

namespace Fallback

/-- The region of a row, which must not be empty. -/
def regionOf (row : Row) (index : Nat) : Reading Region :=
  match ((row.get? "region").map Region.ofText).filter fun r => !r.isEmpty with
  | some r => return r
  | none => throw (.missingField index "region")

/-- The brackets of some rows by region, in the order of the rows. -/
def group (rows : List Row) : Reading (KeyMap Region (List Bracket)) :=
  rows.zipIdx.foldlM (fun groups e => do
    let region ← regionOf e.1 e.2
    let b ← e.1.bracket e.2 (fallbackKey region) .fallback
    return groups.put region ((groups.get? region).getD [] ++ [b])) .empty

/-- The schedules of some rows. -/
def ofRows (rows : List Row) : Reading Fallback := do
  let groups ← group rows
  let missing := requiredRegions.filter fun r => (groups.get? (.ofText r)).isNone
  if missing.isEmpty then
    return groups.mapValues fun region bs => .ofBrackets (fallbackKey region) bs
  else throw (.missingRegions missing)

end Fallback

end RegionPricing.Fee
