import RegionPricing.Proofs.Fee.Precedence
import RegionPricing.Store

/-!
# Stored brackets are a fee schedule

The store keeps the brackets of all corridors in one table for each kind of fee, and looks
through the table for the least limit that covers a weight. A schedule sorts the brackets of
one key, and takes the first that covers the weight. `bracket?_of_writes` says that after any
writes the two agree: a lookup is answered by the schedule of the brackets that the writes
leave for its table and corridor, of those with one limit the last, with their decimals as
they are stored.

Both come down to the least limit that covers the weight: `covering_eq_some_iff` for the
table, `select_ofBrackets_eq_some_iff` for the schedule.
-/

namespace RegionPricing.Fee

/-! ## The least limit in a schedule -/

variable {weight : Int64} {b : Bracket}

/-- The bracket that a schedule selects has the least limit of those that cover the weight. -/
theorem least_of_select {s : Schedule} (h : s.select weight = some b) :
    b ∈ s.brackets ∧ weight ≤ b.weightLimit ∧
      ∀ b' ∈ s.brackets, weight ≤ b'.weightLimit → b.weightLimit ≤ b'.weightLimit := by
  obtain ⟨before, after, heq, hcovers, hbefore⟩ := select_eq_some_iff.mp h
  have hordered := s.ordered
  rw [heq] at hordered ⊢
  refine ⟨by simp, hcovers, fun b' hb' hweight => ?_⟩
  rcases List.mem_append.mp hb' with hb' | hb'
  · exact absurd hweight (Int64.not_le.mpr (hbefore b' hb'))
  · rcases List.mem_cons.mp hb' with rfl | hb'
    · exact Int64.le_refl _
    · have hafter := (List.pairwise_append.mp hordered).2.1
      exact of_decide_eq_true ((List.pairwise_cons.mp hafter).1 b' hb')

theorem mem_ofBrackets {key : String} {bs : List Bracket} :
    b ∈ (Schedule.ofBrackets key bs).brackets ↔ b ∈ bs :=
  (List.mergeSort_perm bs Bracket.limitLe).mem_iff

theorem select_ofBrackets_eq_some_iff {key : String} {bs : List Bracket}
    (hbs : (bs.map Bracket.weightLimit).Nodup) :
    (Schedule.ofBrackets key bs).select weight = some b ↔
      b ∈ bs ∧ weight ≤ b.weightLimit ∧
        ∀ b' ∈ bs, weight ≤ b'.weightLimit → b.weightLimit ≤ b'.weightLimit := by
  constructor
  · intro h
    simpa only [mem_ofBrackets] using least_of_select h
  · rintro ⟨hb, hcovers, hleast⟩
    cases hs : (Schedule.ofBrackets key bs).select weight with
    | none =>
      have hnone := List.find?_eq_none.mp hs b (mem_ofBrackets.mpr hb)
      exact absurd (decide_eq_true hcovers) hnone
    | some b' =>
      -- two brackets with the least limit are one bracket
      obtain ⟨hb', hcovers', hleast'⟩ := least_of_select hs
      rw [mem_ofBrackets] at hb'
      have hlimit : b'.weightLimit = b.weightLimit :=
        Int64.le_antisymm (hleast' b (mem_ofBrackets.mpr hb) hcovers) (hleast b' hb' hcovers')
      rw [List.inj_on_of_nodup_map hbs hb' hb hlimit]

end RegionPricing.Fee

namespace RegionPricing.Store

open Fee

/-! ## The least limit in a table -/

section

variable {t t' : BracketTable} {c : Corridor} {weight limit : Int64} {terms : StoredTerms}

/-- Going through a list, the entry with the least limit so far is kept. -/
theorem foldl_tighter (l : List (Int64 × StoredTerms)) (best : Int64 × StoredTerms) :
    ∃ e ∈ best :: l, l.foldl tighter (some best) = some e ∧ ∀ e' ∈ best :: l, e.1 ≤ e'.1 := by
  induction l generalizing best with
  | nil => exact ⟨best, by simp, rfl, by simp⟩
  | cons a l ih =>
    rw [List.foldl_cons]
    by_cases h : a.1 < best.1
    · have hstep : tighter (some best) a = some a := if_pos h
      rw [hstep]
      obtain ⟨e, he, hfold, hleast⟩ := ih a
      refine ⟨e, List.mem_cons_of_mem best he, hfold, fun e' he' => ?_⟩
      rcases List.mem_cons.mp he' with rfl | he'
      · exact Int64.le_trans (hleast a List.mem_cons_self) (Int64.le_of_lt h)
      · exact hleast e' he'
    · have hstep : tighter (some best) a = some best := if_neg h
      rw [hstep]
      obtain ⟨e, he, hfold, hleast⟩ := ih best
      have hmem : e ∈ best :: a :: l := by
        rcases List.mem_cons.mp he with rfl | he
        · exact List.mem_cons_self
        · exact List.mem_cons_of_mem _ (List.mem_cons_of_mem _ he)
      refine ⟨e, hmem, hfold, fun e' he' => ?_⟩
      rcases List.mem_cons.mp he' with rfl | he'
      · exact hleast e' List.mem_cons_self
      · rcases List.mem_cons.mp he' with rfl | he'
        · exact Int64.le_trans (hleast best List.mem_cons_self) (Int64.not_lt.mp h)
        · exact hleast e' (List.mem_cons_of_mem best he')

/-- The entries of a corridor that cover a weight. -/
def candidates (t : BracketTable) (c : Corridor) (weight : Int64) : List (Int64 × StoredTerms) :=
  t.entries.filterMap fun e => if e.1.1 = c ∧ weight ≤ e.1.2 then some (e.1.2, e.2) else none

theorem mem_candidates :
    (limit, terms) ∈ candidates t c weight ↔ t.get? (c, limit) = some terms ∧ weight ≤ limit := by
  unfold candidates
  rw [List.mem_filterMap]
  constructor
  · rintro ⟨⟨⟨c', limit'⟩, terms'⟩, he, hif⟩
    split at hif
    next hcovers =>
      cases hif
      obtain ⟨rfl, hweight⟩ := hcovers
      exact ⟨KeyMap.get?_of_mem he, hweight⟩
    next => cases hif
  · rintro ⟨hget, hweight⟩
    exact ⟨((c, limit), terms), KeyMap.mem_of_get? hget, if_pos ⟨rfl, hweight⟩⟩

/-- Whether the entry under a limit covers a weight, and none with a lesser limit does. -/
structure CoversLeast (t : BracketTable) (c : Corridor) (weight limit : Int64)
    (terms : StoredTerms) : Prop where
  entry : t.get? (c, limit) = some terms
  covers : weight ≤ limit
  least : ∀ limit' terms', t.get? (c, limit') = some terms' → weight ≤ limit' → limit ≤ limit'

theorem covering_cases (t : BracketTable) (c : Corridor) (weight : Int64) :
    (covering t c weight = none ∧
        ∀ limit terms, t.get? (c, limit) = some terms → ¬weight ≤ limit) ∨
      ∃ limit terms, covering t c weight = some (limit, terms) ∧
        CoversLeast t c weight limit terms := by
  have hfold : covering t c weight = (candidates t c weight).foldl tighter none := rfl
  cases hcandidates : candidates t c weight with
  | nil =>
    refine .inl ⟨by rw [hfold, hcandidates, List.foldl_nil], fun limit terms hget hweight => ?_⟩
    have hmem := mem_candidates.mpr ⟨hget, hweight⟩
    rw [hcandidates] at hmem
    cases hmem
  | cons a l =>
    obtain ⟨⟨limit, terms⟩, he, hbest, hleast⟩ := foldl_tighter l a
    rw [← hcandidates] at he hleast
    obtain ⟨hget, hweight⟩ := mem_candidates.mp he
    refine .inr ⟨limit, terms, ?_, hget, hweight, fun limit' terms' hget' hweight' => ?_⟩
    · rw [hfold, hcandidates, List.foldl_cons]
      exact hbest
    · exact hleast _ (mem_candidates.mpr ⟨hget', hweight'⟩)

theorem covering_eq_some_iff :
    covering t c weight = some (limit, terms) ↔ CoversLeast t c weight limit terms := by
  constructor
  · intro h
    rcases covering_cases t c weight with ⟨hnone, _⟩ | ⟨limit', terms', hsome, hleast⟩
    · rw [hnone] at h
      cases h
    · rw [hsome] at h
      cases h
      exact hleast
  · intro h
    rcases covering_cases t c weight with ⟨_, hnone⟩ | ⟨limit', terms', hsome, hleast⟩
    · exact absurd h.covers (hnone limit terms h.entry)
    · obtain rfl : limit' = limit := Int64.le_antisymm (hleast.least _ _ h.entry h.covers)
        (h.least _ _ hleast.entry hleast.covers)
      obtain rfl := Option.some.inj (hleast.entry.symm.trans h.entry)
      exact hsome

theorem covering_eq_none_iff :
    covering t c weight = none ↔
      ∀ limit terms, t.get? (c, limit) = some terms → ¬weight ≤ limit := by
  constructor
  · intro h
    rcases covering_cases t c weight with ⟨_, hnone⟩ | ⟨limit, terms, hsome, _⟩
    · exact hnone
    · rw [hsome] at h
      cases h
  · intro h
    rcases covering_cases t c weight with ⟨hnone, _⟩ | ⟨limit', terms', _, hleast⟩
    · exact hnone
    · exact absurd hleast.covers (h _ _ hleast.entry)

/-- An entry that does not cover the weight, or whose limit is above that of the answer, does
not change the answer. -/
theorem covering_put {new : Int64} (terms : StoredTerms)
    (h : new < weight ∨ ∃ e, covering t c weight = some e ∧ e.1 < new) :
    covering (t.put (c, new) terms) c weight = covering t c weight := by
  cases hcovering : covering t c weight with
  | none =>
    have hnew : new < weight := h.resolve_right fun ⟨e, he, _⟩ => by rw [hcovering] at he; cases he
    rw [covering_eq_none_iff]
    intro limit terms' hget hweight
    rw [KeyMap.get?_put] at hget
    split at hget
    next hkey =>
      obtain rfl : new = limit := (Prod.mk.inj hkey).2
      exact absurd hnew (Int64.not_lt.mpr hweight)
    next => exact covering_eq_none_iff.mp hcovering limit terms' hget hweight
  | some e =>
    obtain ⟨limit, found⟩ := e
    have hleast := covering_eq_some_iff.mp hcovering
    have habove : new < weight ∨ limit < new := by
      refine h.imp_right fun ⟨e, he, hlt⟩ => ?_
      rw [hcovering] at he
      cases he
      exact hlt
    have hne : ¬(c, new) = (c, limit) := by
      intro hkey
      obtain rfl : new = limit := (Prod.mk.inj hkey).2
      rcases habove with hlt | hlt
      · exact absurd hleast.covers (Int64.not_le.mpr hlt)
      · exact Int64.lt_irrefl hlt
    rw [covering_eq_some_iff]
    refine ⟨?_, hleast.covers, fun limit' terms' hget hweight => ?_⟩
    · rw [KeyMap.get?_put, if_neg hne]
      exact hleast.entry
    · rw [KeyMap.get?_put] at hget
      split at hget
      next hkey =>
        obtain rfl : new = limit' := (Prod.mk.inj hkey).2
        exact Int64.le_of_lt (habove.resolve_left (Int64.not_lt.mpr hweight))
      next => exact hleast.least limit' terms' hget hweight

/-- A lookup sees only the entries of its corridor. -/
theorem covering_congr (h : ∀ limit, t.get? (c, limit) = t'.get? (c, limit)) (weight : Int64) :
    covering t c weight = covering t' c weight := by
  rcases covering_cases t' c weight with ⟨hnone, _⟩ | ⟨limit, terms, hsome, hleast⟩
  · rw [hnone, covering_eq_none_iff]
    intro limit terms hget
    rw [h] at hget
    exact covering_eq_none_iff.mp hnone limit terms hget
  · rw [hsome, covering_eq_some_iff]
    refine ⟨(h limit).trans hleast.entry, hleast.covers, fun limit' terms' hget => ?_⟩
    rw [h] at hget
    exact hleast.least limit' terms' hget

end

/-! ## What writes leave -/

/-- A write of a bracket. -/
structure BracketWrite where
  table : FeeTable
  corridor : Corridor
  bracket : Bracket

/-- The store after some writes. -/
def writeBrackets (s : Store) (ws : List BracketWrite) : Outcome Store :=
  ws.foldlM (fun s w => s.putBracket w.table w.corridor w.bracket) s

/-- The brackets that are written into a table for a corridor, in the order of the writes. -/
def writtenInto (table : FeeTable) (c : Corridor) (ws : List BracketWrite) : List Bracket :=
  (ws.filter fun w => w.table = table ∧ w.corridor = c).map BracketWrite.bracket

/-- Of the brackets with one limit the last. -/
def lastOfEach : List Bracket → List Bracket
  | [] => []
  | b :: bs =>
    if b.weightLimit ∈ bs.map Bracket.weightLimit then lastOfEach bs else b :: lastOfEach bs

/-- A bracket as the store gives it back: with the fixed-point images of its decimals, under
the key of its table and corridor. -/
def asStored (table : FeeTable) (c : Corridor) (b : Bracket) : Bracket where
  weightLimit := b.weightLimit
  startPrice := FixedPoint.priceOfRaw (FixedPoint.rawOfPrice b.startPrice)
  startWeight := FixedPoint.gramsOfRaw (FixedPoint.rawOfGrams b.startWeight)
  roundExponent := b.roundExponent
  stepPrice := FixedPoint.priceOfRaw (FixedPoint.rawOfPrice b.stepPrice)
  weightStep := FixedPoint.gramsOfRaw (FixedPoint.rawOfGrams b.weightStep)
  adjustment := FixedPoint.priceOfRaw (FixedPoint.rawOfPrice b.adjustment)
  tableKey := table.name ++ ":" ++ c.primary.text ++ ":" ++ c.affiliate.text
  level := .table

/-- The brackets that writes leave in a table for a corridor. -/
def surviving (table : FeeTable) (c : Corridor) (ws : List BracketWrite) : List Bracket :=
  (lastOfEach (writtenInto table c ws)).map (asStored table c)

theorem bracket_ofBracket (table : FeeTable) (c : Corridor) (b : Bracket) :
    (StoredTerms.ofBracket b).bracket table c b.weightLimit = asStored table c b := rfl

theorem mem_of_mem_lastOfEach {b : Bracket} {bs : List Bracket} (h : b ∈ lastOfEach bs) :
    b ∈ bs := by
  induction bs with
  | nil => exact h
  | cons a bs ih =>
    unfold lastOfEach at h
    split at h
    · exact List.mem_cons_of_mem a (ih h)
    · rcases List.mem_cons.mp h with rfl | h
      · exact List.mem_cons_self
      · exact List.mem_cons_of_mem a (ih h)

theorem lastOfEach_nodup (bs : List Bracket) :
    ((lastOfEach bs).map Bracket.weightLimit).Nodup := by
  induction bs with
  | nil => exact List.nodup_nil
  | cons a bs ih =>
    unfold lastOfEach
    split
    · exact ih
    next hnew =>
      rw [List.map_cons, List.nodup_cons]
      refine ⟨fun hmem => hnew ?_, ih⟩
      obtain ⟨b, hb, hlimit⟩ := List.mem_map.mp hmem
      exact hlimit ▸ List.mem_map_of_mem (mem_of_mem_lastOfEach hb)

theorem find?_lastOfEach (bs : List Bracket) (limit : Int64) :
    (lastOfEach bs).find? (fun b => b.weightLimit = limit)
      = (bs.filter fun b => b.weightLimit = limit).getLast? := by
  induction bs with
  | nil => rfl
  | cons a bs ih =>
    unfold lastOfEach
    by_cases hlimit : a.weightLimit = limit
    · subst hlimit
      rw [List.filter_cons_of_pos (by simp)]
      split
      next hlater =>
        -- a later one takes the place of this one
        obtain ⟨b, hb, heq⟩ := List.mem_map.mp hlater
        have hne : (bs.filter fun b => b.weightLimit = a.weightLimit) ≠ [] :=
          List.ne_nil_of_mem (List.mem_filter.mpr ⟨hb, by simpa using heq⟩)
        rw [ih, List.getLast?_cons_of_ne_nil hne]
      next hlast =>
        have hnil : (bs.filter fun b => b.weightLimit = a.weightLimit) = [] := by
          rw [List.filter_eq_nil_iff]
          intro b hb heq
          exact hlast (of_decide_eq_true heq ▸ List.mem_map_of_mem hb)
        rw [hnil, List.find?_cons_of_pos (by simp)]
        rfl
    · rw [List.filter_cons_of_neg (by simpa using hlimit), ← ih]
      split
      · rfl
      · rw [List.find?_cons_of_neg (by simpa using hlimit)]

/-- A write into an open store adds its entry to its table and leaves the other table. -/
theorem putBracket_eq {s : Store} (hopen : s.isOpen = true) (table : FeeTable) (c : Corridor)
    (b : Bracket) :
    ∃ s', s.putBracket table c b = .ok s' ∧ s'.isOpen = true ∧
      ∀ table', s'.brackets table' =
        if table = table' then
          (s.brackets table').put (c, b.weightLimit) (StoredTerms.ofBracket b)
        else s.brackets table' := by
  unfold putBracket whenOpen
  rw [hopen]
  refine ⟨_, rfl, ?_, fun table' => ?_⟩
  · cases table <;> rfl
  · cases table <;> cases table' <;> rfl

/-- The entries of a table after some writes. -/
def entriesOf (table : FeeTable) (ws : List BracketWrite) :
    List ((Corridor × Int64) × StoredTerms) :=
  (ws.filter fun w => w.table = table).map fun w =>
    ((w.corridor, w.bracket.weightLimit), StoredTerms.ofBracket w.bracket)

theorem writeBrackets_append (s : Store) (ws : List BracketWrite) (w : BracketWrite) :
    writeBrackets s (ws ++ [w])
      = writeBrackets s ws >>= fun s => s.putBracket w.table w.corridor w.bracket := by
  unfold writeBrackets
  rw [List.foldlM_append]
  refine congrArg _ (funext fun s => ?_)
  rw [List.foldlM_cons]
  exact bind_pure _

theorem exists_writeBrackets (ws : List BracketWrite) :
    ∃ s, writeBrackets empty ws = .ok s ∧ s.isOpen = true ∧
      ∀ table, s.brackets table = .ofList (entriesOf table ws) := by
  induction ws using List.reverseRecOn with
  | nil => exact ⟨empty, rfl, rfl, fun table => by cases table <;> rfl⟩
  | append_singleton ws w ih =>
    obtain ⟨s, hs, hopen, htables⟩ := ih
    obtain ⟨s', hs', hopen', htables'⟩ := putBracket_eq hopen w.table w.corridor w.bracket
    refine ⟨s', ?_, hopen', fun table => ?_⟩
    · rw [writeBrackets_append, hs]
      exact hs'
    · rw [htables', htables]
      unfold entriesOf
      by_cases htable : w.table = table
      · rw [if_pos htable, List.filter_append, List.map_append,
          List.filter_cons_of_pos (by simpa using htable)]
        exact (KeyMap.ofList_append _
          ((w.corridor, w.bracket.weightLimit), StoredTerms.ofBracket w.bracket)).symm
      · rw [if_neg htable, List.filter_append, List.filter_cons_of_neg (by simpa using htable),
          List.filter_nil, List.append_nil]

/-- Of the entries of a table, those under a corridor and a limit are the brackets that were
written there. -/
theorem filter_entriesOf (table : FeeTable) (c : Corridor) (limit : Int64)
    (ws : List BracketWrite) :
    (entriesOf table ws).filter (fun e => e.1 = (c, limit))
      = ((writtenInto table c ws).filter fun b => b.weightLimit = limit).map fun b =>
          ((c, limit), StoredTerms.ofBracket b) := by
  induction ws with
  | nil => rfl
  | cons w ws ih =>
    unfold entriesOf writtenInto at ih ⊢
    by_cases htable : w.table = table <;> by_cases hc : w.corridor = c <;>
      by_cases hlimit : w.bracket.weightLimit = limit <;> simp [htable, hc, hlimit, ih]

/-- Under a limit a table has the bracket that the writes have left. -/
theorem get?_of_writes (table : FeeTable) (c : Corridor) (limit : Int64)
    (ws : List BracketWrite) :
    (KeyMap.ofList (entriesOf table ws)).get? (c, limit)
      = ((lastOfEach (writtenInto table c ws)).find? fun b => b.weightLimit = limit).map
          StoredTerms.ofBracket := by
  rw [KeyMap.get?_ofList, filter_entriesOf, find?_lastOfEach, List.getLast?_map, Option.map_map]
  rfl

/-- A lookup in a table that has some brackets for the corridor is what their schedule selects. -/
theorem covering_eq_select {t : BracketTable} {table : FeeTable} {c : Corridor}
    {bs : List Bracket} (hbs : (bs.map Bracket.weightLimit).Nodup)
    (ht : ∀ limit, t.get? (c, limit)
      = (bs.find? fun b => b.weightLimit = limit).map StoredTerms.ofBracket)
    (key : String) (weight : Int64) :
    (covering t c weight).map (fun e => e.2.bracket table c e.1)
      = (Schedule.ofBrackets key (bs.map (asStored table c))).select weight := by
  have hnodup : ((bs.map (asStored table c)).map Bracket.weightLimit).Nodup := by
    rw [List.map_map]
    exact hbs
  -- each of the brackets is in the table
  have hget : ∀ b ∈ bs, t.get? (c, b.weightLimit) = some (StoredTerms.ofBracket b) := by
    intro b hb
    rw [ht, KeyMap.find?_key_of_mem hbs hb, Option.map_some]
  cases hcovering : covering t c weight with
  | none =>
    symm
    rw [Option.map_none, Option.eq_none_iff_forall_ne_some]
    intro b hselect
    obtain ⟨hmem, hcovers, _⟩ := (select_ofBrackets_eq_some_iff hnodup).mp hselect
    obtain ⟨b, hb, rfl⟩ := List.mem_map.mp hmem
    exact covering_eq_none_iff.mp hcovering _ _ (hget b hb) hcovers
  | some e =>
    obtain ⟨limit, terms⟩ := e
    have hleast := covering_eq_some_iff.mp hcovering
    have hentry := hleast.entry
    rw [ht] at hentry
    obtain ⟨b, hfind, rfl⟩ := Option.map_eq_some_iff.mp hentry
    obtain ⟨hb, rfl⟩ := KeyMap.mem_of_find?_key hfind
    symm
    rw [Option.map_some, bracket_ofBracket, select_ofBrackets_eq_some_iff hnodup]
    refine ⟨List.mem_map_of_mem hb, hleast.covers, fun b' hb' hcovers => ?_⟩
    obtain ⟨b', hmem, rfl⟩ := List.mem_map.mp hb'
    exact hleast.least _ _ (hget b' hmem) hcovers

/-! ## Lookups after writes -/

/-- Whether a write goes to the row of a table under a corridor and a limit. -/
def BracketWrite.Hits (w : BracketWrite) (table : FeeTable) (c : Corridor) (limit : Int64) : Prop :=
  w.table = table ∧ w.corridor = c ∧ w.bracket.weightLimit = limit

/-- Whether a write cannot be the answer to a lookup: it goes to another table or another
corridor, it does not cover the weight, or the answer so far has a lesser limit. -/
def BracketWrite.Misses (w : BracketWrite) (s : Store) (table : FeeTable) (c : Corridor)
    (weight : Int64) : Prop :=
  w.table ≠ table ∨ w.corridor ≠ c ∨ w.bracket.weightLimit < weight ∨
    ∃ b, s.bracket? table c weight = .ok (some b) ∧ b.weightLimit < w.bracket.weightLimit

theorem bracket?_eq {s : Store} (hopen : s.isOpen = true) (table : FeeTable) (c : Corridor)
    (weight : Int64) :
    s.bracket? table c weight
      = .ok ((covering (s.brackets table) c weight).map fun e => e.2.bracket table c e.1) := by
  unfold bracket? whenOpen
  rw [if_pos hopen]

section

variable {s s' : Store} {w : BracketWrite} (hopen : s.isOpen = true)
  (hput : s.putBracket w.table w.corridor w.bracket = .ok s')

include hopen hput

/-- A write leaves every row but its own. -/
theorem get?_of_putBracket {table : FeeTable} {c : Corridor} {limit : Int64}
    (h : ¬w.Hits table c limit) :
    (s'.brackets table).get? (c, limit) = (s.brackets table).get? (c, limit) := by
  obtain ⟨s1, hs1, _, htables⟩ := putBracket_eq hopen w.table w.corridor w.bracket
  obtain rfl : s1 = s' := Except.ok.inj (hs1.symm.trans hput)
  rw [htables]
  split
  next htable =>
    rw [KeyMap.get?_put, if_neg]
    intro hkey
    obtain ⟨hc, hlimit⟩ := Prod.mk.inj hkey
    exact h ⟨htable, hc, hlimit⟩
  next => rfl

/-- A write that cannot be the answer does not change the answer. -/
theorem bracket?_of_putBracket {table : FeeTable} {c : Corridor} {weight : Int64}
    (h : w.Misses s table c weight) : s'.bracket? table c weight = s.bracket? table c weight := by
  obtain ⟨s1, hs1, hopen', htables⟩ := putBracket_eq hopen w.table w.corridor w.bracket
  obtain rfl : s1 = s' := Except.ok.inj (hs1.symm.trans hput)
  rw [bracket?_eq hopen', bracket?_eq hopen]
  by_cases hrow : w.table = table ∧ w.corridor = c
  · obtain ⟨rfl, rfl⟩ := hrow
    have habove := (h.resolve_left (not_not_intro rfl)).resolve_left (not_not_intro rfl)
    rw [htables, if_pos rfl, covering_put]
    refine habove.imp_right fun ⟨b, hb, hlt⟩ => ?_
    rw [bracket?_eq hopen] at hb
    obtain ⟨e, he, rfl⟩ := Option.map_eq_some_iff.mp (Except.ok.inj hb)
    exact ⟨e, he, hlt⟩
  · rw [covering_congr fun limit => get?_of_putBracket hopen hput fun hhits => ?_]
    exact hrow ⟨hhits.1, hhits.2.1⟩

end

/-- After any writes, a lookup in the store is answered by the schedule of the brackets that
the writes have left for its table and corridor. A write leaves every row but its own, and
every answer but those that it becomes itself. -/
theorem bracket?_of_writes (ws : List BracketWrite) :
    ∃ s, writeBrackets empty ws = .ok s ∧
      (∀ table c weight, s.bracket? table c weight
        = .ok ((Schedule.ofBrackets (tableKey table c) (surviving table c ws)).select weight)) ∧
      ∀ w, ∃ s', writeBrackets empty (ws ++ [w]) = .ok s' ∧ ∀ table c,
        (∀ limit, ¬w.Hits table c limit →
          (s'.brackets table).get? (c, limit) = (s.brackets table).get? (c, limit)) ∧
        ∀ weight, w.Misses s table c weight →
          s'.bracket? table c weight = s.bracket? table c weight := by
  obtain ⟨s, hs, hopen, htables⟩ := exists_writeBrackets ws
  refine ⟨s, hs, fun table c weight => ?_, fun w => ?_⟩
  · rw [bracket?_eq hopen, htables]
    exact congrArg Except.ok (covering_eq_select (lastOfEach_nodup _)
      (fun limit => get?_of_writes table c limit ws) _ weight)
  · obtain ⟨s', hput, _⟩ := putBracket_eq hopen w.table w.corridor w.bracket
    refine ⟨s', ?_, fun table c => ⟨fun limit h => ?_, fun weight h => ?_⟩⟩
    · rw [writeBrackets_append, hs]
      exact hput
    · exact get?_of_putBracket hopen hput h
    · exact bracket?_of_putBracket hopen hput h

/-! A write with a lesser limit takes the place of the answer, though not of its row. -/

/-- From Singapore to Malaysia. -/
def malaysian : Corridor := ⟨.ofText "SG", .ofText "MY"⟩

/-- No fee for parcels up to a weight. -/
def freeUpTo (limit : Int64) : Bracket :=
  ⟨limit, .zero, .zero, 0, .zero, .zero, .zero, "", .table⟩

theorem answer_replaced :
    ∃ s s' b b', writeBrackets empty [⟨.hiddenPrice, malaysian, freeUpTo 500000⟩] = .ok s ∧
      writeBrackets empty [⟨.hiddenPrice, malaysian, freeUpTo 500000⟩,
        ⟨.hiddenPrice, malaysian, freeUpTo 100000⟩] = .ok s' ∧
      s.bracket? .hiddenPrice malaysian 50000 = .ok (some b) ∧ b.weightLimit = 500000 ∧
      s'.bracket? .hiddenPrice malaysian 50000 = .ok (some b') ∧ b'.weightLimit = 100000 := by
  refine ⟨_, _, asStored .hiddenPrice malaysian (freeUpTo 500000),
    asStored .hiddenPrice malaysian (freeUpTo 100000), rfl, rfl, ?_, rfl, ?_, rfl⟩
  · rfl
  · rfl

end RegionPricing.Store
