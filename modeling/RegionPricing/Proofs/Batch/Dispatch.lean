import Mathlib.Data.List.Nodup
import RegionPricing.Batch.Answer
import RegionPricing.Batch.Check

/-!
# Jobs do not touch each other

In whatever order the jobs of a batch finish, each query gets what its own job sends,
and a job that fails by arithmetic leaves only its own query without an outcome
(`dispatch_eq`). The queries of a batch that passes the check have distinct identifiers,
and each of them passes the check alone.
-/

namespace RegionPricing.Batch

/-! ## Batches that pass the check -/

section

variable {α : Type} [Checked α]

theorem fault?_of_mem {seen : List Id} {q : α} (h : fault? seen q = none) :
    queryId q ∉ seen ∧ violation? q = none := by
  unfold fault? at h
  split at h
  next => exact absurd h (by simp)
  next hmem => exact ⟨hmem, Option.map_eq_none_iff.mp h⟩

theorem sound_of_firstFault? :
    ∀ {qs : List α} {seen : List Id}, firstFault? seen qs = none →
      (qs.map queryId).Nodup ∧ (∀ q ∈ qs, queryId q ∉ seen ∧ violation? q = none) := by
  intro qs
  induction qs with
  | nil => intro _ _; simp
  | cons q rest ih =>
    intro seen h
    have hfault : fault? seen q = none ∧ firstFault? (queryId q :: seen) rest = none := by
      unfold firstFault? at h
      cases hq : fault? seen q with
      | some r => rw [hq] at h; exact absurd h (by simp)
      | none => rw [hq] at h; exact ⟨rfl, h⟩
    obtain ⟨hnodup, hrest⟩ := ih hfault.2
    refine ⟨?_, fun q' hq' => ?_⟩
    · rw [List.map_cons, List.nodup_cons]
      refine ⟨fun hmem => ?_, hnodup⟩
      obtain ⟨q', hq', heq⟩ := List.mem_map.mp hmem
      exact (hrest q' hq').1 (heq ▸ List.mem_cons_self)
    · rcases List.mem_cons.mp hq' with rfl | hq'
      · exact fault?_of_mem hfault.1
      · exact ⟨fun hmem => (hrest q' hq').1 (List.mem_cons_of_mem _ hmem), (hrest q' hq').2⟩

theorem firstFault?_of_refusal? {limit : ℕ} {qs : List α} (h : refusal? limit qs = none) :
    1 ≤ limit ∧ firstFault? [] qs = none := by
  unfold refusal? at h
  split at h
  next => exact absurd h (by simp)
  next hempty =>
    split at h
    next => exact absurd h (by simp)
    next hlimit =>
      have hpos := List.length_pos_iff.mpr fun hnil => hempty (List.isEmpty_iff.mpr hnil)
      exact ⟨by omega, h⟩

theorem nodup_of_refusal? {limit : ℕ} {qs : List α} (h : refusal? limit qs = none) :
    (qs.map queryId).Nodup :=
  (sound_of_firstFault? (firstFault?_of_refusal? h).2).1

/-- A query of a batch that passes the check passes it alone. -/
theorem refusal?_singleton {limit : ℕ} {qs : List α} (h : refusal? limit qs = none) {q : α}
    (hq : q ∈ qs) : refusal? limit [q] = none := by
  obtain ⟨hlimit, hfault⟩ := firstFault?_of_refusal? h
  have hq := ((sound_of_firstFault? hfault).2 q hq).2
  have hlen : ¬limit < [q].length := by
    rw [List.length_singleton]
    omega
  rw [refusal?, if_neg (by simp), if_neg hlen]
  simp [firstFault?, fault?, hq]

end

/-! ## Jobs -/

/-- An identifier is written as the number that it is. -/
theorem text_eq_toString (id : Id) : id.text = toString id :=
  Text.numeral_eq_repr id.toNat

section

variable {α β : Type}

theorem place_of_sent {evaluate : α → Evaluation β} {qs : List α} {place : ℕ}
    {e : ℕ × Outcome β} (h : sent evaluate qs place = some e) : e.1 = place := by
  unfold sent at h
  split at h
  next => rw [← Option.some.inj h]
  next => exact absurd h (by simp)

/-- What has arrived from a place is what the job there has sent. -/
theorem lookup_sent (evaluate : α → Evaluation β) (qs : List α) (place : ℕ) (places : List ℕ) :
    (places.filterMap (sent evaluate qs)).lookup place
      = if place ∈ places then (sent evaluate qs place).map Prod.snd else none := by
  induction places with
  | nil => rfl
  | cons p rest ih =>
    cases hs : sent evaluate qs p with
    | none =>
      -- A job that fails leaves nothing behind under its place.
      rw [List.filterMap_cons_none hs, ih]
      by_cases hp : place = p
      · rw [hp, hs]
        simp
      · simp only [List.mem_cons, hp, false_or]
    | some e =>
      obtain ⟨n, o⟩ := e
      obtain rfl : n = p := place_of_sent hs
      rw [List.filterMap_cons_some hs, List.lookup_cons]
      by_cases hp : place = n
      · rw [hp, hs]
        simp
      · rw [beq_eq_false_iff_ne.mpr hp, ih]
        simp only [List.mem_cons, hp, false_or]

variable [Identified α]

/-- A pool that takes every job. -/
def Workers.Accepts (w : Workers) : Prop := ∀ place, w.refuses place = none

/-- What a query comes to when it is evaluated by a job. -/
def contained (q : α) (x : Evaluation β) : Outcome β :=
  match x.run with
  | .ok outcome => outcome
  | .error _ => .error (noOutcome (queryId q))

/-- The outcome of a query by its own evaluation: what that comes to, or, when arithmetic fails
in it, an internal failure that names the query. -/
structure OutcomeBy (q : α) (x : Evaluation β) (outcome : Outcome β) : Prop where
  value : ∀ o, x.run = .ok o → outcome = o
  fault : ∀ fault, x.run = .error fault → ∃ f, outcome = .error f ∧ f.kind = .internal ∧
    f.detail = s!"query {queryId q} produced no result"

theorem outcomeBy_contained (q : α) (x : Evaluation β) : OutcomeBy q x (contained q x) := by
  constructor
  · intro o h
    rw [contained, h]
  · intro fault h
    refine ⟨noOutcome (queryId q), ?_, rfl, ?_⟩
    · rw [contained, h]
    · rw [noOutcome, text_eq_toString]
      rfl

theorem collected_eq {evaluate : α → Evaluation β} {qs : List α} {places : List ℕ} {place : ℕ}
    {q : α} (hplace : place ∈ places) (hq : qs[place]? = some q) :
    collected (places.filterMap (sent evaluate qs)) place q
      = answerTo q (contained q (evaluate q)) := by
  rw [collected, lookup_sent evaluate qs place, if_pos hplace, sent, contained, hq, Option.map_some]
  cases (evaluate q).run <;> rfl

/-- When every job is taken, each query is answered by its own, in the order of the queries. -/
theorem dispatch_of_taken {w : Workers} {qs : List α}
    (htaken : (List.range qs.length).findSome? w.refuses = none) (evaluate : α → Evaluation β) :
    dispatch w evaluate qs = .ok (qs.map fun q => answerTo q (contained q (evaluate q))) := by
  rw [dispatch]
  simp only [htaken]
  refine congrArg Except.ok (List.ext_getElem (by simp) fun place h h' => ?_)
  rw [List.getElem_mapIdx, List.getElem_map]
  have hlt : place < qs.length := by simpa using h
  -- In whatever order, the job of this place is among those that finish.
  refine collected_eq ?_ (List.getElem?_eq_getElem hlt)
  exact (w.order_perm _).mem_iff.mpr (List.mem_range.mpr hlt)

theorem dispatch_eq {w : Workers} (hw : w.Accepts) (evaluate : α → Evaluation β) (qs : List α) :
    dispatch w evaluate qs = .ok (qs.map fun q => answerTo q (contained q (evaluate q))) :=
  dispatch_of_taken (List.findSome?_eq_none_iff.mpr fun place _ => hw place) evaluate

/-- A batch has answers only when every job is taken. -/
theorem dispatch_cases (w : Workers) (qs : List α) :
    (∃ f, ∀ evaluate : α → Evaluation β, dispatch w evaluate qs = .error f) ∨
      ∀ evaluate : α → Evaluation β,
        dispatch w evaluate qs = .ok (qs.map fun q => answerTo q (contained q (evaluate q))) := by
  cases hrefused : (List.range qs.length).findSome? w.refuses with
  | some e =>
    refine .inl ⟨e.toFailure, fun evaluate => ?_⟩
    rw [dispatch]
    simp only [hrefused]
  | none => exact .inr (dispatch_of_taken hrefused)

/-- A batch that the pool refuses is not blamed on its queries. -/
theorem kind_of_dispatch {w : Workers} {evaluate : α → Evaluation β} {qs : List α} {f : Failure}
    (h : dispatch w evaluate qs = .error f) : f.kind ≠ .parameter := by
  rw [dispatch] at h
  dsimp only at h
  split at h
  next e _ =>
    obtain rfl := Except.error.inj h
    intro hkind
    cases e <;> cases hkind
  next => cases h

theorem dispatch_congr {w : Workers} {f g : α → Evaluation β} {qs : List α}
    (h : ∀ q ∈ qs, f q = g q) : dispatch w f qs = dispatch w g qs := by
  rcases dispatch_cases w qs with ⟨e, he⟩ | hok
  · rw [he, he]
  · rw [hok, hok]
    exact congrArg Except.ok (List.map_congr_left fun q hq => by rw [h q hq])

end

end RegionPricing.Batch
