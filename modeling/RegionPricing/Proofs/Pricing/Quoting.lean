import Mathlib.Data.List.Perm.Basic
import Mathlib.Data.List.Sort
import RegionPricing.Pricing.Quoting
import RegionPricing.Proofs.Pricing.Session

/-!
# Quotes, request by request

When logistics answers each request for itself, it does not matter how the requests
are cut into batches: `quoteInChunks_givesUnder`. Fees are gathered in parts, those known
beforehand and those quoted; the parts together are a rearrangement of all fees, and
`inOrder` undoes it.
-/

namespace RegionPricing.Pricing

open RegionPricing.Market

/-! ## Batches of requests -/

theorem flatten_chunks {α : Type} (size : ℕ) (l : List α) : (chunks size l).flatten = l := by
  fun_induction chunks size l with
  | case1 => rfl
  | case2 a r ih =>
    rw [List.flatten_cons, ih, List.cons_append, List.take_append_drop]

section

variable {σ ρ μ : Type} {kind : Failure.Kind} {call : List ρ → Call σ (List Quote)}
  {g : ρ → Outcome Decimal}

/-- Every batch has as many outcomes as requests. -/
theorem length_outcomes (n : ℕ) (answer : Except ServiceError (List Quote)) :
    (outcomes kind n answer).length = n := by
  unfold outcomes
  split
  next quotes =>
    split
    next hn => rw [List.length_map, hn]
    next => exact List.length_replicate
  next => exact List.length_replicate

/-- A call that does not leave the states of a kind, and gives each request an outcome of its
own in all of them. -/
def ItemwiseUnder (I : σ → Prop) (kind : Failure.Kind) (call : List ρ → Call σ (List Quote))
    (g : ρ → Outcome Decimal) : Prop :=
  ∀ rs c, I c → I (call rs c).2 ∧ outcomes kind rs.length (call rs c).1 = rs.map g

/-- A call that gives each request an outcome of its own. -/
def Itemwise (kind : Failure.Kind) (call : List ρ → Call σ (List Quote))
    (g : ρ → Outcome Decimal) : Prop :=
  ∀ rs, ∃ answer, Gives (call rs) answer ∧ outcomes kind rs.length answer = rs.map g

theorem Itemwise.under (h : Itemwise kind call g) :
    ItemwiseUnder (fun _ => True) kind call g := by
  intro rs c _
  obtain ⟨answer, hcall, hout⟩ := h rs
  rw [hcall c]
  exact ⟨trivial, hout⟩

variable {I : σ → Prop}

theorem quoteChunk_givesUnder (h : ItemwiseUnder I kind call g) (chunk : List (μ × ρ)) :
    GivesUnder I (quoteChunk kind call chunk) (chunk.map fun p => (p.1, g p.2)) := by
  intro c hc
  obtain ⟨hkept, hout⟩ := h (chunk.map Prod.snd) c hc
  refine ⟨hkept, ?_⟩
  show (chunk.map Prod.fst).zip (outcomes kind chunk.length (call (chunk.map Prod.snd) c).1) = _
  rw [List.length_map] at hout
  rw [hout, List.map_map, List.zip_map']
  rfl

/-- However the requests are cut into batches, each gets its own outcome. -/
theorem quoteInChunks_givesUnder (h : ItemwiseUnder I kind call g) (size : ℕ)
    (pending : List (μ × ρ)) :
    GivesUnder I (quoteInChunks size kind call pending) (pending.map fun p => (p.1, g p.2)) := by
  have hparts := GivesUnder.mapM (l := chunks size pending) fun chunk _ =>
    quoteChunk_givesUnder (μ := μ) h chunk
  -- Put together again, the batches are all requests.
  have hall := hparts.map List.flatten
  rw [← List.map_flatten, flatten_chunks] at hall
  exact hall

theorem quoteInChunks_gives (h : Itemwise kind call g) (size : ℕ) (pending : List (μ × ρ)) :
    Gives (quoteInChunks size kind call pending) (pending.map fun p => (p.1, g p.2)) :=
  gives_iff_givesUnder.mpr (quoteInChunks_givesUnder h.under size pending)

end

/-- The outcome of a quote from logistics, which may be out of service. -/
def delivered (world : Script) (kind : Failure.Kind) (q : Quote) : Outcome Decimal :=
  if world.failLogistics then .error ⟨kind, (ServiceError.http 503 "logistics unavailable").message⟩
  else quoted kind q

theorem outcomes_logistics {ρ : Type} (world : Script) (kind : Failure.Kind) (rs : List ρ)
    (quote : ρ → Quote) :
    outcomes kind rs.length (world.logistics (rs.map quote))
      = rs.map fun r => delivered world kind (quote r) := by
  unfold Script.logistics delivered
  split
  · simp only [outcomes, List.map_const']
  · simp [outcomes]

/-! ## Parts of a list -/

/-- What is found in a list by one of two tests is found by both together. -/
theorem filterMap_append_perm {α β : Type} {f g : α → Option β} :
    ∀ {l : List α}, (∀ a ∈ l, f a = none ∨ g a = none) →
      (l.filterMap f ++ l.filterMap g).Perm (l.filterMap fun a => (f a).or (g a)) := by
  intro l
  induction l with
  | nil => intro _; exact .refl _
  | cons a r ih =>
    intro h
    have hr := ih fun b hb => h b (List.mem_cons_of_mem a hb)
    -- The first element goes to one of the two parts, or to none.
    rcases h a List.mem_cons_self with hf | hg
    · cases hg : g a with
      | none => simpa [hf, hg] using hr
      | some b => simpa [hf, hg] using List.perm_middle.trans (hr.cons b)
    · cases hf : f a with
      | none => simpa [hf, hg] using hr
      | some b => simpa [hf, hg] using hr.cons b

/-- The elements of a list, marked with their places. -/
def placed {α : Type} (l : List α) : List (ℕ × α) := l.zipIdx.map fun a => (a.2, a.1)

theorem mem_placed_iff {α : Type} {l : List α} {p : ℕ} {a : α} :
    (p, a) ∈ placed l ↔ l[p]? = some a := by
  constructor
  · intro h
    obtain ⟨e, he, hmark⟩ := List.mem_map.mp h
    cases hmark
    exact List.mem_zipIdx_iff_getElem?.mp he
  · intro h
    exact List.mem_map.mpr ⟨(a, p), List.mem_zipIdx_iff_getElem?.mpr h, rfl⟩

theorem getElem?_of_mem_placed {α : Type} {l : List α} {e : ℕ × α} (h : e ∈ placed l) :
    l[e.1]? = some e.2 :=
  mem_placed_iff.mp h

theorem placed_pairwise_lt {α : Type} (l : List α) :
    (placed l).Pairwise fun a b => a.1 < b.1 := by
  have hplaces : (l.zipIdx.map Prod.snd).Pairwise fun m n => m < n := by
    rw [List.zipIdx_map_snd]
    exact List.pairwise_lt_range'
  exact List.pairwise_map.mpr (List.pairwise_map.mp hplaces)

theorem placed_pairwise {α : Type} (l : List α) :
    (placed l).Pairwise fun a b => decide (a.1 ≤ b.1) = true :=
  (placed_pairwise_lt l).imp fun hab => decide_eq_true hab.le

/-- What is marked with its places in a list comes back in the order of the list. -/
theorem inOrder_of_perm {α : Type} {l : List α} {marked : List (ℕ × α)}
    (h : marked.Perm (placed l)) : inOrder marked = l := by
  have hsorted : (marked.mergeSort fun a b => a.1 ≤ b.1).Pairwise
      fun a b => decide (a.1 ≤ b.1) = true := by
    refine List.pairwise_mergeSort ?_ ?_ marked
    · intro a b c hab hbc
      simp only [decide_eq_true_eq] at *
      omega
    · intro a b
      simp only [Bool.or_eq_true, decide_eq_true_eq]
      omega
  have hperm := (marked.mergeSort_perm fun a b => a.1 ≤ b.1).trans h
  have heq : (marked.mergeSort fun a b => a.1 ≤ b.1) = placed l := by
    refine hperm.eq_of_pairwise ?_ hsorted (placed_pairwise l)
    intro a b ha hb hab hba
    have hplace : a.1 = b.1 :=
      Nat.le_antisymm (of_decide_eq_true hab) (of_decide_eq_true hba)
    -- Two elements at one place are the same.
    have hvalue := getElem?_of_mem_placed (hperm.mem_iff.mp ha)
    rw [hplace, getElem?_of_mem_placed hb] at hvalue
    exact Prod.ext hplace (Option.some.inj hvalue.symm)
  rw [inOrder, heq, placed, List.map_map]
  exact List.zipIdx_map_fst 0 l

end RegionPricing.Pricing
