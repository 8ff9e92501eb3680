import Mathlib.Logic.Relation
import RegionPricing.Proofs.Factor.Carrying

/-!
# Lookups and updates that do not overlap

Taken operation by operation without anything in between, a lookup comes to what
`Source.through` comes to (`run_look`), and an update deletes what `Source.through` forgets
(`run_proceed`). So the events of `Traffic` take apart the same lookups and updates that
sources make in one go.
-/

namespace RegionPricing.Factor

variable {ω κ ν : Type}

/-- Reading key by key as a source behind the tiers. -/
def Behind.source [DecidableEq κ] (b : Behind ω κ ν) : Source ω κ ν :=
  .behind fun keys x => (.ofKeys keys (b.read x), x)

/-- The keys that are written when all entries are, and what is behind the tiers then. -/
def Behind.writeAll (b : Behind ω κ ν) : List (κ × ν) → ω → List κ × ω
  | [], x => ([], x)
  | (k, v) :: entries, x =>
    match b.write k v x with
    | .ok x => (k :: (b.writeAll entries x).1, (b.writeAll entries x).2)
    | .error _ => b.writeAll entries x

theorem Answers.ofKeys_eq_foldl [DecidableEq κ] (keys : List κ) (outcome : κ → Outcome ν) :
    Answers.ofKeys keys outcome = keys.foldl (fun a k => a.put k (outcome k)) .empty :=
  List.foldl_map

namespace Traffic

open Relation

variable [KeyText κ] {s : Space ν} {b : Behind ω κ ν}

/-! ## Single deletions and writes -/

/-- One operation takes an update and its environment to others. -/
def UpdateLeads (s : Space ν) (b : Behind ω κ ν) (x y : Update κ ν × Env ω) : Prop :=
  updateStep s b x.1 x.2 = some y

theorem leads_writing (entries : List (κ × ν)) (written : List κ) (e : Env ω) :
    ReflTransGen (UpdateLeads s b) (.writing entries written, e)
      (.writing [] (written ++ (b.writeAll entries e.behind).1),
        { e with behind := (b.writeAll entries e.behind).2 }) := by
  induction entries generalizing written e with
  | nil =>
    rw [Behind.writeAll, List.append_nil]
  | cons entry entries ih =>
    obtain ⟨k, v⟩ := entry
    rw [Behind.writeAll]
    cases hwrite : b.write k v e.behind with
    | ok x =>
      have hfirst : updateStep s b (.writing ((k, v) :: entries) written) e
          = some (.writing entries (written ++ [k]), { e with behind := x }) := by
        rw [updateStep, hwrite]
      have hrest := ih (written ++ [k]) { e with behind := x }
      rw [List.append_assoc] at hrest
      exact .head hfirst hrest
    | error f =>
      have hfirst : updateStep s b (.writing ((k, v) :: entries) written) e
          = some (.writing entries written, e) := by
        rw [updateStep, hwrite]
      exact .head hfirst (ih written e)

theorem deleteFrom_nil (level : ℕ) (e : Env ω) : Env.deleteFrom level [] e = ((), e) := by
  have htiers : e.tiers.modify level (fun t => t.delete e.now []) = e.tiers := List.modify_id _ _
  show ((), { e with tiers := e.tiers.modify level fun t => t.delete e.now [] }) = _
  rw [htiers]

/-- Deleting texts one by one is deleting them together. -/
theorem deleteFrom_cons (level : ℕ) (text : String) (texts : List String) (e : Env ω) :
    Env.deleteFrom level (text :: texts) e
      = Env.deleteFrom level texts (Env.deleteFrom level [text] e).2 := by
  have htiers : e.tiers.modify level (fun t => t.delete e.now (text :: texts))
      = (e.tiers.modify level (fun t => t.delete e.now [text])).modify level
        (fun t => t.delete e.now texts) := by
    rw [List.modify_modify_eq]
    rfl
  show ((), { e with tiers := e.tiers.modify level (fun t => t.delete e.now (text :: texts)) }) = _
  rw [htiers]
  rfl

theorem leads_level (level : ℕ) (keys : List κ) (rest : List (ℕ × κ)) (e : Env ω) :
    ReflTransGen (UpdateLeads s b) (.deleting ((keys.map fun k => (level, k)) ++ rest), e)
      (.deleting rest, (Env.deleteFrom level (keys.map s.tierKey) e).2) := by
  induction keys generalizing e with
  | nil =>
    rw [List.map_nil, List.map_nil, deleteFrom_nil]
    exact .refl
  | cons k keys ih =>
    rw [List.map_cons, List.map_cons, deleteFrom_cons]
    exact .head rfl (ih _)

variable [DecidableEq κ]

/-! ## Lookups -/

/-- One operation takes a lookup and its environment to others. -/
def LookupLeads (s : Space ν) (b : Behind ω κ ν) (x y : Lookup κ ν × Env ω) : Prop :=
  lookupStep s b x.1 x.2 = some y

theorem leads_reading (passed : List (Passed κ)) (keys : List κ) (answers : Answers κ ν)
    (e : Env ω) :
    ReflTransGen (LookupLeads s b) (.reading passed keys answers, e)
      (.returning passed (keys.foldl (fun a k => a.put k (b.read e.behind k)) answers), e) := by
  induction keys generalizing answers with
  | nil => exact .single rfl
  | cons k keys ih => exact .head rfl (ih (answers.put k (b.read e.behind k)))

theorem enqueue_nil (level : ℕ) (e : Env ω) : Env.enqueue level [] e = ((), e) := by
  have htiers : e.tiers.modify level (fun t => t.enqueue []) = e.tiers := List.modify_id _ _
  show ((), { e with tiers := e.tiers.modify level fun t => t.enqueue [] }) = _
  rw [htiers]

/-- From any tier on, a lookup comes back with what the tiers from there on give. -/
theorem leads_layered (n : ℕ) (passed : List (Passed κ)) (keys : List κ) (e : Env ω)
    (hlength : e.tiers.length = passed.length + n) :
    ReflTransGen (LookupLeads s b) (.descending passed keys, e)
      (.returning passed ((Source.layered s b.source passed.length n).fetch keys e).1,
        ((Source.layered s b.source passed.length n).fetch keys e).2) := by
  induction n generalizing passed keys e with
  | zero =>
    have hlevel : ¬passed.length < e.tiers.length := by omega
    have hpast : LookupLeads s b (.descending passed keys, e) (.reading passed keys .empty, e) :=
      if_neg hlevel
    have hread := leads_reading (s := s) (b := b) passed keys .empty e
    rw [← Answers.ofKeys_eq_foldl] at hread
    exact .head hpast hread
  | succ n ih =>
    have hlevel : passed.length < e.tiers.length := by omega
    have htier : lookupStep s b (.descending passed keys) e = some (afterTier s passed
        ⟨keys.eraseDups, (Env.readTier passed.length (keys.eraseDups.map s.tierKey) e).1⟩,
        (Env.readTier passed.length (keys.eraseDups.map s.tierKey) e).2) := if_pos hlevel
    have hlength1 := Env.length_readTier passed.length (keys.eraseDups.map s.tierKey) e
    rcases hr : Env.readTier passed.length (keys.eraseDups.map s.tierKey) e with ⟨found, e1⟩
    rw [hr] at htier hlength1
    replace hlength1 : e1.tiers.length = passed.length + 1 + n := by
      rw [show e1.tiers.length = e.tiers.length from hlength1]
      omega
    refine .head htier ?_
    unfold afterTier
    rw [Source.layered]
    cases hm : (missed s ⟨keys.eraseDups, found⟩).isEmpty with
    | true =>
      -- on the way back there is nothing to queue
      rw [cached_fetch_of_found _ hr hm, if_pos rfl]
      have hnothing : Source.toWrite s (missed s ⟨keys.eraseDups, found⟩)
          (Source.merged s found (.empty : Answers κ ν)) = [] := by
        rw [List.isEmpty_iff.mp hm]
        rfl
      have hback : lookupStep s b (.returning (⟨keys.eraseDups, found⟩ :: passed) .empty) e1
          = some (.returning passed (.ofKeys keys.eraseDups (Source.merged s found .empty)),
            (Env.enqueue passed.length (Source.toWrite s (missed s ⟨keys.eraseDups, found⟩)
              (Source.merged s found (.empty : Answers κ ν))) e1).2) := rfl
      rw [hnothing, enqueue_nil] at hback
      exact .single hback
    | false =>
      -- the tiers behind give the answers, and one more operation queues them here
      rw [if_neg (by decide)]
      have hfar := ih (⟨keys.eraseDups, found⟩ :: passed) (missed s ⟨keys.eraseDups, found⟩) e1
        hlength1
      rw [cached_fetch_of_missed _ hr rfl hm rfl]
      exact hfar.tail rfl

/-- Operations of one lookup or update that follow each other, as events of the traffic. -/
theorem run_of_leads {α : Type} {R : α → α → Prop} {f : α → Traffic ω κ ν} (event : Event κ ν)
    (hstep : ∀ x y, R x y → step s b (f x) event = some (f y)) {x y : α} (h : ReflTransGen R x y) :
    ∃ m, run s b (f x) (List.replicate m event) = some (f y) := by
  induction h using ReflTransGen.head_induction_on with
  | refl => exact ⟨0, rfl⟩
  | @head x z hfirst _ ih =>
    obtain ⟨m, hm⟩ := ih
    refine ⟨m + 1, ?_⟩
    rw [List.replicate_succ, run, List.foldlM_cons, hstep x z hfirst]
    exact hm

/-- A lookup alone comes to what the source behind all tiers comes to. -/
theorem run_look (t : Traffic ω κ ν) {n : ℕ} {keys : List κ}
    (hl : t.lookups[n]? = some (.descending [] keys)) :
    ∃ m, run s b t (List.replicate m (.look n)) = some { t with
      env := ((Source.through s b.source).fetch keys t.env).2
      lookups := t.lookups.set n
        (.returning [] ((Source.through s b.source).fetch keys t.env).1) } := by
  obtain ⟨hn, hget⟩ := List.getElem?_eq_some_iff.mp hl
  have hstart : { t with lookups := t.lookups.set n (.descending [] keys) } = t := by
    rw [← hget, List.set_getElem_self]
  have hleads := leads_layered (s := s) (b := b) t.env.tiers.length [] keys t.env
    (Nat.zero_add _).symm
  have hrun := run_of_leads (s := s) (b := b)
    (f := fun x => { t with env := x.2, lookups := t.lookups.set n x.1 }) (.look n)
    (fun x y hxy => by
      have hxy' : lookupStep s b x.1 x.2 = some y := hxy
      simp only [step, List.getElem?_set_self hn, Option.bind_eq_bind, Option.bind_some, hxy',
        List.set_set]
      rfl) hleads
  dsimp only at hrun
  rw [hstart] at hrun
  exact hrun

/-! ## Updates -/

theorem leads_deleting (n level : ℕ) (keys : List κ) (e : Env ω) :
    ReflTransGen (UpdateLeads s b)
      (.deleting ((List.range' level n).flatMap fun level => keys.map fun k => (level, k)), e)
      (.deleting [], ((Source.layered s b.source level n).forget keys e).2) := by
  induction n generalizing level e with
  | zero => exact .refl
  | succ n ih =>
    rw [List.range'_succ, List.flatMap_cons]
    exact (leads_level level keys _ e).trans (ih (level + 1) _)

theorem forget_nil (n level : ℕ) (e : Env ω) :
    (Source.layered s b.source level n).forget [] e = ((), e) := by
  induction n generalizing level with
  | zero => rfl
  | succ n ih =>
    show (Source.layered s b.source (level + 1) n).forget [] (Env.deleteFrom level [] e).2 = _
    rw [deleteFrom_nil]
    exact ih (level + 1)

/-- An update alone writes its entries, and of what was written the source behind all tiers
forgets the keys. -/
theorem run_proceed (t : Traffic ω κ ν) {n : ℕ} {entries : List (κ × ν)}
    (hu : t.updates[n]? = some (.writing entries [])) :
    ∃ m, run s b t (List.replicate m (.proceed n)) = some { t with
      env := ((Source.through s b.source).forget (b.writeAll entries t.env.behind).1
        { t.env with behind := (b.writeAll entries t.env.behind).2 }).2
      updates := t.updates.set n (.deleting []) } := by
  obtain ⟨hn, hget⟩ := List.getElem?_eq_some_iff.mp hu
  have hstart : { t with updates := t.updates.set n (.writing entries []) } = t := by
    rw [← hget, List.set_getElem_self]
  have hwriting := leads_writing (s := s) (b := b) entries [] t.env
  rw [List.nil_append] at hwriting
  have hdeleting := leads_deleting (s := s) (b := b) t.env.tiers.length 0
    (b.writeAll entries t.env.behind).1
    { t.env with behind := (b.writeAll entries t.env.behind).2 }
  rw [← List.range_eq_range'] at hdeleting
  have hrun := run_of_leads (s := s) (b := b)
    (f := fun x => { t with env := x.2, updates := t.updates.set n x.1 }) (.proceed n)
    (fun x y hxy => by
      have hxy' : updateStep s b x.1 x.2 = some y := hxy
      simp only [step, List.getElem?_set_self hn, Option.bind_eq_bind, Option.bind_some, hxy',
        List.set_set]
      rfl) (hwriting.trans (.head rfl hdeleting))
  dsimp only at hrun
  rw [hstart] at hrun
  exact hrun

end Traffic

end RegionPricing.Factor
