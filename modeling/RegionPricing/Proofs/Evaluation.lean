import Mathlib.Data.List.Forall2
import RegionPricing.Failure

/-!
# Evaluations, step by step

A step that has a value hands it on, whether the step may fail by arithmetic, by a
failure, or by both. A step on a state hands on the state too.
-/

namespace RegionPricing

variable {ε α β : Type}

@[simp] theorem ok_bind (a : α) (f : α → Except ε β) : (Except.ok a >>= f) = f a := rfl

@[simp] theorem error_bind (e : ε) (f : α → Except ε β) : (Except.error e >>= f) = .error e := rfl

@[simp] theorem ofExcept_ok_bind (a : α) (f : α → Evaluation β) :
    (ofExcept (Except.ok a : Outcome α) >>= f) = f a := rfl

@[simp] theorem ofExcept_error_bind (e : Failure) (f : α → Evaluation β) :
    (ofExcept (Except.error e : Outcome α) >>= f) = ofExcept (.error e) := rfl

@[simp] theorem liftM_ok_bind (a : α) (f : α → Evaluation β) :
    (liftM (Except.ok a : Except Fault α) >>= f) = f a := rfl

/-- A computation that comes to a value has come to one at its first step. -/
theorem exists_of_bind_eq_ok {x : Except ε α} {f : α → Except ε β} {b : β}
    (h : (x >>= f) = .ok b) : ∃ a, x = .ok a ∧ f a = .ok b := by
  cases x with
  | error e => cases h
  | ok a => exact ⟨a, rfl, h⟩

theorem exists_of_ofExcept_bind {x : Outcome α} {f : α → Evaluation β} {b : β}
    (h : (ofExcept x >>= f).run = .ok (.ok b)) : ∃ a, x = .ok a ∧ (f a).run = .ok (.ok b) := by
  cases x with
  | error e => cases h
  | ok a => exact ⟨a, rfl, h⟩

theorem exists_of_liftM_bind {x : Except Fault α} {f : α → Evaluation β} {b : β}
    (h : (liftM x >>= f).run = .ok (.ok b)) : ∃ a, x = .ok a ∧ (f a).run = .ok (.ok b) := by
  cases x with
  | error e => cases h
  | ok a => exact ⟨a, rfl, h⟩

theorem eq_ok_of_liftM {x : Except Fault α} {a : α}
    (h : (liftM x : Evaluation α).run = .ok (.ok a)) : x = .ok a := by
  cases x with
  | error e => cases h
  | ok a' =>
    cases h
    rfl

/-- Evaluations in which no arithmetic fails come to their outcomes. -/
theorem mapM_run_ofExcept (os : List (Outcome α)) :
    (os.map fun o => (ofExcept o : Evaluation α)).mapM ExceptT.run = .ok os := by
  induction os with
  | nil => rfl
  | cons o r ih =>
    rw [List.map_cons, List.mapM_cons, ih]
    cases o <;> rfl

/-! ## Values and stops -/

section

variable {x : ExceptT ε (Except Fault) α} {f : α → ExceptT ε (Except Fault) β}
  {why : Except Fault ε}

/-- A computation that comes to a value. -/
def ComesTo (x : ExceptT ε (Except Fault) α) (a : α) : Prop := x.run = .ok (.ok a)

/-- A computation that stops before it comes to a value: by a fault or by an error. -/
def StopsBy (x : ExceptT ε (Except Fault) α) (why : Except Fault ε) : Prop :=
  x.run = why.map .error

/-- Every computation comes to a value or stops. -/
theorem comesTo_or_stopsBy (x : ExceptT ε (Except Fault) α) :
    (∃ a, ComesTo x a) ∨ ∃ why, StopsBy x why := by
  unfold ComesTo StopsBy
  rcases x.run with fault | e | a
  · exact .inr ⟨.error fault, rfl⟩
  · exact .inr ⟨.ok e, rfl⟩
  · exact .inl ⟨a, rfl⟩

/-- The value that a computation comes to. -/
def value? (x : ExceptT ε (Except Fault) α) : Option α :=
  match x.run with
  | .ok (.ok a) => some a
  | _ => none

theorem value?_eq_some_iff {a : α} : value? x = some a ↔ ComesTo x a := by
  unfold value? ComesTo
  rcases x.run with fault | e | a' <;> simp

theorem comesTo_get (h : (value? x).isSome = true) : ComesTo x ((value? x).get h) :=
  value?_eq_some_iff.mp (Option.some_get h).symm

/-- The fault that a computation stops by. -/
def fault? (x : ExceptT ε (Except Fault) α) : Option Fault :=
  match x.run with
  | .error fault => some fault
  | _ => none

theorem fault?_eq_some_iff {fault : Fault} : fault? x = some fault ↔ StopsBy x (.error fault) := by
  unfold fault? StopsBy
  rcases x.run with fault' | e | a <;> simp [Except.map]

theorem ComesTo.unique {a b : α} (h : ComesTo x a) (h' : ComesTo x b) : a = b :=
  Except.ok.inj (Except.ok.inj (h.symm.trans h'))

theorem ComesTo.not_stopsBy {a : α} (h : ComesTo x a) : ¬StopsBy x why := by
  intro h'
  have heq := h.symm.trans h'
  cases why <;> cases heq

theorem StopsBy.unique {why' : Except Fault ε} (h : StopsBy x why) (h' : StopsBy x why') :
    why = why' := by
  have heq := h.symm.trans h'
  cases why <;> cases why' <;> cases heq <;> rfl

@[simp] theorem comesTo_pure_iff {a b : α} :
    ComesTo (pure a : ExceptT ε (Except Fault) α) b ↔ a = b :=
  ⟨fun h => Except.ok.inj (Except.ok.inj h), fun h => h ▸ rfl⟩

@[simp] theorem not_stopsBy_pure (a : α) :
    ¬StopsBy (pure a : ExceptT ε (Except Fault) α) why :=
  ComesTo.not_stopsBy (comesTo_pure_iff.mpr rfl)

@[simp] theorem not_comesTo_throw (e : ε) (a : α) :
    ¬ComesTo (throw e : ExceptT ε (Except Fault) α) a := fun h => by cases h

@[simp] theorem stopsBy_throw_iff {e : ε} :
    StopsBy (throw e : ExceptT ε (Except Fault) α) why ↔ why = .ok e := by
  constructor
  · intro h
    cases why <;> cases h
    rfl
  · rintro rfl
    rfl

@[simp] theorem not_comesTo_fault (fault : Fault) (a : α) :
    ¬ComesTo (throwThe Fault fault : ExceptT ε (Except Fault) α) a := fun h => by cases h

@[simp] theorem stopsBy_fault_iff {fault : Fault} :
    StopsBy (throwThe Fault fault : ExceptT ε (Except Fault) α) why ↔ why = .error fault := by
  constructor
  · intro h
    cases why <;> cases h
    rfl
  · rintro rfl
    rfl

theorem comesTo_liftM_iff {y : Except Fault α} {a : α} :
    ComesTo (liftM y : ExceptT ε (Except Fault) α) a ↔ y = .ok a := by
  constructor
  · intro h
    cases y <;> cases h
    rfl
  · rintro rfl
    rfl

@[simp] theorem comesTo_adapt_iff {ε' : Type} {g : ε → ε'} {a : α} :
    ComesTo (x.adapt g) a ↔ ComesTo x a := by
  show x.run.map (Except.mapError g) = _ ↔ x.run = _
  rcases x.run with fault | e | a' <;> simp [Except.map, Except.mapError]

theorem adapt_fault_iff {ε' : Type} {g : ε → ε'} {fault : Fault} :
    StopsBy (x.adapt g) (.error fault) ↔ StopsBy x (.error fault) := by
  show x.run.map (Except.mapError g) = .error fault ↔ x.run = .error fault
  rcases x.run with fault' | e | a <;> simp [Except.map]

theorem liftM_fault_iff {y : Except Fault α} {fault : Fault} :
    StopsBy (liftM y : ExceptT ε (Except Fault) α) (.error fault) ↔ y = .error fault := by
  constructor
  · intro h
    cases y <;> cases h
    rfl
  · rintro rfl
    rfl

theorem comesTo_bind_iff {b : β} :
    ComesTo (x >>= f) b ↔ ∃ a, ComesTo x a ∧ ComesTo (f a) b := by
  rcases comesTo_or_stopsBy x with ⟨a, ha⟩ | ⟨why, hwhy⟩
  · have hbind : (x >>= f).run = (f a).run := by
      rw [ExceptT.run_bind, ha]
      rfl
    unfold ComesTo
    rw [hbind]
    exact ⟨fun h => ⟨a, ha, h⟩, fun ⟨a', ha', h⟩ => ha.unique ha' ▸ h⟩
  · have hbind : StopsBy (x >>= f) why := by
      unfold StopsBy
      rw [ExceptT.run_bind, hwhy]
      cases why <;> rfl
    exact ⟨fun h => absurd hbind h.not_stopsBy, fun ⟨_, ha, _⟩ => absurd hwhy ha.not_stopsBy⟩

theorem stopsBy_bind_iff :
    StopsBy (x >>= f) why ↔ StopsBy x why ∨ ∃ a, ComesTo x a ∧ StopsBy (f a) why := by
  rcases comesTo_or_stopsBy x with ⟨a, ha⟩ | ⟨why', hwhy⟩
  · have hbind : (x >>= f).run = (f a).run := by
      rw [ExceptT.run_bind, ha]
      rfl
    unfold StopsBy
    rw [hbind]
    constructor
    · exact fun h => .inr ⟨a, ha, h⟩
    · rintro (h | ⟨a', ha', h⟩)
      · exact absurd h ha.not_stopsBy
      · exact ha.unique ha' ▸ h
  · have hbind : StopsBy (x >>= f) why' := by
      unfold StopsBy
      rw [ExceptT.run_bind, hwhy]
      cases why' <;> rfl
    constructor
    · exact fun h => .inl (hbind.unique h ▸ hwhy)
    · rintro (h | ⟨a, ha, _⟩)
      · exact hwhy.unique h ▸ hbind
      · exact absurd hwhy ha.not_stopsBy

/-- A list of computations comes to the values that each comes to. -/
theorem comesTo_mapM_iff {f : α → ExceptT ε (Except Fault) β} {l : List α} {bs : List β} :
    ComesTo (l.mapM f) bs ↔ List.Forall₂ (fun a b => ComesTo (f a) b) l bs := by
  induction l generalizing bs with
  | nil =>
    rw [List.mapM_nil, comesTo_pure_iff, List.forall₂_nil_left_iff]
    exact eq_comm
  | cons a l ih =>
    rw [List.mapM_cons, comesTo_bind_iff, List.forall₂_cons_left_iff]
    simp only [comesTo_bind_iff, ih, comesTo_pure_iff]
    constructor
    · rintro ⟨b, hb, bs, hbs, rfl⟩
      exact ⟨b, bs, hb, hbs, rfl⟩
    · rintro ⟨b, bs, hb, hbs, rfl⟩
      exact ⟨b, hb, bs, hbs, rfl⟩

/-- A list of computations comes to values when each of them does. -/
theorem exists_comesTo_mapM_iff {f : α → ExceptT ε (Except Fault) β} {l : List α} :
    (∃ bs, ComesTo (l.mapM f) bs) ↔ ∀ a ∈ l, ∃ b, ComesTo (f a) b := by
  simp only [comesTo_mapM_iff]
  induction l with
  | nil => simp
  | cons a l ih =>
    rw [List.forall_mem_cons, ← ih]
    simp only [List.forall₂_cons_left_iff]
    constructor
    · rintro ⟨_, b, bs, hb, hbs, rfl⟩
      exact ⟨⟨b, hb⟩, bs, hbs⟩
    · rintro ⟨⟨b, hb⟩, bs, hbs⟩
      exact ⟨b :: bs, b, bs, hb, hbs, rfl⟩

/-- A list of computations stops where the first of them does. -/
theorem stopsBy_mapM_iff {f : α → ExceptT ε (Except Fault) β} {l : List α} :
    StopsBy (l.mapM f) why ↔ ∃ before a after, l = before ++ a :: after ∧
      (∀ x ∈ before, ∃ b, ComesTo (f x) b) ∧ StopsBy (f a) why := by
  induction l with
  | nil => simp
  | cons a l ih =>
    rw [List.mapM_cons, stopsBy_bind_iff]
    simp only [stopsBy_bind_iff, ih, not_stopsBy_pure, and_false, exists_false, or_false]
    constructor
    · rintro (h | ⟨b, hb, before, a', after, rfl, hbefore, h⟩)
      · exact ⟨[], a, l, rfl, by simp, h⟩
      · exact ⟨a :: before, a', after, rfl, List.forall_mem_cons.mpr ⟨⟨b, hb⟩, hbefore⟩, h⟩
    · rintro ⟨before, a', after, heq, hbefore, h⟩
      cases before with
      | nil =>
        obtain ⟨rfl, rfl⟩ := List.cons.inj heq
        exact .inl h
      | cons a'' before =>
        obtain ⟨rfl, rfl⟩ := List.cons.inj heq
        obtain ⟨⟨b, hb⟩, hbefore⟩ := List.forall_mem_cons.mp hbefore
        exact .inr ⟨b, hb, before, a', after, rfl, hbefore, h⟩

end

theorem bind_apply {σ : Type} (x : StateM σ α) (f : α → StateM σ β) (e : σ) :
    (x >>= f) e = f (x e).1 (x e).2 := rfl

end RegionPricing
