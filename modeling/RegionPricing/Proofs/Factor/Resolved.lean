import Mathlib.Data.List.Basic
import RegionPricing.Proofs.Evaluation
import RegionPricing.Proofs.Factor.Answers

/-!
# Lookups that were provided for

A lookup in answers fails with words of its own when its key is not among the keys that were
asked for (`lookup_of_none`). Such a failure is the engine's own fault, so it is told apart
from all others here: `Failure.IsUnresolved` recognizes it, an outcome `IsResolved` when it
is no such failure, and a key is `Answered` when it has a resolved outcome. A lookup of an
answered key is resolved, and so is all that is made of resolved outcomes.
-/

namespace RegionPricing

open RegionPricing.Factor

/-! ## The failure of a key that was not asked for -/

/-- Whether the failure says of a key that it was not resolved. -/
def Failure.IsUnresolved (f : Failure) : Prop :=
  f.kind = .internal ∧ " was not resolved".toList <:+ f.detail.toList

/-- Looking up a key that is not there is what fails so. -/
theorem Factor.Answers.lookup_of_none {κ ν : Type} [DecidableEq κ] [KeyText κ] (what : String)
    {answers : Answers κ ν} {k : κ} (h : answers.get? k = none) :
    ∃ f, answers.lookup what k = .error f ∧ f.IsUnresolved := by
  refine ⟨_, by rw [Answers.lookup, h, Option.getD_none], rfl, ?_⟩
  rw [String.toList_append]
  exact List.suffix_append _ _

theorem Failure.not_isUnresolved_of_kind {kind : Failure.Kind} {detail : String}
    (h : kind ≠ .internal) : ¬(⟨kind, detail⟩ : Failure).IsUnresolved :=
  fun hf => h hf.1

/-- A detail with other words at its end. -/
theorem Failure.not_isUnresolved_of_end {kind : Failure.Kind} {detail ending : String}
    {c : Char} (hc : ending.toList.getLast? = some c) (hne : c ≠ 'd') :
    ¬(⟨kind, detail ++ ending⟩ : Failure).IsUnresolved := by
  rintro ⟨_, front, hsuffix⟩
  have hlast := congrArg List.getLast? hsuffix
  rw [String.toList_append, List.getLast?_append, List.getLast?_append, hc] at hlast
  have hd : " was not resolved".toList.getLast? = some 'd' := by decide +kernel
  rw [hd] at hlast
  exact hne (Option.some.inj hlast).symm

/-! ## Outcomes -/

section

variable {α β : Type}

/-- An outcome that is not the failure of a key that was not asked for. -/
def IsResolved (o : Outcome α) : Prop := ∀ f, o = .error f → ¬f.IsUnresolved

theorem resolved_ok (a : α) : IsResolved (.ok a : Outcome α) := fun _ h => by cases h

theorem resolved_error {f : Failure} (h : ¬f.IsUnresolved) : IsResolved (.error f : Outcome α) :=
  fun _ hf => Except.error.inj hf ▸ h

theorem resolved_of_kind {kind : Failure.Kind} {detail : String} (h : kind ≠ .internal) :
    IsResolved (.error ⟨kind, detail⟩ : Outcome α) :=
  resolved_error (Failure.not_isUnresolved_of_kind h)

theorem IsResolved.bind {o : Outcome α} {f : α → Outcome β} (ho : IsResolved o)
    (hf : ∀ a, o = .ok a → IsResolved (f a)) : IsResolved (o >>= f) := by
  cases o with
  | error e => exact resolved_error (ho e rfl)
  | ok a => exact hf a rfl

theorem IsResolved.map {o : Outcome α} (f : α → β) (ho : IsResolved o) : IsResolved (o.map f) := by
  cases o with
  | error e => exact resolved_error (ho e rfl)
  | ok a => exact resolved_ok (f a)

/-- A key with a resolved outcome. -/
def Answered (o : Option (Outcome α)) : Prop := ∃ outcome, o = some outcome ∧ IsResolved outcome

section

variable {κ : Type} [DecidableEq κ]

theorem Answered.lookup [KeyText κ] {answers : Answers κ α} {k : κ} (h : Answered (answers.get? k))
    (what : String) : IsResolved (answers.lookup what k) := by
  obtain ⟨outcome, hget, hresolved⟩ := h
  rw [Answers.lookup_of_get? hget]
  exact hresolved

theorem answered_ofKeys {keys : List κ} {outcome : κ → Outcome α} {k : κ} (hk : k ∈ keys)
    (h : IsResolved (outcome k)) : Answered ((Answers.ofKeys keys outcome).get? k) :=
  ⟨outcome k, by rw [Answers.get?_ofKeys, if_pos hk], h⟩

theorem answered_ofList {l : List (κ × Outcome α)} (h : ∀ e ∈ l, IsResolved e.2) {k : κ}
    (hk : k ∈ l.map Prod.fst) : Answered ((KeyMap.ofList l).get? k) := by
  obtain ⟨e, he, rfl⟩ := List.mem_map.mp hk
  have hne : (l.filter fun e' => e'.1 = e.1) ≠ [] :=
    List.ne_nil_of_mem (List.mem_filter.mpr ⟨he, by simp⟩)
  have hlast := List.getLast_mem hne
  refine ⟨_, ?_, h _ (List.mem_filter.mp hlast).1⟩
  rw [KeyMap.get?_ofList, List.getLast?_eq_some_getLast hne, Option.map_some]

theorem answered_ofList_zip {keys : List κ} {outcomes : List (Outcome α)}
    (hlength : outcomes.length = keys.length) (h : ∀ o ∈ outcomes, IsResolved o) {k : κ}
    (hk : k ∈ keys) : Answered ((KeyMap.ofList (keys.zip outcomes)).get? k) := by
  refine answered_ofList (fun e he => h _ (List.of_mem_zip he).2) ?_
  rw [List.map_fst_zip (by omega)]
  exact hk

end

/-! ## Evaluations -/

/-- An evaluation that does not come to the failure of a key that was not asked for. -/
def Resolves (x : Evaluation α) : Prop := ∀ f, x.run = .ok (.error f) → ¬f.IsUnresolved

theorem resolves_pure (a : α) : Resolves (pure a : Evaluation α) := fun _ h => by cases h

theorem resolves_ofExcept_iff {o : Outcome α} :
    Resolves (ofExcept o : Evaluation α) ↔ IsResolved o := by
  cases o with
  | error e =>
    refine ⟨fun h => resolved_error (h e rfl), fun h f hf => ?_⟩
    cases hf
    exact h e rfl
  | ok a => exact ⟨fun _ => resolved_ok a, fun _ => resolves_pure a⟩

theorem resolves_throw {f : Failure} (h : ¬f.IsUnresolved) : Resolves (throw f : Evaluation α) :=
  resolves_ofExcept_iff.mpr (resolved_error h)

theorem resolves_liftM (x : Except Fault α) : Resolves (liftM x : Evaluation α) := by
  intro f h
  cases x <;> cases h

theorem Resolves.ofExcept_bind {o : Outcome α} {f : α → Evaluation β} (ho : IsResolved o)
    (hf : ∀ a, o = .ok a → Resolves (f a)) : Resolves (ofExcept o >>= f) := by
  cases o with
  | error e =>
    rw [ofExcept_error_bind]
    exact resolves_ofExcept_iff.mpr (resolved_error (ho e rfl))
  | ok a => exact hf a rfl

theorem Resolves.liftM_bind {x : Except Fault α} {f : α → Evaluation β}
    (hf : ∀ a, x = .ok a → Resolves (f a)) : Resolves (liftM x >>= f) := by
  cases x with
  | error e =>
    intro f h
    cases h
  | ok a => exact hf a rfl

end

/-! ## Computations on a state -/

section

variable {σ α β : Type}

/-- A computation whose answers are good wherever it starts. -/
def Ensures (x : StateM σ α) (good : α → Prop) : Prop := ∀ s, good (x s).1

namespace Ensures

variable {x : StateM σ α} {good : α → Prop}

theorem pure {a : α} (h : good a) : Ensures (pure a : StateM σ α) good := fun _ => h

theorem bind {f : α → StateM σ β} {good' : β → Prop} (hx : Ensures x good)
    (hf : ∀ a, good a → Ensures (f a) good') : Ensures (x >>= f) good' :=
  fun s => hf _ (hx s) _

theorem mono {good' : α → Prop} (hx : Ensures x good) (h : ∀ a, good a → good' a) :
    Ensures x good' :=
  fun s => h _ (hx s)

theorem trivial (x : StateM σ α) : Ensures x fun _ => True := fun _ => True.intro

/-- What each step ensures, all steps ensure of each step. -/
theorem mapM {f : α → StateM σ β} {good : α → β → Prop} {l : List α}
    (hf : ∀ a, Ensures (f a) (good a)) : Ensures (l.mapM f) (List.Forall₂ good l) := by
  induction l with
  | nil => exact .pure .nil
  | cons a r ih =>
    rw [List.mapM_cons]
    exact (hf a).bind fun b hb => ih.bind fun bs hbs => .pure (.cons hb hbs)

end Ensures

end

end RegionPricing
