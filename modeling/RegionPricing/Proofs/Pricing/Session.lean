import RegionPricing.Proofs.Evaluation
import RegionPricing.Proofs.Factor.Answers
import RegionPricing.Market.Script
import RegionPricing.Pricing.Sources

/-!
# Lookups without cache tiers

Services that follow a script answer the same in every state, and without tiers
nothing is kept from one lookup for the next. So what a lookup comes to is told by the
store alone: `Yields x store a` says that `x` comes to `a` wherever there are no tiers
in front of the store, and leaves it so. The rules for `Yields` follow the steps of a
lookup; with them each source yields, for the keys that it is asked for, the outcomes
that it would give them one by one.
-/

namespace RegionPricing.Pricing

open RegionPricing.Factor RegionPricing.Market

/-! ## Calls -/

section

variable {σ α β : Type}

/-- A call that does not leave the states of a kind, and answers the same in all of them. -/
def GivesUnder (I : σ → Prop) (call : StateM σ α) (a : α) : Prop :=
  ∀ c, I c → I (call c).2 ∧ (call c).1 = a

namespace GivesUnder

variable {I : σ → Prop}

theorem pure (a : α) : GivesUnder I (pure a : StateM σ α) a := fun _ hc => ⟨hc, rfl⟩

theorem bind {x : StateM σ α} {f : α → StateM σ β} {a : α} {b : β} (hx : GivesUnder I x a)
    (hf : GivesUnder I (f a) b) : GivesUnder I (x >>= f) b := by
  intro c hc
  obtain ⟨hkept, ha⟩ := hx c hc
  rw [bind_apply, ha]
  exact hf _ hkept

theorem map {x : StateM σ α} {a : α} (f : α → β) (hx : GivesUnder I x a) :
    GivesUnder I (do return f (← x)) (f a) :=
  hx.bind (pure _)

theorem mapM {f : α → StateM σ β} {g : α → β} :
    ∀ {l : List α}, (∀ a ∈ l, GivesUnder I (f a) (g a)) → GivesUnder I (l.mapM f) (l.map g) := by
  intro l
  induction l with
  | nil => intro _; exact pure []
  | cons a r ih =>
    intro h
    rw [List.mapM_cons]
    have hr := ih fun b hb => h b (List.mem_cons_of_mem a hb)
    exact (h a List.mem_cons_self).bind (hr.map (List.cons (g a)))

end GivesUnder

/-- A call that answers the same in every state. -/
def Gives (call : StateM σ α) (a : α) : Prop := ∀ c, (call c).1 = a

theorem gives_iff_givesUnder {call : StateM σ α} {a : α} :
    Gives call a ↔ GivesUnder (fun _ => True) call a :=
  forall_congr' fun _ => ⟨fun h _ => ⟨True.intro, h⟩, fun h => (h True.intro).2⟩

namespace Gives

theorem pure (a : α) : Gives (pure a : StateM σ α) a := fun _ => rfl

theorem bind {x : StateM σ α} {f : α → StateM σ β} {a : α} {b : β} (hx : Gives x a)
    (hf : Gives (f a) b) : Gives (x >>= f) b := by
  intro c
  rw [bind_apply, hx c]
  exact hf _

theorem map {x : StateM σ α} {a : α} (f : α → β) (hx : Gives x a) :
    Gives (do return f (← x)) (f a) :=
  hx.bind (pure _)

end Gives

/-! ## Lookups -/

/-- A lookup that comes to a value wherever no tiers are in front of the store, and
leaves it so. -/
def Yields (x : Session σ α) (store : Store) (a : α) : Prop :=
  ∀ e : Env (Backing σ), e.tiers = [] → e.behind.store = store →
    (x e).1 = a ∧ (x e).2.tiers = [] ∧ (x e).2.behind.store = store

namespace Yields

variable {store : Store}

theorem pure (a : α) : Yields (pure a : Session σ α) store a := fun _ ht hs => ⟨rfl, ht, hs⟩

theorem bind {x : Session σ α} {f : α → Session σ β} {a : α} {b : β} (hx : Yields x store a)
    (hf : Yields (f a) store b) : Yields (x >>= f) store b := by
  intro e ht hs
  obtain ⟨ha, ht', hs'⟩ := hx e ht hs
  rw [bind_apply, ha]
  exact hf _ ht' hs'

theorem map {x : Session σ α} {a : α} (f : α → β) (hx : Yields x store a) :
    Yields (do return f (← x)) store (f a) :=
  hx.bind (pure _)

theorem ask {call : StateM σ α} {a : α} (h : Gives call a) :
    Yields (Pricing.ask call) store a :=
  fun e ht hs => ⟨h e.behind.market, ht, hs⟩

theorem reading (read : Store → α) :
    Yields (Pricing.reading read : Session σ α) store (read store) :=
  fun _ ht hs => ⟨congrArg read hs, ht, hs⟩

/-- Without tiers a source is asked as it is. -/
theorem through {κ ν : Type} [DecidableEq κ] [KeyText κ] {inner : Source (Backing σ) κ ν}
    {keys : List κ} {answers : Answers κ ν} (s : Space ν)
    (h : Yields (inner.fetch keys) store answers) :
    Yields ((Source.through s inner).fetch keys) store answers := by
  intro e ht hs
  have hl : (Source.through s inner).fetch keys e
      = (Source.layered s inner 0 e.tiers.length).fetch keys e := rfl
  rw [hl, ht]
  exact h e ht hs

end Yields

end

/-! ## Sources behind services -/

/-- What a script has under a key. -/
def found {κ ν : Type} [DecidableEq κ] [KeyText κ] (what : String) (m : KeyMap κ ν) (k : κ) :
    Outcome ν :=
  match m.get? k with
  | some v => .ok v
  | none => .error (Answers.notFound what k)

theorem get?_pick {κ ν : Type} [DecidableEq κ] (m : KeyMap κ ν) {keys : List κ} {k : κ}
    (hk : k ∈ keys) : (pick m keys).get? k = m.get? k := by
  rw [pick, KeyMap.get?_ofList_filterMap, if_pos hk]

section

variable {σ κ ν : Type} [DecidableEq κ] {store : Store} {keys : List κ}

/-- A service that picks the asked keys from a map. -/
theorem fromService_yields [KeyText κ] {what : String} {call : List κ → Call σ (KeyMap κ ν)}
    {m : KeyMap κ ν} (hkeys : keys.Nodup) (h : Gives (call keys) (.ok (pick m keys))) :
    Yields ((fromService what call).fetch keys) store (.ofKeys keys (found what m)) := by
  intro e ht hs
  -- The call may change the state of the services, but not its answer.
  rcases hr : call keys e.behind.market with ⟨answer, market⟩
  obtain rfl : answer = .ok (pick m keys) := by rw [← h e.behind.market, hr]
  have hf : (fromService what call).fetch keys e
      = (.complete what keys (pick m keys), { e with behind := { e.behind with market } }) := by
    simp only [fromService, Source.behind, Env.direct, bind_apply, onMarket, hr]
    rfl
  rw [hf, Answers.complete_of_nodup what hkeys]
  refine ⟨congrArg KeyMap.ofList (List.map_congr_left fun k hk => ?_), ht, hs⟩
  rw [Answers.ofFound, get?_pick m hk]
  rfl

/-- The store answers every key for itself. -/
theorem fromStore_yields {ρ : Type} (read : Store → κ → Outcome (Option ρ)) (value : ρ → ν)
    (missing : κ → String) (keys : List κ) :
    Yields ((fromStore read value missing : Source (Backing σ) κ ν).fetch keys) store
      (.ofKeys keys (fromStored read value missing store)) := by
  intro e ht hs
  refine ⟨?_, ht, hs⟩
  rw [← hs]
  rfl

end

end RegionPricing.Pricing
