import RegionPricing.Proofs.Factor.Layers
import RegionPricing.Proofs.Pricing.HiddenFees
import RegionPricing.Proofs.Pricing.Positions

/-!
# Services that remember what they were asked

`recording` adds to any services a memory of the requests for hidden fees, one list for each call.
It is added beside their own state and changes nothing else: a computation with it comes to what
the same computation comes to without it, and leaves behind the same tiers, services and store
(`Projects`, with one rule for each step of a computation, up to `hiddenFeesVia_projects`). So
what the memory says of a run is true of the run without it.

`answersTo_records` says what the calls for quotes add to the memory: the batches, in the order
in which they are sent.
-/

namespace RegionPricing.Pricing

open RegionPricing.Factor RegionPricing.Market

/-- A call beside which something else is kept. -/
def beside {σ τ α : Type} (call : Call σ α) : Call (σ × τ) α :=
  fun c => ((call c.1).1, ((call c.1).2, c.2))

/-- The requests for hidden fees, call by call. -/
abbrev Memory := List (List HiddenFeeRequest)

/-- Services that remember for which hidden fees they were asked. -/
def recording {σ : Type} (services : Services σ) : Services (σ × Memory) where
  shops keys := beside (services.shops keys)
  items keys := beside (services.items keys)
  channels keys := beside (services.channels keys)
  commissions keys := beside (services.commissions keys)
  hiddenFees rs := fun c =>
    ((services.hiddenFees rs c.1).1, ((services.hiddenFees rs c.1).2, c.2 ++ [rs]))
  shippingFees rs := beside (services.shippingFees rs)
  locationFees rs := beside (services.locationFees rs)

/-- The setup with services that remember their requests. -/
def Setup.recording {σ : Type} (s : Setup σ) : Setup (σ × Memory) :=
  ⟨Pricing.recording s.services, s.quoteBatch, s.maxBatch⟩

/-! ## Computations without the memory -/

section

variable {σ τ α β : Type} {f : σ → τ}

/-- A computation comes to the same on a part of the state as on the whole. -/
def Projects (f : σ → τ) (whole : StateM σ α) (part : StateM τ α) : Prop :=
  ∀ c, part (f c) = ((whole c).1, f (whole c).2)

namespace Projects

theorem pure (a : α) : Projects f (Pure.pure a) (Pure.pure a) := fun _ => rfl

theorem bind {x : StateM σ α} {y : StateM τ α} {g : α → StateM σ β} {h : α → StateM τ β}
    (hx : Projects f x y) (hg : ∀ a, Projects f (g a) (h a)) :
    Projects f (x >>= g) (y >>= h) := by
  intro c
  rw [bind_apply, bind_apply, hx c]
  exact hg _ _

theorem ite {p : Prop} [Decidable p] {x x' : StateM σ α} {y y' : StateM τ α}
    (h : Projects f x y) (h' : Projects f x' y') :
    Projects f (if p then x else x') (if p then y else y') := by
  split
  · exact h
  · exact h'

theorem mapM {g : α → StateM σ β} {h : α → StateM τ β} (hg : ∀ a, Projects f (g a) (h a))
    (l : List α) : Projects f (l.mapM g) (l.mapM h) := by
  induction l with
  | nil => exact pure []
  | cons a r ih =>
    rw [List.mapM_cons, List.mapM_cons]
    exact (hg a).bind fun b => ih.bind fun bs => pure (b :: bs)

end Projects

theorem projects_beside (call : Call σ α) :
    Projects Prod.fst (beside call : Call (σ × τ) α) call := fun _ => rfl

theorem projects_quoteInChunks {ρ μ : Type} {kind : Failure.Kind}
    {call : List ρ → Call σ (List Quote)} {call' : List ρ → Call τ (List Quote)}
    (h : ∀ rs, Projects f (call rs) (call' rs)) (size : ℕ) (pending : List (μ × ρ)) :
    Projects f (quoteInChunks size kind call pending) (quoteInChunks size kind call' pending) :=
  (Projects.mapM (fun _ => (h _).bind fun _ => .pure _) _).bind fun _ => .pure _

end

section

variable {σ α κ ν : Type}

/-- The environment without what the services remember. -/
def forgetting (e : Env (Backing (σ × Memory))) : Env (Backing σ) :=
  ⟨e.now, e.tiers, ⟨e.behind.market.1, e.behind.store⟩⟩

/-- The environment with something that the services remember. -/
def remembering (memory : Memory) (e : Env (Backing σ)) : Env (Backing (σ × Memory)) :=
  ⟨e.now, e.tiers, ⟨(e.behind.market, memory), e.behind.store⟩⟩

theorem projects_ask {call : StateM (σ × Memory) α} {call' : StateM σ α}
    (h : Projects Prod.fst call call') :
    Projects forgetting (ask call : Session (σ × Memory) α) (ask call') := by
  intro e
  have hcall : call' (forgetting e).behind.market = _ := h e.behind.market
  unfold ask Env.direct onMarket
  rw [hcall]
  rfl

theorem projects_readTier (level : ℕ) (texts : List String) :
    Projects (forgetting (σ := σ)) (Env.readTier level texts) (Env.readTier level texts) := by
  intro e
  unfold Env.readTier
  rw [show (forgetting e).tiers = e.tiers from rfl]
  split <;> rfl

theorem projects_enqueue (level : ℕ) (items : List (String × String)) :
    Projects (forgetting (σ := σ)) (Env.enqueue level items) (Env.enqueue level items) :=
  fun _ => rfl

variable [DecidableEq κ] [KeyText κ]

theorem projects_fromService (what : String) (call : List κ → Call σ (KeyMap κ ν))
    (keys : List κ) :
    Projects forgetting ((fromService what fun keys => beside (call keys)).fetch keys)
      ((fromService what call).fetch keys) := by
  intro e
  unfold fromService Source.behind Env.direct
  rcases hr : call keys e.behind.market.1 with ⟨_ | found, market⟩ <;>
    simp only [bind_apply, onMarket, forgetting, beside, hr] <;> rfl

theorem projects_cached {inner : Source (Backing (σ × Memory)) κ ν}
    {inner' : Source (Backing σ) κ ν}
    (h : ∀ keys, Projects forgetting (inner.fetch keys) (inner'.fetch keys)) (s : Space ν)
    (level : ℕ) (keys : List κ) :
    Projects forgetting ((Source.cached s level inner).fetch keys)
      ((Source.cached s level inner').fetch keys) := by
  refine (projects_readTier level _).bind fun found => .ite (.pure _) ?_
  exact (h _).bind fun fetched => (projects_enqueue level _).bind fun _ => .pure _

theorem projects_layered {inner : Source (Backing (σ × Memory)) κ ν}
    {inner' : Source (Backing σ) κ ν}
    (h : ∀ keys, Projects forgetting (inner.fetch keys) (inner'.fetch keys)) (s : Space ν) :
    ∀ (n level : ℕ) (keys : List κ),
      Projects forgetting ((Source.layered s inner level n).fetch keys)
        ((Source.layered s inner' level n).fetch keys) := by
  intro n
  induction n with
  | zero => exact fun _ => h
  | succ n ih => exact fun level => projects_cached (ih (level + 1)) s level

/-- Hidden fees are the same whether the services remember their requests or not. -/
theorem hiddenFeesVia_projects (s : Setup σ)
    {shops : Source (Backing (σ × Memory)) Id Shop} {shops' : Source (Backing σ) Id Shop}
    {items : Source (Backing (σ × Memory)) Id Item} {items' : Source (Backing σ) Id Item}
    (hshops : ∀ keys, Projects forgetting (shops.fetch keys) (shops'.fetch keys))
    (hitems : ∀ keys, Projects forgetting (items.fetch keys) (items'.fetch keys))
    (keys : List HiddenFeeKey) :
    Projects forgetting (s.recording.hiddenFeesVia shops items keys)
      (s.hiddenFeesVia shops' items' keys) := by
  refine (hshops _).bind fun shops => (hitems _).bind fun items => ?_
  refine (projects_ask (projects_beside (s.services.channels _))).bind fun channels => ?_
  have hcall : ∀ rs, Projects Prod.fst (s.recording.services.hiddenFees rs)
      (s.services.hiddenFees rs) := fun _ _ => rfl
  exact (projects_ask (projects_quoteInChunks hcall _ _)).bind fun quotes => .pure _

end

/-! ## What is remembered -/

section

variable {σ ρ μ : Type}

/-- A call that adds its requests to what is remembered. -/
def Records (call : List ρ → Call (σ × List (List ρ)) (List Quote)) : Prop :=
  ∀ rs c, (call rs c).2.2 = c.2 ++ [rs]

/-- The batches are remembered as they are sent. -/
theorem answersTo_records {call : List ρ → Call (σ × List (List ρ)) (List Quote)}
    (h : Records call) (batches : List (List (μ × ρ))) (c : σ × List (List ρ)) :
    (answersTo call batches c).2.2 = c.2 ++ batches.map fun batch => batch.map Prod.snd := by
  induction batches generalizing c with
  | nil => exact (List.append_nil _).symm
  | cons batch batches ih =>
    have hrest : (answersTo call (batch :: batches) c).2
        = (answersTo call batches (call (batch.map Prod.snd) c).2).2 := by
      unfold answersTo
      rw [List.mapM_cons]
      rfl
    rw [hrest, ih, h, List.append_assoc]
    rfl

end

end RegionPricing.Pricing
