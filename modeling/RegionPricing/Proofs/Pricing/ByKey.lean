import RegionPricing.Proofs.Factor.ByKey
import RegionPricing.Proofs.Pricing.Answering

/-!
# Sources, key by key

Services answer each key for itself when what they say of a key does not depend on the keys
asked with it or before (`Keywise`), and so for requests (`Requestwise`). Then each source
gives each key an outcome of its own (`GivesEach`): a service and the store directly, hidden
fees by the shop, the item, the channels and the quote of the article, whatever stacks of
tiers its shops and items come from. `sources_answer_key_by_key` puts this together for all
sources, plain and behind any tiers.

A service that is asked by a source without tiers is the one case in which repeats matter:
`fromService_repeated` says what becomes of them.
-/

namespace RegionPricing.Pricing

open RegionPricing.Cache RegionPricing.Factor RegionPricing.Market

variable {σ : Type}

/-! ## Services that answer each key for itself -/

/-- A call that leaves the services in states of a kind, and says the same of a key in all of
them, whatever other keys it is made for. -/
structure Keywise {κ ν : Type} [DecidableEq κ] (I : σ → Prop)
    (call : List κ → Call σ (KeyMap κ ν)) : Prop where
  keeps : ∀ keys c, I c → I (call keys c).2
  same : ∀ keys keys' c c' k, I c → I c' → k ∈ keys → k ∈ keys' →
    ((call keys c).1.map fun found => found.get? k)
      = (call keys' c').1.map fun found => found.get? k

/-- A call for quotes that leaves the services in states of a kind, answers with a quote for
each request, and quotes a request the same in all of them, whatever other requests it is made
for. -/
structure Requestwise {ρ : Type} (I : σ → Prop) (call : List ρ → Call σ (List Quote)) :
    Prop where
  keeps : ∀ rs c, I c → I (call rs c).2
  counts : ∀ rs c quotes, I c → (call rs c).1 = .ok quotes → quotes.length = rs.length
  same : ∀ (rs rs' : List ρ) (c c' : σ) (i j : ℕ) (r : ρ), I c → I c' → rs[i]? = some r →
    rs'[j]? = some r → ((call rs c).1.map fun quotes => quotes[i]?)
      = (call rs' c').1.map fun quotes => quotes[j]?

/-- Services whose answers, as far as the sources ask them, are told by the key. -/
structure Independent (I : σ → Prop) (services : Services σ) : Prop where
  shops : Keywise I services.shops
  items : Keywise I services.items
  channels : Keywise I services.channels
  commissions : Keywise I services.commissions
  hiddenFees : Requestwise I services.hiddenFees

/-- Services in a state of a kind, and a certain store. -/
structure Backed (I : σ → Prop) (store : Store) (b : Backing σ) : Prop where
  market : I b.market
  store : b.store = store

section

variable {I : σ → Prop} {store : Store} {e₀ : Env (Backing σ)} {c₀ : σ}

/-- What holds of a call in all states of a kind holds of it behind the tiers. -/
theorem keeps_ask {α : Type} {call : StateM σ α} {good : α → Prop}
    (h : ∀ c, I c → I (call c).2 ∧ good (call c).1) :
    Keeps (Alike (Backed I store) e₀) (Pricing.ask call) good := by
  intro e he
  obtain ⟨hkept, hgood⟩ := h e.behind.market he.behind.market
  exact ⟨⟨he.now, he.length, he.sees, hkept, he.behind.store⟩, hgood⟩

theorem keeps_ask_of_gives {α : Type} {call : StateM σ α} {a : α} (h : GivesUnder I call a) :
    Keeps (Alike (Backed I store) e₀) (Pricing.ask call) fun a' => a' = a :=
  keeps_ask h

/-! ## Sources behind services and the store -/

variable {κ ν : Type} [DecidableEq κ] [KeyText κ]

/-- The outcome of a key by what a service says of it. -/
def saidOf (what : String) (key : κ) : Except ServiceError (Option ν) → Outcome ν
  | .ok (some v) => .ok v
  | .ok none => .error (Answers.notFound what key)
  | .error e => .error e.toFailure

/-- The answers to keys by the answer of a service. -/
def saidOfAll (what : String) (keys : List κ) : Except ServiceError (KeyMap κ ν) → Answers κ ν
  | .ok found => .complete what keys found
  | .error e => .allFail keys e.toFailure

theorem fromService_fetch (what : String) (call : List κ → Call σ (KeyMap κ ν)) (keys : List κ)
    (e : Env (Backing σ)) :
    (fromService what call).fetch keys e = (saidOfAll what keys (call keys e.behind.market).1,
      { e with behind := { e.behind with market := (call keys e.behind.market).2 } }) := by
  unfold fromService Source.behind Env.direct
  rcases hr : call keys e.behind.market with ⟨_ | found, market⟩ <;>
    simp only [bind_apply, onMarket, hr] <;> rfl

/-- A key that stands once in the list gets what the service says of it. One that stands there
again is missing, whatever was found: only the failure of the whole call is still told. -/
theorem get?_saidOfAll (what : String) (keys : List κ)
    (answer : Except ServiceError (KeyMap κ ν)) (k : κ) :
    (saidOfAll what keys answer).get? k =
      if k ∈ keys then
        some (saidOf what k (answer.map fun found =>
          if keys.count k = 1 then found.get? k else none))
      else none := by
  cases answer with
  | error f => exact Answers.get?_ofKeys keys _ k
  | ok found =>
    show (Answers.complete what keys found).get? k = _
    rw [Answers.get?_complete]
    by_cases hone : keys.count k = 1
    · simp only [if_pos hone, Except.map, Answers.ofFound]
      cases found.get? k <;> rfl
    · simp only [if_neg hone]
      rfl

theorem get?_saidOfAll_of_once {what : String} {keys : List κ} {k : κ}
    (hk : k ∈ keys → Once keys k) (answer : Except ServiceError (KeyMap κ ν)) :
    (saidOfAll what keys answer).get? k =
      if k ∈ keys then some (saidOf what k (answer.map fun found => found.get? k)) else none := by
  rw [get?_saidOfAll]
  by_cases hmem : k ∈ keys
  · have hone : keys.count k = 1 := hk hmem
    simp only [if_pos hone]
  · rw [if_neg hmem, if_neg hmem]

theorem fromService_givesEach {what : String} {call : List κ → Call σ (KeyMap κ ν)}
    (h : Keywise I call) (hc : I c₀) :
    (fromService what call).GivesEach (Alike (Backed I store) e₀) Once
      fun k => saidOf what k ((call [k] c₀).1.map fun found => found.get? k) := by
  intro keys e he
  rw [fromService_fetch]
  refine ⟨⟨he.now, he.length, he.sees, h.keeps keys _ he.behind.market, he.behind.store⟩,
    fun k hk => ?_⟩
  dsimp only
  rw [get?_saidOfAll_of_once hk]
  by_cases hmem : k ∈ keys
  · rw [h.same keys [k] _ c₀ k he.behind.market hc hmem List.mem_cons_self]
  · rw [if_neg hmem, if_neg hmem]

theorem fromService_regular {what : String} {call : List κ → Call σ (KeyMap κ ν)}
    (h : Keywise I call) {e : Env (Backing σ)} (he : I e.behind.market) :
    (fromService what call).Regular e Once :=
  have hgives : (fromService what call).GivesEach (Alike (Backed I e.behind.store) e) Once _ :=
    fromService_givesEach h he
  { plain := hgives.keyByKey (.refl ⟨he, rfl⟩) (fun _ hkeys _ hk => once_of_nodup hkeys hk)
      fun keys k => by
        rw [fromService_fetch]
        dsimp only
        rw [get?_saidOfAll]
        by_cases hk : k ∈ keys <;> simp [hk]
    cached := hgives.behind ⟨he, rfl⟩ }

/-- A key that is asked for again is missing, whatever the service knows; where the call fails,
the key fails with it. -/
theorem fromService_repeated (what : String) (call : List κ → Call σ (KeyMap κ ν))
    (e : Env (Backing σ)) {keys : List κ} {k : κ} (hk : 2 ≤ keys.count k) :
    ((fromService what call).fetch keys e).1.get? k
      = some (saidOf what k ((call keys e.behind.market).1.map fun _ => none)) := by
  have hmem : k ∈ keys := List.count_pos_iff.mp (by omega)
  rw [fromService_fetch]
  dsimp only
  have hagain : keys.count k ≠ 1 := by omega
  rw [get?_saidOfAll, if_pos hmem]
  simp only [if_neg hagain]

omit [KeyText κ] in
/-- The store answers each key for itself, whatever is repeated. -/
theorem fromStore_givesEach {ρ : Type} (read : Store → κ → Outcome (Option ρ)) (value : ρ → ν)
    (missing : κ → String) :
    (fromStore read value missing).GivesEach (Alike (Backed I store) e₀) (fun _ _ => True)
      (fromStored read value missing store) := by
  intro keys e he
  refine ⟨⟨he.now, he.length, he.sees, he.behind⟩, fun k _ => ?_⟩
  show (Answers.ofKeys keys (fromStored read value missing e.behind.store)).get? k = _
  rw [he.behind.store]
  exact Answers.get?_ofKeys keys _ k

theorem fromStore_regular {ρ : Type} (read : Store → κ → Outcome (Option ρ)) (value : ρ → ν)
    (missing : κ → String) (e : Env (Backing σ)) :
    (fromStore read value missing).Regular e fun _ _ => True :=
  (fromStore_givesEach (I := fun _ => True) read value missing).regular ⟨trivial, rfl⟩

end

/-! ## Quotes -/

section

variable {I : σ → Prop} {ρ μ : Type} {kind : Failure.Kind} {call : List ρ → Call σ (List Quote)}

/-- The outcome of a request by what logistics says of it. -/
def quotedAs (kind : Failure.Kind) : Except ServiceError (Option Quote) → Outcome Decimal
  | .ok (some q) => quoted kind q
  | .ok none => .error (miscount 0 1)
  | .error e => .error ⟨kind, e.message⟩

/-- Each request gets the outcome that it has alone. -/
theorem itemwise_of_requestwise (h : Requestwise I call) {c₀ : σ} (hc₀ : I c₀) :
    ItemwiseUnder I kind call fun r =>
      quotedAs kind ((call [r] c₀).1.map fun quotes => quotes[0]?) := by
  intro rs c hc
  refine ⟨h.keeps rs c hc, List.ext_getElem? fun i => ?_⟩
  rw [List.getElem?_map]
  cases hr : rs[i]? with
  | none =>
    rw [List.getElem?_eq_none_iff] at hr
    exact List.getElem?_eq_none ((length_outcomes rs.length _).trans_le hr)
  | some r =>
    have hi : i < rs.length := (List.getElem?_eq_some_iff.mp hr).1
    rw [Option.map_some, ← h.same rs [r] c c₀ i 0 r hc hc₀ hr rfl]
    cases hanswer : (call rs c).1 with
    | error e =>
      show (List.replicate rs.length _)[i]? = _
      rw [List.getElem?_replicate, if_pos hi]
      rfl
    | ok quotes =>
      have hlength := h.counts rs c quotes hc hanswer
      show (if quotes.length = rs.length then quotes.map (quoted kind) else _)[i]? =
        some (quotedAs kind (.ok quotes[i]?))
      rw [if_pos hlength, List.getElem?_map, List.getElem?_eq_getElem (hlength ▸ hi)]
      rfl

end

/-! ## Hidden fees -/

section

variable {I : σ → Prop} {store : Store} {e₀ : Env (Backing σ)} {c₀ : σ} {s : Setup σ}
  {shop : Id → Outcome Shop} {item : Id → Outcome Item}

/-- The bucket of an article by the outcomes of its shop and its item, and by what is said of
its channels alone. -/
def bucketOfOne (s : Setup σ) (c₀ : σ) (shop : Id → Outcome Shop) (item : Id → Outcome Item)
    (key : HiddenFeeKey) : Bucket :=
  bucketOf (.ofKeys [key.shopId] shop) (.ofKeys [key.itemId] item)
    (enabledChannels (s.services.channels [key.shopItem] c₀).1) key

/-- The hidden fee of an article, whose request is quoted alone. -/
def feeOfOne (s : Setup σ) (c₀ : σ) (shop : Id → Outcome Shop) (item : Id → Outcome Item)
    (key : HiddenFeeKey) : Outcome Decimal :=
  (bucketOfOne s c₀ shop item key).settled fun r =>
    quotedAs .calculateHiddenFee ((s.services.hiddenFees [r] c₀).1.map fun quotes => quotes[0]?)

theorem sameChannels_of_same {answer answer' : Except ServiceError (KeyMap ShopItem (List Channel))}
    {key : ShopItem} (h : (answer.map fun found => found.get? key)
      = answer'.map fun found => found.get? key) :
    SameChannels (enabledChannels answer) (enabledChannels answer') key := by
  unfold SameChannels
  rcases answer with f | found <;> rcases answer' with f' | found' <;>
    simp only [Except.map, Except.error.injEq, Except.ok.injEq, reduceCtorEq] at h
  · rw [h]
  · exact congrArg Except.ok h

/-- Whatever articles are asked for together, each gets the fee that it has alone. -/
theorem hiddenFeesVia_keeps {shops : Source (Backing σ) Id Shop}
    {items : Source (Backing σ) Id Item}
    (hshops : shops.GivesEach (Alike (Backed I store) e₀) Once shop)
    (hitems : items.GivesEach (Alike (Backed I store) e₀) Once item)
    (h : Independent I s.services) (hc : I c₀) (keys : List HiddenFeeKey) :
    Keeps (Alike (Backed I store) e₀) (s.hiddenFeesVia shops items keys) fun fees =>
      fees = keys.map (feeOfOne s c₀ shop item) := by
  refine (hshops.of_nodup (Answers.nodup_eraseDups _)).bind fun shops hshops => ?_
  refine (hitems.of_nodup (Answers.nodup_eraseDups _)).bind fun items hitems => ?_
  have hask : Keeps (Alike (Backed I store) e₀)
      (ask (s.services.channels (keys.map HiddenFeeKey.shopItem).eraseDups)) fun answer =>
        ∀ key ∈ keys, SameChannels (enabledChannels answer)
          (enabledChannels (s.services.channels [key.shopItem] c₀).1) key.shopItem :=
    keeps_ask fun c hcI => ⟨h.channels.keeps _ c hcI, fun key hkey => sameChannels_of_same
      (h.channels.same _ _ c c₀ _ hcI hc (mem_eraseDups_map _ hkey) List.mem_cons_self)⟩
  refine hask.bind fun answer hchannels => ?_
  -- The bucket of each article is the one that it has on its own.
  have halone : ∀ key ∈ keys,
      bucketOf shops items (enabledChannels answer) key = bucketOfOne s c₀ shop item key :=
    fun key hkey => bucketOf_gathered hshops hitems hkey (hchannels key hkey)
  simp only [zipIdx_map_eq_placed _ _ halone]
  have hquote : ItemwiseUnder I .calculateHiddenFee s.services.hiddenFees _ :=
    itemwise_of_requestwise h.hiddenFees hc
  refine (keeps_ask_of_gives (quoteInChunks_givesUnder hquote _ _)).bind fun quotes hquotes => ?_
  rw [hquotes, inOrder_fees _ fun r => quotedAs .calculateHiddenFee
    ((s.services.hiddenFees [r] c₀).1.map fun quotes => quotes[0]?)]
  exact .pure rfl

theorem hiddenFeesFrom_givesEach {shops : Source (Backing σ) Id Shop}
    {items : Source (Backing σ) Id Item}
    (hshops : shops.GivesEach (Alike (Backed I store) e₀) Once shop)
    (hitems : items.GivesEach (Alike (Backed I store) e₀) Once item)
    (h : Independent I s.services) (hc : I c₀) :
    (s.hiddenFeesFrom shops items).GivesEach (Alike (Backed I store) e₀) (fun _ _ => True)
      (feeOfOne s c₀ shop item) := by
  intro keys
  refine (hiddenFeesVia_keeps hshops hitems h hc keys.eraseDups).bind fun fees hfees => ?_
  rw [hfees, ← List.map_prod_left_eq_zip]
  refine .pure fun k _ => ?_
  rw [KeyMap.get?_ofList_map]
  simp only [List.mem_eraseDups]

end

/-! ## All sources -/

/-- Every source answers key by key, with the caches and without: in one state of the
services, the store and the tiers exactly the keys asked for have an outcome, each the one
that it has alone, and repeats do not matter. Behind tiers, that outcome is the readable value
of the nearest one, and where none has any, what the source gives without them. Only a service
that is asked without tiers misses the keys that it is asked for again, and no other key. -/
theorem sources_answer_key_by_key (s : Setup σ) {I : σ → Prop} (h : Independent I s.services)
    {e : Env (Backing σ)} (he : I e.behind.market) :
    (s.rawShops.Regular e Once ∧ s.rawItems.Regular e Once ∧ s.rawCommissions.Regular e Once) ∧
      (∀ keys k, 2 ≤ keys.count k →
        (s.rawShops.fetch keys e).1.get? k
          = some (saidOf "shop" k ((s.services.shops keys e.behind.market).1.map fun _ => none)) ∧
        (s.rawItems.fetch keys e).1.get? k
          = some (saidOf "item" k ((s.services.items keys e.behind.market).1.map fun _ => none)) ∧
        (s.rawCommissions.fetch keys e).1.get? k
          = some (saidOf "commission rates for shop" k
            ((s.services.commissions keys e.behind.market).1.map fun _ => none))) ∧
      ((rawExchangeRates : Source (Backing σ) _ _).Regular e (fun _ _ => True) ∧
        (rawProfitRates : Source (Backing σ) _ _).Regular e (fun _ _ => True) ∧
        (rawProfitRateLimits : Source (Backing σ) _ _).Regular e fun _ _ => True) ∧
      (s.hiddenFeesFrom s.shops s.items).Regular e (fun _ _ => True) ∧
      ∀ (shopSpace : Space Shop) (itemSpace : Space Item) (i j m n : ℕ),
        (s.hiddenFeesFrom (.layered shopSpace s.rawShops i m)
          (.layered itemSpace s.rawItems j n)).Regular e fun _ _ => True := by
  have hbacked : Backed I e.behind.store e.behind := ⟨he, rfl⟩
  have hshops : s.rawShops.GivesEach (Alike (Backed I e.behind.store) e) Once _ :=
    fromService_givesEach h.shops he
  have hitems : s.rawItems.GivesEach (Alike (Backed I e.behind.store) e) Once _ :=
    fromService_givesEach h.items he
  refine ⟨⟨fromService_regular h.shops he, fromService_regular h.items he,
      fromService_regular h.commissions he⟩, fun keys k hk => ?_,
    ⟨fromStore_regular _ _ _ e, fromStore_regular _ _ _ e, fromStore_regular _ _ _ e⟩,
    ?_, fun shopSpace itemSpace i j m n => ?_⟩
  · exact ⟨fromService_repeated _ _ e hk, fromService_repeated _ _ e hk,
      fromService_repeated _ _ e hk⟩
  · exact (hiddenFeesFrom_givesEach hshops.through hitems.through h he).regular hbacked
  · exact (hiddenFeesFrom_givesEach (hshops.layered m i) (hitems.layered n j) h he).regular
      hbacked

/-! ## Scripted services -/

theorem keywise_of_pick {κ ν : Type} [DecidableEq κ] {call : List κ → Call σ (KeyMap κ ν)}
    {m : KeyMap κ ν} (h : ∀ keys c, (call keys c).1 = .ok (pick m keys)) :
    Keywise (fun _ => True) call where
  keeps _ _ _ := trivial
  same keys keys' c c' k _ _ hk hk' := by
    rw [h, h]
    show Except.ok ((pick m keys).get? k) = Except.ok ((pick m keys').get? k)
    rw [get?_pick m hk, get?_pick m hk']

section

variable {κ ν : Type} [DecidableEq κ] [KeyText κ] {I : σ → Prop} {store : Store}
  {e₀ : Env (Backing σ)}

/-- A service that picks the asked keys from a map gives each what is there. -/
theorem fromService_givesFound {what : String} {call : List κ → Call σ (KeyMap κ ν)}
    {m : KeyMap κ ν} (hkeeps : ∀ keys c, I c → I (call keys c).2)
    (h : ∀ keys c, (call keys c).1 = .ok (pick m keys)) :
    (fromService what call).GivesEach (Alike (Backed I store) e₀) Once (found what m) := by
  intro keys e he
  rw [fromService_fetch]
  refine ⟨⟨he.now, he.length, he.sees, hkeeps keys _ he.behind.market, he.behind.store⟩,
    fun k hk => ?_⟩
  dsimp only
  rw [h, get?_saidOfAll_of_once hk]
  by_cases hmem : k ∈ keys
  · rw [if_pos hmem, if_pos hmem]
    show some (saidOf what k (.ok ((pick m keys).get? k))) = _
    rw [get?_pick m hmem, found]
    cases m.get? k <;> rfl
  · rw [if_neg hmem, if_neg hmem]

end

/-- Services that follow a script answer each key for itself. -/
theorem independent_script (world : Script) : Independent (fun _ => True) world.services where
  shops := keywise_of_pick fun _ _ => rfl
  items := keywise_of_pick fun _ _ => rfl
  channels :=
    { keeps := fun _ _ _ => trivial
      same := by
        intro keys keys' c c' k _ _ hk hk'
        show (channelAnswer world keys).map _ = (channelAnswer world keys').map _
        unfold channelAnswer
        split
        · rfl
        · show Except.ok ((pick _ keys).get? k) = Except.ok ((pick _ keys').get? k)
          rw [get?_pick _ hk, get?_pick _ hk'] }
  commissions := keywise_of_pick fun _ _ => rfl
  hiddenFees :=
    { keeps := fun _ _ _ => trivial
      counts := by
        intro rs c quotes _ hquotes
        have hanswer : world.logistics (rs.map world.hiddenFee) = .ok quotes := hquotes
        unfold Script.logistics at hanswer
        split at hanswer
        · cases hanswer
        · rw [← Except.ok.inj hanswer, List.length_map]
      same := by
        intro rs rs' c c' i j r _ _ hr hr'
        show (world.logistics (rs.map world.hiddenFee)).map _
          = (world.logistics (rs'.map world.hiddenFee)).map _
        unfold Script.logistics
        split
        · rfl
        · show Except.ok (rs.map world.hiddenFee)[i]? = Except.ok (rs'.map world.hiddenFee)[j]?
          rw [List.getElem?_map, List.getElem?_map, hr, hr'] }

/-- One shop, behind services that know nothing else. -/
def oneShop : Setup Calls :=
  scripted { (default : Script) with shops := .ofList [(50, .plain 50 (.ofText "MY"))] } 10 10

/-- A corridor with a stored rate, which a tier in front has looked up and still has when the
stored rate is changed. -/
def rateChanged : Env (Backing Calls) :=
  let corridor : Corridor := ⟨.ofText "CN", .ofText "MY"⟩
  let stored (raw : Int64) : Store :=
    { Store.empty with exchangeRates := .ofList [(corridor, raw)] }
  let before : Env (Backing Calls) := ⟨0, [.inMemory 100 60000 .asWritten], ⟨.none, stored 60000⟩⟩
  let looked := (exchangeRates.fetch [corridor] before).2.settle
  { looked with behind := ⟨looked.behind.market, stored 70000⟩ }

/-- The tier still gives the rate that it has looked up. -/
theorem sources_answer_key_by_key_oneShop :
    Independent (fun _ => True) oneShop.services ∧
      oneShop.rawShops.Regular rateChanged Once ∧
      (oneShop.rawShops.fetch [50, 51, 51] rateChanged).1.get? 50
        = (oneShop.rawShops.fetch [50] rateChanged).1.get? 50 ∧
      (rawExchangeRates : Source (Backing Calls) _ _).Regular rateChanged (fun _ _ => True) ∧
      (exchangeRates.fetch [⟨.ofText "CN", .ofText "MY"⟩] rateChanged).1.get?
          ⟨.ofText "CN", .ofText "MY"⟩ = some (.ok (FixedPoint.rateOfRaw 60000)) ∧
      (oneShop.hiddenFeesFrom oneShop.shops oneShop.items).Regular rateChanged fun _ _ => True := by
  have hindependent : Independent (fun _ => True) oneShop.services := independent_script _
  obtain ⟨⟨hshops, -, -⟩, -, ⟨hrates, -, -⟩, hfees, -⟩ :=
    sources_answer_key_by_key oneShop hindependent (e := rateChanged) trivial
  refine ⟨hindependent, hshops, ?_, hrates, ?_, hfees⟩
  · exact hshops.plain.alone [50, 51, 51] 50 (by decide) rfl
  · decide +kernel

/-- A shop that a source is asked for twice is missing, although the service knows it and the
source finds it when it is asked for it once. -/
theorem repeated_shop_missing :
    Independent (fun _ => True) oneShop.services ∧
      (oneShop.rawShops.fetch [50] rateChanged).1.get? 50
        = some (.ok (.plain 50 (.ofText "MY"))) ∧
      (oneShop.rawShops.fetch [50, 50] rateChanged).1.get? 50
        = some (.error ⟨.notFound, "shop 50"⟩) := by
  refine ⟨independent_script _, ?_, ?_⟩
  · decide +kernel
  · decide +kernel

end RegionPricing.Pricing
