import RegionPricing.Proofs.Factor.Carrying

/-!
# Lookups that overlap with an update

An update writes behind the tiers and then deletes what it has written from one tier after
the other. A lookup that is under way meanwhile can bring an old value back, in two ways: it
has read the old value before the update wrote, and writes it into the tiers after the
update has deleted there; or it finds the old value in a far tier and copies it into a near
one, where the update has deleted already.

Neither happens when no lookup holds an old value of the key and none is queued at the time
the update begins to delete (`Quiet`), and, if there is more than one tier, no lookup asks
the tiers for the key until the update has ended: `refreshed_of_quiet`. All other lookups may
overlap with anything. The invariant has three phases: while the update writes, the value
behind the tiers becomes the new one (`Writing`); while it deletes, an old entry of the key
can only be in a tier where its deletion is still to come (`Deleting`); and in the end every
entry has the new value, and so does every answer to a later lookup (`Refreshed`).
-/

namespace RegionPricing.Factor

open RegionPricing.Cache

/-- Reading finds what was written, and what was not written as it was. -/
structure Behind.Lawful {ω κ ν : Type} (b : Behind ω κ ν) : Prop where
  written : ∀ {k v x x'}, b.write k v x = .ok x' → b.read x' k = .ok v
  other : ∀ {k v x x'}, b.write k v x = .ok x' → ∀ k', k' ≠ k → b.read x' k' = b.read x k'

namespace Traffic

variable {ω κ ν : Type} [KeyText κ] {s : Space ν} {b : Behind ω κ ν}

/-! ## One operation of an update -/

/-- One operation of an update. -/
inductive Updates (s : Space ν) (b : Behind ω κ ν) :
    Update κ ν → Env ω → Update κ ν → Env ω → Prop where
  | write {k v entries written e behind} (h : b.write k v e.behind = .ok behind) :
      Updates s b (.writing ((k, v) :: entries) written) e (.writing entries (written ++ [k]))
        { e with behind }
  | refuse {k v entries written e f} (h : b.write k v e.behind = .error f) :
      Updates s b (.writing ((k, v) :: entries) written) e (.writing entries written) e
  | turn {written e} :
      Updates s b (.writing [] written) e (.deleting (deletions e.tiers.length written)) e
  | delete {level k rest e} :
      Updates s b (.deleting ((level, k) :: rest)) e (.deleting rest)
        (Env.deleteFrom level [s.tierKey k] e).2

theorem updates_of_step {u u' : Update κ ν} {e e' : Env ω}
    (h : updateStep s b u e = some (u', e')) : Updates s b u e u' e' := by
  cases u with
  | writing entries written =>
    cases entries with
    | nil =>
      cases h
      exact .turn
    | cons entry entries =>
      obtain ⟨k, v⟩ := entry
      cases hwrite : b.write k v e.behind with
      | ok behind =>
        simp only [updateStep, hwrite, Option.some.injEq, Prod.mk.injEq] at h
        obtain ⟨rfl, rfl⟩ := h
        exact .write hwrite
      | error f =>
        simp only [updateStep, hwrite, Option.some.injEq, Prod.mk.injEq] at h
        obtain ⟨rfl, rfl⟩ := h
        exact .refuse hwrite
  | deleting rest =>
    cases rest with
    | nil => cases h
    | cons d rest =>
      cases h
      exact .delete

theorem Updates.carries {u u' : Update κ ν} {e e' : Env ω} {P Q : ℕ → String → String → Prop}
    (h : Updates s b u e u' e') (he : e.Carries P Q) : e'.Carries P Q := by
  cases h with
  | write => exact he
  | refuse => exact he
  | turn => exact he
  | delete => exact (he.deleteFrom _ _).mono (fun _ _ _ hp => hp.1) fun _ _ _ hq => hq

/-- Whether the deletion of a key from the tier at a level is still to come, when everything
has been written. -/
def Awaits (k : κ) (level : ℕ) : Update κ ν → Prop
  | .writing entries written => entries = [] ∧ k ∈ written
  | .deleting rest => (level, k) ∈ rest

/-- An update that has written everything. -/
def HasWritten : Update κ ν → Prop
  | .writing entries _ => entries = []
  | .deleting _ => True

theorem mem_deletions {κ : Type} {levels level : ℕ} {keys : List κ} {k : κ}
    (hlevel : level < levels) (hk : k ∈ keys) :
    (level, k) ∈ deletions levels keys :=
  List.mem_flatMap.mpr ⟨level, List.mem_range.mpr hlevel, List.mem_map_of_mem hk⟩

/-- An entry that has a value, if it is under a key. -/
def Has (s : Space ν) (k : κ) (v : ν) (key text : String) : Prop :=
  key = s.tierKey k → text = s.encode v

instance (k : κ) (v : ν) (key text : String) : Decidable (Has s k v key text) :=
  inferInstanceAs (Decidable (_ → _))

/-- What may be written in the tier at a level while an update deletes: any value of the key
where its deletion is still to come, and the new one. -/
def Pending (s : Space ν) (k : κ) (v : ν) (u : Update κ ν) (level : ℕ) (key text : String) : Prop :=
  key = s.tierKey k → Awaits k level u ∨ text = s.encode v

theorem Updates.pending {k : κ} {v : ν} {u u' : Update κ ν} {e e' : Env ω}
    {Q : ℕ → String → String → Prop} (h : Updates s b u e u' e') (hu : HasWritten u)
    (he : e.Carries (Pending s k v u) Q) :
    HasWritten u' ∧ e'.behind = e.behind ∧ e'.Carries (Pending s k v u') Q := by
  cases h with
  | write => cases hu
  | refuse => cases hu
  | turn =>
    refine ⟨trivial, rfl, fun i tier ht => ?_⟩
    have hlevel := (List.getElem?_eq_some_iff.mp ht).1
    exact (he i tier ht).mono
      (fun key _ hp heq => (hp heq).imp_left fun hawaits => mem_deletions hlevel hawaits.2)
      fun _ _ hq => hq
  | @delete level k' rest =>
    refine ⟨trivial, rfl, (he.deleteFrom level [s.tierKey k']).mono (fun i key text hp heq => ?_)
      fun _ _ _ hq => hq⟩
    rcases hp.1 heq with hawaits | hnew
    · rcases List.mem_cons.mp hawaits with hfirst | hrest
      · -- this very deletion
        obtain ⟨rfl, rfl⟩ := Prod.mk.inj hfirst
        exact absurd (heq ▸ List.mem_cons_self) (hp.2 rfl)
      · exact .inl hrest
    · exact .inr hnew

theorem Updates.length {u u' : Update κ ν} {e e' : Env ω} (h : Updates s b u e u' e') :
    e'.tiers.length = e.tiers.length := by
  cases h with
  | write => rfl
  | refuse => rfl
  | turn => rfl
  | delete => exact List.length_modify _ _ _

/-! ## The way back of a lookup -/

variable {k : κ} {v : ν} {asked asked' known known' : Prop} {passed : List (Passed κ)}

theorem mem_of_mem_missed {p : Passed κ} (h : k ∈ missed s p) : k ∈ p.keys :=
  (List.mem_filter.mp h).1

theorem mem_toWrite {keys : List κ} {outcome : κ → Outcome ν} {item : String × String}
    (h : item ∈ Source.toWrite s keys outcome) :
    ∃ k ∈ keys, ∃ v, outcome k = .ok v ∧ item = (s.tierKey k, s.encode v) := by
  obtain ⟨k, hk, hsome⟩ := List.mem_filterMap.mp h
  cases ho : outcome k with
  | error f =>
    rw [ho] at hsome
    cases hsome
  | ok v =>
    rw [ho] at hsome
    exact ⟨k, hk, v, ho, (Option.some.inj hsome).symm⟩

/-- The way back of a lookup for a key, the farthest tier first. Each tier that missed the
key gets its value: from the next tier that was asked, or from what is `known` already. So
does the caller, if the key was `asked` for at all. -/
def Trail (s : Space ν) (k : κ) (v : ν) (asked : Prop) : List (Passed κ) → Prop → Prop
  | [], known => asked → known
  | p :: passed, known =>
    (k ∈ missed s p → known) ∧
      Trail s k v asked passed (k ∈ p.keys ∧ ∀ v' ∈ Source.hit? s p.found k, v' = v)

instance decidableTrail [DecidableEq κ] [DecidableEq ν] (asked : Prop) [Decidable asked] :
    (passed : List (Passed κ)) → (known : Prop) → [Decidable known] →
      Decidable (Trail s k v asked passed known)
  | [], _, _ => inferInstanceAs (Decidable (_ → _))
  | _ :: passed, _, _ =>
    have := decidableTrail asked passed
    inferInstanceAs (Decidable (_ ∧ _))

theorem Trail.mono (h : Trail s k v asked passed known) (hasked : asked' → asked)
    (hknown : known → known') : Trail s k v asked' passed known' := by
  induction passed generalizing known known' with
  | nil => exact fun ha => hknown (h (hasked ha))
  | cons p passed ih => exact ⟨fun hk => hknown (h.1 hk), ih h.2 id⟩

variable [DecidableEq κ] {l l' : Lookup κ ν} {e e' : Env ω}

/-! ## What an event does -/

/-- One operation of a lookup. -/
inductive Looks (s : Space ν) (b : Behind ω κ ν) :
    Lookup κ ν → Env ω → Lookup κ ν → Env ω → Prop where
  | tier {passed keys e} (hlevel : passed.length < e.tiers.length) :
      Looks s b (.descending passed keys) e
        (afterTier s passed
          ⟨keys.eraseDups, (Env.readTier passed.length (keys.eraseDups.map s.tierKey) e).1⟩)
        (Env.readTier passed.length (keys.eraseDups.map s.tierKey) e).2
  | past {passed keys e} (hlevel : e.tiers.length ≤ passed.length) :
      Looks s b (.descending passed keys) e (.reading passed keys .empty) e
  | read {passed k keys answers e} :
      Looks s b (.reading passed (k :: keys) answers) e
        (.reading passed keys (answers.put k (b.read e.behind k))) e
  | turn {passed answers e} :
      Looks s b (.reading passed [] answers) e (.returning passed answers) e
  | back {p passed answers e} :
      Looks s b (.returning (p :: passed) answers) e
        (.returning passed (.ofKeys p.keys (Source.merged s p.found answers)))
        (Env.enqueue passed.length
          (Source.toWrite s (missed s p) (Source.merged s p.found answers)) e).2

/-- One event. -/
inductive Moves (s : Space ν) (b : Behind ω κ ν) (t : Traffic ω κ ν) :
    Event κ ν → Traffic ω κ ν → Prop where
  | ask (keys) : Moves s b t (.ask keys) { t with lookups := t.lookups ++ [.descending [] keys] }
  | look {n l l' env} (hl : t.lookups[n]? = some l) (h : Looks s b l t.env l' env) :
      Moves s b t (.look n) { t with env, lookups := t.lookups.set n l' }
  | change (entries) :
      Moves s b t (.change entries) { t with updates := t.updates ++ [.writing entries []] }
  | proceed {n u u' env} (hu : t.updates[n]? = some u) (h : Updates s b u t.env u' env) :
      Moves s b t (.proceed n) { t with env, updates := t.updates.set n u' }
  | land {level n env} (h : landed t.env level n = some env) :
      Moves s b t (.land level n) { t with env }
  | wait (millis) : Moves s b t (.wait millis) { t with env := t.env.advance millis }

theorem looks_of_step {l l' : Lookup κ ν} {e e' : Env ω}
    (h : lookupStep s b l e = some (l', e')) : Looks s b l e l' e' := by
  cases l with
  | descending passed keys =>
    by_cases hlevel : passed.length < e.tiers.length
    · simp only [lookupStep, if_pos hlevel] at h
      cases h
      exact .tier hlevel
    · simp only [lookupStep, if_neg hlevel, Option.some.injEq, Prod.mk.injEq] at h
      obtain ⟨rfl, rfl⟩ := h
      exact .past (Nat.le_of_not_lt hlevel)
  | reading passed keys answers =>
    cases keys with
    | nil =>
      cases h
      exact .turn
    | cons k keys =>
      cases h
      exact .read
  | returning passed answers =>
    cases passed with
    | nil => cases h
    | cons p passed =>
      cases h
      exact .back

theorem moves_of_step {t t' : Traffic ω κ ν} {event : Event κ ν}
    (h : step s b t event = some t') : Moves s b t event t' := by
  cases event with
  | ask keys =>
    cases h
    exact .ask keys
  | look n =>
    obtain ⟨l, hl, hrest⟩ := Option.bind_eq_some_iff.mp h
    obtain ⟨⟨l', env⟩, hstep, heq⟩ := Option.bind_eq_some_iff.mp hrest
    cases heq
    exact .look hl (looks_of_step hstep)
  | change entries =>
    cases h
    exact .change entries
  | proceed n =>
    obtain ⟨u, hu, hrest⟩ := Option.bind_eq_some_iff.mp h
    obtain ⟨⟨u', env⟩, hstep, heq⟩ := Option.bind_eq_some_iff.mp hrest
    cases heq
    exact .proceed hu (updates_of_step hstep)
  | land level n =>
    obtain ⟨env, henv, rfl⟩ := Option.map_eq_some_iff.mp h
    exact .land henv
  | wait millis =>
    cases h
    exact .wait millis

/-- What each event of some kind keeps, a run of such events keeps. -/
theorem run_keeps {I : Traffic ω κ ν → Prop} (allowed : Event κ ν → Prop)
    (hmove : ∀ {t event t'}, allowed event → I t → Moves s b t event t' → I t')
    {es : List (Event κ ν)} (hes : ∀ event ∈ es, allowed event) {t t' : Traffic ω κ ν} (h : I t)
    (hrun : run s b t es = some t') : I t' := by
  induction es generalizing t with
  | nil =>
    cases hrun
    exact h
  | cons event es ih =>
    obtain ⟨t1, hstep, hrest⟩ := Option.bind_eq_some_iff.mp hrun
    refine ih (fun event' hmem => hes event' (List.mem_cons_of_mem event hmem)) ?_ hrest
    exact hmove (hes event List.mem_cons_self) h (moves_of_step hstep)

/-! ## Lookups on their way -/

/-- A lookup that goes on to ask the tiers for a key. -/
def Asks (k : κ) : Lookup κ ν → Prop
  | .descending _ keys => k ∈ keys
  | .reading _ _ _ => False
  | .returning _ _ => False

instance : Decidable (Asks k l) :=
  match l with
  | .descending _ keys => inferInstanceAs (Decidable (k ∈ keys))
  | .reading _ _ _ => .isFalse id
  | .returning _ _ => .isFalse id

theorem Looks.asks (h : Looks s b l e l' e') (hl : Asks k l') : Asks k l := by
  cases h with
  | @tier passed keys _ hlevel =>
    unfold afterTier at hl
    split at hl
    · exact hl.elim
    · exact List.mem_eraseDups.mp (mem_of_mem_missed hl)
  | past => exact hl.elim
  | read => exact hl.elim
  | turn => exact hl.elim
  | back => exact hl.elim

theorem Looks.length (h : Looks s b l e l' e') : e'.tiers.length = e.tiers.length := by
  cases h with
  | tier hlevel => exact Env.length_readTier _ _ e
  | past => rfl
  | read => rfl
  | turn => rfl
  | back => exact List.length_modify _ _ _

theorem Looks.behind (h : Looks s b l e l' e') : e'.behind = e.behind := by
  cases h with
  | tier hlevel => exact Env.behind_readTier _ _ e
  | past => rfl
  | read => rfl
  | turn => rfl
  | back => rfl

/-- An operation of a lookup keeps what the tiers carry, if what it may queue passes. -/
theorem Looks.carries {P Q : ℕ → String → String → Prop} (h : Looks s b l e l' e')
    (he : e.Carries P Q)
    (hback : ∀ {p passed answers}, l = .returning (p :: passed) answers → ∀ k' ∈ missed s p,
      ∀ v, Source.merged s p.found answers k' = .ok v →
        Q passed.length (s.tierKey k') (s.encode v)) : e'.Carries P Q := by
  cases h with
  | tier hlevel => exact he.readTier _ _
  | past => exact he
  | read => exact he
  | turn => exact he
  | back =>
    refine he.enqueue fun item hitem => ?_
    obtain ⟨k', hk', v, hv, rfl⟩ := mem_toWrite hitem
    exact hback rfl k' hk' v hv

/-! ## Lookups that give one value -/

/-- A lookup that gives a key no other value than one to the tiers, nor to the caller if the
key was `asked` for. -/
def Sees (s : Space ν) (k : κ) (v : ν) (asked : Prop) : Lookup κ ν → Prop
  | .descending passed keys => Trail s k v asked passed (k ∈ keys)
  | .reading passed keys answers =>
    Trail s k v asked passed (k ∈ keys ∨ answers.get? k = some (.ok v))
  | .returning passed answers => Trail s k v asked passed (answers.get? k = some (.ok v))

instance [DecidableEq ν] [Decidable asked] : Decidable (Sees s k v asked l) :=
  match l with
  | .descending _ _ => inferInstanceAs (Decidable (Trail _ _ _ _ _ _))
  | .reading _ _ _ => inferInstanceAs (Decidable (Trail _ _ _ _ _ _))
  | .returning _ _ => inferInstanceAs (Decidable (Trail _ _ _ _ _ _))

theorem Sees.mono (h : Sees s k v asked l) (hasked : asked' → asked) : Sees s k v asked' l := by
  cases l <;> exact Trail.mono h hasked id

/-- A tier that missed the key returns with the value. -/
theorem Trail.merged {p : Passed κ} {answers : Answers κ ν}
    (h : Trail s k v asked (p :: passed) (answers.get? k = some (.ok v))) (hk : k ∈ missed s p) :
    Source.merged s p.found answers k = .ok v := by
  rw [merged_of_miss (Option.isNone_iff_eq_none.mp (List.mem_filter.mp hk).2), h.1 hk,
    Option.getD_some]

/-- A lookup goes on to give the key only the value that is behind the tiers, if it finds no
other in a tier. What it finds in the first tier does not matter unless the caller asked. -/
theorem Looks.sees (h : Looks s b l e l' e') (hl : Sees s k v asked l)
    (hread : b.read e.behind k = .ok v)
    (hfound : ∀ {passed keys}, l = .descending passed keys → passed.length < e.tiers.length →
      k ∈ keys → (passed = [] ∧ ¬asked) ∨ ∀ v' ∈ Source.hit? s
        (Env.readTier passed.length (keys.eraseDups.map s.tierKey) e).1 k, v' = v) :
    Sees s k v asked l' := by
  cases h with
  | @tier passed keys _ hlevel =>
    have hrest : Trail s k v asked passed (k ∈ keys.eraseDups ∧ ∀ v' ∈ Source.hit? s
        (Env.readTier passed.length (keys.eraseDups.map s.tierKey) e).1 k, v' = v) := by
      by_cases hk : k ∈ keys
      · rcases hfound rfl hlevel hk with ⟨rfl, hnot⟩ | hhit
        · -- behind no tier, and for no caller
          exact fun ha => absurd ha hnot
        · exact Trail.mono hl id fun _ => ⟨List.mem_eraseDups.mpr hk, hhit⟩
      · exact Trail.mono hl id fun hmem => absurd hmem hk
    unfold afterTier
    split
    · rename_i hempty
      refine ⟨fun hmissed => ?_, hrest⟩
      rw [List.isEmpty_iff.mp hempty] at hmissed
      exact absurd hmissed List.not_mem_nil
    · exact ⟨id, hrest⟩
  | past => exact Trail.mono hl id Or.inl
  | @read passed k' keys answers =>
    refine Trail.mono hl id fun hknown => ?_
    by_cases hk : k' = k
    · subst hk
      exact .inr (by rw [KeyMap.get?_put, if_pos rfl, hread])
    · rw [KeyMap.get?_put, if_neg hk]
      exact hknown.imp_left fun hmem => (List.mem_cons.mp hmem).resolve_left fun heq => hk heq.symm
  | turn => exact Trail.mono hl id fun hknown => hknown.resolve_left List.not_mem_nil
  | @back p passed answers =>
    -- what the tier had is known to the next, or else what it has missed
    refine Trail.mono hl.2 id fun ⟨hk, hhit⟩ => ?_
    rw [Answers.get?_ofKeys, if_pos hk]
    cases hv : Source.hit? s p.found k with
    | some v' => rw [merged_of_hit hv, hhit v' hv]
    | none => rw [hl.merged (List.mem_filter.mpr ⟨hk, by rw [hv]; rfl⟩)]

/-- Such a lookup queues only this value under the key. -/
theorem Looks.has (hinj : Function.Injective fun k : κ => s.tierKey k)
    {P : ℕ → String → String → Prop} (h : Looks s b l e l' e') (hl : Sees s k v asked l)
    (he : e.Carries P fun _ => Has s k v) : e'.Carries P fun _ => Has s k v := by
  refine h.carries he ?_
  rintro p passed answers rfl k' hk' v' hv' heq
  obtain rfl : k' = k := hinj heq
  rw [Trail.merged hl hk'] at hv'
  rw [Except.ok.inj hv']

/-! ## The three phases -/

variable {t t' : Traffic ω κ ν} {event : Event κ ν} {entries : List (κ × ν)} {u u' : Update κ ν}

/-- Entries that are still to be written, and written keys that have a value of theirs. -/
def Honest (b : Behind ω κ ν) (entries : List (κ × ν)) (x : ω) : Update κ ν → Prop
  | .writing rest written => (∀ entry ∈ rest, entry ∈ entries) ∧
    ∀ k ∈ written, ∃ v, (k, v) ∈ entries ∧ b.read x k = .ok v
  | .deleting _ => True

theorem Updates.honest (h : Updates s b u e u' e') (hb : b.Lawful)
    (hu : Honest b entries e.behind u) : Honest b entries e'.behind u' := by
  cases h with
  | @write k v rest written _ behind hwrite =>
    refine ⟨fun entry hmem => hu.1 entry (List.mem_cons_of_mem _ hmem), fun k' hk' => ?_⟩
    -- a key that is written twice has the later value, which is one of the update too
    by_cases hk : k' = k
    · subst hk
      exact ⟨v, hu.1 _ List.mem_cons_self, hb.written hwrite⟩
    · have hold : k' ∈ written := by
        rcases List.mem_append.mp hk' with hold | hnew
        · exact hold
        · exact absurd (List.mem_singleton.mp hnew) hk
      obtain ⟨v', hmem, hread⟩ := hu.2 k' hold
      exact ⟨v', hmem, (hb.other hwrite k' hk).trans hread⟩
  | refuse => exact ⟨fun entry hmem => hu.1 entry (List.mem_cons_of_mem _ hmem), hu.2⟩
  | turn => trivial
  | delete => trivial

/-- An event that does not begin an update. -/
def NoChange : Event κ ν → Prop
  | .change _ => False
  | _ => True

instance : Decidable (NoChange event) :=
  match event with
  | .change _ => .isFalse id
  | .ask _ | .look _ | .proceed _ | .land _ _ | .wait _ => .isTrue trivial

/-- While the update writes. -/
structure Writing (b : Behind ω κ ν) (entries : List (κ × ν)) (t : Traffic ω κ ν) : Prop where
  update : ∃ u, t.updates = [u] ∧ Honest b entries t.env.behind u
  tiers : t.env.Carries (fun _ _ _ => True) fun _ _ _ => True

theorem eq_of_singleton_getElem? {α : Type} {a a' : α} {l : List α} {n : ℕ} (hl : l = [a])
    (h : l[n]? = some a') : n = 0 ∧ a' = a := by
  subst hl
  obtain ⟨hn, ha⟩ := List.getElem?_eq_some_iff.mp h
  have hzero : n = 0 := Nat.lt_one_iff.mp hn
  subst hzero
  exact ⟨rfl, ha.symm⟩

theorem Writing.move (hb : b.Lawful) (hevent : NoChange event) (h : Writing b entries t)
    (hmove : Moves s b t event t') : Writing b entries t' := by
  obtain ⟨u, hu, hhonest⟩ := h.update
  cases hmove with
  | ask keys => exact ⟨h.update, h.tiers⟩
  | look hl hlook =>
    refine ⟨⟨u, hu, ?_⟩, hlook.carries h.tiers fun _ _ _ _ _ => trivial⟩
    rw [hlook.behind]
    exact hhonest
  | change entries => exact hevent.elim
  | proceed hn hupdate =>
    obtain ⟨rfl, rfl⟩ := eq_of_singleton_getElem? hu hn
    exact ⟨⟨_, by rw [hu]; rfl, hupdate.honest hb hhonest⟩, hupdate.carries h.tiers⟩
  | land hland =>
    obtain ⟨tier, tier', _, _, rfl⟩ := Env.landed_eq_some hland
    exact ⟨h.update, h.tiers.landed (fun _ _ _ _ => trivial) hland⟩
  | wait millis => exact ⟨h.update, h.tiers⟩

/-- An event that does not begin a lookup of a key. -/
def NoAsk (k : κ) : Event κ ν → Prop
  | .ask keys => k ∉ keys
  | _ => True

instance : Decidable (NoAsk k event) :=
  match event with
  | .ask keys => inferInstanceAs (Decidable (k ∉ keys))
  | .look _ | .change _ | .proceed _ | .land _ _ | .wait _ => .isTrue trivial

/-- While the update deletes, an old entry of the key can only be where its deletion is still
to come. No lookup is about to queue one; with more than one tier, none asks for the key. -/
structure Deleting (s : Space ν) (b : Behind ω κ ν) (k : κ) (v : ν) (levels : ℕ)
    (t : Traffic ω κ ν) : Prop where
  update : ∃ u, t.updates = [u] ∧ HasWritten u ∧
    t.env.Carries (Pending s k v u) fun _ => Has s k v
  lookups : ∀ l ∈ t.lookups, Sees s k v False l
  levels_eq : t.env.tiers.length = levels
  apart : levels ≤ 1 ∨ ∀ l ∈ t.lookups, ¬Asks k l
  value : b.read t.env.behind k = .ok v

theorem Deleting.move {levels : ℕ} (hinj : Function.Injective fun k : κ => s.tierKey k)
    (hchange : NoChange event) (hask : levels ≤ 1 ∨ NoAsk k event) (h : Deleting s b k v levels t)
    (hmove : Moves s b t event t') : Deleting s b k v levels t' := by
  obtain ⟨u, hu, hwritten, hcarries⟩ := h.update
  cases hmove with
  | ask keys =>
    refine ⟨h.update, fun l hl => ?_, h.levels_eq, ?_, h.value⟩
    · rcases List.mem_append.mp hl with hold | hnew
      · exact h.lookups l hold
      · rw [List.mem_singleton.mp hnew]
        exact False.elim
    · rcases hask with hfew | hnoask
      · exact .inl hfew
      · refine h.apart.imp_right fun hnone l hl => ?_
        rcases List.mem_append.mp hl with hold | hnew
        · exact hnone l hold
        · rw [List.mem_singleton.mp hnew]
          exact hnoask
  | @look n l l' env hl hlook =>
    have hmem := List.mem_of_getElem? hl
    have hsees : Sees s k v False l' := hlook.sees (h.lookups l hmem) h.value (by
      rintro passed keys rfl hlevel hk
      rcases h.apart with hfew | hnone
      · -- the only tier is the first
        have hlength := h.levels_eq
        exact .inl ⟨List.eq_nil_of_length_eq_zero (by omega), id⟩
      · exact absurd hk (hnone _ hmem))
    refine ⟨⟨u, hu, hwritten, hlook.has hinj (h.lookups l hmem) hcarries⟩, fun l'' hl'' => ?_,
      hlook.length.trans h.levels_eq, h.apart.imp_right fun hnone l'' hl'' => ?_, ?_⟩
    · rcases List.mem_or_eq_of_mem_set hl'' with hold | rfl
      · exact h.lookups l'' hold
      · exact hsees
    · rcases List.mem_or_eq_of_mem_set hl'' with hold | rfl
      · exact hnone l'' hold
      · exact fun hasks => hnone l hmem (hlook.asks hasks)
    · show b.read env.behind k = .ok v
      rw [hlook.behind]
      exact h.value
  | change entries => exact hchange.elim
  | proceed hn hupdate =>
    obtain ⟨rfl, rfl⟩ := eq_of_singleton_getElem? hu hn
    obtain ⟨hwritten', hbehind, hcarries'⟩ := hupdate.pending hwritten hcarries
    refine ⟨⟨_, by rw [hu]; rfl, hwritten', hcarries'⟩, h.lookups,
      hupdate.length.trans h.levels_eq, h.apart, ?_⟩
    show b.read _ k = .ok v
    rw [hbehind]
    exact h.value
  | land hland =>
    obtain ⟨tier, tier', _, _, rfl⟩ := Env.landed_eq_some hland
    exact ⟨⟨u, hu, hwritten, hcarries.landed (fun _ _ _ hq heq => .inr (hq heq)) hland⟩, h.lookups,
      List.length_set.trans h.levels_eq, h.apart, h.value⟩
  | wait millis =>
    exact ⟨⟨u, hu, hwritten, hcarries⟩, h.lookups, h.levels_eq, h.apart, h.value⟩

/-- When the update has ended, every entry of the key has the new value, and every lookup
gives this value to the tiers and, if it was asked for the key since, to the caller. -/
structure Refreshed (s : Space ν) (b : Behind ω κ ν) (k : κ) (v : ν) (asked : ℕ → Prop)
    (t : Traffic ω κ ν) : Prop where
  ended : t.updates = [.deleting []]
  tiers : t.env.Carries (fun _ => Has s k v) fun _ => Has s k v
  lookups : ∀ (n : ℕ) (l : Lookup κ ν), t.lookups[n]? = some l → Sees s k v (asked n) l
  asked_lt : ∀ n, asked n → n < t.lookups.length
  value : b.read t.env.behind k = .ok v

theorem Deleting.refreshed {levels : ℕ} (h : Deleting s b k v levels t)
    (hended : t.updates = [.deleting []]) : Refreshed s b k v (fun _ => False) t := by
  obtain ⟨u, hu, _, hcarries⟩ := h.update
  rw [hended] at hu
  obtain rfl := (List.cons.inj hu).1
  -- no deletion is still to come, so what is under the key is new
  refine ⟨hended, hcarries.mono (fun i key text hp heq => ?_) fun _ _ _ hq => hq,
    fun n l hl => h.lookups l (List.mem_of_getElem? hl), fun n => False.elim, h.value⟩
  exact (hp heq).resolve_left List.not_mem_nil

theorem Refreshed.move {asked : ℕ → Prop} (hinj : Function.Injective fun k : κ => s.tierKey k)
    (hcodec : s.decode (s.encode v) = some v) (hchange : NoChange event)
    (h : Refreshed s b k v asked t) (hmove : Moves s b t event t') :
    Refreshed s b k v asked t' := by
  cases hmove with
  | ask keys =>
    refine ⟨h.ended, h.tiers, fun n l hl => ?_, fun n hn => ?_, h.value⟩
    · by_cases hlt : n < t.lookups.length
      · rw [List.getElem?_append_left hlt] at hl
        exact h.lookups n l hl
      · -- the new lookup, of whose answer nothing is claimed
        have hnot : ¬asked n := fun hasked => hlt (h.asked_lt n hasked)
        rw [List.getElem?_append_right (Nat.le_of_not_lt hlt)] at hl
        obtain ⟨_, rfl⟩ := eq_of_singleton_getElem? rfl hl
        exact fun hasked => absurd hasked hnot
    · have hlt := h.asked_lt n hn
      rw [List.length_append]
      omega
  | @look n l l' env hl hlook =>
    have hsees := h.lookups n l hl
    have hsees' : Sees s k v (asked n) l' := hlook.sees hsees h.value (by
      -- whatever a tier has under the key is the new value
      rintro passed keys rfl _ _
      refine .inr fun v' hv => ?_
      obtain ⟨raw, hraw, hdecode⟩ := Option.bind_eq_some_iff.mp hv
      obtain rfl : raw = s.encode v := h.tiers.found hraw rfl
      rw [hcodec] at hdecode
      exact (Option.some.inj hdecode).symm)
    refine ⟨h.ended, hlook.has hinj hsees h.tiers, fun m l'' hm => ?_, fun m hm => ?_, ?_⟩
    · by_cases hmn : n = m
      · subst hmn
        rw [List.getElem?_set_self (List.getElem?_eq_some_iff.mp hl).1] at hm
        obtain rfl := Option.some.inj hm
        exact hsees'
      · rw [List.getElem?_set_ne hmn] at hm
        exact h.lookups m l'' hm
    · rw [List.length_set]
      exact h.asked_lt m hm
    · show b.read env.behind k = .ok v
      rw [hlook.behind]
      exact h.value
  | change entries => exact hchange.elim
  | proceed hn hupdate =>
    obtain ⟨rfl, rfl⟩ := eq_of_singleton_getElem? h.ended hn
    cases hupdate
  | land hland =>
    obtain ⟨tier, tier', _, _, rfl⟩ := Env.landed_eq_some hland
    exact ⟨h.ended, h.tiers.landed (fun _ _ _ hq => hq) hland, h.lookups, h.asked_lt, h.value⟩
  | wait millis => exact ⟨h.ended, h.tiers, h.lookups, h.asked_lt, h.value⟩

/-- A lookup that begins now. -/
theorem Refreshed.ask (h : Refreshed s b k v (fun _ => False) t) {keys : List κ} (hk : k ∈ keys) :
    Refreshed s b k v (fun n => n = t.lookups.length)
      { t with lookups := t.lookups ++ [.descending [] keys] } := by
  refine ⟨h.ended, h.tiers, fun n l hl => ?_, fun n hn => ?_, h.value⟩
  · by_cases hlt : n < t.lookups.length
    · rw [List.getElem?_append_left hlt] at hl
      exact (h.lookups n l hl).mono fun heq => absurd heq (Nat.ne_of_lt hlt)
    · rw [List.getElem?_append_right (Nat.le_of_not_lt hlt)] at hl
      obtain ⟨_, rfl⟩ := eq_of_singleton_getElem? rfl hl
      exact fun _ => hk
  · rw [hn, List.length_append]
    exact Nat.lt_succ_self _

theorem Refreshed.answer {asked : ℕ → Prop} (h : Refreshed s b k v asked t) {n : ℕ} (hn : asked n)
    {answers : Answers κ ν} (hl : t.lookups[n]? = some (.returning [] answers)) :
    answers.get? k = some (.ok v) := h.lookups n _ hl hn

/-! ## Whole runs -/

/-- No lookup holds another value of a key than one for the tiers, and none is queued. -/
structure Quiet (s : Space ν) (k : κ) (v : ν) (t : Traffic ω κ ν) : Prop where
  lookups : ∀ l ∈ t.lookups, Sees s k v False l
  queued : ∀ tier ∈ t.env.tiers, ∀ items ∈ tier.queued, ∀ item ∈ items, Has s k v item.1 item.2

section

variable {t0 t1 t2 t3 : Traffic ω κ ν} {es es0 es1 es2 : List (Event κ ν)} {written : List κ}
  (hinj : Function.Injective fun k : κ => s.tierKey k)

theorem Writing.deleting (h : Writing b entries t) (hwritten : t.updates = [.writing [] written])
    (hk : k ∈ written) (hvalue : b.read t.env.behind k = .ok v) (hquiet : Quiet s k v t)
    (hapart : t.env.tiers.length ≤ 1 ∨ ∀ l ∈ t.lookups, ¬Asks k l) :
    (k, v) ∈ entries ∧ Deleting s b k v t.env.tiers.length t := by
  obtain ⟨u, hu, hhonest⟩ := h.update
  rw [hwritten] at hu
  obtain rfl := (List.cons.inj hu).1
  obtain ⟨v', hentry, hread⟩ := hhonest.2 k hk
  obtain rfl : v = v' := Except.ok.inj (hvalue.symm.trans hread)
  refine ⟨hentry, ⟨_, hwritten, rfl, fun i tier ht => ?_⟩, hquiet.lookups, rfl, hapart, hread⟩
  exact ⟨(h.tiers i tier ht).reliable, fun _ _ _ _ => .inl ⟨rfl, hk⟩,
    hquiet.queued tier (List.mem_of_getElem? ht)⟩

include hinj

/-- A key that was quiet when the update began to delete, and that with more than one tier was
not asked for until the update had ended, has the new value from then on. -/
theorem refreshed_of_quiet (hcodec : s.decode (s.encode v) = some v) (hb : b.Lawful)
    (hreliable : ∀ tier ∈ t0.env.tiers, tier.storage.Reliable)
    (hbegun : t0.updates = [.writing entries []]) (h0 : run s b t0 es0 = some t1)
    (hwritten : t1.updates = [.writing [] written]) (hk : k ∈ written)
    (hvalue : b.read t1.env.behind k = .ok v) (hquiet : Quiet s k v t1)
    (hapart : t1.env.tiers.length ≤ 1 ∨
      (∀ l ∈ t1.lookups, ¬Asks k l) ∧ ∀ event ∈ es1, NoAsk k event)
    (h1 : run s b t1 es1 = some t2) (hended : t2.updates = [.deleting []])
    (h2 : run s b t2 es2 = some t3) (hchange : ∀ event ∈ es0 ++ es1 ++ es2, NoChange event) :
    (k, v) ∈ entries ∧ Refreshed s b k v (fun _ => False) t3 := by
  have hstart : Writing b entries t0 :=
    ⟨⟨_, hbegun, fun _ hmem => hmem, fun _ hmem => absurd hmem List.not_mem_nil⟩,
      fun _ tier ht => ⟨hreliable tier (List.mem_of_getElem? ht), fun _ _ _ => trivial,
        fun _ _ _ _ => trivial⟩⟩
  have hwriting : Writing b entries t1 := run_keeps NoChange
    (fun hevent h hmove => h.move hb hevent hmove)
    (fun event hmem => hchange event (by simp [hmem])) hstart h0
  obtain ⟨hentry, hdeleting⟩ := hwriting.deleting hwritten hk hvalue hquiet
    (hapart.imp_right And.left)
  have hdeleted : Deleting s b k v t1.env.tiers.length t2 :=
    run_keeps (fun event => NoChange event ∧ (t1.env.tiers.length ≤ 1 ∨ NoAsk k event))
      (fun hevent h hmove => h.move hinj hevent.1 hevent.2 hmove)
      (fun event hmem => ⟨hchange event (by simp [hmem]),
        hapart.imp_right fun hnone => hnone.2 event hmem⟩) hdeleting h1
  exact ⟨hentry, run_keeps NoChange
    (fun hevent h hmove => h.move hinj hcodec hevent hmove)
    (fun event hmem => hchange event (by simp [hmem])) (hdeleted.refreshed hended) h2⟩

/-- A lookup that begins after the update has ended answers the key with the new value. -/
theorem Refreshed.later_answer (hcodec : s.decode (s.encode v) = some v)
    (h : Refreshed s b k v (fun _ => False) t) {keys : List κ} (hk : k ∈ keys)
    (hrun : run s b t (.ask keys :: es) = some t') (hchange : ∀ event ∈ es, NoChange event)
    {answers : Answers κ ν} (hl : t'.lookups[t.lookups.length]? = some (.returning [] answers)) :
    answers.get? k = some (.ok v) := by
  have hrun' : run s b { t with lookups := t.lookups ++ [.descending [] keys] } es = some t' := hrun
  have hlater := run_keeps NoChange
    (fun hevent h hmove => Refreshed.move hinj hcodec hevent h hmove) hchange (h.ask hk) hrun'
  exact hlater.answer rfl hl

end

end Traffic

end RegionPricing.Factor
