import Mathlib.Algebra.Ring.Nat
import Mathlib.Data.List.Induction
import RegionPricing.Proofs.Factor.Layers

/-!
# How old an answer of the caches can be

A table behind cache tiers is looked up, changed and forgotten from while time passes.
`fetch_timely`: whatever happened, a lookup answers with the failure that the table has
now, or with a value that the table held at some moment since the key was forgotten
last, and unless that is now, less than all lifetimes of the tiers ago. The lifetimes
add up because a value that is found in a far tier starts a new lifetime in the nearer
ones (`Kept`, the invariant of all runs).
-/

namespace RegionPricing.Factor.Table

open RegionPricing.Cache

/-- What happens to a table with cache tiers in front. -/
inductive Event (κ ν : Type) where
  | fetch (keys : List κ)
  | forget (keys : List κ)
  | put (key : κ) (outcome : Outcome ν)
  | drop (key : κ)
  | wait (millis : ℕ)

/-- Whether an event changes the table. -/
def Event.changes {κ ν : Type} : Event κ ν → Bool
  | .fetch _ => false
  | .forget _ => false
  | .put _ _ => true
  | .drop _ => true
  | .wait _ => false

variable {κ ν : Type} [DecidableEq κ] [KeyText κ]

/-- The table and its tiers after an event. What a lookup queues is written before the
next event. -/
def step (s : Space ν) (e : Env (Table κ ν)) : Event κ ν → Env (Table κ ν)
  | .fetch keys => ((Source.through s source).fetch keys e).2.settle
  | .forget keys => ((Source.through s source).forget keys e).2.settle
  | .put key outcome => { e with behind := e.behind.put key outcome }
  | .drop key => { e with behind := e.behind.drop key }
  | .wait millis => e.advance millis

def run (s : Space ν) (e : Env (Table κ ν)) (es : List (Event κ ν)) : Env (Table κ ν) :=
  es.foldl (step s) e

theorem run_append (s : Space ν) (e : Env (Table κ ν)) (es : List (Event κ ν))
    (event : Event κ ν) : run s e (es ++ [event]) = step s (run s e es) event := by
  rw [run, List.foldl_append]
  rfl

/-- Whether the events leave a key in the tiers. -/
def Keeps (k : κ) (es : List (Event κ ν)) : Prop := ∀ keys, Event.forget keys ∈ es → k ∉ keys

/-- The table held a value for a key after some of the events, at a moment, and the key
was not forgotten since. -/
def Held (s : Space ν) (e : Env (Table κ ν)) (es : List (Event κ ν)) (k : κ) (v : ν)
    (moment : ℕ) : Prop :=
  ∃ past rest, es = past ++ rest ∧ Keeps k rest ∧
    (run s e past).behind.get? k = some (.ok v) ∧ (run s e past).now = moment

/-- An outcome that is not out of date: the failure that the table has now, or a value that
it held when the last of the events were still to come, which did not forget the key and
took less time than all lifetimes together. -/
def Timely (s : Space ν) (e : Env (Table κ ν)) (es : List (Event κ ν)) (k : κ) :
    Outcome ν → Prop
  | .error f => (run s e es).behind.present s k = .error f
  | .ok v => ∃ past rest, es = past ++ rest ∧ Keeps k rest ∧
      (run s e past).behind.get? k = some (.ok v) ∧
      (rest = [] ∨ (run s e es).now < (run s e past).now + (e.tiers.map Tier.lifetime).sum)

/-- The lifetimes of the tiers from a level on, added up. -/
def lifetimes (tiers : List Tier) (level : ℕ) : ℕ := ((tiers.drop level).map Tier.lifetime).sum

theorem lifetimes_succ_add {tiers : List Tier} {i : ℕ} {t : Tier} (h : tiers[i]? = some t) :
    lifetimes tiers (i + 1) + t.lifetime = lifetimes tiers i := by
  obtain ⟨hi, rfl⟩ := List.getElem?_eq_some_iff.mp h
  unfold lifetimes
  rw [List.drop_eq_getElem_cons hi, List.map_cons, List.sum_cons]
  omega

variable {s : Space ν} {e : Env (Table κ ν)} {es : List (Event κ ν)}

theorem present_eq_ok_iff {t : Table κ ν} {k : κ} {v : ν} :
    t.present s k = .ok v ↔ t.get? k = some (.ok v) := by
  unfold present answer
  cases t.get? k with
  | none => cases t.omitMissing <;> simp
  | some o => cases t.omitMissing <;> simp

/-- What every run keeps: sound tiers, with nothing queued. -/
structure Kept (s : Space ν) (e : Env (Table κ ν)) (es : List (Event κ ν)) : Prop where
  sound : Sound s (Held s e es) (lifetimes e.tiers) (run s e es)
  queued : ∀ t ∈ (run s e es).tiers, t.queued = []
  length : (run s e es).tiers.length = e.tiers.length

theorem kept_nil (h : ∀ t ∈ e.tiers, t.Fresh) : Kept s e [] where
  sound := ⟨fun ht => (h _ (List.mem_of_getElem? ht)).sound,
    fun ht => Nat.le_of_eq (lifetimes_succ_add ht)⟩
  queued t ht := (h t ht).queued
  length := rfl

theorem Held.append {k : κ} {v : ν} {moment : ℕ} (h : Held s e es k v moment)
    {event : Event κ ν} (hk : Keeps k [event]) : Held s e (es ++ [event]) k v moment := by
  obtain ⟨past, rest, rfl, hrest, hv, hm⟩ := h
  refine ⟨past, rest ++ [event], List.append_assoc .., fun keys hmem => ?_, hv, hm⟩
  rcases List.mem_append.mp hmem with hmem | hmem
  · exact hrest keys hmem
  · exact hk keys hmem

theorem held_now {k : κ} {v : ν} (h : (run s e es).behind.get? k = some (.ok v)) :
    Held s e es k v (run s e es).now :=
  ⟨es, [], (List.append_nil es).symm, by simp [Keeps], h, rfl⟩

theorem through_fetch (s : Space ν) (keys : List κ) (e : Env (Table κ ν)) :
    (Source.through s source).fetch keys e
      = (Source.layered s source 0 e.tiers.length).fetch keys e := rfl

/-- An event that leaves the tiers as they are keeps them sound. -/
theorem Kept.untouched (h : Kept s e es) {event : Event κ ν} (hne : ∀ keys, event ≠ .forget keys)
    (htiers : (Table.step s (run s e es) event).tiers = (run s e es).tiers) :
    Kept s e (es ++ [event]) := by
  refine ⟨?_, ?_, ?_⟩ <;> rw [run_append]
  · refine h.sound.mono h.queued (fun k v moment hk => hk.append fun keys hmem => ?_) htiers
    exact absurd (List.mem_singleton.mp hmem).symm (hne keys)
  · rw [htiers]
    exact h.queued
  · rw [htiers]
    exact h.length

/-- An event that ends with settling keeps the tiers sound when they were sound before. -/
theorem Kept.settled (h : Kept s e es) {event : Event κ ν} {e' : Env (Table κ ν)}
    {W : κ → ν → ℕ → Prop} (hstep : Table.step s (run s e es) event = e'.settle)
    (hs : Sound s W (lifetimes e.tiers) e')
    (hlength : e'.tiers.length = (run s e es).tiers.length)
    (hW : ∀ k v moment, W k v moment → Held s e (es ++ [event]) k v moment) :
    Kept s e (es ++ [event]) := by
  have hq : ∀ t ∈ e'.settle.tiers, t.queued = [] := by
    intro t ht
    obtain ⟨t', _, rfl⟩ := List.mem_map.mp ht
    rfl
  refine ⟨?_, ?_, ?_⟩ <;> rw [run_append, hstep]
  · exact hs.settle.mono hq hW rfl
  · exact hq
  · show (e'.tiers.map _).length = _
    rw [List.length_map, hlength, h.length]

section

variable (hinj : Function.Injective fun k : κ => s.tierKey k)
  (hcodec : ∀ v, s.decode (s.encode v) = some v)

include hinj hcodec

theorem Kept.fetched (h : Kept s e es) (keys : List κ) :
    Fetched s (Held s e es) (lifetimes e.tiers) 0 keys (run s e es)
      ((Source.through s source).fetch keys (run s e es)) :=
  layered_fetched hinj hcodec _ 0 keys (Nat.zero_add _).symm
    (fun _ _ hp => held_now (present_eq_ok_iff.mp hp)) h.sound

/-- One event keeps the tiers sound. -/
theorem Kept.step (h : Kept s e es) (event : Event κ ν) : Kept s e (es ++ [event]) := by
  cases event with
  | fetch keys =>
    have hf := h.fetched hinj hcodec keys
    exact h.settled rfl hf.sound hf.like.length fun _ _ _ hk => hk.append (by simp [Keeps])
  | forget keys =>
    obtain ⟨hlike, htiers⟩ := layered_forget s keys (run s e es).tiers.length 0
      (Nat.zero_add (run s e es).tiers.length).symm
    have hs := h.sound.forget h.queued (fun i => (htiers i).trans (if_pos (Nat.zero_le i)))
    -- Only what was held for other keys is still in the tiers.
    refine h.settled rfl hs hlike.length fun k v moment hk => hk.1.append fun keys' hmem => ?_
    cases List.mem_singleton.mp hmem
    exact hk.2
  | put key outcome => exact h.untouched (by simp) rfl
  | drop key => exact h.untouched (by simp) rfl
  | wait millis => exact h.untouched (by simp) rfl

theorem kept_run (h : ∀ t ∈ e.tiers, t.Fresh) (es : List (Event κ ν)) : Kept s e es := by
  induction es using List.reverseRecOn with
  | nil => exact kept_nil h
  | append_singleton es event ih => exact ih.step hinj hcodec event

/-- An event that does not change the table leaves its entries alone. -/
theorem Kept.table (h : Kept s e es) (event : Event κ ν) :
    (Table.step s (run s e es) event).behind.omitMissing = (run s e es).behind.omitMissing ∧
      (event.changes = false →
        (Table.step s (run s e es) event).behind.entries = (run s e es).behind.entries) := by
  cases event with
  | fetch keys =>
    have hlike := (h.fetched hinj hcodec keys).like
    exact ⟨hlike.omitMissing, fun _ => hlike.entries⟩
  | forget keys =>
    have hlike := (layered_forget s keys (run s e es).tiers.length 0
      (Nat.zero_add (run s e es).tiers.length).symm).1
    exact ⟨hlike.omitMissing, fun _ => hlike.entries⟩
  | put key outcome => exact ⟨rfl, fun h => absurd h (by simp [Event.changes])⟩
  | drop key => exact ⟨rfl, fun h => absurd h (by simp [Event.changes])⟩
  | wait millis => exact ⟨rfl, fun _ => rfl⟩

/-- While nothing is put or dropped, the table stays as it is. -/
theorem run_table (h : ∀ t ∈ e.tiers, t.Fresh) (es : List (Event κ ν)) :
    (run s e es).behind.omitMissing = e.behind.omitMissing ∧
      ((∀ event ∈ es, event.changes = false) →
        (run s e es).behind.entries = e.behind.entries) := by
  induction es using List.reverseRecOn with
  | nil => exact ⟨rfl, fun _ => rfl⟩
  | append_singleton es event ih =>
    obtain ⟨ho, he⟩ := (kept_run hinj hcodec h es).table hinj hcodec event
    rw [run_append]
    refine ⟨ho.trans ih.1, fun hes => ?_⟩
    exact (he (hes event (List.mem_append_right _ List.mem_cons_self))).trans
      (ih.2 fun event' hmem => hes event' (List.mem_append_left _ hmem))

theorem present_run (h : ∀ t ∈ e.tiers, t.Fresh) {es : List (Event κ ν)}
    (hes : ∀ event ∈ es, event.changes = false) :
    (run s e es).behind.present s = e.behind.present s := by
  obtain ⟨ho, he⟩ := run_table hinj hcodec h es
  exact present_congr s (he hes) ho

/-- Whatever has happened, a lookup answers every key with what is right now or was
right not long ago; and as long as the table stays as it is, with what the table says. -/
theorem fetch_timely (h : ∀ t ∈ e.tiers, t.Fresh)
    (htiers : e.tiers ≠ [] ∨ e.behind.omitMissing = false) (es : List (Event κ ν))
    {keys : List κ} {k : κ} (hk : k ∈ keys) :
    ∃ o, ((Source.through s source).fetch keys (run s e es)).1.get? k = some o ∧
      Timely s e es k o ∧
      ((∀ event ∈ es, event.changes = false) → o = e.behind.present s k) := by
  have hkept := kept_run hinj hcodec h es
  have hlevels : 0 < (run s e es).tiers.length ∨ (run s e es).behind.omitMissing = false := by
    rw [hkept.length, (run_table hinj hcodec h es).1]
    exact htiers.imp_left List.length_pos_iff.mpr
  obtain ⟨o, ho⟩ := get?_layered_isSome s 0 hlevels hk
  have hright := (hkept.fetched hinj hcodec keys).right k hk
  rw [through_fetch, ho, Option.getD_some] at hright
  have htimely : Timely s e es k o := by
    cases o with
    | error f => exact hright
    | ok v =>
      rcases hright with hp | ⟨moment, ⟨past, rest, hes, hrest, hv, hm⟩, hlt⟩
      · exact ⟨es, [], (List.append_nil es).symm, by simp [Keeps], present_eq_ok_iff.mp hp,
          Or.inl rfl⟩
      · exact ⟨past, rest, hes, hrest, hv, Or.inr (hm ▸ hlt)⟩
  refine ⟨o, ho, htimely, fun hes => ?_⟩
  cases o with
  | error f => rw [← present_run hinj hcodec h hes, htimely]
  | ok v =>
    obtain ⟨past, rest, rfl, _, hv, _⟩ := htimely
    rw [← present_run hinj hcodec h fun event hmem => hes event (List.mem_append_left rest hmem)]
    exact (present_eq_ok_iff.mpr hv).symm

end

/-! ## Keys and values of their own -/

/-- Identifiers have texts of their own in every part of the caches. -/
theorem tierKey_injective (s : Space ν) : Function.Injective fun k : Id => s.tierKey k := by
  intro i j h
  have htext : Id.text i = Id.text j := (String.append_right_inj _).mp h
  exact UInt64.toNat_inj.mp (Text.digits_inj (String.ofList_injective htext))

/-- Yes or no for an identifier, in JSON. -/
def flags : Space Bool := .json "flags" .bool Json.bool?

theorem decode_flags (v : Bool) : flags.decode (flags.encode v) = some v := by
  cases v <;> decide +kernel

/-- A table that leaves out what it does not have, behind two tiers. -/
def flagged : Env (Table Id Bool) :=
  ⟨0, [.inMemory 1 5 .asWritten, .inMemory 10 7 .asWritten], .empty true⟩

/-- A value is looked up, changed, and looked up again when only the far tier has it. -/
def flagEvents : List (Event Id Bool) :=
  [.put 1 (.ok true), .fetch [1], .put 1 (.ok false), .wait 6]

theorem flagged_fresh : ∀ t ∈ flagged.tiers, t.Fresh := by
  intro t ht
  simp only [flagged, List.mem_cons, List.not_mem_nil, or_false] at ht
  rcases ht with rfl | rfl
  · exact ⟨rfl, Or.inr ⟨1, .asWritten, rfl⟩⟩
  · exact ⟨rfl, Or.inr ⟨10, .asWritten, rfl⟩⟩

theorem fetch_timely_flags :
    ∃ o,
      ((Source.through flags source).fetch [1] (run flags flagged flagEvents)).1.get? 1 = some o ∧
      Timely flags flagged flagEvents 1 o := by
  obtain ⟨o, ho, htimely, _⟩ := fetch_timely (tierKey_injective flags) decode_flags flagged_fresh
    (Or.inl (by simp [flagged])) flagEvents (List.mem_singleton_self (1 : Id))
  exact ⟨o, ho, htimely⟩

/-- Without tiers, and with a table that leaves keys out, a key has no outcome at all. -/
theorem fetch_without_tiers :
    ((Source.through flags source).fetch [5] ⟨0, [], (.empty true : Table Id Bool)⟩).1.get? 5
      = none := by
  rfl

end RegionPricing.Factor.Table
