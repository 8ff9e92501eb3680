import Mathlib.Data.List.Basic
import RegionPricing.Cache.Call

/-!
# Runs of a cache

A run of a cache is a list of steps: calls, and time that passes between them. A call comes
to acts with one key each, one after the other and all at the time of the call. What the acts
did is kept as a list of events, the earliest first, and of a key the last event that has to
do with it is what counts (`LastWrite`).
-/

namespace RegionPricing.Cache

/-! ## Steps and acts -/

/-- A call, or time that passes. -/
inductive Step where
  | call (c : Call)
  | wait (millis : ℕ)

/-- What is done with one key, or time that passes. -/
inductive Act where
  | look (key : String)
  | write (key value : String) (ttl : ℕ)
  | drop (key : String)
  | wait (millis : ℕ)

/-- What a call does with one key after the other. -/
def Call.acts : Call → List Act
  | .name | .size => []
  | .get key => [.look key]
  | .set key value ttl => [.write key value ttl]
  | .delete key => [.drop key]
  | .getMany keys => keys.map .look
  | .setMany items ttl => items.map fun e => .write e.1 e.2 ttl

def Step.acts : Step → List Act
  | .call c => c.acts
  | .wait millis => [.wait millis]

/-- The storage and the time after some steps. -/
def Storage.after (s : Storage) (now : ℕ) : List Step → Storage × ℕ
  | [] => (s, now)
  | .call c :: steps => Storage.after (s.perform now c).2 now steps
  | .wait millis :: steps => Storage.after s (now + millis) steps

/-- Whether the act sets or deletes what is under a key. -/
def Act.Writes (key : String) : Act → Prop
  | .write key' _ _ => key' = key
  | .drop key' => key' = key
  | .look _ | .wait _ => False

/-! ## Events -/

/-- What happened to the entries. -/
inductive Event where
  /-- A text was written at a time, to live so long. -/
  | wrote (key value : String) (time ttl : ℕ)
  | dropped (key : String)
  /-- A key that was not there was to be written, and there was no room for it. -/
  | crowded
  deriving DecidableEq

/-- Whether the event has to do with a key alone. -/
def Event.Concerns (key : String) : Event → Prop
  | .wrote key' _ _ _ => key' = key
  | .dropped key' => key' = key
  | .crowded => False

instance (key : String) : DecidablePred (Event.Concerns key)
  | .wrote _ _ _ _ => inferInstanceAs (Decidable (_ = _))
  | .dropped _ => inferInstanceAs (Decidable (_ = _))
  | .crowded => inferInstanceAs (Decidable False)

/-- The last event that concerns the key is that this text was written, and `since` is what
happened since then. -/
def LastWrite (events : List Event) (key value : String) (time ttl : ℕ) (since : List Event) :
    Prop :=
  ∃ earlier, events = earlier ++ .wrote key value time ttl :: since ∧
    ∀ e ∈ since, ¬e.Concerns key

variable {events since : List Event} {key value : String} {time ttl : ℕ} {e : Event}

theorem not_lastWrite_nil : ¬LastWrite [] key value time ttl since := by
  rintro ⟨earlier, h, _⟩
  simp at h

theorem lastWrite_wrote : LastWrite (events ++ [.wrote key value time ttl]) key value time ttl [] :=
  ⟨events, rfl, by simp⟩

theorem LastWrite.later (h : LastWrite events key value time ttl since) (he : ¬e.Concerns key) :
    LastWrite (events ++ [e]) key value time ttl (since ++ [e]) := by
  obtain ⟨earlier, rfl, hsince⟩ := h
  refine ⟨earlier, by simp, fun e' he' => ?_⟩
  rcases List.mem_append.mp he' with he' | he'
  · exact hsince e' he'
  · exact List.mem_singleton.mp he' ▸ he

/-- One more event is the last write of its key, and leaves the last writes of the others. -/
theorem lastWrite_append_iff : LastWrite (events ++ [e]) key value time ttl since ↔
    (e = .wrote key value time ttl ∧ since = []) ∨
    (¬e.Concerns key ∧ ∃ since', since = since' ++ [e] ∧
      LastWrite events key value time ttl since') := by
  constructor
  · rintro ⟨earlier, heq, hsince⟩
    rcases List.eq_nil_or_concat since with rfl | ⟨since', e', rfl⟩
    · obtain ⟨_, he⟩ := List.append_inj' heq rfl
      exact .inl ⟨(List.cons.inj he).1, rfl⟩
    · rw [List.concat_eq_append, ← List.cons_append, ← List.append_assoc] at heq
      obtain ⟨hevents, he⟩ := List.append_inj' heq rfl
      obtain rfl : e = e' := (List.cons.inj he).1
      rw [List.concat_eq_append] at hsince ⊢
      exact .inr ⟨hsince e (by simp), since', rfl, earlier, hevents,
        fun e' he' => hsince e' (List.mem_append_left _ he')⟩
  · rintro (⟨rfl, rfl⟩ | ⟨he, since', rfl, h⟩)
    · exact lastWrite_wrote
    · exact h.later he

end RegionPricing.Cache
