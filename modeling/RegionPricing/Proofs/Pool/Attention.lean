import RegionPricing.Proofs.Pool.Conservation

/-!
# Who sees to the job in the queue

A job in the queue needs a worker that looks at the queue again, or a caller that is about to
start one. Two guards are there for it. A caller that has put its job into the queue looks
whether any worker is alive, and starts one if not; a worker that leaves looks at the queue once
more after it has said that it is alive no more.

Every step leaves somebody who sees to the job, except where one of the guards is turned away
(`Goes.attended`): the caller finds no worker alive and no slot free, or the worker finds that
another one listens. Whoever has the slot or the ear then sees to the job instead
(`attended_of_turned`), unless it has looked at the queue for the last time, or has been granted
the slot and may still be cancelled. In runs in which a guard never meets one of those
(`noneMissed`) no job stays behind (`queue_served`); in others it may (`job_left_behind`).
-/

namespace RegionPricing.Pool

namespace Caller

/-- Whether the caller is about to see to it that a worker is there. -/
def attends : Caller → Bool
  | .sent | .rescuing | .starting _ => true
  | _ => false

end Caller

namespace Worker

/-- Whether the worker looks at the queue again. -/
def attends : Worker → Bool
  | .turningAway none | .resuming none | .closing | .yielding none | .exiting | .gone => false
  | _ => true

/-- Whether the worker leaves because the pool is closed. -/
def isClosing : Worker → Bool
  | .turningAway none | .resuming none | .closing => true
  | _ => false

/-- Whether the worker leaves as it has found the queue empty. -/
def isLeaving : Worker → Bool
  | .yielding none | .exiting => true
  | _ => false

/-- What there is to a worker that has a slot. -/
theorem attends_or_leaves (w : Worker) (h : w.holdsSlot) :
    w.attends ∨ w.isClosing ∨ w.isLeaving := by
  cases w with
  | turningAway job | resuming job | yielding job =>
    cases job <;> simp [attends, isClosing, isLeaving]
  | gone => cases h
  | _ => simp [attends, isClosing, isLeaving]

theorem not_isLeaving_of_isAlive (w : Worker) (h : w.isAlive) : w.isLeaving = false := by
  cases w with
  | yielding | exiting => cases h
  | _ => rfl

/-- What there is to a worker that keeps others from listening. -/
theorem attends_or_isClosing_of_holdsEar (w : Worker) (h : w.holdsEar) :
    w.attends ∨ w.isClosing ∨ w = .yielding none := by
  cases w with
  | turningAway job | yielding job => cases job <;> simp [attends, isClosing]
  | listening | peeking => exact .inl rfl
  | _ => cases h

end Worker

/-- Whether an event is up to the pool: it needs no new caller, no end of the pool and no end of a
job. -/
def Event.isOwn : Event → Bool
  | .submit | .close | .finish _ => false
  | _ => true

namespace State

/-- Whether a job in the queue is seen to. -/
def attended (s : State) : Bool :=
  s.queue.isNone || s.workers.any Worker.attends || s.callers.any Caller.attends

/-- Whether an event turns a guard away: a caller gets no slot for a worker, or a worker may not
listen once more. -/
def turnsAway (s : State) : Event → Bool
  | .next (.caller n) => s.callers[n]? = some .rescuing && s.slots.take?.isNone
  | .next (.worker n) => s.workers[n]? = some .returning && s.ear.take?.isNone
  | _ => false

/-- Whether a guard is turned away from a job by somebody who does not look at the queue again: no
slot is free for a caller, while one is with a worker that leaves or has been granted to a caller
that has not taken it; or a worker that leaves lets others listen only now. -/
def misses (s : State) : Event → Bool
  | .next (.caller n) => s.queue.isSome && s.turnsAway (.next (.caller n)) &&
      (!s.slots.granted.isEmpty || s.workers.any Worker.isLeaving)
  | .next (.worker n) => s.queue.isSome && s.turnsAway (.next (.worker n)) &&
      s.workers.contains (.yielding none)
  | _ => false

/-- Whether no guard misses the job in the queue that way while some events happen. -/
def noneMissed (s : State) : List Event → Bool
  | [] => true
  | e :: es => !s.misses e && (s.step e).all fun s' => s'.noneMissed es

/-- Whether the pool can do nothing until a job ends, a caller comes or it is closed. -/
def AtRest (s : State) : Prop := ∀ e : Event, e.isOwn → s.step e = none

/-- After a pool is closed there is no caller that could use it, and only then, and when the queue
is empty, workers leave for that. -/
structure Closing (s : State) : Prop where
  decided : s.closed → ∀ c ∈ s.callers, c.isDecided
  closed : ∀ w ∈ s.workers, w.isClosing → s.closed
  empty : ∀ w ∈ s.workers, w.isClosing → s.queue = none

theorem closing_new (slots : Nat) : (new slots).Closing where
  decided h := by cases h
  closed _ h := by cases h
  empty _ h := by cases h

theorem attended_iff {s : State} : s.attended ↔
    s.queue = none ∨ (∃ w ∈ s.workers, w.attends) ∨ ∃ c ∈ s.callers, c.attends := by
  unfold attended
  rw [Bool.or_eq_true, Bool.or_eq_true, Option.isNone_iff_eq_none, List.any_eq_true,
    List.any_eq_true, or_assoc]

/-! ## What a step does to the queue and its guards -/

/-- A caller goes on. If it was about to see to the queue, it still is, or a worker is alive, or
it has been turned away. -/
structure CallerGoes (s s' : State) (n : Nat) (c c' : Caller) (turned : Bool) : Prop where
  undecided : c.isDecided = false
  callers : s'.callers = s.callers.set n c'
  workers : s'.workers = s.workers
  closed : s'.closed = s.closed
  queue : s'.queue = s.queue ∨ c'.attends
  attends : c.attends → c'.attends ∨ 0 < s.alive ∨ turned

/-- A worker goes on. If it was to look at the queue again, it still is, or it has found the queue
empty, or it has been turned away. -/
structure WorkerGoes (s s' : State) (n : Nat) (w w' : Worker) (turned : Bool) : Prop where
  callers : s'.callers = s.callers
  workers : s'.workers = s.workers.set n w'
  closed : s'.closed = s.closed
  queue : s'.queue = s.queue ∨ s'.queue = none
  attends : w.attends → w'.attends ∨ s'.queue = none ∨ turned
  closing : w'.isClosing → w.isClosing ∨ s.closed ∧ s'.queue = none

/-- What there is to a step. -/
inductive Goes (s s' : State) (turned : Bool) : Prop where
  | caller {n : Nat} {c c' : Caller} (there : s.callers[n]? = some c)
      (goes : s.CallerGoes s' n c c' turned)
  | starts {n : Nat} {withJob : Bool} (there : s.callers[n]? = some (.starting withJob))
      (starts : s.CallerStarts s' n withJob) (closed : s'.closed = s.closed)
  | worker {n : Nat} {w w' : Worker} (there : s.workers[n]? = some w)
      (goes : s.WorkerGoes s' n w w' turned)
  | submits (free : s.closed = false) (eq : s' = { s with callers := s.callers ++ [.arriving] })
  | closes (decided : s.callers.all Caller.isDecided) (eq : s' = { s with closed := true })

variable {slots n : Nat} {s s' : State} {turned : Bool}

/-- A caller that does not touch the queue. -/
theorem callerGoes_permits {c c' : Caller} {slots place : Permits} (hopen : c.isDecided = false)
    (hattends : c.attends → c'.attends ∨ 0 < s.alive ∨ turned) :
    s.CallerGoes ({ s with slots, place }.setCaller n c') n c c' turned :=
  ⟨hopen, rfl, rfl, rfl, .inl rfl, hattends⟩

theorem goes_callerNext {c : Caller} (hc : s.callers[n]? = some c)
    (hstep : s.callerNext n c = some s') :
    s.Goes s' (s.turnsAway (.next (.caller n))) := by
  cases c with
  | looking =>
    obtain rfl := Option.some.inj hstep
    exact .caller hc (callerGoes_permits rfl nofun)
  | trying | reserving | claiming =>
    simp only [callerNext] at hstep
    split at hstep <;> obtain rfl := Option.some.inj hstep <;>
      exact .caller hc (callerGoes_permits rfl nofun)
  | reserved =>
    obtain rfl := Option.some.inj hstep
    exact .caller hc ⟨rfl, rfl, rfl, rfl, .inr rfl, nofun⟩
  | sent =>
    obtain rfl := Option.some.inj hstep
    refine .caller hc (callerGoes_permits rfl fun _ => ?_)
    by_cases halive : s.alive = 0
    · rw [if_pos halive]
      exact .inl rfl
    · exact .inr (.inl (by omega))
  | rescuing =>
    unfold callerNext at hstep
    cases htake : s.slots.take? with
    | some p =>
      rw [htake] at hstep
      obtain rfl := Option.some.inj hstep
      exact .caller hc (callerGoes_permits rfl fun _ => .inl rfl)
    | none =>
      rw [htake] at hstep
      obtain rfl := Option.some.inj hstep
      refine .caller hc (callerGoes_permits rfl fun _ => .inr (.inr ?_))
      simp [turnsAway, hc, htake]
  | starting withJob =>
    obtain rfl := Option.some.inj hstep
    refine .starts hc ⟨rfl, ?_, rfl, rfl, rfl, rfl, rfl, rfl, rfl⟩ rfl
    cases withJob <;> rfl
  | arriving | choosing | waiting | accepted | refused => cases hstep

theorem goes_workerNext {w : Worker} (hw : s.workers[n]? = some w)
    (hstep : s.workerNext n w = some s') :
    s.Goes s' (s.turnsAway (.next (.worker n))) := by
  cases w with
  | free | closing | lapsed | retiring | reviving | exiting =>
    obtain rfl := Option.some.inj hstep
    exact .worker hw ⟨rfl, rfl, rfl, .inl rfl, by simp [Worker.attends], by simp [Worker.isClosing]⟩
  | turningAway job | resuming job | yielding job =>
    obtain rfl := Option.some.inj hstep
    refine .worker hw ⟨rfl, rfl, rfl, .inl rfl, ?_, ?_⟩ <;>
      cases job <;> simp [Worker.attends, Worker.isClosing]
  | entering =>
    simp only [workerNext] at hstep
    split at hstep <;> obtain rfl := Option.some.inj hstep <;>
      exact .worker hw ⟨rfl, rfl, rfl, .inl rfl, fun _ => .inl rfl, nofun⟩
  | queueing =>
    simp only [workerNext] at hstep
    split at hstep
    next =>
      obtain rfl := Option.some.inj hstep
      exact .worker hw ⟨rfl, rfl, rfl, .inl rfl, fun _ => .inl rfl, nofun⟩
    next => cases hstep
  | listening =>
    unfold workerNext at hstep
    cases hq : s.queue with
    | some job =>
      rw [hq] at hstep
      obtain rfl := Option.some.inj hstep
      exact .worker hw ⟨rfl, rfl, rfl, .inr rfl, fun _ => .inl rfl, nofun⟩
    | none =>
      rw [hq] at hstep
      by_cases hclosed : s.closed
      · rw [if_pos hclosed] at hstep
        obtain rfl := Option.some.inj hstep
        exact .worker hw ⟨rfl, rfl, rfl, .inl rfl, fun _ => .inr (.inl hq),
          fun _ => .inr ⟨hclosed, hq⟩⟩
      · rw [if_neg hclosed] at hstep
        cases hstep
  | returning =>
    unfold workerNext at hstep
    cases htake : s.ear.take? with
    | some ear =>
      rw [htake] at hstep
      obtain rfl := Option.some.inj hstep
      exact .worker hw ⟨rfl, rfl, rfl, .inl rfl, fun _ => .inl rfl, nofun⟩
    | none =>
      rw [htake] at hstep
      obtain rfl := Option.some.inj hstep
      refine .worker hw ⟨rfl, rfl, rfl, .inl rfl, fun _ => .inr (.inr ?_), nofun⟩
      simp [turnsAway, hw, htake]
  | peeking =>
    unfold workerNext at hstep
    cases hq : s.queue with
    | some job =>
      rw [hq] at hstep
      obtain rfl := Option.some.inj hstep
      exact .worker hw ⟨rfl, rfl, rfl, .inr rfl, fun _ => .inl rfl, nofun⟩
    | none =>
      rw [hq] at hstep
      obtain rfl := Option.some.inj hstep
      exact .worker hw ⟨rfl, rfl, rfl, .inl rfl, fun _ => .inr (.inl hq), nofun⟩
  | running | gone => cases hstep

/-- What a step does to the queue and its guards. -/
theorem goes_of_step {e : Event} (hstep : s.step e = some s') : s.Goes s' (s.turnsAway e) := by
  cases e with
  | submit =>
    unfold step at hstep
    by_cases hclosed : s.closed
    · rw [if_pos hclosed] at hstep
      cases hstep
    · rw [if_neg hclosed] at hstep
      exact .submits (Bool.not_eq_true _ ▸ hclosed) (Option.some.inj hstep).symm
  | close =>
    unfold step at hstep
    by_cases hall : s.callers.all Caller.isDecided
    · rw [if_pos hall] at hstep
      exact .closes hall (Option.some.inj hstep).symm
    · rw [if_neg hall] at hstep
      cases hstep
  | next p =>
    cases p with
    | caller n =>
      obtain ⟨c, hc, hnext⟩ := Option.bind_eq_some_iff.mp hstep
      exact goes_callerNext hc hnext
    | worker n =>
      obtain ⟨w, hw, hnext⟩ := Option.bind_eq_some_iff.mp hstep
      exact goes_workerNext hw hnext
  | enter n =>
    obtain ⟨c, hc, hnext⟩ := Option.bind_eq_some_iff.mp hstep
    cases c with
    | arriving | choosing =>
      obtain rfl := Option.some.inj hnext
      exact .caller hc (callerGoes_permits rfl nofun)
    | _ => cases hnext
  | cancel n =>
    obtain ⟨c, hc, hnext⟩ := Option.bind_eq_some_iff.mp hstep
    cases c with
    | arriving | choosing | waiting =>
      obtain rfl := Option.some.inj hnext
      exact .caller hc (callerGoes_permits rfl nofun)
    | _ => cases hnext
  | expire n nanos =>
    obtain ⟨c, hc, hnext⟩ := Option.bind_eq_some_iff.mp hstep
    cases c with
    | waiting =>
      obtain rfl := Option.some.inj hnext
      exact .caller hc (callerGoes_permits rfl nofun)
    | _ => cases hnext
  | reserve n =>
    obtain ⟨c, hc, hnext⟩ := Option.bind_eq_some_iff.mp hstep
    cases c with
    | waiting =>
      simp only [callerReserves] at hnext
      split at hnext
      next =>
        obtain rfl := Option.some.inj hnext
        exact .caller hc (callerGoes_permits rfl nofun)
      next => cases hnext
    | _ => cases hnext
  | claim n =>
    obtain ⟨c, hc, hnext⟩ := Option.bind_eq_some_iff.mp hstep
    cases c with
    | waiting =>
      simp only [callerClaims] at hnext
      split at hnext
      next =>
        obtain rfl := Option.some.inj hnext
        exact .caller hc (callerGoes_permits rfl nofun)
      next => cases hnext
    | _ => cases hnext
  | finish n =>
    obtain ⟨w, hw, hnext⟩ := Option.bind_eq_some_iff.mp hstep
    cases w with
    | running job =>
      obtain rfl := Option.some.inj hnext
      exact .worker hw ⟨rfl, rfl, rfl, .inl rfl, fun _ => .inl rfl, nofun⟩
    | _ => cases hnext
  | lapse n =>
    obtain ⟨w, hw, hnext⟩ := Option.bind_eq_some_iff.mp hstep
    cases w with
    | queueing | listening =>
      obtain rfl := Option.some.inj hnext
      exact .worker hw ⟨rfl, rfl, rfl, .inl rfl, fun _ => .inl rfl, nofun⟩
    | _ => cases hnext

/-! ## A step leaves somebody who sees to the queue -/

/-- Of the elements with a property all are left but the one that is replaced. -/
theorem exists_mem_set {α : Type} {l : List α} {p : α → Bool} {a : α} (b : α)
    (ha : l[n]? = some a) (h : ∃ x ∈ l, p x) : p a ∨ ∃ x ∈ l.set n b, p x := by
  obtain ⟨x, hx, hp⟩ := h
  obtain ⟨m, hm⟩ := List.getElem?_of_mem hx
  by_cases hmn : m = n
  · subst hmn
    obtain rfl := Option.some.inj (ha.symm.trans hm)
    exact .inl hp
  · refine .inr ⟨x, List.mem_of_getElem? (i := m) ?_, hp⟩
    rw [List.getElem?_set_ne (Ne.symm hmn), hm]

theorem mem_set_self {α : Type} {l : List α} {a : α} (b : α) (ha : l[n]? = some a) :
    b ∈ l.set n b :=
  List.mem_set (List.getElem?_eq_some_iff.mp ha).1 b

/-- As long as a submission has not ended, no worker leaves for the end of the pool. -/
theorem Closing.not_isClosing {c : Caller} (hs : s.Closing) (hc : s.callers[n]? = some c)
    (hopen : c.isDecided = false) {w : Worker} (hw : w ∈ s.workers) : ¬w.isClosing := by
  intro hleaves
  have hdecided := hs.decided (hs.closed w hw hleaves) c (List.mem_of_getElem? hc)
  rw [hopen] at hdecided
  cases hdecided

theorem Goes.closing (hs : s.Closing) (h : s.Goes s' turned) : s'.Closing := by
  cases h with
  | @caller n c c' hc h =>
    refine ⟨fun hclosed => ?_, fun w hw hleaves => ?_, fun w hw hleaves => ?_⟩
    · have hdecided := hs.decided (h.closed ▸ hclosed) c (List.mem_of_getElem? hc)
      rw [h.undecided] at hdecided
      cases hdecided
    · exact absurd hleaves (hs.not_isClosing hc h.undecided (h.workers ▸ hw))
    · exact absurd hleaves (hs.not_isClosing hc h.undecided (h.workers ▸ hw))
  | @starts n withJob hc h hclosed' =>
    have hnone : ∀ w ∈ s'.workers, ¬w.isClosing := by
      intro w hw
      rw [h.workers, List.mem_append, List.mem_singleton] at hw
      rcases hw with hw | rfl
      · exact hs.not_isClosing hc rfl hw
      · cases withJob <;> exact Bool.false_ne_true
    refine ⟨fun hclosed => ?_, fun w hw hleaves => absurd hleaves (hnone w hw),
      fun w hw hleaves => absurd hleaves (hnone w hw)⟩
    cases hs.decided (hclosed' ▸ hclosed) _ (List.mem_of_getElem? hc)
  | @worker n w w' hw h =>
    have hmem := List.mem_of_getElem? hw
    refine ⟨fun hclosed => ?_, fun v hv hleaves => ?_, fun v hv hleaves => ?_⟩
    · rw [h.callers]
      exact hs.decided (h.closed ▸ hclosed)
    · rw [h.closed]
      rw [h.workers] at hv
      rcases List.mem_or_eq_of_mem_set hv with hv | rfl
      · exact hs.closed v hv hleaves
      · exact (h.closing hleaves).elim (hs.closed w hmem) And.left
    · have hstays : s.queue = none → s'.queue = none := fun hq => h.queue.elim (·.trans hq) id
      rw [h.workers] at hv
      rcases List.mem_or_eq_of_mem_set hv with hv | rfl
      · exact hstays (hs.empty v hv hleaves)
      · exact (h.closing hleaves).elim (fun hw' => hstays (hs.empty w hmem hw')) And.right
  | submits hopen h =>
    subst h
    refine ⟨fun hclosed => ?_, hs.closed, hs.empty⟩
    rw [hopen] at hclosed
    cases hclosed
  | closes hall h =>
    subst h
    exact ⟨fun _ => List.all_eq_true.mp hall, fun _ _ _ => rfl, hs.empty⟩

/-- As long as a submission has not ended, a worker that is alive looks at the queue again. -/
theorem exists_attends {c : Caller} (hs : s.Balanced slots) (hcl : s.Closing)
    (hc : s.callers[n]? = some c) (hopen : c.isDecided = false) (halive : 0 < s.alive) :
    ∃ w ∈ s.workers, w.attends := by
  rw [← hs.alive] at halive
  obtain ⟨w, hw, hwalive⟩ := List.countP_pos_iff.mp halive
  rcases w.attends_or_leaves (w.holdsSlot_of_isAlive hwalive) with hattends | hcloses | hleaves
  · exact ⟨w, hw, hattends⟩
  · exact absurd hcloses (hcl.not_isClosing hc hopen hw)
  · rw [w.not_isLeaving_of_isAlive hwalive] at hleaves
    cases hleaves

/-- A step leaves somebody who sees to the queue, unless it turns away the one who did. -/
theorem Goes.attended (hs : s.Balanced slots) (hcl : s.Closing) (ha : s.attended)
    (h : s.Goes s' turned) (hturned : turned → s'.attended) : s'.attended := by
  rw [attended_iff] at ha
  cases h with
  | @caller n c c' hc h =>
    have hself : c'.attends → s'.attended := fun hc' =>
      attended_iff.mpr (.inr (.inr ⟨c', h.callers ▸ mem_set_self c' hc, hc'⟩))
    rcases ha with hqueue | hworker | hcaller
    · rcases h.queue with hsame | hc'
      · exact attended_iff.mpr (.inl (hsame.trans hqueue))
      · exact hself hc'
    · exact attended_iff.mpr (.inr (.inl (h.workers ▸ hworker)))
    · rcases exists_mem_set c' hc hcaller with hattends | hother
      · rcases h.attends hattends with hc' | halive | hturn
        · exact hself hc'
        · have hworker := exists_attends hs hcl hc h.undecided halive
          exact attended_iff.mpr (.inr (.inl (h.workers ▸ hworker)))
        · exact hturned hturn
      · exact attended_iff.mpr (.inr (.inr (h.callers ▸ hother)))
  | @starts n withJob hc h _ =>
    refine attended_iff.mpr (.inr (.inl ⟨if withJob then .running n else .free, ?_, ?_⟩))
    · rw [h.workers]
      exact List.mem_append_right _ (List.mem_singleton_self _)
    · cases withJob <;> rfl
  | @worker n w w' hw h =>
    have hempty : s'.queue = none → s'.attended := fun hqueue => attended_iff.mpr (.inl hqueue)
    rcases ha with hqueue | hworker | hcaller
    · exact hempty (h.queue.elim (·.trans hqueue) id)
    · rcases exists_mem_set w' hw hworker with hattends | hother
      · rcases h.attends hattends with hw' | hqueue | hturn
        · exact attended_iff.mpr (.inr (.inl ⟨w', h.workers ▸ mem_set_self w' hw, hw'⟩))
        · exact hempty hqueue
        · exact hturned hturn
      · exact attended_iff.mpr (.inr (.inl (h.workers ▸ hother)))
    · exact attended_iff.mpr (.inr (.inr (h.callers ▸ hcaller)))
  | submits _ h =>
    subst h
    rcases ha with hqueue | hworker | ⟨c, hc, hattends⟩
    · exact attended_iff.mpr (.inl hqueue)
    · exact attended_iff.mpr (.inr (.inl hworker))
    · exact attended_iff.mpr (.inr (.inr ⟨c, List.mem_append_left _ hc, hattends⟩))
  | closes _ h =>
    subst h
    exact attended_iff.mpr ha

/-! ## Whom a guard is turned away by -/

theorem free_of_take? {p : Permits} (h : p.take? = none) : p.free = 0 := by
  unfold Permits.take? at h
  split at h
  · cases h
  · omega

/-- When no slot is free, and none is with a worker that leaves or with a caller that has not taken
it, some worker looks at the queue again, or a caller is about to start one. -/
theorem exists_attends_of_no_slot {c : Caller} (hs : s.Balanced slots) (hslots : 0 < slots)
    (hcl : s.Closing) (hc : s.callers[n]? = some c) (hopen : c.isDecided = false)
    (htake : s.slots.take? = none) (hgranted : s.slots.granted = [])
    (hstay : ∀ w ∈ s.workers, ¬w.isLeaving) :
    (∃ w ∈ s.workers, w.attends) ∨ ∃ c ∈ s.callers, c.holdsSlot := by
  have hheld := hs.slots
  unfold Permits.unheld held at hheld
  rw [free_of_take? htake, hgranted, List.length_nil] at hheld
  -- each slot is with somebody
  rcases Nat.eq_zero_or_pos (s.workers.countP Worker.holdsSlot) with hzero | hpos
  · exact .inr (List.countP_pos_iff.mp (by omega))
  · obtain ⟨w, hw, hslot⟩ := List.countP_pos_iff.mp hpos
    refine .inl ⟨w, hw, ?_⟩
    rcases w.attends_or_leaves hslot with hattends | hcloses | hleaves
    · exact hattends
    · exact absurd hcloses (hcl.not_isClosing hc hopen hw)
    · exact absurd hleaves (hstay w hw)

/-- When the ear is taken, and not by a worker that has found the queue empty, some other worker
that holds it or waits for it looks at the queue again, unless there is nothing in it. -/
theorem exists_attends_of_no_ear (hs : s.Balanced slots) (hcl : s.Closing)
    (htake : s.ear.take? = none) (hstay : .yielding none ∉ s.workers) :
    s.queue = none ∨ ∃ w ∈ s.workers, w.attends && (w.holdsEar || w.awaitsEar) := by
  have hear := hs.ear
  unfold Permits.unheld at hear
  rw [free_of_take? htake] at hear
  rcases Nat.eq_zero_or_pos (s.workers.countP Worker.holdsEar) with hzero | hpos
  · -- the ear has been granted to a worker that waits for it
    obtain ⟨m, hm⟩ := List.exists_mem_of_length_pos (by omega : 0 < s.ear.granted.length)
    have hrequests := hs.requests m
    have hcount : 0 < s.ear.granted.count m := List.count_pos_iff.mpr hm
    unfold Permits.requests at hrequests
    cases hw : s.workers[m]? with
    | none =>
      rw [hw, Option.any_none, Bool.toNat_false] at hrequests
      omega
    | some w =>
      rw [hw, Option.any_some] at hrequests
      refine .inr ⟨w, List.mem_of_getElem? hw, ?_⟩
      cases w with
      | queueing => rfl
      | _ =>
        simp only [Worker.awaitsEar, Bool.toNat_false] at hrequests
        omega
  · obtain ⟨w, hw, hholds⟩ := List.countP_pos_iff.mp hpos
    rcases w.attends_or_isClosing_of_holdsEar hholds with hattends | hcloses | rfl
    · refine .inr ⟨w, hw, ?_⟩
      rw [hattends, hholds]
      rfl
    · exact .inl (hcl.empty w hw hcloses)
    · exact absurd hw hstay

/-- A caller that gets no slot leaves the job in the queue to whoever has one. -/
theorem attended_of_no_slot (hs : s.Balanced slots) (hslots : 0 < slots) (hcl : s.Closing)
    (hc : s.callers[n]? = some .rescuing) (htake : s.slots.take? = none)
    (hmisses : s.misses (.next (.caller n)) = false) :
    (s.setCaller n .accepted).attended := by
  rw [attended_iff]
  cases hq : s.queue with
  | none => exact .inl hq
  | some job =>
    simp only [misses, turnsAway, hq, hc, htake, Option.isSome_some, Option.isNone_none,
      decide_true, Bool.and_self, Bool.true_and, Bool.or_eq_false_iff, Bool.not_eq_false',
      List.isEmpty_iff, List.any_eq_false] at hmisses
    obtain ⟨hgranted, hstay⟩ := hmisses
    rcases exists_attends_of_no_slot hs hslots hcl hc rfl htake hgranted hstay with hw | hslot
    · exact .inr (.inl hw)
    · -- the caller with a slot is another one
      obtain ⟨c, hmem, hholds⟩ := (exists_mem_set .accepted hc hslot).resolve_left nofun
      refine .inr (.inr ⟨c, hmem, ?_⟩)
      cases c with
      | starting => rfl
      | _ => cases hholds

/-- A worker that may not listen once more leaves the job in the queue to whoever may. -/
theorem attended_of_no_ear (hs : s.Balanced slots) (hcl : s.Closing)
    (hw : s.workers[n]? = some .returning) (htake : s.ear.take? = none)
    (hmisses : s.misses (.next (.worker n)) = false) :
    (s.setWorker n .exiting).attended := by
  rw [attended_iff]
  cases hq : s.queue with
  | none => exact .inl hq
  | some job =>
    simp only [misses, turnsAway, hq, hw, htake, Option.isSome_some, Option.isNone_none,
      decide_true, Bool.and_self, Bool.true_and] at hmisses
    have hstay : .yielding none ∉ s.workers := fun hmem => by
      rw [List.contains_iff_mem.mpr hmem] at hmisses
      cases hmisses
    rcases exists_attends_of_no_ear hs hcl htake hstay with hempty | hother
    · rw [hq] at hempty
      cases hempty
    · obtain ⟨w, hmem, hattends⟩ := (exists_mem_set .exiting hw hother).resolve_left nofun
      exact .inr (.inl ⟨w, hmem, (Bool.and_eq_true_iff.mp hattends).1⟩)

/-- A guard that is turned away, and misses no job, leaves somebody who sees to it. -/
theorem attended_of_turned {e : Event} (hs : s.Balanced slots) (hslots : 0 < slots)
    (hcl : s.Closing) (hstep : s.step e = some s') (hturned : s.turnsAway e)
    (hmisses : s.misses e = false) : s'.attended := by
  cases e with
  | next p =>
    cases p with
    | caller n =>
      obtain ⟨hc, htake⟩ := Bool.and_eq_true_iff.mp hturned
      have hc : s.callers[n]? = some .rescuing := of_decide_eq_true hc
      have htake : s.slots.take? = none := Option.isNone_iff_eq_none.mp htake
      simp only [step, hc, Option.bind_some, callerNext, htake] at hstep
      obtain rfl := Option.some.inj hstep
      exact attended_of_no_slot hs hslots hcl hc htake hmisses
    | worker n =>
      obtain ⟨hw, htake⟩ := Bool.and_eq_true_iff.mp hturned
      have hw : s.workers[n]? = some .returning := of_decide_eq_true hw
      have htake : s.ear.take? = none := Option.isNone_iff_eq_none.mp htake
      simp only [step, hw, Option.bind_some, workerNext, htake] at hstep
      obtain rfl := Option.some.inj hstep
      exact attended_of_no_ear hs hcl hw htake hmisses
  | _ => cases hturned

/-- What holds at every moment of a run. -/
theorem attended_of_run {es : List Event} (hs : s.Balanced slots) (hslots : 0 < slots)
    (hcl : s.Closing) (ha : s.attended) (hnone : s.noneMissed es) (h : s.run? es = some s') :
    s'.attended := by
  induction es generalizing s with
  | nil =>
    obtain rfl := Option.some.inj h
    exact ha
  | cons e es ih =>
    obtain ⟨t, hstep, hrun⟩ := run?_cons.mp h
    have hgoes := goes_of_step hstep
    unfold noneMissed at hnone
    rw [hstep, Bool.and_eq_true, Bool.not_eq_true'] at hnone
    obtain ⟨hfirst, hrest⟩ := hnone
    have hturned : s.turnsAway e → t.attended := fun hturn =>
      attended_of_turned hs hslots hcl hstep hturn hfirst
    exact ih (balanced_of_step hs hstep) (hgoes.closing hcl) (hgoes.attended hs hcl ha hturned)
      hrest hrun

/-! ## Pools at rest -/

theorem caller_goes_on {c : Caller} (hc : s.callers[n]? = some c) (hopen : c.isDecided = false) :
    ∃ e s', Event.isOwn e ∧ s.step e = some s' := by
  have hnext : (∃ s', s.callerNext n c = some s') → ∃ e s', Event.isOwn e ∧ s.step e = some s' := by
    rintro ⟨s', h⟩
    exact ⟨.next (.caller n), s', rfl, Option.bind_eq_some_iff.mpr ⟨c, hc, h⟩⟩
  cases c with
  | arriving | choosing =>
    exact ⟨.enter n, _, rfl, Option.bind_eq_some_iff.mpr ⟨_, hc, rfl⟩⟩
  | waiting =>
    exact ⟨.expire n 0, _, rfl, Option.bind_eq_some_iff.mpr ⟨_, hc, rfl⟩⟩
  | looking | reserved | sent | starting => exact hnext ⟨_, rfl⟩
  | trying | reserving | claiming | rescuing =>
    apply hnext
    simp only [callerNext]
    split <;> exact ⟨_, rfl⟩
  | accepted | refused => cases hopen

theorem worker_goes_on {w : Worker} (hw : s.workers[n]? = some w) (hruns : w.isRunning = false)
    (hgone : w ≠ .gone) : ∃ e s', Event.isOwn e ∧ s.step e = some s' := by
  have hnext : (∃ s', s.workerNext n w = some s') → ∃ e s', Event.isOwn e ∧ s.step e = some s' := by
    rintro ⟨s', h⟩
    exact ⟨.next (.worker n), s', rfl, Option.bind_eq_some_iff.mpr ⟨w, hw, h⟩⟩
  cases w with
  | queueing | listening =>
    exact ⟨.lapse n, _, rfl, Option.bind_eq_some_iff.mpr ⟨_, hw, rfl⟩⟩
  | free | turningAway | resuming | closing | lapsed | retiring | yielding | reviving | exiting =>
    exact hnext ⟨_, rfl⟩
  | entering | returning | peeking =>
    apply hnext
    simp only [workerNext]
    split <;> exact ⟨_, rfl⟩
  | running => cases hruns
  | gone => exact absurd rfl hgone

/-- A pool is at rest when all submissions have ended, and every worker is gone or runs a job. -/
theorem atRest_iff : s.AtRest ↔
    (∀ c ∈ s.callers, c.isDecided) ∧ ∀ w ∈ s.workers, w.isRunning ∨ w = .gone := by
  constructor
  · intro h
    have hstuck : ¬∃ e s', Event.isOwn e ∧ s.step e = some s' := by
      rintro ⟨e, s', hown, hstep⟩
      rw [h e hown] at hstep
      cases hstep
    refine ⟨fun c hc => ?_, fun w hw => ?_⟩
    · obtain ⟨n, hn⟩ := List.getElem?_of_mem hc
      by_contra hopen
      exact hstuck (caller_goes_on hn (Bool.not_eq_true _ ▸ hopen))
    · obtain ⟨n, hn⟩ := List.getElem?_of_mem hw
      by_contra hbusy
      rw [not_or, Bool.not_eq_true] at hbusy
      exact hstuck (worker_goes_on hn hbusy.1 hbusy.2)
  · rintro ⟨hcallers, hworkers⟩
    have hcaller : ∀ {n : Nat} {f : Caller → Option State},
        f .accepted = none → (∀ e, f (.refused e) = none) → s.callers[n]?.bind f = none := by
      intro n f haccepted hrefused
      refine Option.bind_eq_none_iff.mpr fun c hc => ?_
      have hdecided := hcallers c (List.mem_of_getElem? hc)
      cases c with
      | accepted => exact haccepted
      | refused e => exact hrefused e
      | _ => cases hdecided
    have hworker : ∀ {n : Nat} {f : Worker → Option State},
        f .gone = none → (∀ job, f (.running job) = none) → s.workers[n]?.bind f = none := by
      intro n f hgone hrunning
      refine Option.bind_eq_none_iff.mpr fun w hw => ?_
      rcases hworkers w (List.mem_of_getElem? hw) with hruns | rfl
      · cases w with
        | running job => exact hrunning job
        | _ => cases hruns
      · exact hgone
    intro e hown
    cases e with
    | submit | close | finish => cases hown
    | next p =>
      cases p with
      | caller n => exact hcaller rfl fun _ => rfl
      | worker n => exact hworker rfl fun _ => rfl
    | enter | cancel | reserve | claim | expire => exact hcaller rfl fun _ => rfl
    | lapse => exact hworker rfl fun _ => rfl

/-- What is accepted has been finished once nobody runs a job and the queue is empty. -/
theorem count_finished {job : Nat} (hs : s.Balanced slots) (hrest : s.AtRest)
    (hqueue : s.queue = none) (hidle : ∀ w ∈ s.workers, w.isRunning = false)
    (hjob : s.callers[job]? = some .accepted) : s.finished.count job = 1 := by
  have hplaces : s.places job = 1 := by
    rw [hs.jobs, handedOver, hjob]
    rfl
  have hheld : s.workers.countP (Worker.holds job) = 0 := by
    rw [List.countP_eq_zero]
    intro w hw
    rcases (atRest_iff.mp hrest).2 w hw with hruns | rfl
    · rw [hidle w hw] at hruns
      cases hruns
    · exact Bool.false_ne_true
  have hqueued : s.queued job = 0 := by
    rw [queued, hqueue]
    rfl
  unfold places at hplaces
  omega

/-- However callers and workers take turns: as long as no guard misses a job, somebody sees to the
queue at every moment, and a pool comes to rest with a job in its queue only while a worker runs a
job. When no job is left running either, every job that was accepted has been finished. -/
theorem queue_served (c : Config) (es : List Event) (s : State)
    (h : (new c.slots).run? es = some s) (hnone : (new c.slots).noneMissed es) :
    s.attended ∧ (s.AtRest → s.queue = none ∨ ∃ w ∈ s.workers, w.isRunning) ∧
    (s.AtRest → (∀ w ∈ s.workers, w.isRunning = false) → s.queue = none ∧
      ∀ job : Nat, s.callers[job]? = some .accepted → s.finished.count job = 1) := by
  have hs : s.Balanced c.slots := balanced_of_run (balanced_new _) h
  have hslots : 0 < c.slots := Nat.le_max_left 1 c.maxWorkers
  have hattended : s.attended :=
    attended_of_run (balanced_new _) hslots (closing_new _) rfl hnone h
  have hqueue : s.AtRest → s.queue = none ∨ ∃ w ∈ s.workers, w.isRunning := by
    intro hrest
    obtain ⟨hcallers, hworkers⟩ := atRest_iff.mp hrest
    rcases attended_iff.mp hattended with hempty | ⟨w, hw, hattends⟩ | ⟨c, hc, hattends⟩
    · exact .inl hempty
    · rcases hworkers w hw with hruns | rfl
      · exact .inr ⟨w, hw, hruns⟩
      · cases hattends
    · have hdecided := hcallers c hc
      cases c with
      | accepted | refused => cases hattends
      | _ => cases hdecided
  refine ⟨hattended, hqueue, fun hrest hidle => ?_⟩
  have hempty : s.queue = none := (hqueue hrest).resolve_right fun ⟨w, hw, hruns⟩ => by
    rw [hidle w hw] at hruns
    cases hruns
  exact ⟨hempty, fun job hjob => count_finished hs hrest hempty hidle hjob⟩

/-! ## Runs -/

/-- Whether some events lead to these callers, these workers and this job in the queue. -/
def Leads (slots : Nat) (es : List Event) (callers : List Caller) (workers : List Worker)
    (queue : Option Nat) : Prop :=
  ((new slots).run? es).map (fun s => (s.callers, s.workers, s.queue))
    = some (callers, workers, queue)

instance (slots : Nat) (es : List Event) (callers : List Caller) (workers : List Worker)
    (queue : Option Nat) : Decidable (Leads slots es callers workers queue) :=
  inferInstanceAs (Decidable (_ = _))

theorem Leads.exists_atRest {es : List Event} {callers : List Caller} {workers : List Worker}
    {queue : Option Nat} (h : Leads slots es callers workers queue)
    (hcallers : ∀ c ∈ callers, c.isDecided) (hworkers : ∀ w ∈ workers, w.isRunning ∨ w = .gone) :
    ∃ s, (new slots).run? es = some s ∧ s.AtRest ∧ s.callers = callers ∧ s.workers = workers ∧
      s.queue = queue := by
  obtain ⟨s, hs, heq⟩ := Option.map_eq_some_iff.mp h
  rw [Prod.mk.injEq, Prod.mk.injEq] at heq
  obtain ⟨rfl, rfl, rfl⟩ := heq
  exact ⟨s, hs, atRest_iff.mpr ⟨hcallers, hworkers⟩, rfl, rfl, rfl⟩

/-- An accepted job in the queue of a pool whose workers are all gone is left behind. -/
theorem Leads.leaves_behind {es : List Event} {callers : List Caller} {workers : List Worker}
    {job : Nat} (h : Leads slots es callers workers (some job))
    (hcallers : ∀ c ∈ callers, c.isDecided) (hworkers : ∀ w ∈ workers, w = .gone)
    (hjob : callers[job]? = some .accepted) :
    ∃ s, (new slots).run? es = some s ∧ s.AtRest ∧ s.workers = workers ∧
      s.callers[job]? = some .accepted ∧ s.queue = some job := by
  obtain ⟨s, hs, hrest, rfl, hgone, hqueue⟩ :=
    h.exists_atRest hcallers fun w hw => .inr (hworkers w hw)
  exact ⟨s, hs, hrest, hgone, hjob, hqueue⟩

/-- A caller goes some operations further. -/
def callerSteps (n k : Nat) : List Event := List.replicate k (.next (.caller n))

/-- A worker goes some operations further. -/
def workerSteps (n k : Nat) : List Event := List.replicate k (.next (.worker n))

/-- A caller starts a worker with its job. -/
def callerStarts (n : Nat) : List Event := [.submit, .enter n] ++ callerSteps n 3

/-- A caller gets the place in the queue while a worker is idle. -/
def callerComes (n : Nat) : List Event :=
  [.submit, .enter n] ++ callerSteps n 1 ++ [.enter n] ++ callerSteps n 1

/-- Two workers end their jobs, one listens, and the other waits to listen. -/
def bothIdle : List Event :=
  callerStarts 0 ++ callerStarts 1 ++ [.finish 0, .finish 1] ++ workerSteps 0 2 ++ workerSteps 1 2

/-- The listening worker leaves. It is turned away from the job in the queue, as the other worker
is to listen, and that one runs the job before it leaves too. -/
def servedEvents : List Event :=
  bothIdle ++ [.lapse 0] ++ workerSteps 0 2 ++ callerComes 2 ++ callerSteps 2 1 ++
    workerSteps 0 2 ++ callerSteps 2 1 ++ workerSteps 1 4 ++ [.finish 1] ++ workerSteps 1 2 ++
    [.lapse 1] ++ workerSteps 1 6

theorem queue_served_three :
    ∃ s, (new (Config.mk 2 100 100).slots).run? servedEvents = some s ∧ s.AtRest ∧
      s.queue = none ∧ s.finished.count 2 = 1 := by
  have hrun : Leads 2 servedEvents [.accepted, .accepted, .accepted] [.gone, .gone] none := by
    decide +kernel
  obtain ⟨s, hs, hrest, hcallers, hworkers, -⟩ := hrun.exists_atRest (by decide) (by decide)
  obtain ⟨-, -, hserved⟩ := queue_served ⟨2, 100, 100⟩ servedEvents s hs (by decide +kernel)
  obtain ⟨hqueue, hfinished⟩ := hserved hrest (by
    rw [hworkers]
    decide)
  exact ⟨s, hs, hrest, hqueue, hfinished 2 (by rw [hcallers]; rfl)⟩

/-- The only worker looks for the last time, then a job is put into the queue. Its caller finds no
worker alive and the slot taken, and after that the worker gives the slot back. -/
def slotHeldEvents : List Event :=
  callerStarts 0 ++ [.finish 0] ++ workerSteps 0 2 ++ callerComes 1 ++ [.lapse 0] ++
    workerSteps 0 5 ++ callerSteps 1 3 ++ workerSteps 0 1

/-- The only worker leaves, and its slot is granted to a caller that waits. A job is put into the
queue. Its caller finds no worker alive and no slot free, and after that the other caller is
cancelled. -/
def slotGrantedEvents : List Event :=
  callerStarts 0 ++ [.finish 0] ++ workerSteps 0 2 ++ callerComes 1 ++ callerComes 2 ++
    callerSteps 2 1 ++ [.lapse 0] ++ workerSteps 0 6 ++ callerSteps 1 3 ++ [.cancel 2]

/-- Both workers leave. One looks for the last time, then a job is put into the queue. Its caller
finds the other worker alive, which is turned away from the queue. -/
def earHeldEvents : List Event :=
  bothIdle ++ callerComes 2 ++ [.lapse 1, .lapse 0] ++ workerSteps 0 4 ++ callerSteps 2 2 ++
    workerSteps 1 4 ++ workerSteps 0 2

/-- A pool comes to rest with a job that was accepted in its queue, without any worker left, and
with slots that are free again. -/
theorem job_left_behind :
    (∃ s, (new (Config.mk 1 100 100).slots).run? slotHeldEvents = some s ∧ s.AtRest ∧
      s.workers = [.gone] ∧ s.callers[1]? = some .accepted ∧ s.queue = some 1) ∧
    (∃ s, (new (Config.mk 1 100 100).slots).run? slotGrantedEvents = some s ∧ s.AtRest ∧
      s.workers = [.gone] ∧ s.callers[1]? = some .accepted ∧ s.queue = some 1) ∧
    ∃ s, (new (Config.mk 2 100 100).slots).run? earHeldEvents = some s ∧ s.AtRest ∧
      s.workers = [.gone, .gone] ∧ s.callers[2]? = some .accepted ∧ s.queue = some 2 := by
  have hheld : Leads 1 slotHeldEvents [.accepted, .accepted] [.gone] (some 1) := by
    decide +kernel
  have hgranted : Leads 1 slotGrantedEvents [.accepted, .accepted, .refused .cancelled] [.gone]
      (some 1) := by
    decide +kernel
  have hear : Leads 2 earHeldEvents [.accepted, .accepted, .accepted] [.gone, .gone] (some 2) := by
    decide +kernel
  exact ⟨hheld.leaves_behind (by decide) (by decide) rfl,
    hgranted.leaves_behind (by decide) (by decide) rfl,
    hear.leaves_behind (by decide) (by decide) rfl⟩

end State

end RegionPricing.Pool
