import RegionPricing.Proofs.Pool.Moves

/-!
# What the pool keeps and what it runs

Every step keeps the balance of a pool, and so does every run of steps. From it follow
the bounds on the workers, and that a job which has been handed over is in one place.

A job is launched when a worker begins to run it. Over a run a job has been launched as
often as it is running or finished, hence once at most, and never when its caller has
been refused.
-/

namespace RegionPricing.Pool

namespace State

variable {slots n : Nat} {s s' : State}

/-! ## A step keeps the balance -/

theorem countP_set_add {α : Type} {l : List α} {a : α} (h : l[n]? = some a) (p : α → Bool)
    (b : α) : (l.set n b).countP p + (p a).toNat = l.countP p + (p b).toNat := by
  induction l generalizing n with
  | nil => cases h
  | cons x l ih =>
    cases n with
    | zero =>
      obtain rfl := Option.some.inj h
      simp only [List.set_cons_zero, List.countP_cons]
      cases p x <;> cases p b <;> simp
    | succ n =>
      have := ih h
      simp only [List.set_cons_succ, List.countP_cons]
      omega

/-- One more at the end, without the property, changes nothing. -/
theorem any_getElem?_concat {α : Type} (l : List α) {a : α} {p : α → Bool} (h : p a = false)
    (m : Nat) : ((l ++ [a])[m]?).any p = (l[m]?).any p := by
  rcases Nat.lt_trichotomy m l.length with hlt | rfl | hgt
  · rw [List.getElem?_append_left hlt]
  · rw [List.getElem?_concat_length, List.getElem?_eq_none (Nat.le_refl _)]
    exact h
  · have hlen : (l ++ [a]).length ≤ m := by
      rw [List.length_append, List.length_singleton]
      omega
    rw [List.getElem?_eq_none hlen, List.getElem?_eq_none (Nat.le_of_lt hgt)]

theorem CallerMoves.handedOver {c c' : Caller} (hc : s.callers[n]? = some c)
    (h : s.CallerMoves s' n c c') (job : Nat) :
    s'.handedOver job = if job = n then c'.handedOver else s.handedOver job := by
  unfold State.handedOver
  rw [h.callers, List.getElem?_set]
  obtain ⟨hn, _⟩ := List.getElem?_eq_some_iff.mp hc
  by_cases hjob : job = n
  · rw [if_pos hjob, if_pos hjob.symm, if_pos hn, Option.any_some]
  · rw [if_neg hjob, if_neg (Ne.symm hjob)]

theorem CallerMoves.balanced {c c' : Caller} (hs : s.Balanced slots)
    (hc : s.callers[n]? = some c) (h : s.CallerMoves s' n c c') : s'.Balanced slots where
  slots := by
    have hcount := countP_set_add hc Caller.holdsSlot c'
    have hslots := hs.slots
    have hmove := h.slots
    unfold held at hslots ⊢
    rw [h.callers, h.workers]
    omega
  place := by
    have hcount := countP_set_add hc Caller.holdsPlace c'
    have hplace := hs.place
    have hmove := h.place
    rw [h.callers]
    omega
  ear := by rw [h.workers, h.ear, hs.ear]
  requests m := by rw [h.workers, h.ear, hs.requests]
  alive := by rw [h.workers, h.alive, hs.alive]
  idle := by rw [h.workers, h.idle, hs.idle]
  jobs job := by
    have hjobs := hs.jobs job
    unfold places at hjobs ⊢
    rw [h.workers, h.finished, h.handedOver hc]
    by_cases hjob : job = n
    · -- the caller's own job enters the queue exactly when it leaves the caller
      subst hjob
      have hown := h.own
      unfold State.handedOver at hjobs
      rw [hc, Option.any_some] at hjobs
      rw [if_pos rfl]
      omega
    · rw [if_neg hjob, h.others job hjob, hjobs]

theorem CallerStarts.balanced {withJob : Bool} (hs : s.Balanced slots)
    (hc : s.callers[n]? = some (.starting withJob)) (h : s.CallerStarts s' n withJob) :
    s'.Balanced slots := by
  have hworkers : ∀ p : Worker → Bool, s'.workers.countP p
      = s.workers.countP p + (p (if withJob then .running n else .free)).toNat := by
    intro p
    rw [h.workers, List.countP_append, List.countP_singleton]
    cases p _ <;> rfl
  constructor
  · have hcount := countP_set_add hc Caller.holdsSlot .accepted
    have hslots := hs.slots
    unfold held at hslots ⊢
    rw [h.callers, hworkers, h.slots]
    have hslot : Worker.holdsSlot (if withJob then .running n else .free) = true := by
      cases withJob <;> rfl
    rw [hslot]
    simp only [Caller.holdsSlot, Bool.toNat_true, Bool.toNat_false] at hcount ⊢
    omega
  · have hcount := countP_set_add hc Caller.holdsPlace .accepted
    have hplace := hs.place
    rw [h.callers, h.queue, h.place]
    simp only [Caller.holdsPlace, Bool.toNat_false] at hcount
    omega
  · have hear := hs.ear
    rw [hworkers, h.ear]
    cases withJob <;> exact hear
  · intro m
    rw [h.workers, h.ear, hs.requests]
    -- the new worker has asked for nothing
    rw [any_getElem?_concat]
    cases withJob <;> rfl
  · rw [hworkers, h.alive, hs.alive]
    cases withJob <;> rfl
  · rw [hworkers, h.idle, hs.idle]
    cases withJob <;> rfl
  · intro job
    have hjobs := hs.jobs job
    unfold places queued State.handedOver at hjobs ⊢
    rw [hworkers, h.queue, h.finished, h.callers, List.getElem?_set]
    obtain ⟨hn, _⟩ := List.getElem?_eq_some_iff.mp hc
    by_cases hjob : job = n
    · subst hjob
      rw [hc, Option.any_some] at hjobs
      rw [if_pos rfl, if_pos hn, Option.any_some]
      -- the worker has the job, or the caller had handed it over before
      cases withJob with
      | true =>
        simp only [if_true, Worker.holds, Caller.handedOver, decide_true, Bool.toNat_true,
          Bool.toNat_false] at hjobs ⊢
        omega
      | false =>
        simp only [Bool.false_eq_true, if_false, Worker.holds, Caller.handedOver, Bool.toNat_true,
          Bool.toNat_false] at hjobs ⊢
        omega
    · rw [if_neg (Ne.symm hjob)]
      have hother : Worker.holds job (if withJob then .running n else .free) = false := by
        cases withJob with
        | true => exact decide_eq_false (Ne.symm hjob)
        | false => rfl
      rw [hother]
      exact hjobs

theorem WorkerMoves.balanced {w w' : Worker} (hs : s.Balanced slots)
    (hw : s.workers[n]? = some w) (h : s.WorkerMoves s' n w w') : s'.Balanced slots where
  slots := by
    have hcount := countP_set_add hw Worker.holdsSlot w'
    have hslots := hs.slots
    have hmove := h.slots
    unfold held at hslots ⊢
    rw [h.callers, h.workers]
    omega
  place := by
    have hplace := hs.place
    have hmove := h.place
    rw [h.callers]
    omega
  ear := by
    have hcount := countP_set_add hw Worker.holdsEar w'
    have hear := hs.ear
    have hmove := h.ear.unheld
    rw [h.workers]
    omega
  requests m := by
    have hrequests := hs.requests m
    rw [h.workers, List.getElem?_set]
    obtain ⟨hn, _⟩ := List.getElem?_eq_some_iff.mp hw
    by_cases hm : n = m
    · subst hm
      have hmove := h.ear.own
      rw [hw, Option.any_some] at hrequests
      rw [if_pos rfl, if_pos hn, Option.any_some]
      omega
    · rw [if_neg hm, h.ear.others m hm, hrequests]
  alive := by
    have hcount := countP_set_add hw Worker.isAlive w'
    have halive := hs.alive
    have hmove := h.alive
    rw [h.workers]
    omega
  idle := by
    have hcount := countP_set_add hw Worker.isIdle w'
    have hidle := hs.idle
    have hmove := h.idle
    rw [h.workers]
    omega
  jobs job := by
    have hcount := countP_set_add hw (Worker.holds job) w'
    have hjobs := hs.jobs job
    have hmove := h.jobs job
    unfold places State.handedOver at hjobs ⊢
    rw [h.callers, h.workers]
    omega

/-- A caller that has just come still has its job. -/
theorem handedOver_submit (s : State) (job : Nat) :
    handedOver { s with callers := s.callers ++ [.arriving] } job = s.handedOver job :=
  any_getElem?_concat s.callers rfl job

theorem Moves.balanced (hs : s.Balanced slots) (h : s.Moves s') : s'.Balanced slots := by
  cases h with
  | caller hc h => exact h.balanced hs hc
  | starts hc h => exact h.balanced hs hc
  | worker hw h => exact h.balanced hs hw
  | closes h =>
    subst h
    exact ⟨hs.slots, hs.place, hs.ear, hs.requests, hs.alive, hs.idle, hs.jobs⟩
  | submits h =>
    subst h
    refine ⟨?_, ?_, hs.ear, hs.requests, hs.alive, hs.idle, fun job => ?_⟩
    · have hslots := hs.slots
      unfold held at hslots ⊢
      simpa [Caller.holdsSlot] using hslots
    · have hplace := hs.place
      simpa [Caller.holdsPlace] using hplace
    · rw [handedOver_submit]
      exact hs.jobs job

theorem balanced_of_step {e : Event} (hs : s.Balanced slots) (hstep : s.step e = some s') :
    s'.Balanced slots :=
  (moves_of_step hs hstep).balanced hs

/-! ## Launches -/

/-- How often workers begin to run a job from one moment to the next. -/
def launched (job : Nat) : List Worker → List Worker → Nat
  | w :: before, w' :: after => (w'.runs job && !w.runs job).toNat + launched job before after
  | [], after => after.countP (Worker.runs job)
  | _ :: _, [] => 0

theorem launched_append (job : Nat) (before after : List Worker) :
    launched job before (before ++ after) = after.countP (Worker.runs job) := by
  induction before with
  | nil => rfl
  | cons w before ih =>
    show (w.runs job && !w.runs job).toNat + launched job before (before ++ after) = _
    rw [ih, Bool.and_not_self, Bool.toNat_false, Nat.zero_add]

theorem launched_self (job : Nat) (workers : List Worker) : launched job workers workers = 0 := by
  have := launched_append job workers []
  rwa [List.append_nil] at this

theorem launched_set (job : Nat) {w w' : Worker} {workers : List Worker}
    (h : workers[n]? = some w) :
    launched job workers (workers.set n w') = (w'.runs job && !w.runs job).toNat := by
  induction workers generalizing n with
  | nil => cases h
  | cons x workers ih =>
    cases n with
    | zero =>
      obtain rfl := Option.some.inj h
      show _ + launched job workers workers = _
      rw [launched_self, Nat.add_zero]
    | succ n =>
      show (x.runs job && !x.runs job).toNat + launched job workers (workers.set n w') = _
      rw [ih h, Bool.and_not_self, Bool.toNat_false, Nat.zero_add]

/-- How often a job is or was run. -/
def taken (s : State) (job : Nat) : Nat :=
  s.workers.countP (Worker.runs job) + s.finished.count job

/-- What is run after a step was run before it or is launched by it. -/
theorem Moves.taken (h : s.Moves s') (job : Nat) :
    launched job s.workers s'.workers + s.taken job = s'.taken job := by
  unfold State.taken
  cases h with
  | caller _ h =>
    rw [h.workers, h.finished, launched_self, Nat.zero_add]
  | starts _ h =>
    rw [h.workers, h.finished, launched_append, List.countP_append]
    omega
  | @worker n w w' hw h =>
    have hcount := countP_set_add hw (Worker.runs job) w'
    rw [h.workers, h.finished, launched_set job hw]
    -- the job is launched, goes on, is finished or is with another worker
    generalize w.runs job = r at hcount ⊢
    generalize w'.runs job = r' at hcount ⊢
    cases r <;> cases r' <;>
      simp only [Bool.toNat_true, Bool.toNat_false, Bool.and_true, Bool.and_false, Bool.not_true,
        Bool.not_false] at hcount ⊢ <;> omega
  | submits h =>
    rw [h, launched_self, Nat.zero_add]
  | closes h =>
    rw [h, launched_self, Nat.zero_add]

/-! ## Runs -/

/-- The pool after some events, if they can happen one after the other. -/
def run? (s : State) : List Event → Option State
  | [] => some s
  | e :: es => (s.step e).bind fun s' => s'.run? es

/-- How often a job is launched while some events happen. -/
def launches (job : Nat) (s : State) : List Event → Nat
  | [] => 0
  | e :: es =>
    match s.step e with
    | some s' => launched job s.workers s'.workers + s'.launches job es
    | none => 0

theorem run?_cons {e : Event} {es : List Event} :
    s.run? (e :: es) = some s' ↔ ∃ t, s.step e = some t ∧ t.run? es = some s' :=
  Option.bind_eq_some_iff

theorem balanced_of_run {es : List Event} (hs : s.Balanced slots) (h : s.run? es = some s') :
    s'.Balanced slots := by
  induction es generalizing s with
  | nil => exact Option.some.inj h ▸ hs
  | cons e es ih =>
    obtain ⟨t, hstep, hrun⟩ := run?_cons.mp h
    exact ih (balanced_of_step hs hstep) hrun

theorem taken_of_run (job : Nat) {es : List Event} (hs : s.Balanced slots)
    (h : s.run? es = some s') : s.launches job es + s.taken job = s'.taken job := by
  induction es generalizing s with
  | nil =>
    obtain rfl := Option.some.inj h
    exact Nat.zero_add _
  | cons e es ih =>
    -- what the first event launches is run after it, and counts for the other events
    obtain ⟨t, hstep, hrun⟩ := run?_cons.mp h
    have hfirst := (moves_of_step hs hstep).taken job
    have hrest := ih (balanced_of_step hs hstep) hrun
    unfold launches
    rw [hstep]
    show _ + _ + _ = _
    omega

/-- How a submission has ended does not change any more. -/
theorem Moves.decided {c : Caller} (h : s.Moves s') (hc : s.callers[n]? = some c)
    (hdecided : c.isDecided) : s'.callers[n]? = some c := by
  have hset : ∀ {m : Nat} {d d' : Caller}, s.callers[m]? = some d → d.isDecided = false →
      (s.callers.set m d')[n]? = some c := by
    intro m d d' hd hopen
    by_cases hmn : m = n
    · -- only a submission that has not ended goes on
      subst hmn
      obtain rfl := Option.some.inj (hc.symm.trans hd)
      rw [hdecided] at hopen
      cases hopen
    · rw [List.getElem?_set_ne hmn, hc]
  cases h with
  | caller hd h =>
    rw [h.callers]
    exact hset hd h.undecided
  | starts hd h =>
    rw [h.callers]
    exact hset hd rfl
  | worker _ h => rw [h.callers, hc]
  | submits h =>
    obtain ⟨hn, _⟩ := List.getElem?_eq_some_iff.mp hc
    rw [h]
    exact (List.getElem?_append_left hn).trans hc
  | closes h => rw [h, ← hc]

/-- Workers are bounded by the slots, and so are the jobs that run. -/
theorem Balanced.bounds (h : s.Balanced slots) :
    s.idle ≤ s.alive ∧ s.alive ≤ s.held ∧ s.held ≤ slots ∧
      s.workers.countP Worker.isRunning ≤ slots := by
  have hheld : s.held ≤ slots := by
    rw [← h.slots]
    exact Nat.le_add_right _ _
  have hworkers : s.workers.countP Worker.holdsSlot ≤ s.held := Nat.le_add_left _ _
  refine ⟨?_, ?_, hheld, ?_⟩
  · rw [← h.idle, ← h.alive]
    exact List.countP_mono_left fun w _ => w.isAlive_of_isIdle
  · rw [← h.alive]
    exact Nat.le_trans (List.countP_mono_left fun w _ => w.holdsSlot_of_isAlive) hworkers
  · have hrunning : s.workers.countP Worker.isRunning ≤ s.workers.countP Worker.holdsSlot :=
      List.countP_mono_left fun w _ => w.holdsSlot_of_isRunning
    omega

theorem taken_le_places (s : State) (job : Nat) : s.taken job ≤ s.places job := by
  have hworkers : s.workers.countP (Worker.runs job) ≤ s.workers.countP (Worker.holds job) :=
    List.countP_mono_left fun w _ => w.holds_of_runs job
  unfold taken places
  omega

/-- However callers and workers take turns, the workers of a pool stay within its slots, a
job that has been accepted is in one place and has been launched once at most, and one that has
been refused has never been launched. -/
theorem run_exactly_once (c : Config) (es : List Event) (s : State)
    (h : (new c.slots).run? es = some s) :
    (s.idle ≤ s.alive ∧ s.alive ≤ s.held ∧ s.held ≤ max 1 c.maxWorkers) ∧
    s.workers.countP Worker.isRunning ≤ max 1 c.maxWorkers ∧
    (∀ job : Nat, s.callers[job]? = some .accepted →
      s.places job = 1 ∧ (new c.slots).launches job es ≤ 1) ∧
    (∀ (job : Nat) (e : SubmitError), s.callers[job]? = some (.refused e) →
      s.places job = 0 ∧ (new c.slots).launches job es = 0) ∧
    ∀ (job : Nat) (caller : Caller) (e : Event) (s' : State),
      s.callers[job]? = some caller → caller.isDecided → s.step e = some s' →
      s'.callers[job]? = some caller := by
  have hs : s.Balanced c.slots := balanced_of_run (balanced_new _) h
  obtain ⟨hidle, halive, hheld, hrunning⟩ := hs.bounds
  have hlaunches : ∀ job, (new c.slots).launches job es ≤ s.places job := by
    intro job
    have htaken := taken_of_run job (balanced_new c.slots) h
    have hplaces := s.taken_le_places job
    omega
  refine ⟨⟨hidle, halive, hheld⟩, hrunning, fun job hjob => ?_, fun job e hjob => ?_,
    fun job caller e s' hjob hdecided hstep => ?_⟩
  · have hplaces : s.places job = 1 := by
      rw [hs.jobs, State.handedOver, hjob]
      rfl
    exact ⟨hplaces, hplaces ▸ hlaunches job⟩
  · have hplaces : s.places job = 0 := by
      rw [hs.jobs, State.handedOver, hjob]
      rfl
    exact ⟨hplaces, Nat.le_zero.mp (hplaces ▸ hlaunches job)⟩
  · exact (moves_of_step hs hstep).decided hjob hdecided

/-- One worker, three callers: the first starts the worker, the second has its job queued, the
third is cancelled. -/
def sampleEvents : List Event :=
  [.submit, .enter 0, .next (.caller 0), .next (.caller 0), .next (.caller 0),
    .submit, .enter 1, .next (.caller 1), .next (.caller 1), .enter 1, .next (.caller 1),
    .next (.caller 1), .next (.caller 1), .submit, .cancel 2, .finish 0, .next (.worker 0),
    .next (.worker 0), .next (.worker 0), .next (.worker 0), .next (.worker 0)]

/-- The second job runs once the first has ended, and the third never. -/
theorem run_exactly_once_three :
    ∃ s, (new (Config.mk 1 100 100).slots).run? sampleEvents = some s ∧
      s.workers = [.running 1] ∧ s.finished = [0] ∧ s.alive = 1 ∧ s.held ≤ 1 ∧
      s.places 1 = 1 ∧ (new 1).launches 1 sampleEvents ≤ 1 ∧ (new 1).launches 2 sampleEvents = 0 ∧
      ∀ e s', s.step e = some s' → s'.callers[0]? = some .accepted := by
  have hstate : ((new (Config.mk 1 100 100).slots).run? sampleEvents).map (fun s =>
      (s.callers, s.workers, s.finished, s.alive))
      = some ([.accepted, .accepted, .refused .cancelled], [.running 1], [0], 1) := by
    decide +kernel
  obtain ⟨s, hs, heq⟩ := Option.map_eq_some_iff.mp hstate
  obtain ⟨hcallers, hworkers, hfinished, halive⟩ :
      s.callers = _ ∧ s.workers = _ ∧ s.finished = _ ∧ s.alive = _ := by
    simpa only [Prod.mk.injEq] using heq
  obtain ⟨⟨_, _, hheld⟩, _, haccepted, hrefused, hdecided⟩ :=
    run_exactly_once ⟨1, 100, 100⟩ sampleEvents s hs
  obtain ⟨hplaces, hlaunches⟩ := haccepted 1 (by rw [hcallers]; rfl)
  obtain ⟨_, hnever⟩ := hrefused 2 .cancelled (by rw [hcallers]; rfl)
  refine ⟨s, hs, hworkers, hfinished, halive, hheld, hplaces, hlaunches, hnever, ?_⟩
  exact fun e s' hstep => hdecided 0 .accepted e s' (by rw [hcallers]; rfl) rfl hstep

end State

end RegionPricing.Pool
