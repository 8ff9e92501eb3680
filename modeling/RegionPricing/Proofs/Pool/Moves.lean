import Mathlib.Data.Bool.Basic
import RegionPricing.Pool.State

/-!
# What a step of the pool does

Slots, the place in the queue and jobs pass from one party to another, one operation at a
time. `State.Balanced` counts who holds what: a slot is free or with one caller or worker,
the place is free, with one caller or in use by the one job in the queue, the ear is free or
with one worker, who asks for it waits for it, and the job of a caller that has handed it
over is in the queue, with one worker or finished. The counters of the pool are what the
workers say of themselves.

What a step does is told once, by `State.Moves`: one party goes on, and what it gives up
or takes is what the pool takes or gives up. Sums are compared with additions on both
sides, so that no difference is cut off at zero.
-/

namespace RegionPricing.Pool

theorem count_singleton_eq (a b : Nat) : [a].count b = (decide (a = b)).toNat := by
  rw [List.count_singleton]
  by_cases h : a = b <;> simp [h]

theorem decide_some_eq (a b : Nat) : decide (some a = some b) = decide (a = b) :=
  decide_eq_decide.mpr Option.some_inj

/-! ## Permits -/

namespace Permits

variable {p p' : Permits} {who : Nat}

theorem unheld_take? (h : p.take? = some p') : p'.unheld + 1 = p.unheld := by
  unfold take? at h
  split at h
  · rename_i hfree
    obtain rfl := Option.some.inj h
    show p.free - 1 + p.granted.length + 1 = p.free + p.granted.length
    omega
  · exact absurd h (by simp)

theorem unheld_request (p : Permits) (who : Nat) :
    (p.request who).1.toNat + (p.request who).2.unheld = p.unheld := by
  unfold request
  split
  · show 1 + (p.free - 1 + p.granted.length) = p.free + p.granted.length
    omega
  · exact Nat.zero_add _

theorem unheld_release (p : Permits) : p.release.unheld = p.unheld + 1 := by
  unfold release
  split
  · show p.free + 1 + p.granted.length = p.free + p.granted.length + 1
    omega
  · show p.free + (p.granted ++ [_]).length = p.free + p.granted.length + 1
    rw [List.length_append, List.length_singleton]
    omega

theorem unheld_collect (h : who ∈ p.granted) : (p.collect who).unheld + 1 = p.unheld := by
  show p.free + (p.granted.erase who).length + 1 = p.free + p.granted.length
  have := List.length_pos_of_mem h
  rw [List.length_erase_of_mem h]
  omega

theorem unheld_withdraw (p : Permits) (who : Nat) : (p.withdraw who).unheld = p.unheld := by
  unfold withdraw
  split
  · rename_i h
    rw [unheld_release, unheld_collect h]
  · rfl

/-- How often somebody waits for a permit or has been granted one. -/
def requests (p : Permits) (who : Nat) : Nat := p.waiting.count who + p.granted.count who

theorem requests_take? (h : p.take? = some p') (m : Nat) : p'.requests m = p.requests m := by
  unfold take? at h
  split at h
  · obtain rfl := Option.some.inj h
    rfl
  · cases h

theorem requests_request (p : Permits) (who m : Nat) :
    (p.request who).2.requests m
      = p.requests m + (!(p.request who).1 && decide (who = m)).toNat := by
  unfold request requests
  split
  · rfl
  · show (p.waiting ++ [who]).count m + p.granted.count m = _
    rw [List.count_append, count_singleton_eq, Bool.not_false, Bool.true_and]
    omega

theorem requests_release (p : Permits) (m : Nat) : p.release.requests m = p.requests m := by
  unfold release
  split
  · rfl
  next who rest h =>
    -- the first of those who wait is granted the permit
    show rest.count m + (p.granted ++ [who]).count m = p.waiting.count m + p.granted.count m
    rw [h, List.count_append, List.count_singleton, List.count_cons]
    omega

theorem count_erase_add {l : List Nat} (h : who ∈ l) (m : Nat) :
    (l.erase who).count m + (decide (who = m)).toNat = l.count m := by
  have hpos : 0 < l.count who := List.count_pos_iff.mpr h
  by_cases hm : who = m
  · subst hm
    rw [List.count_erase_self, decide_eq_true rfl, Bool.toNat_true]
    omega
  · rw [List.count_erase_of_ne (Ne.symm hm), decide_eq_false hm]
    rfl

theorem requests_collect (h : who ∈ p.granted) (m : Nat) :
    (p.collect who).requests m + (decide (who = m)).toNat = p.requests m := by
  have hcount := count_erase_add h m
  show p.waiting.count m + (p.granted.erase who).count m + _ = _
  unfold requests
  omega

theorem requests_withdraw (h : 0 < p.requests who) (m : Nat) :
    (p.withdraw who).requests m + (decide (who = m)).toNat = p.requests m := by
  unfold withdraw
  by_cases hgranted : who ∈ p.granted
  · rw [if_pos hgranted, requests_release, requests_collect hgranted]
  · rw [if_neg hgranted]
    have hwaits : who ∈ p.waiting := by
      unfold requests at h
      rw [List.count_eq_zero_of_not_mem hgranted] at h
      exact List.count_pos_iff.mp h
    have hcount := count_erase_add hwaits m
    show (p.waiting.erase who).count m + p.granted.count m + _ = _
    unfold requests
    omega

end Permits

/-! ## Who holds what -/

namespace Caller

def holdsSlot : Caller → Bool
  | .starting _ => true
  | _ => false

def holdsPlace : Caller → Bool
  | .reserved => true
  | _ => false

/-- Whether the job has left the caller. -/
def handedOver : Caller → Bool
  | .sent | .rescuing | .starting false | .accepted => true
  | _ => false

end Caller

namespace Worker

def holdsSlot : Worker → Bool
  | .gone => false
  | _ => true

/-- Whether the worker says that it is alive. -/
def isAlive : Worker → Bool
  | .returning | .peeking | .yielding _ | .reviving _ | .exiting | .gone => false
  | _ => true

/-- Whether the worker says that it is idle. -/
def isIdle : Worker → Bool
  | .entering | .queueing | .listening | .turningAway _ | .resuming _ | .lapsed => true
  | _ => false

/-- Whether nobody else may listen to the queue. -/
def holdsEar : Worker → Bool
  | .listening | .turningAway _ | .peeking | .yielding _ => true
  | _ => false

def awaitsEar : Worker → Bool
  | .queueing => true
  | _ => false

def isRunning : Worker → Bool
  | .running _ => true
  | _ => false

def runs (job : Nat) (w : Worker) : Bool := w = .running job

/-- Whether the worker has a job, which it runs or is about to run. -/
def holds (job : Nat) : Worker → Bool
  | .running j | .reviving j => j = job
  | .turningAway j | .resuming j | .yielding j => j = some job
  | _ => false

theorem isAlive_of_isIdle (w : Worker) (h : w.isIdle) : w.isAlive := by
  cases w with
  | entering | queueing | listening | turningAway | resuming | lapsed => rfl
  | _ => cases h

theorem holdsSlot_of_isAlive (w : Worker) (h : w.isAlive) : w.holdsSlot := by
  cases w with
  | gone => cases h
  | _ => rfl

theorem holdsSlot_of_isRunning (w : Worker) (h : w.isRunning) : w.holdsSlot := by
  cases w with
  | running => rfl
  | _ => cases h

theorem holds_of_runs (job : Nat) (w : Worker) (h : w.runs job) : w.holds job := by
  rw [of_decide_eq_true h]
  exact decide_eq_true rfl

end Worker

namespace State

/-- How many slots callers and workers hold. -/
def held (s : State) : Nat :=
  s.callers.countP Caller.holdsSlot + s.workers.countP Worker.holdsSlot

/-- How often a job waits in the queue. -/
def queued (s : State) (job : Nat) : Nat := s.queue.toList.count job

/-- How often a job is in the pool: in the queue, with a worker or finished. -/
def places (s : State) (job : Nat) : Nat :=
  s.queued job + s.workers.countP (Worker.holds job) + s.finished.count job

/-- Whether a caller has handed its job over. -/
def handedOver (s : State) (job : Nat) : Bool := s.callers[job]?.any Caller.handedOver

/-- Nothing is lost and nothing is there twice. -/
structure Balanced (slots : Nat) (s : State) : Prop where
  slots : s.held + s.slots.unheld = slots
  place : s.callers.countP Caller.holdsPlace + s.queue.toList.length + s.place.unheld = 1
  ear : s.workers.countP Worker.holdsEar + s.ear.unheld = 1
  requests : ∀ n, s.ear.requests n = (s.workers[n]?.any Worker.awaitsEar).toNat
  alive : s.workers.countP Worker.isAlive = s.alive
  idle : s.workers.countP Worker.isIdle = s.idle
  jobs : ∀ job, s.places job = (s.handedOver job).toNat

theorem balanced_new (slots : Nat) : (new slots).Balanced slots where
  slots := Nat.zero_add _
  place := rfl
  ear := rfl
  requests _ := rfl
  alive := rfl
  idle := rfl
  jobs _ := rfl

/-! ## What a step does -/

/-- A caller goes on, and takes or gives up a slot or the place in the queue. -/
structure CallerMoves (s s' : State) (n : Nat) (c c' : Caller) : Prop where
  undecided : c.isDecided = false
  callers : s'.callers = s.callers.set n c'
  workers : s'.workers = s.workers
  slots : c'.holdsSlot.toNat + s'.slots.unheld = c.holdsSlot.toNat + s.slots.unheld
  place : c'.holdsPlace.toNat + s'.queue.toList.length + s'.place.unheld
    = c.holdsPlace.toNat + s.queue.toList.length + s.place.unheld
  ear : s'.ear = s.ear
  alive : s'.alive = s.alive
  idle : s'.idle = s.idle
  finished : s'.finished = s.finished
  /-- The caller's job enters the queue when it leaves the caller. -/
  own : s'.queued n + c.handedOver.toNat = s.queued n + c'.handedOver.toNat
  others : ∀ job, job ≠ n → s'.queued job = s.queued job

/-- A caller starts a worker and gives it the slot. -/
structure CallerStarts (s s' : State) (n : Nat) (withJob : Bool) : Prop where
  callers : s'.callers = s.callers.set n .accepted
  workers : s'.workers = s.workers ++ [if withJob then .running n else .free]
  slots : s'.slots = s.slots
  place : s'.place = s.place
  ear : s'.ear = s.ear
  queue : s'.queue = s.queue
  alive : s'.alive = s.alive + 1
  idle : s'.idle = s.idle
  finished : s'.finished = s.finished

/-- A worker takes or gives up the ear, or its request for it. -/
structure EarMoves (ear ear' : Permits) (n : Nat) (w w' : Worker) : Prop where
  unheld : w'.holdsEar.toNat + ear'.unheld = w.holdsEar.toNat + ear.unheld
  own : ear'.requests n + w.awaitsEar.toNat = ear.requests n + w'.awaitsEar.toNat
  others : ∀ m, n ≠ m → ear'.requests m = ear.requests m

/-- A worker goes on, and the counters follow. -/
structure WorkerMoves (s s' : State) (n : Nat) (w w' : Worker) : Prop where
  callers : s'.callers = s.callers
  workers : s'.workers = s.workers.set n w'
  slots : w'.holdsSlot.toNat + s'.slots.unheld = w.holdsSlot.toNat + s.slots.unheld
  place : s'.queue.toList.length + s'.place.unheld = s.queue.toList.length + s.place.unheld
  ear : EarMoves s.ear s'.ear n w w'
  alive : s'.alive + w.isAlive.toNat = s.alive + w'.isAlive.toNat
  idle : s'.idle + w.isIdle.toNat = s.idle + w'.isIdle.toNat
  /-- A job comes out of the queue to a worker. -/
  jobs : ∀ job, s'.queued job + (w'.holds job).toNat + s'.finished.count job
    = s.queued job + (w.holds job).toNat + s.finished.count job
  /-- A job that a worker runs no more is finished. -/
  finished : ∀ job,
    s'.finished.count job = s.finished.count job + (w.runs job && !w'.runs job).toNat

/-- What there is to a step: one party goes on, or a caller comes, or none can come any more. -/
inductive Moves (s s' : State) : Prop where
  | caller {n : Nat} {c c' : Caller} (there : s.callers[n]? = some c)
      (moves : s.CallerMoves s' n c c')
  | starts {n : Nat} {withJob : Bool} (there : s.callers[n]? = some (.starting withJob))
      (starts : s.CallerStarts s' n withJob)
  | worker {n : Nat} {w w' : Worker} (there : s.workers[n]? = some w)
      (moves : s.WorkerMoves s' n w w')
  | submits (eq : s' = { s with callers := s.callers ++ [.arriving] })
  | closes (eq : s' = { s with closed := true })

variable {slots n : Nat} {s s' : State}

/-- A caller that takes or gives up permits, while its job stays where it is. -/
theorem callerMoves_permits {c c' : Caller} {slots place : Permits} (hopen : c.isDecided = false)
    (hslots : c'.holdsSlot.toNat + slots.unheld = c.holdsSlot.toNat + s.slots.unheld)
    (hplace : c'.holdsPlace.toNat + place.unheld = c.holdsPlace.toNat + s.place.unheld)
    (hover : c'.handedOver = c.handedOver) :
    s.CallerMoves ({ s with slots, place }.setCaller n c') n c c' where
  undecided := hopen
  callers := rfl
  workers := rfl
  slots := hslots
  place := by
    show c'.holdsPlace.toNat + s.queue.toList.length + place.unheld = _
    omega
  ear := rfl
  alive := rfl
  idle := rfl
  finished := rfl
  own := by rw [hover]; rfl
  others _ _ := rfl

theorem callerMoves_setCaller {c c' : Caller} (hopen : c.isDecided = false)
    (hslots : c'.holdsSlot = c.holdsSlot) (hplace : c'.holdsPlace = c.holdsPlace)
    (hover : c'.handedOver = c.handedOver) : s.CallerMoves (s.setCaller n c') n c c' :=
  callerMoves_permits hopen (by rw [hslots]) (by rw [hplace]) hover

/-- A caller that may use the place finds the queue empty. -/
theorem Balanced.queue_eq_none (h : s.Balanced slots) (hc : s.callers[n]? = some .reserved) :
    s.queue = none := by
  have hpos : 0 < s.callers.countP Caller.holdsPlace :=
    List.countP_pos_iff.mpr ⟨_, List.mem_of_getElem? hc, rfl⟩
  have hplace := h.place
  cases hq : s.queue with
  | none => rfl
  | some job =>
    rw [hq] at hplace
    simp only [Option.toList_some, List.length_singleton] at hplace
    omega

theorem callerMoves_send (hq : s.queue = none) :
    s.CallerMoves ({ s with queue := some n }.setCaller n .sent) n .reserved .sent where
  undecided := rfl
  callers := rfl
  workers := rfl
  slots := rfl
  place := by
    -- the place that the caller had is in use by its job now
    rw [hq]
    rfl
  ear := rfl
  alive := rfl
  idle := rfl
  finished := rfl
  own := by
    unfold queued
    rw [hq]
    show [n].count n + 0 = 0 + 1
    rw [List.count_singleton_self]
  others job hjob := by
    unfold queued
    rw [hq]
    exact List.count_eq_zero.mpr fun hmem => hjob (List.mem_singleton.mp hmem)

theorem moves_callerNext {c : Caller} (h : s.Balanced slots) (hc : s.callers[n]? = some c)
    (hstep : s.callerNext n c = some s') : s.Moves s' := by
  cases c with
  | looking =>
    obtain rfl := Option.some.inj hstep
    by_cases hidle : s.idle = 0
    · rw [if_pos hidle]
      exact .caller hc (callerMoves_setCaller rfl rfl rfl rfl)
    · rw [if_neg hidle]
      exact .caller hc (callerMoves_setCaller rfl rfl rfl rfl)
  | trying =>
    unfold callerNext at hstep
    cases htake : s.slots.take? with
    | none =>
      rw [htake] at hstep
      obtain rfl := Option.some.inj hstep
      exact .caller hc (callerMoves_setCaller rfl rfl rfl rfl)
    | some p =>
      rw [htake] at hstep
      obtain rfl := Option.some.inj hstep
      have hp := Permits.unheld_take? htake
      refine .caller hc (callerMoves_permits rfl ?_ rfl rfl)
      show 1 + p.unheld = 0 + s.slots.unheld
      omega
  | reserving =>
    unfold callerNext at hstep
    have hp := s.place.unheld_request n
    rcases hreq : s.place.request n with ⟨_ | _, p⟩
    · rw [hreq] at hstep hp
      obtain rfl := Option.some.inj hstep
      exact .caller hc (callerMoves_permits rfl rfl (hp.trans (Nat.zero_add _).symm) rfl)
    · rw [hreq] at hstep hp
      obtain rfl := Option.some.inj hstep
      exact .caller hc (callerMoves_permits rfl rfl (hp.trans (Nat.zero_add _).symm) rfl)
  | claiming =>
    unfold callerNext at hstep
    have hp := s.slots.unheld_request n
    rcases hreq : s.slots.request n with ⟨_ | _, p⟩
    · rw [hreq] at hstep hp
      obtain rfl := Option.some.inj hstep
      exact .caller hc (callerMoves_permits rfl (hp.trans (Nat.zero_add _).symm) rfl rfl)
    · -- with a slot the caller does not wait for the place any more
      rw [hreq] at hstep hp
      obtain rfl := Option.some.inj hstep
      refine .caller hc (callerMoves_permits rfl (hp.trans (Nat.zero_add _).symm) ?_ rfl)
      rw [Permits.unheld_withdraw]
      rfl
  | reserved =>
    obtain rfl := Option.some.inj hstep
    exact .caller hc (callerMoves_send (h.queue_eq_none hc))
  | sent =>
    obtain rfl := Option.some.inj hstep
    by_cases halive : s.alive = 0
    · rw [if_pos halive]
      exact .caller hc (callerMoves_setCaller rfl rfl rfl rfl)
    · rw [if_neg halive]
      exact .caller hc (callerMoves_setCaller rfl rfl rfl rfl)
  | rescuing =>
    unfold callerNext at hstep
    cases htake : s.slots.take? with
    | none =>
      rw [htake] at hstep
      obtain rfl := Option.some.inj hstep
      exact .caller hc (callerMoves_setCaller rfl rfl rfl rfl)
    | some p =>
      rw [htake] at hstep
      obtain rfl := Option.some.inj hstep
      have hp := Permits.unheld_take? htake
      refine .caller hc (callerMoves_permits rfl ?_ rfl rfl)
      show 1 + p.unheld = 0 + s.slots.unheld
      omega
  | starting withJob =>
    obtain rfl := Option.some.inj hstep
    refine .starts hc ⟨rfl, ?_, rfl, rfl, rfl, rfl, rfl, rfl, rfl⟩
    cases withJob <;> rfl
  | arriving | choosing | waiting | accepted | refused => cases hstep

theorem moves_callerEnters {c : Caller} (hc : s.callers[n]? = some c)
    (hstep : s.callerEnters n c = some s') : s.Moves s' := by
  cases c with
  | arriving | choosing =>
    obtain rfl := Option.some.inj hstep
    exact .caller hc (callerMoves_setCaller rfl rfl rfl rfl)
  | _ => cases hstep

theorem callerMoves_withdraw {e : SubmitError} :
    s.CallerMoves ((s.withdraw n).setCaller n (.refused e)) n .waiting (.refused e) := by
  refine callerMoves_permits rfl ?_ ?_ rfl
  · rw [Permits.unheld_withdraw]
    rfl
  · rw [Permits.unheld_withdraw]
    rfl

theorem moves_callerCancels {c : Caller} (hc : s.callers[n]? = some c)
    (hstep : s.callerCancels n c = some s') : s.Moves s' := by
  cases c with
  | arriving | choosing =>
    obtain rfl := Option.some.inj hstep
    exact .caller hc (callerMoves_setCaller rfl rfl rfl rfl)
  | waiting =>
    obtain rfl := Option.some.inj hstep
    exact .caller hc callerMoves_withdraw
  | _ => cases hstep

theorem moves_callerExpires {nanos : Nat} {c : Caller} (hc : s.callers[n]? = some c)
    (hstep : s.callerExpires n nanos c = some s') : s.Moves s' := by
  cases c with
  | waiting =>
    obtain rfl := Option.some.inj hstep
    exact .caller hc callerMoves_withdraw
  | _ => cases hstep

theorem moves_callerReserves {c : Caller} (hc : s.callers[n]? = some c)
    (hstep : s.callerReserves n c = some s') : s.Moves s' := by
  cases c with
  | waiting =>
    unfold callerReserves at hstep
    by_cases hgranted : n ∈ s.place.granted
    · rw [if_pos hgranted] at hstep
      obtain rfl := Option.some.inj hstep
      have hp := Permits.unheld_collect hgranted
      refine .caller hc (callerMoves_permits rfl ?_ ?_ rfl)
      · rw [Permits.unheld_withdraw]
        rfl
      · show 1 + (s.place.collect n).unheld = 0 + s.place.unheld
        omega
    · rw [if_neg hgranted] at hstep
      cases hstep
  | _ => cases hstep

theorem moves_callerClaims {c : Caller} (hc : s.callers[n]? = some c)
    (hstep : s.callerClaims n c = some s') : s.Moves s' := by
  cases c with
  | waiting =>
    unfold callerClaims at hstep
    by_cases hgranted : n ∈ s.slots.granted
    · rw [if_pos hgranted] at hstep
      obtain rfl := Option.some.inj hstep
      have hp := Permits.unheld_collect hgranted
      refine .caller hc (callerMoves_permits rfl ?_ ?_ rfl)
      · show 1 + (s.slots.collect n).unheld = 0 + s.slots.unheld
        omega
      · rw [Permits.unheld_withdraw]
        rfl
    · rw [if_neg hgranted] at hstep
      cases hstep
  | _ => cases hstep

/-! ### Workers -/

theorem EarMoves.refl {ear : Permits} {w w' : Worker} (hholds : w'.holdsEar = w.holdsEar)
    (hawaits : w'.awaitsEar = w.awaitsEar) : EarMoves ear ear n w w' where
  unheld := by rw [hholds]
  own := by rw [hawaits]
  others _ _ := rfl

/-- A worker that takes the ear or gives it up. -/
theorem EarMoves.of_requests {ear ear' : Permits} {w w' : Worker}
    (hunheld : w'.holdsEar.toNat + ear'.unheld = w.holdsEar.toNat + ear.unheld)
    (hawaits : w'.awaitsEar = w.awaitsEar) (h : ∀ m, ear'.requests m = ear.requests m) :
    EarMoves ear ear' n w w' where
  unheld := hunheld
  own := by rw [hawaits, h]
  others m _ := h m

/-- A worker that gives the ear up. -/
theorem EarMoves.release {w w' : Worker} (ear : Permits) (hholds : w.holdsEar = true)
    (hfree : w'.holdsEar = false) (hawaits : w'.awaitsEar = w.awaitsEar) :
    EarMoves ear ear.release n w w' := by
  refine .of_requests ?_ hawaits ear.requests_release
  rw [hholds, hfree, Permits.unheld_release, Bool.toNat_true, Bool.toNat_false]
  omega

/-- A worker whose request has ended. -/
theorem EarMoves.answered {ear ear' : Permits} {w' : Worker}
    (hunheld : w'.holdsEar.toNat + ear'.unheld = ear.unheld) (hawaits : w'.awaitsEar = false)
    (h : ∀ m, ear'.requests m + (decide (n = m)).toNat = ear.requests m) :
    EarMoves ear ear' n .queueing w' where
  unheld := hunheld.trans (Nat.zero_add _).symm
  own := by
    rw [hawaits, ← h n, decide_eq_true rfl]
    rfl
  others m hm := by
    have hother := h m
    rwa [decide_eq_false hm] at hother

/-- A worker that waits for the ear has asked for it. -/
theorem Balanced.requested (h : s.Balanced slots) (hw : s.workers[n]? = some .queueing) :
    0 < s.ear.requests n := by
  rw [h.requests, hw]
  exact Nat.one_pos

/-- A worker that changes the counters at most, and keeps its slot and its job. -/
theorem workerMoves_counters {w w' : Worker} {ear : Permits} {alive idle : Nat}
    (hslot : w'.holdsSlot = w.holdsSlot) (hear : EarMoves s.ear ear n w w')
    (halive : alive + w.isAlive.toNat = s.alive + w'.isAlive.toNat)
    (hidle : idle + w.isIdle.toNat = s.idle + w'.isIdle.toNat)
    (hholds : ∀ job, w'.holds job = w.holds job) (hruns : ∀ job, w.runs job = false) :
    s.WorkerMoves ({ s with ear, alive, idle }.setWorker n w') n w w' where
  callers := rfl
  workers := rfl
  slots := by rw [hslot]; rfl
  place := rfl
  ear := hear
  alive := halive
  idle := hidle
  jobs job := by rw [hholds]; rfl
  finished job := by rw [hruns]; rfl

/-- A worker that only turns to something else. -/
theorem workerMoves_ear {w w' : Worker} {ear : Permits} (hslot : w'.holdsSlot = w.holdsSlot)
    (hear : EarMoves s.ear ear n w w') (halive : w'.isAlive = w.isAlive)
    (hidle : w'.isIdle = w.isIdle) (hholds : ∀ job, w'.holds job = w.holds job)
    (hruns : ∀ job, w.runs job = false) :
    s.WorkerMoves ({ s with ear }.setWorker n w') n w w' :=
  workerMoves_counters hslot hear (by rw [halive]) (by rw [hidle]) hholds hruns

/-- A worker that takes the job out of the queue. -/
theorem workerMoves_emptyQueue {w w' : Worker} {job : Nat} (hq : s.queue = some job)
    (hslot : w'.holdsSlot = w.holdsSlot) (hear : w'.holdsEar = w.holdsEar)
    (hawaits : w'.awaitsEar = w.awaitsEar) (halive : w'.isAlive = w.isAlive)
    (hidle : w'.isIdle = w.isIdle) (hholds : ∀ j, w'.holds j = decide (job = j))
    (hfree : ∀ j, w.holds j = false) (hruns : ∀ j, w.runs j = false) :
    s.WorkerMoves (s.emptyQueue.setWorker n w') n w w' where
  callers := rfl
  workers := rfl
  slots := by rw [hslot]; rfl
  place := by
    -- the place that the job was in is given back
    rw [hq]
    show 0 + s.place.release.unheld = 1 + s.place.unheld
    rw [Permits.unheld_release]
    omega
  ear := .refl hear hawaits
  alive := by rw [halive]; rfl
  idle := by rw [hidle]; rfl
  jobs j := by
    have hqueued : s.queued j = (decide (job = j)).toNat := by
      unfold queued
      rw [hq, Option.toList_some, count_singleton_eq]
    rw [hholds, hfree, hqueued]
    show 0 + _ + s.finished.count j = _ + 0 + s.finished.count j
    omega
  finished j := by rw [hruns]; rfl

theorem Balanced.alive_pos {w : Worker} (h : s.Balanced slots) (hw : s.workers[n]? = some w)
    (halive : w.isAlive) : 0 < s.alive := by
  rw [← h.alive]
  exact List.countP_pos_iff.mpr ⟨w, List.mem_of_getElem? hw, halive⟩

theorem Balanced.idle_pos {w : Worker} (h : s.Balanced slots) (hw : s.workers[n]? = some w)
    (hidle : w.isIdle) : 0 < s.idle := by
  rw [← h.idle]
  exact List.countP_pos_iff.mpr ⟨w, List.mem_of_getElem? hw, hidle⟩

theorem moves_workerNext {w : Worker} (h : s.Balanced slots) (hw : s.workers[n]? = some w)
    (hstep : s.workerNext n w = some s') : s.Moves s' := by
  cases w with
  | free =>
    obtain rfl := Option.some.inj hstep
    exact .worker hw (workerMoves_counters rfl (.refl rfl rfl) rfl rfl (fun _ => rfl) fun _ => rfl)
  | entering =>
    unfold workerNext at hstep
    have hunheld := s.ear.unheld_request n
    have hrequests := s.ear.requests_request n
    rcases hreq : s.ear.request n with ⟨_ | _, ear⟩ <;> rw [hreq] at hstep hunheld hrequests
    · obtain rfl := Option.some.inj hstep
      refine .worker hw (workerMoves_ear rfl ⟨hunheld.trans (Nat.zero_add _).symm, ?_,
        fun m hm => ?_⟩ rfl rfl (fun _ => rfl) fun _ => rfl)
      · rw [hrequests, decide_eq_true rfl]
        rfl
      · rw [hrequests, decide_eq_false hm]
        rfl
    · obtain rfl := Option.some.inj hstep
      exact .worker hw (workerMoves_ear rfl
        (.of_requests (hunheld.trans (Nat.zero_add _).symm) rfl hrequests) rfl rfl (fun _ => rfl)
        fun _ => rfl)
  | queueing =>
    unfold workerNext at hstep
    by_cases hgranted : n ∈ s.ear.granted
    · rw [if_pos hgranted] at hstep
      obtain rfl := Option.some.inj hstep
      have hear : EarMoves s.ear (s.ear.collect n) n .queueing .listening :=
        .answered ((Nat.add_comm _ _).trans (Permits.unheld_collect hgranted)) rfl
          (Permits.requests_collect hgranted)
      exact .worker hw (workerMoves_ear rfl hear rfl rfl (fun _ => rfl) fun _ => rfl)
    · rw [if_neg hgranted] at hstep
      cases hstep
  | listening =>
    unfold workerNext at hstep
    cases hq : s.queue with
    | some job =>
      rw [hq] at hstep
      obtain rfl := Option.some.inj hstep
      exact .worker hw (workerMoves_emptyQueue hq rfl rfl rfl rfl rfl (decide_some_eq job)
        (fun _ => rfl) fun _ => rfl)
    | none =>
      rw [hq] at hstep
      by_cases hclosed : s.closed
      · rw [if_pos hclosed] at hstep
        obtain rfl := Option.some.inj hstep
        exact .worker hw (workerMoves_ear rfl (.refl rfl rfl) rfl rfl (fun _ => rfl) fun _ => rfl)
      · rw [if_neg hclosed] at hstep
        cases hstep
  | turningAway job =>
    obtain rfl := Option.some.inj hstep
    exact .worker hw (workerMoves_ear rfl (.release s.ear rfl rfl rfl) rfl rfl (fun _ => rfl)
      fun _ => rfl)
  | resuming job =>
    obtain rfl := Option.some.inj hstep
    -- the counter counts this worker, so that it does not fall below zero
    have hidle : s.idle - 1 + 1 = s.idle := Nat.sub_add_cancel (h.idle_pos hw rfl)
    cases job with
    | none =>
      exact .worker hw (workerMoves_counters rfl (.refl rfl rfl) rfl hidle (fun _ => rfl)
        fun _ => rfl)
    | some job =>
      exact .worker hw (workerMoves_counters rfl (.refl rfl rfl) rfl hidle
        (fun j => (decide_some_eq job j).symm) fun _ => rfl)
  | closing =>
    obtain rfl := Option.some.inj hstep
    have halive : s.alive - 1 + 1 = s.alive := Nat.sub_add_cancel (h.alive_pos hw rfl)
    exact .worker hw (workerMoves_counters rfl (.refl rfl rfl) halive rfl (fun _ => rfl)
      fun _ => rfl)
  | lapsed =>
    obtain rfl := Option.some.inj hstep
    have hidle : s.idle - 1 + 1 = s.idle := Nat.sub_add_cancel (h.idle_pos hw rfl)
    exact .worker hw (workerMoves_counters rfl (.refl rfl rfl) rfl hidle (fun _ => rfl)
      fun _ => rfl)
  | retiring =>
    obtain rfl := Option.some.inj hstep
    have halive : s.alive - 1 + 1 = s.alive := Nat.sub_add_cancel (h.alive_pos hw rfl)
    exact .worker hw (workerMoves_counters rfl (.refl rfl rfl) halive rfl (fun _ => rfl)
      fun _ => rfl)
  | returning =>
    unfold workerNext at hstep
    cases htake : s.ear.take? with
    | none =>
      rw [htake] at hstep
      obtain rfl := Option.some.inj hstep
      exact .worker hw (workerMoves_ear rfl (.refl rfl rfl) rfl rfl (fun _ => rfl) fun _ => rfl)
    | some ear =>
      rw [htake] at hstep
      obtain rfl := Option.some.inj hstep
      have hear : EarMoves s.ear ear n .returning .peeking :=
        .of_requests ((Nat.add_comm _ _).trans ((Permits.unheld_take? htake).trans
          (Nat.zero_add _).symm)) rfl (Permits.requests_take? htake)
      exact .worker hw (workerMoves_ear rfl hear rfl rfl (fun _ => rfl) fun _ => rfl)
  | peeking =>
    unfold workerNext at hstep
    cases hq : s.queue with
    | some job =>
      rw [hq] at hstep
      obtain rfl := Option.some.inj hstep
      exact .worker hw (workerMoves_emptyQueue hq rfl rfl rfl rfl rfl (decide_some_eq job)
        (fun _ => rfl) fun _ => rfl)
    | none =>
      rw [hq] at hstep
      obtain rfl := Option.some.inj hstep
      exact .worker hw (workerMoves_ear rfl (.refl rfl rfl) rfl rfl (fun _ => rfl) fun _ => rfl)
  | yielding job =>
    obtain rfl := Option.some.inj hstep
    cases job with
    | none =>
      exact .worker hw (workerMoves_ear rfl (.release s.ear rfl rfl rfl) rfl rfl (fun _ => rfl)
        fun _ => rfl)
    | some job =>
      exact .worker hw (workerMoves_ear rfl (.release s.ear rfl rfl rfl) rfl rfl
        (fun j => (decide_some_eq job j).symm) fun _ => rfl)
  | reviving job =>
    obtain rfl := Option.some.inj hstep
    exact .worker hw (workerMoves_counters rfl (.refl rfl rfl) rfl rfl (fun _ => rfl) fun _ => rfl)
  | exiting =>
    -- the slot of the worker is free again
    obtain rfl := Option.some.inj hstep
    refine .worker hw
      ⟨rfl, rfl, ?_, rfl, .refl rfl rfl, rfl, rfl, fun _ => rfl, fun _ => rfl⟩
    show 0 + s.slots.release.unheld = 1 + s.slots.unheld
    rw [Permits.unheld_release]
    omega
  | running | gone => cases hstep

theorem moves_workerLapses {w : Worker} (h : s.Balanced slots) (hw : s.workers[n]? = some w)
    (hstep : s.workerLapses n w = some s') : s.Moves s' := by
  cases w with
  | queueing =>
    obtain rfl := Option.some.inj hstep
    have hear : EarMoves s.ear (s.ear.withdraw n) n .queueing .lapsed :=
      .answered ((Nat.zero_add _).trans (Permits.unheld_withdraw _ _)) rfl
        (Permits.requests_withdraw (h.requested hw))
    exact .worker hw (workerMoves_ear rfl hear rfl rfl (fun _ => rfl) fun _ => rfl)
  | listening =>
    obtain rfl := Option.some.inj hstep
    exact .worker hw (workerMoves_ear rfl (.release s.ear rfl rfl rfl) rfl rfl (fun _ => rfl)
      fun _ => rfl)
  | _ => cases hstep

theorem moves_workerFinishes {w : Worker} (hw : s.workers[n]? = some w)
    (hstep : s.workerFinishes n w = some s') : s.Moves s' := by
  cases w with
  | running job =>
    obtain rfl := Option.some.inj hstep
    have hcount : ∀ j, (s.finished ++ [job]).count j
        = s.finished.count j + (decide (job = j)).toNat := by
      intro j
      rw [List.count_append, count_singleton_eq]
    -- the job is finished instead of being with the worker
    refine .worker hw
      ⟨rfl, rfl, rfl, rfl, .refl rfl rfl, rfl, rfl, fun j => ?_, fun j => ?_⟩
    · show s.queued j + 0 + (s.finished ++ [job]).count j = _
      rw [hcount]
      show _ = s.queued j + (decide (job = j)).toNat + s.finished.count j
      omega
    · show (s.finished ++ [job]).count j = _
      rw [hcount]
      by_cases hj : job = j <;> simp [Worker.runs, hj]
  | _ => cases hstep

/-- What a step does. -/
theorem moves_of_step {e : Event} (h : s.Balanced slots) (hstep : s.step e = some s') :
    s.Moves s' := by
  cases e with
  | submit =>
    unfold step at hstep
    by_cases hclosed : s.closed
    · rw [if_pos hclosed] at hstep
      cases hstep
    · rw [if_neg hclosed] at hstep
      exact .submits (Option.some.inj hstep).symm
  | next p =>
    cases p with
    | caller n =>
      obtain ⟨c, hc, hnext⟩ := Option.bind_eq_some_iff.mp hstep
      exact moves_callerNext h hc hnext
    | worker n =>
      obtain ⟨w, hw, hnext⟩ := Option.bind_eq_some_iff.mp hstep
      exact moves_workerNext h hw hnext
  | enter n =>
    obtain ⟨c, hc, hnext⟩ := Option.bind_eq_some_iff.mp hstep
    exact moves_callerEnters hc hnext
  | cancel n =>
    obtain ⟨c, hc, hnext⟩ := Option.bind_eq_some_iff.mp hstep
    exact moves_callerCancels hc hnext
  | reserve n =>
    obtain ⟨c, hc, hnext⟩ := Option.bind_eq_some_iff.mp hstep
    exact moves_callerReserves hc hnext
  | claim n =>
    obtain ⟨c, hc, hnext⟩ := Option.bind_eq_some_iff.mp hstep
    exact moves_callerClaims hc hnext
  | expire n nanos =>
    obtain ⟨c, hc, hnext⟩ := Option.bind_eq_some_iff.mp hstep
    exact moves_callerExpires hc hnext
  | finish n =>
    obtain ⟨w, hw, hnext⟩ := Option.bind_eq_some_iff.mp hstep
    exact moves_workerFinishes hw hnext
  | lapse n =>
    obtain ⟨w, hw, hnext⟩ := Option.bind_eq_some_iff.mp hstep
    exact moves_workerLapses h hw hnext
  | close =>
    unfold step at hstep
    by_cases hall : s.callers.all Caller.isDecided
    · rw [if_pos hall] at hstep
      exact .closes (Option.some.inj hstep).symm
    · rw [if_neg hall] at hstep
      cases hstep

end State

end RegionPricing.Pool
