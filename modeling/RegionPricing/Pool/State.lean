import RegionPricing.Failure
import RegionPricing.Pool.Permits

/-!
# The worker pool

Callers hand jobs to workers. A caller starts a worker of its own for its job if
no worker is idle and a slot is free. Otherwise it waits for the place in the
queue, which holds one job, or for a slot, whichever comes first, until it is
cancelled or has waited too long. A worker that has nothing to do listens to the
queue, one worker at a time, and leaves when it has been idle too long.

`State.step` goes one operation at a time on the permits, the counters and the
queue, for one caller or worker, so that every interleaving is a list of events.
A job is known by the number of its caller.
-/

namespace RegionPricing.Pool

/-- How many workers there may be, and how long callers and workers wait. -/
structure Config where
  maxWorkers : Nat
  maxWaitMillis : Nat
  idleTimeoutMillis : Nat
  deriving DecidableEq

/-- How many workers there may be at once; there may always be one. -/
def Config.slots (c : Config) : Nat := max 1 c.maxWorkers

/-- What a caller does next, or how its submission has ended. -/
inductive Caller where
  /-- Looks whether it has been cancelled. -/
  | arriving
  /-- Looks whether a worker is idle. -/
  | looking
  /-- Tries to take a slot. -/
  | trying
  /-- Looks once more whether it has been cancelled. -/
  | choosing
  /-- Asks for the place in the queue. -/
  | reserving
  /-- Asks for a slot. -/
  | claiming
  /-- Waits for the place in the queue or a slot. -/
  | waiting
  /-- Puts its job into the queue. -/
  | reserved
  /-- Looks whether any worker is alive to take the job. -/
  | sent
  /-- Tries to take a slot for a worker that takes the job. -/
  | rescuing
  /-- Starts a worker, with its job or for the one in the queue. -/
  | starting (withJob : Bool)
  | accepted
  | refused (e : SubmitError)
  deriving DecidableEq

/-- Whether the submission has ended. -/
def Caller.isDecided : Caller → Bool
  | .accepted | .refused _ => true
  | _ => false

/-- What a worker does next. -/
inductive Worker where
  /-- Runs the job of a caller. -/
  | running (job : Nat)
  /-- Says that it is idle. -/
  | free
  /-- Asks to listen to the queue. -/
  | entering
  /-- Waits to listen to the queue. -/
  | queueing
  /-- Waits for a job in the queue. -/
  | listening
  /-- Lets the next worker listen, after it got a job or the pool was closed. -/
  | turningAway (job : Option Nat)
  /-- Says that it is idle no more, with a job to run or without. -/
  | resuming (job : Option Nat)
  /-- Says that it is alive no more, as the pool is closed. -/
  | closing
  /-- Says that it is idle no more, as it has waited too long. -/
  | lapsed
  /-- Says that it is alive no more, as it has waited too long. -/
  | retiring
  /-- Tries to listen to the queue once more. -/
  | returning
  /-- Looks whether there is a job after all. -/
  | peeking
  /-- Lets others listen, with a job after all or without. -/
  | yielding (job : Option Nat)
  /-- Says that it is alive again. -/
  | reviving (job : Nat)
  /-- Gives its slot back. -/
  | exiting
  | gone
  deriving DecidableEq

/-- A pool with its callers and workers, by their numbers. -/
structure State where
  slots : Permits
  /-- The permit to put a job into the queue; a job in the queue holds it. -/
  place : Permits
  /-- The permit to listen to the queue. -/
  ear : Permits
  queue : Option Nat
  /-- How many workers say that they are alive. -/
  alive : Nat
  /-- How many workers say that they are idle. -/
  idle : Nat
  /-- Whether there can be no caller any more. -/
  closed : Bool
  callers : List Caller
  workers : List Worker
  /-- The jobs that have ended. -/
  finished : List Nat
  deriving DecidableEq

namespace State

/-- A pool with so many slots that nobody has used. -/
def new (slots : Nat) : State where
  slots := .ofNat slots
  place := .ofNat 1
  ear := .ofNat 1
  queue := none
  alive := 0
  idle := 0
  closed := false
  callers := []
  workers := []
  finished := []

def setCaller (s : State) (n : Nat) (c : Caller) : State := { s with callers := s.callers.set n c }

def setWorker (s : State) (n : Nat) (w : Worker) : State := { s with workers := s.workers.set n w }

/-- A worker is there, with a job to run or without. -/
def addWorker (s : State) (job : Option Nat) : State :=
  { s with alive := s.alive + 1, workers := s.workers ++ [job.elim .free .running] }

/-- The job is taken out of the queue, and its place is free for the next. -/
def emptyQueue (s : State) : State := { s with queue := none, place := s.place.release }

/-- Takes back both requests of a caller. -/
def withdraw (s : State) (n : Nat) : State :=
  { s with place := s.place.withdraw n, slots := s.slots.withdraw n }

/-! ## The operations of callers -/

/-- The next operation of a caller that does not depend on anything outside. -/
def callerNext (s : State) (n : Nat) : Caller → Option State
  | .looking => some (s.setCaller n (if s.idle = 0 then .trying else .choosing))
  | .trying =>
    match s.slots.take? with
    | some slots => some ({ s with slots }.setCaller n (.starting true))
    | none => some (s.setCaller n .choosing)
  | .reserving =>
    match s.place.request n with
    | (true, place) => some ({ s with place }.setCaller n .reserved)
    | (false, place) => some ({ s with place }.setCaller n .claiming)
  | .claiming =>
    match s.slots.request n with
    | (true, slots) =>
      some ({ s with slots, place := s.place.withdraw n }.setCaller n (.starting true))
    | (false, slots) => some ({ s with slots }.setCaller n .waiting)
  | .reserved => some ({ s with queue := some n }.setCaller n .sent)
  | .sent => some (s.setCaller n (if s.alive = 0 then .rescuing else .accepted))
  | .rescuing =>
    match s.slots.take? with
    | some slots => some ({ s with slots }.setCaller n (.starting false))
    | none => some (s.setCaller n .accepted)
  | .starting withJob =>
    some ((s.addWorker (if withJob then some n else none)).setCaller n .accepted)
  | _ => none

/-- A caller sees that it has not been cancelled. -/
def callerEnters (s : State) (n : Nat) : Caller → Option State
  | .arriving => some (s.setCaller n .looking)
  | .choosing => some (s.setCaller n .reserving)
  | _ => none

/-- A caller sees that it has been cancelled. -/
def callerCancels (s : State) (n : Nat) : Caller → Option State
  | .arriving | .choosing => some (s.setCaller n (.refused .cancelled))
  | .waiting => some ((s.withdraw n).setCaller n (.refused .cancelled))
  | _ => none

/-- A waiting caller gets the place in the queue. -/
def callerReserves (s : State) (n : Nat) : Caller → Option State
  | .waiting =>
    if n ∈ s.place.granted then
      some ({ s with place := s.place.collect n, slots := s.slots.withdraw n }.setCaller n
        .reserved)
    else none
  | _ => none

/-- A waiting caller gets a slot. -/
def callerClaims (s : State) (n : Nat) : Caller → Option State
  | .waiting =>
    if n ∈ s.slots.granted then
      some ({ s with slots := s.slots.collect n, place := s.place.withdraw n }.setCaller n
        (.starting true))
    else none
  | _ => none

/-- A waiting caller has waited too long. -/
def callerExpires (s : State) (n nanos : Nat) : Caller → Option State
  | .waiting => some ((s.withdraw n).setCaller n (.refused (.timeout nanos)))
  | _ => none

/-! ## The operations of workers -/

/-- The next operation of a worker that does not depend on anything outside. -/
def workerNext (s : State) (n : Nat) : Worker → Option State
  | .free => some ({ s with idle := s.idle + 1 }.setWorker n .entering)
  | .entering =>
    match s.ear.request n with
    | (true, ear) => some ({ s with ear }.setWorker n .listening)
    | (false, ear) => some ({ s with ear }.setWorker n .queueing)
  | .queueing =>
    if n ∈ s.ear.granted then some ({ s with ear := s.ear.collect n }.setWorker n .listening)
    else none
  | .listening =>
    match s.queue with
    | some job => some (s.emptyQueue.setWorker n (.turningAway (some job)))
    | none => if s.closed then some (s.setWorker n (.turningAway none)) else none
  | .turningAway job => some ({ s with ear := s.ear.release }.setWorker n (.resuming job))
  | .resuming job =>
    some ({ s with idle := s.idle - 1 }.setWorker n (job.elim .closing .running))
  | .closing => some ({ s with alive := s.alive - 1 }.setWorker n .exiting)
  | .lapsed => some ({ s with idle := s.idle - 1 }.setWorker n .retiring)
  | .retiring => some ({ s with alive := s.alive - 1 }.setWorker n .returning)
  | .returning =>
    match s.ear.take? with
    | some ear => some ({ s with ear }.setWorker n .peeking)
    | none => some (s.setWorker n .exiting)
  | .peeking =>
    match s.queue with
    | some job => some (s.emptyQueue.setWorker n (.yielding (some job)))
    | none => some (s.setWorker n (.yielding none))
  | .yielding job =>
    some ({ s with ear := s.ear.release }.setWorker n (job.elim .exiting .reviving))
  | .reviving job => some ({ s with alive := s.alive + 1 }.setWorker n (.running job))
  | .exiting => some ({ s with slots := s.slots.release }.setWorker n .gone)
  | .running _ | .gone => none

/-- A worker has been idle too long. -/
def workerLapses (s : State) (n : Nat) : Worker → Option State
  | .queueing => some ({ s with ear := s.ear.withdraw n }.setWorker n .lapsed)
  | .listening => some ({ s with ear := s.ear.release }.setWorker n .lapsed)
  | _ => none

/-- The job of a worker ends, well or not. -/
def workerFinishes (s : State) (n : Nat) : Worker → Option State
  | .running job => some ({ s with finished := s.finished ++ [job] }.setWorker n .free)
  | _ => none

end State

/-! ## Steps -/

/-- A caller or a worker. -/
inductive Party where
  | caller (n : Nat)
  | worker (n : Nat)
  deriving DecidableEq

/-- What happens to a pool. -/
inductive Event where
  /-- A caller comes with a job. -/
  | submit
  /-- A caller or a worker goes one operation further. -/
  | next (p : Party)
  | enter (n : Nat)
  | cancel (n : Nat)
  | reserve (n : Nat)
  | claim (n : Nat)
  | expire (n nanos : Nat)
  | finish (n : Nat)
  | lapse (n : Nat)
  /-- Nobody can submit jobs any more. -/
  | close
  deriving DecidableEq

namespace State

/-- The pool after an event, if the event can happen. -/
def step (s : State) : Event → Option State
  | .submit => if s.closed then none else some { s with callers := s.callers ++ [.arriving] }
  | .next (.caller n) => s.callers[n]?.bind (s.callerNext n)
  | .next (.worker n) => s.workers[n]?.bind (s.workerNext n)
  | .enter n => s.callers[n]?.bind (s.callerEnters n)
  | .cancel n => s.callers[n]?.bind (s.callerCancels n)
  | .reserve n => s.callers[n]?.bind (s.callerReserves n)
  | .claim n => s.callers[n]?.bind (s.callerClaims n)
  | .expire n nanos => s.callers[n]?.bind (s.callerExpires n nanos)
  | .finish n => s.workers[n]?.bind (s.workerFinishes n)
  | .lapse n => s.workers[n]?.bind (s.workerLapses n)
  | .close => if s.callers.all Caller.isDecided then some { s with closed := true } else none

/-- Who can go on after a step that could not before: who has been granted a
permit, the listening worker if there is something to hear, and new workers. -/
def awakened (s s' : State) : List Party :=
  let granted := fun (p p' : Permits) => p'.granted.filter fun n => !p.granted.contains n
  let heard := (s.queue.isNone && s'.queue.isSome) || (!s.closed && s'.closed)
  (granted s.place s'.place).map .caller ++ (granted s.ear s'.ear).map .worker ++
    (granted s.slots s'.slots).map .caller ++
    (if heard then
      ((List.range s'.workers.length).filter fun n => s'.workers[n]? = some .listening).map .worker
    else []) ++
    ((List.range s'.workers.length).drop s.workers.length).map .worker

end State

end RegionPricing.Pool
