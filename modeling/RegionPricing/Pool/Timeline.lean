import RegionPricing.Region
import RegionPricing.Pool.State

/-!
# Pools on a clock

A `Timeline` runs pools, their callers, their workers and the jobs on a clock of
its own. Tasks that can go on do so one at a time, in the order in which they
were called, and each goes as far as it can. When none can go on, the clock
moves to the next alarm. One task may be watched: it is looked at before all
others when an alarm has called it, and after all others otherwise.

There is one current pool. A pool that is replaced is closed as soon as its last
caller has been answered.
-/

namespace RegionPricing.Pool

/-- A job: it waits for its gate, then takes its time, then ends well or fails. -/
structure Job where
  id : Id
  gate : Option String
  millis : Option Nat
  fails : Bool
  deriving DecidableEq

/-- Who may go on: a caller or a worker of a pool, or the one who sleeps. -/
inductive Task where
  | party (pool : Nat) (p : Party)
  | sleeper
  deriving DecidableEq

/-- How far a worker is with its job. -/
inductive Progress where
  | begun
  | atGate
  | admitted
  | busy
  deriving DecidableEq

/-- A gate for jobs. -/
structure Gate where
  /-- Whether it has been opened for a job that is still to come. -/
  ajar : Bool
  /-- Who waits at the gate, the longest first. -/
  waiting : List Task

/-- A pool with its jobs and the tokens by which its callers are cancelled, by
the numbers of the callers. -/
structure Running where
  config : Config
  state : State
  jobs : List Job
  tokens : List Nat
  /-- How far the workers are that run a job. -/
  progress : KeyMap Nat Progress

/-- A pool that nobody has used. -/
def Running.new (c : Config) : Running := ⟨c, .new c.slots, [], [], .empty⟩

/-- How a job has come out. -/
structure Ending where
  id : Id
  failed : Bool
  deriving DecidableEq

/-- Pools on a clock. -/
structure Timeline where
  now : Nat
  /-- All pools, the current one last. -/
  pools : List Running
  /-- The tokens that have been cancelled. -/
  cancelled : List Nat
  /-- The token that callers get. -/
  token : Nat
  gates : KeyMap String Gate
  /-- Who can go on, in the order in which they were called. -/
  ready : List Task
  /-- When someone is to be called, in the order in which they asked. -/
  alarms : List (Task × Nat)
  /-- The callers that wait, in the order in which they began to. -/
  waiting : List Task
  watched : Option Task
  /-- Whether the watched task can go on. -/
  watchedCalled : Bool
  endings : List Ending
  /-- The callers whose answers nobody waits for: their jobs, pools and numbers. -/
  background : List (Id × Nat × Nat)

/-- What has come about since the last report, and how the current pool is. -/
structure Report where
  /-- The answers to callers in the background, in the order in which they came. -/
  decided : List (Id × Except SubmitError Unit)
  endings : List Ending
  alive : Nat
  idle : Nat
  maxWorkers : Nat

namespace Timeline

/-- One pool that nobody has used, at time zero. -/
def start (c : Config) : Timeline :=
  ⟨0, [.new c], [], 0, .empty, [], [], [], none, false, [], []⟩

/-- The number of the current pool. -/
def current (t : Timeline) : Nat := t.pools.length - 1

/-! ## Calling tasks -/

/-- Calls a task, unless it has been called already. -/
def call (t : Timeline) (task : Task) : Timeline :=
  if t.watched = some task then { t with watchedCalled := true }
  else if task ∈ t.ready then t
  else { t with ready := t.ready ++ [task] }

def callAll (t : Timeline) (tasks : List Task) : Timeline := tasks.foldl call t

/-- Whether the alarm of a task has gone off. -/
def rung (t : Timeline) (task : Task) : Bool := t.alarms.any fun a => a.1 = task ∧ a.2 ≤ t.now

/-- Sets an alarm for a task that has none. -/
def setAlarm (t : Timeline) (task : Task) (millis : Nat) : Timeline :=
  if t.alarms.any fun a => a.1 = task then t
  else { t with alarms := t.alarms ++ [(task, t.now + millis)] }

def dropAlarm (t : Timeline) (task : Task) : Timeline :=
  { t with alarms := t.alarms.filter fun a => !decide (a.1 = task) }

/-- The time of the next alarm. -/
def nextAlarm? (t : Timeline) : Option Nat :=
  ((t.alarms.map Prod.snd).filter (t.now < ·)).min?

/-- The clock moves, and who has an alarm by then is called. -/
def moveTo (t : Timeline) (time : Nat) : Timeline :=
  let due := t.alarms.filter fun a => t.now < a.2 ∧ a.2 ≤ time
  { t with now := time }.callAll (due.map Prod.fst)

/-! ## Events of pools -/

def pool? (t : Timeline) (p : Nat) : Option Running := t.pools[p]?

def setPool (t : Timeline) (p : Nat) (r : Running) : Timeline := { t with pools := t.pools.set p r }

/-- Something happens to a pool; whoever can go on for it is called. -/
def apply (t : Timeline) (p : Nat) (e : Event) : Timeline :=
  match t.pool? p with
  | none => t
  | some r =>
    match r.state.step e with
    | none => t
    | some s => (t.setPool p { r with state := s }).callAll ((r.state.awakened s).map (.party p))

/-- A replaced pool whose callers have all been answered is closed. -/
def closeReplaced (t : Timeline) : Timeline :=
  ((List.range t.current).filter fun p =>
    (t.pool? p).any fun r => !r.state.closed).foldl (fun t p => t.apply p .close) t

/-! ## A caller goes on -/

/-- The next event of a caller, if it can go on. -/
def callerEvent? (t : Timeline) (p : Nat) (r : Running) (n : Nat) : Option Event :=
  let cancelled := (r.tokens[n]?).any fun token => token ∈ t.cancelled
  match r.state.callers[n]? with
  | none | some .accepted | some (.refused _) => none
  | some .arriving | some .choosing => some (if cancelled then .cancel n else .enter n)
  | some .waiting =>
    if cancelled then some (.cancel n)
    else if n ∈ r.state.place.granted then some (.reserve n)
    else if n ∈ r.state.slots.granted then some (.claim n)
    else if t.rung (.party p (.caller n)) then
      some (.expire n (r.config.maxWaitMillis * 1000000))
    else none
  | some _ => some (.next (.caller n))

/-- A caller begins to wait. -/
def beginWait (t : Timeline) (task : Task) (millis : Nat) : Timeline :=
  { t.setAlarm task millis with waiting := t.waiting ++ [task] }

/-- A caller waits no more. -/
def endWait (t : Timeline) (task : Task) : Timeline :=
  { t.dropAlarm task with waiting := t.waiting.erase task }

/-- A caller goes one event further, or begins to wait; nothing when it can only
wait on or has been answered. -/
def callerStep? (t : Timeline) (p n : Nat) : Option Timeline := do
  let r ← t.pool? p
  let task := Task.party p (.caller n)
  match t.callerEvent? p r n with
  | some e =>
    let t := if r.state.callers[n]? = some .waiting then t.endWait task else t
    return t.apply p e
  | none =>
    if r.state.callers[n]? = some .waiting ∧ task ∉ t.waiting then
      return t.beginWait task r.config.maxWaitMillis
    else none

/-! ## A worker goes on -/

def setProgress (t : Timeline) (p n : Nat) (progress : Progress) : Timeline :=
  match t.pool? p with
  | none => t
  | some r => t.setPool p { r with progress := r.progress.put n progress }

/-- The job of a worker ends. -/
def endJob (t : Timeline) (p n : Nat) (job : Job) : Timeline :=
  let t := (t.dropAlarm (.party p (.worker n))).setProgress p n .begun
  { t.apply p (.finish n) with endings := t.endings ++ [⟨job.id, job.fails⟩] }

def gate (t : Timeline) (name : String) : Gate := (t.gates.get? name).getD ⟨false, []⟩

def setGate (t : Timeline) (name : String) (g : Gate) : Timeline :=
  { t with gates := t.gates.put name g }

/-- A worker comes to the gate of its job. -/
def reachGate (t : Timeline) (p n : Nat) (name : String) : Timeline :=
  let g := t.gate name
  if g.ajar then (t.setGate name { g with ajar := false }).setProgress p n .admitted
  else
    (t.setGate name { g with waiting := g.waiting ++ [.party p (.worker n)] }).setProgress p n
      .atGate

/-- A worker goes further with its job; nothing while it waits. -/
def jobStep? (t : Timeline) (p n : Nat) (r : Running) (job : Job) : Option Timeline :=
  let task := Task.party p (.worker n)
  match (r.progress.get? n).getD .begun with
  | .begun =>
    match job.gate with
    | some name => some (t.reachGate p n name)
    | none => some (t.setProgress p n .admitted)
  | .atGate => none
  | .admitted =>
    match job.millis with
    | some millis => some ((t.setAlarm task millis).setProgress p n .busy)
    | none => some (t.endJob p n job)
  | .busy => if t.rung task then some (t.endJob p n job) else none

/-- The next event of a worker that listens or waits to, if it can go on. -/
def listenerEvent? (t : Timeline) (p : Nat) (r : Running) (n : Nat) : Option Event :=
  if (r.state.step (.next (.worker n))).isSome then some (.next (.worker n))
  else if t.rung (.party p (.worker n)) then some (.lapse n)
  else none

/-- A worker goes one event further; nothing when it can only wait on. -/
def workerStep? (t : Timeline) (p n : Nat) : Option Timeline := do
  let r ← t.pool? p
  let task := Task.party p (.worker n)
  match ← r.state.workers[n]? with
  | .running caller => t.jobStep? p n r (← r.jobs[caller]?)
  | .gone => none
  | .queueing =>
    match t.listenerEvent? p r n with
    | some e => return t.apply p e
    | none =>
      if t.alarms.any fun a => a.1 = task then none
      else return t.setAlarm task r.config.idleTimeoutMillis
  | .listening =>
    match t.listenerEvent? p r n with
    | some e => return (t.dropAlarm task).apply p e
    | none =>
      if t.alarms.any fun a => a.1 = task then none
      else return t.setAlarm task r.config.idleTimeoutMillis
  | .lapsed => return (t.dropAlarm task).apply p (.next (.worker n))
  | _ => return t.apply p (.next (.worker n))

/-! ## Tasks go on -/

def taskStep? (t : Timeline) : Task → Option Timeline
  | .party p (.caller n) => t.callerStep? p n
  | .party p (.worker n) => t.workerStep? p n
  | .sleeper => none

/-- A task goes as far as it can, up to so many steps. -/
def advanceTask (task : Task) : Nat → Timeline → Timeline
  | 0, t => t
  | k + 1, t =>
    match t.taskStep? task with
    | some t => advanceTask task k t
    | none => t

/-- More steps than all tasks together can take before the clock moves. -/
def patience (t : Timeline) : Nat :=
  256 * (1 + (t.pools.flatMap fun r => r.state.callers).length +
    (t.pools.flatMap fun r => r.state.workers).length)

/-- A task goes as far as it can. -/
def run (t : Timeline) (task : Task) : Timeline :=
  (advanceTask task t.patience t).closeReplaced

/-- Tasks that were called go on, up to so many. -/
def drainUpTo : Nat → Timeline → Timeline
  | 0, t => t
  | k + 1, t =>
    match t.ready with
    | [] => t
    | task :: rest => drainUpTo k ({ t with ready := rest }.run task)

/-- All tasks that were called go on, until all wait. -/
def drain (t : Timeline) : Timeline := drainUpTo t.patience t

/-- Whether the watched task has reached its end. -/
def watchedDone (t : Timeline) : Bool :=
  match t.watched with
  | none => true
  | some .sleeper => t.rung .sleeper
  | some (.party p (.caller n)) =>
    ((t.pool? p).bind fun r => r.state.callers[n]?).all Caller.isDecided
  | some (.party _ (.worker _)) => true

/-- Lets the watched task go on when it has been called, then the others, then
the clock, up to so many times, until the watched task has reached its end. -/
def followUpTo : Nat → Timeline → Timeline
  | 0, t => t
  | k + 1, t =>
    if t.watchedDone then t
    else if t.watchedCalled then
      match t.watched with
      | none => t
      | some task =>
        let t := { t with watchedCalled := false }.run task
        followUpTo k (if t.watchedDone then t else t.drain)
    else
      match t.nextAlarm? with
      | none => t
      | some time =>
        let t := t.moveTo time
        followUpTo k (if t.watchedCalled then t else t.drain)

/-- Watches a task until it has reached its end, then lets all others go on. -/
def follow (t : Timeline) (task : Task) : Timeline :=
  let t := { t with watched := some task, watchedCalled := true }
  let t := followUpTo t.patience t
  { t.dropAlarm task with watched := none, watchedCalled := false }.drain

/-! ## What is done from outside -/

/-- A caller comes to the current pool with a job; the number of the caller. -/
def addCaller (t : Timeline) (job : Job) : Nat × Timeline :=
  let p := t.current
  match t.pool? p with
  | none => (0, t)
  | some r =>
    (r.state.callers.length,
      (t.setPool p { r with jobs := r.jobs ++ [job], tokens := r.tokens ++ [t.token] }).apply p
        .submit)

/-- The answer to a caller, once there is one. -/
def answer? (t : Timeline) (p n : Nat) : Option (Except SubmitError Unit) := do
  let r ← t.pool? p
  match ← r.state.callers[n]? with
  | .accepted => return .ok ()
  | .refused e => return .error e
  | _ => none

/-- Submits a job and waits for the answer. -/
def submit (t : Timeline) (job : Job) : Option (Except SubmitError Unit) × Timeline :=
  let p := t.current
  let (n, t) := t.addCaller job
  let t := t.follow (.party p (.caller n))
  (t.answer? p n, t)

/-- Submits a job without waiting for the answer. -/
def submitLater (t : Timeline) (job : Job) : Timeline :=
  let p := t.current
  let (n, t) := t.addCaller job
  ({ t with background := t.background ++ [(job.id, p, n)] }.call (.party p (.caller n))).drain

/-- Lets time pass. -/
def sleep (t : Timeline) (millis : Nat) : Timeline := (t.setAlarm .sleeper millis).follow .sleeper

/-- Opens a gate for one job. -/
def openGate (t : Timeline) (name : String) : Timeline :=
  let g := t.gate name
  match g.waiting with
  | [] => t.setGate name { g with ajar := true }
  | task :: rest =>
    let t := t.setGate name { g with waiting := rest }
    let t := match task with
      | .party p (.worker n) => t.setProgress p n .admitted
      | _ => t
    (t.call task).drain

/-- Whether the current token has been cancelled. -/
def isCancelled (t : Timeline) : Bool := t.token ∈ t.cancelled

/-- The token of a task, if it is a caller. -/
def tokenOf? (t : Timeline) : Task → Option Nat
  | .party p (.caller n) => (t.pool? p).bind fun r => r.tokens[n]?
  | _ => none

/-- Cancels the current token; the callers that wait with it are called. -/
def cancel (t : Timeline) : Timeline :=
  let affected := t.waiting.filter fun task => t.tokenOf? task = some t.token
  ({ t with cancelled := t.token :: t.cancelled }.callAll affected).drain

/-- Callers get a new token from now on. -/
def newToken (t : Timeline) : Timeline := { t with token := t.token + 1 }

/-- A new pool takes the place of the current one. -/
def reconfigure (t : Timeline) (c : Config) : Timeline :=
  { t with pools := t.pools ++ [Running.new c] }.closeReplaced.drain

/-! ## Reporting -/

/-- By identifier; of two endings of one identifier the good one comes first. -/
def Ending.le (a b : Ending) : Bool := a.id < b.id || (a.id == b.id && a.failed ≤ b.failed)

/-- What has come about since the last report. -/
def report (t : Timeline) : Report × Timeline :=
  let answer := fun (b : Id × Nat × Nat) => t.answer? b.2.1 b.2.2
  let pool := t.pools.getLast?
  ({ decided := t.background.filterMap fun b => (answer b).map fun a => (b.1, a)
     endings := t.endings.mergeSort Ending.le
     alive := (pool.map fun r => r.state.alive).getD 0
     idle := (pool.map fun r => r.state.idle).getD 0
     maxWorkers := (pool.map fun r => r.config.maxWorkers).getD 0 },
    { t with
      endings := []
      background := t.background.filter fun b => (answer b).isNone })

end Timeline

end RegionPricing.Pool
