-- The run of a set of workers on one reactor (process_manager.cpp, `WorkerRun`): the slots,
-- the retries and the teardown. What the reactor reports and how each spawn ends are the inputs.
import PipeShellX.Loop
import PipeShellX.Process.Worker

namespace psx.process

open psx.os (Waits)
open psx.stream (OverflowPolicy SpoolAnswers)

namespace WorkerRun

/-- Why a run is torn down. -/
inductive StopReason
  | Deadline
  | Cancel
  | FailFast
  deriving DecidableEq

/-- The three pipes of a worker. -/
inductive Pipe
  | Stdout
  | Stderr
  | Stdin
  deriving DecidableEq

/-- What a run waits for, besides its workers. -/
inductive Timer
  | Deadline
  | Drain
  | Retry (index : Nat)
  deriving DecidableEq

/-- How a spawn ends. `gone` is a child that exits before it can be watched. -/
inductive Start
  | failed (message : Bytes)
  | running (stdinClosed : Bool)
  | gone (stdinClosed : Bool) (waits : Waits)

/-- How a read loop ends. -/
inductive ReadEnd
  | WouldBlock
  | Eof
  | Failed
  deriving DecidableEq

/-- What a run does that others can see. -/
inductive Event
  | spawned (index : Nat)
  | counted (index : Nat)
  | stop
  | teardown (reason : StopReason)
  | marked (index : Nat) (reason : StopReason)
  deriving DecidableEq

end WorkerRun

/-- `timers` are those that wait in the reactor and `due` is the batch that it runs: a timer that
is cancelled leaves the first only. `watched` holds the pipes that have a token. -/
structure WorkerRun where
  workers : List Worker := []
  concurrency : Nat := 0
  outputCap : Nat := 0
  outputPolicy : OverflowPolicy := .Block
  cancellable : Bool := false
  failFast : Bool := false
  maxRetries : Nat := 0
  remaining : Nat := 0
  nextToSpawn : Nat := 0
  inFlight : Nat := 0
  filling : Bool := false
  drainTimer : Bool := false
  anyTimedOut : Bool := false
  cancelled : Bool := false
  aborted : Bool := false
  retryTimers : List Nat := []
  retryQueue : List Nat := []
  watched : List (Nat × WorkerRun.Pipe) := []
  timers : List WorkerRun.Timer := []
  due : List WorkerRun.Timer := []
  log : List WorkerRun.Event := []
  deriving DecidableEq

namespace Worker

open WorkerRun (StopReason Pipe)

/-- The pipe of a worker is closed. -/
def closed (w : Worker) : Pipe → Bool
  | .Stdout => w.stdoutClosed
  | .Stderr => w.stderrClosed
  | .Stdin => w.stdinClosed

/-- A pipe of a worker is closed. -/
def close (w : Worker) : Pipe → Worker
  | .Stdout => { w with stdoutClosed := true }
  | .Stderr => { w with stderrClosed := true }
  | .Stdin => { w with stdinClosed := true }

/-- A worker is marked with the reason that it was stopped for. -/
def mark (reason : StopReason) (w : Worker) : Worker :=
  match reason with
  | .Cancel => { w with cancelled := true }
  | .FailFast => { w with aborted := true }
  | .Deadline => { w with timedOut := true }

/-- A worker that is not running ends where it is. -/
def endNow (w : Worker) : Worker :=
  { w with stdoutClosed := true, stderrClosed := true, stdinClosed := true, exited := true }

/-- The process of a worker has exited. -/
def reaped (waits : Waits) (w : Worker) : Worker :=
  { w with
    running := false
    exited := true
    status := match waits.tryWait with
      | .ok (some status) => some status
      | _ =>
        match waits.wait with
        | .ok status => some status
        | .error _ => w.status }

/-- The worker did not do well. -/
def isFailure (w : Worker) : Bool := w.timedOut || w.failureMessage ≠ [] || w.exitCode ≠ 0

/-- The worker may do better on another attempt. -/
def retryable (w : Worker) : Bool :=
  !w.timedOut && w.failureMessage = [] && w.exitCode = 255 && isRetryableSshFailure w.stderrData

end Worker

namespace WorkerRun

def note (r : WorkerRun) (e : Event) : WorkerRun := { r with log := r.log ++ [e] }

def worker (r : WorkerRun) (index : Nat) : Worker := r.workers.getD index {}

def setWorker (r : WorkerRun) (index : Nat) (f : Worker → Worker) : WorkerRun :=
  { r with workers := r.workers.modify index f }

/-- A worker is marked, and that is told. -/
def mark (r : WorkerRun) (index : Nat) (reason : StopReason) : WorkerRun :=
  (r.setWorker index (Worker.mark reason)).note (.marked index reason)

/-! ## Completion -/

/-- A worker waits for another attempt. -/
def scheduleRetry (r : WorkerRun) (index : Nat) : WorkerRun :=
  { r.setWorker index fun w => { w with awaitingRetry := true, attempt := w.attempt + 1 } with
    retryTimers := r.retryTimers ++ [index]
    timers := r.timers ++ [.Retry index] }

/-- The worker leaves the count of the remaining ones. -/
def count (r : WorkerRun) (index : Nat) : WorkerRun :=
  { (r.setWorker index fun w => { w with counted := true }).note (.counted index) with
    remaining := r.remaining - 1 }

/-- `account`. The first final failure of a fail-fast run goes on with `abort`. -/
def accountThen (abort : WorkerRun → WorkerRun) (r : WorkerRun) (index : Nat) : WorkerRun :=
  let w := r.worker index
  if w.counted ∨ w.awaitingRetry ∨ ¬ w.complete then r
  else if ¬ r.cancelled ∧ ¬ r.aborted ∧ w.attempt < r.maxRetries ∧ w.retryable then
    r.scheduleRetry index
  else if r.remaining - 1 = 0 then (r.count index).note .stop
  else if r.failFast ∧ ¬ r.aborted ∧ ¬ r.cancelled ∧ w.isFailure then
    abort { r.count index with aborted := true }
  else r.count index

/-! ## Teardown -/

/-- A worker that has no process ends now, with its reason. -/
def finish (abort : WorkerRun → WorkerRun) (reason : StopReason) (r : WorkerRun) (index : Nat) :
    WorkerRun :=
  accountThen abort ((r.mark index reason).setWorker index Worker.endNow) index

/-- One turn of the loop over the workers that never got a slot. -/
def pendingBody (abort : WorkerRun → WorkerRun) (reason : StopReason) (r : WorkerRun) :
    Option (WorkerRun × List Event) :=
  if r.nextToSpawn < r.workers.length then
    some (finish abort reason { r with nextToSpawn := r.nextToSpawn + 1 } r.nextToSpawn, [])
  else none

/-- One turn of the loop over all workers. -/
def stopWorker (abort : WorkerRun → WorkerRun) (reason : StopReason) (r : WorkerRun)
    (index : Nat) : WorkerRun :=
  let w := r.worker index
  if w.counted then r
  else if w.awaitingRetry then
    accountThen abort
      ((r.setWorker index fun w => { w with awaitingRetry := false }).mark index reason) index
  else if w.complete then r
  else r.mark index reason

/-- The reason takes hold, and the backoff timers are cancelled. -/
def beginTeardown (r : WorkerRun) (reason : StopReason) : WorkerRun :=
  { r.note (.teardown reason) with
    cancelled := r.cancelled || reason = .Cancel
    anyTimedOut := r.anyTimedOut || reason = .Deadline
    timers := r.timers.filter fun timer => ∀ index ∈ r.retryTimers, timer ≠ .Retry index
    retryTimers := [] }

/-- There is a time after which the pipes of killed workers are given up. -/
def armDrain (r : WorkerRun) : WorkerRun :=
  if r.drainTimer then r else { r with drainTimer := true, timers := r.timers ++ [.Drain] }

/-- `teardown`. The loop over the queue runs over the entries that it started with, also when a
nested teardown clears the queue. -/
def teardownThen (abort : WorkerRun → WorkerRun) (reason : StopReason) (r : WorkerRun) :
    WorkerRun :=
  let r := r.beginTeardown reason
  let r := { r.retryQueue.foldl (finish abort reason) r with retryQueue := [] }
  let r := (Loop.run (pendingBody abort reason) r.workers.length r).1
  ((List.range r.workers.length).foldl (stopWorker abort reason) r).armDrain

/-- The teardown of a fail-fast run. `aborted` is set, so that none of its own calls of `account`
starts another one. -/
def abortRest (r : WorkerRun) : WorkerRun := teardownThen (fun r => r) .FailFast r

/-- A worker that is over is counted. -/
def account (r : WorkerRun) (index : Nat) : WorkerRun := accountThen abortRest r index

/-- Every worker is stopped. -/
def teardown (r : WorkerRun) (reason : StopReason) : WorkerRun := teardownThen abortRest reason r

/-! ## Spawning -/

/-- The exit of a child, up to the call of `fillSlots`. -/
def childExited (r : WorkerRun) (index : Nat) (waits : Waits) : WorkerRun :=
  account { r.setWorker index (Worker.reaped waits) with inFlight := r.inFlight - 1 } index

/-- The pipes of a worker get their handlers. -/
def arm (r : WorkerRun) (index : Nat) : WorkerRun :=
  { r with
    watched := r.watched ++ [(index, .Stdout), (index, .Stderr)] ++
      if (r.worker index).stdinClosed then [] else [(index, .Stdin)] }

/-- A child was spawned. It has no stdin when there is no input for it. -/
def started (r : WorkerRun) (index : Nat) (stdinClosed : Bool) : WorkerRun :=
  { r.setWorker index fun w =>
      { w with running := true, stdinClosed := w.stdinClosed || stdinClosed } with
    inFlight := r.inFlight + 1 }.arm index

/-- `spawn_`, and what `fillSlots` does with the worker. The exit of a child that is gone calls
`fillSlots` again, which does nothing while it is filling. -/
def spawn (r : WorkerRun) (index : Nat) (start : Start) : WorkerRun :=
  let r := (r.setWorker index fun w => { w with spawned := true }).note (.spawned index)
  match start with
  | .failed message => (r.setWorker index fun w => w.failToStart message).account index
  | .running stdinClosed => r.started index stdinClosed
  | .gone stdinClosed waits => (r.started index stdinClosed).childExited index waits

/-- One turn of `fillSlots`: a worker that waits for its retry goes first. -/
def fillBody (start : Nat → Start) (r : WorkerRun) : Option (WorkerRun × List Event) :=
  if r.inFlight < r.concurrency then
    match r.retryQueue with
    | index :: queue => some ({ r with retryQueue := queue }.spawn index (start index), [])
    | [] =>
      if r.nextToSpawn < r.workers.length then
        some ({ r with nextToSpawn := r.nextToSpawn + 1 }.spawn r.nextToSpawn
          (start r.nextToSpawn), [])
      else none
  else none

/-- The workers that a turn of `fillSlots` can take. -/
def spawnable (r : WorkerRun) : Nat :=
  r.retryQueue.length + (r.workers.length - r.nextToSpawn)

/-- Workers are started as long as there is room for them. -/
def fillSlots (r : WorkerRun) (start : Nat → Start) : WorkerRun :=
  if r.filling then r
  else
    { (Loop.run (fillBody start) r.spawnable { r with filling := true }).1 with filling := false }

/-! ## What the reactor calls -/

/-- A pipe of a worker is closed, and the worker may be over with it. -/
def closeStream (r : WorkerRun) (index : Nat) (pipe : Pipe) : WorkerRun :=
  if (r.worker index).closed pipe then r
  else
    { r.setWorker index fun w => w.close pipe with
      watched := r.watched.filter (· ≠ (index, pipe)) }

/-- The chunks that a read loop got, with the answers of the spool to each. -/
def captureAll (r : WorkerRun) (isStdout : Bool) (chunks : List (Bytes × SpoolAnswers))
    (w : Worker) : Worker :=
  chunks.foldl
    (fun w chunk => w.capture r.outputCap r.outputPolicy isStdout chunk.1 chunk.2) w

def ringOf (w : Worker) (isStdout : Bool) : Bytes := if isStdout then w.stdoutData else w.stderrData

/-- A hang-up with nothing left to read is the end of the stream. -/
def endOfStream (ending : ReadEnd) (hangup : Bool) (before after : Nat) : Bool :=
  match ending with
  | .WouldBlock => hangup && after = before
  | .Eof => true
  | .Failed => true

/-- There is output of a worker. -/
def onReadable (r : WorkerRun) (index : Nat) (isStdout : Bool)
    (chunks : List (Bytes × SpoolAnswers)) (ending : ReadEnd) (hangup : Bool) : WorkerRun :=
  let before := (ringOf (r.worker index) isStdout).length
  let r := r.setWorker index (r.captureAll isStdout chunks)
  if endOfStream ending hangup before (ringOf (r.worker index) isStdout).length then
    (r.closeStream index (if isStdout then .Stdout else .Stderr)).account index
  else r

/-- `written` is how the write loop ends: with all of the input written or a broken pipe, or with
a full pipe. -/
def onWritable (r : WorkerRun) (index : Nat) (written : Bool) : WorkerRun :=
  if written then (r.closeStream index .Stdin).account index else r

/-- The process of a worker has exited. -/
def onExit (r : WorkerRun) (index : Nat) (waits : Waits) (start : Nat → Start) : WorkerRun :=
  (r.childExited index waits).fillSlots start

/-- It is time for another attempt. -/
def onRetry (r : WorkerRun) (index : Nat) (start : Nat → Start) : WorkerRun :=
  let r := { r with retryTimers := r.retryTimers.filter (· ≠ index) }
  if (r.worker index).counted then r
  else
    let r := r.setWorker index fun w => { w with awaitingRetry := false }
    if r.cancelled then
      (r.setWorker index fun w => { w with cancelled := true }).account index
    else
      { r.setWorker index Worker.resetForRetry with
        retryQueue := r.retryQueue ++ [index] }.fillSlots start

/-- The caller gives the run up. -/
def onCancel (r : WorkerRun) : WorkerRun := if r.cancelled then r else r.teardown .Cancel

/-- One turn of the loop of `onDrainExpired`. -/
def abandon (waits : Nat → Waits) (start : Nat → Start) (r : WorkerRun) (index : Nat) :
    WorkerRun :=
  if (r.worker index).complete then r
  else
    let r := ((r.closeStream index .Stdout).closeStream index .Stderr).closeStream index .Stdin
    let r := if (r.worker index).exited then r else r.onExit index (waits index) start
    r.account index

/-- The pipes that are still open are given up. -/
def onDrainExpired (r : WorkerRun) (waits : Nat → Waits) (start : Nat → Start) : WorkerRun :=
  (List.range r.workers.length).foldl (abandon waits start) { r with drainTimer := false }

/-! ## The run -/

/-- What the reactor reports. `collect` takes due timers off its queue, and `fire` runs the first
one of the batch. -/
inductive Input
  | readable (index : Nat) (isStdout : Bool) (chunks : List (Bytes × SpoolAnswers))
      (ending : ReadEnd) (hangup : Bool)
  | writable (index : Nat) (written : Bool)
  | exit (index : Nat) (waits : Waits) (start : Nat → Start)
  | signal
  | collect (batch : List Timer)
  | fire (waits : Nat → Waits) (start : Nat → Start)

/-- What the reactor can report: it knows the pipes that are watched, the children that run and
the timers that wait. -/
def Enabled (r : WorkerRun) : Input → Prop
  | .readable index isStdout .. => (index, if isStdout then .Stdout else .Stderr) ∈ r.watched
  | .writable index _ => (index, .Stdin) ∈ r.watched
  | .exit index .. => index < r.workers.length ∧ (r.worker index).running
  | .signal => r.cancellable
  | .collect batch => r.due = [] ∧ batch.Nodup ∧ batch ⊆ r.timers
  | .fire .. => r.due ≠ []

instance (r : WorkerRun) (input : Input) : Decidable (r.Enabled input) :=
  match input with
  | .readable index isStdout .. =>
    inferInstanceAs (Decidable ((index, if isStdout then Pipe.Stdout else .Stderr) ∈ r.watched))
  | .writable index _ => inferInstanceAs (Decidable ((index, Pipe.Stdin) ∈ r.watched))
  | .exit index .. =>
    inferInstanceAs (Decidable (index < r.workers.length ∧ (r.worker index).running = true))
  | .signal => inferInstanceAs (Decidable (r.cancellable = true))
  | .collect batch => inferInstanceAs (Decidable (r.due = [] ∧ batch.Nodup ∧ batch ⊆ r.timers))
  | .fire .. => inferInstanceAs (Decidable (r.due ≠ []))

/-- The first of the timers that are due. -/
def fire (r : WorkerRun) (waits : Nat → Waits) (start : Nat → Start) : WorkerRun :=
  match r.due with
  | [] => r
  | .Deadline :: due => { r with due }.teardown .Deadline
  | .Drain :: due => { r with due }.onDrainExpired waits start
  | .Retry index :: due => { r with due }.onRetry index start

def step (r : WorkerRun) : Input → WorkerRun
  | .readable index isStdout chunks ending hangup =>
    r.onReadable index isStdout chunks ending hangup
  | .writable index written => r.onWritable index written
  | .exit index waits start => r.onExit index waits start
  | .signal => r.onCancel
  | .collect batch => { r with due := batch, timers := r.timers.filter (· ∉ batch) }
  | .fire waits start => r.fire waits start

/-- What a run is given. -/
structure Settings where
  clients : List String
  concurrency : Nat := 0
  timeoutSec : Nat := 0
  policy : OverflowPolicy := .Block
  ringBytes : Nat := 0
  cancellable : Bool := false
  failFast : Bool := false
  maxRetries : Nat := 0

/-- `run`, up to the event loop. -/
def begin (settings : Settings) (start : Nat → Start) : WorkerRun :=
  { workers := settings.clients.map fun clientId => { clientId }
    concurrency :=
      if settings.concurrency = 0 then settings.clients.length else settings.concurrency
    outputCap := if settings.policy = .Block then 0 else settings.ringBytes
    outputPolicy := settings.policy
    cancellable := settings.cancellable
    failFast := settings.failFast
    maxRetries := settings.maxRetries
    remaining := settings.clients.length
    timers := if 0 < settings.timeoutSec then [.Deadline] else [] : WorkerRun }.fillSlots start

/-- The states between two events of a run. -/
inductive Reachable (settings : Settings) : WorkerRun → Prop
  | begin (start : Nat → Start) : Reachable settings (begin settings start)
  | step {r : WorkerRun} (input : Input) :
      Reachable settings r → r.Enabled input → Reachable settings (r.step input)

end WorkerRun

end psx.process
