-- A linear chain of local stages (local_runner.cpp): the stdout of the last one is read
-- until it ends, each child is reaped, and the first stdin can be fed. What the pipes and
-- the processes answer comes as an input.
import PipeShellX.Os
import PipeShellX.Pipeline.DistributedRunner
import PipeShellX.Pipeline.Pipeline

namespace psx.pipeline

open psx.os (ExitStatus Interest Waits)

namespace LocalRunner

/-- One output dispatch is bounded. -/
def kFinalReadQuantumBytes : Nat := 256 * 1024

/-- What a run is reported to have come to. -/
structure Outcome where
  exitCode : Int := 0
  stageExitCodes : List Int := []
  deriving DecidableEq

/-- A process of the chain. -/
structure Child where
  exited : Bool := false
  exitCode : Int := 0
  deriving DecidableEq

/-- What can be told of a run. -/
inductive Event
  | spawned (index : Nat) (argv : List Bytes)
  | output (bytes : Bytes)
  | wrote (bytes : Bytes)
  | dropped (bytes : Bytes)
  | closedStdin
  | killed (index : Nat)
  | complete (outcome : Outcome)
  deriving DecidableEq

end LocalRunner

/-- A watch is its interest, and `none` is the token 0. -/
structure LocalRunner where
  onOutput : Bool := false
  onComplete : Bool := false
  children : List LocalRunner.Child := []
  finalWatch : Option Interest := none
  stdinWatch : Option Interest := none
  stdinBuffer : Bytes := []
  stdinOpen : Bool := false
  stdinEndPending : Bool := false
  finalClosed : Bool := false
  exitedCount : Nat := 0
  done : Bool := false
  log : List LocalRunner.Event := []
  deriving DecidableEq

namespace LocalRunner

def note (r : LocalRunner) (e : Event) : LocalRunner := { r with log := r.log ++ [e] }

def child (r : LocalRunner) (index : Nat) : Child := r.children.getD index {}

/-! ## The outcome -/

/-- The outcome, as the processes are now. -/
def outcome (r : LocalRunner) : Outcome :=
  { stageExitCodes := r.children.map (·.exitCode)
    exitCode := rightmostNonzero (r.children.map (·.exitCode)) }

/-- The run is over once every process has exited and the output was closed. -/
def finishIfDone (r : LocalRunner) : LocalRunner :=
  if r.done ∨ ¬ r.finalClosed ∨ r.exitedCount ≠ r.children.length then r
  else
    let r : LocalRunner := { r with done := true }
    if r.onComplete then { r with onComplete := false }.note (.complete r.outcome) else r

/-- The status of a process is known. -/
def Child.reaped (status : ExitStatus) (child : Child) : Child :=
  { child with exitCode := toExitCode status, exited := true }

/-- A child whose status cannot be had counts with 0. -/
def onChildExit (r : LocalRunner) (index : Nat) (waits : Waits) : LocalRunner :=
  if (r.child index).exited then r
  else
    { r with
      children := r.children.modify index (Child.reaped (waits.status {}))
      exitedCount := r.exitedCount + 1 }.finishIfDone

/-- A process is killed and waited for, unless it has exited. -/
def Child.killed (wait : Result ExitStatus) (child : Child) : Child :=
  if child.exited then child
  else
    child.reaped (match wait with
      | .ok status => status
      | .error _ => ⟨.Signaled, 9⟩)

/-- The stdin goes, with what it still buffered. -/
def dropStdin (r : LocalRunner) : LocalRunner :=
  { r with
    stdinWatch := none
    stdinOpen := false
    stdinBuffer := []
    log := r.log ++ if r.stdinOpen then [.dropped r.stdinBuffer, .closedStdin] else [] }

/-- The loop over the children looks at each on its own. `wait` is what `wait` says of a
child that was killed. -/
def killAll (r : LocalRunner) (wait : Nat → Result ExitStatus) : LocalRunner :=
  { r with
    children := r.children.mapIdx fun i child => Child.killed (wait i) child
    exitedCount := r.exitedCount + r.children.countP fun child => !child.exited
    log := r.log ++
      ((List.range r.children.length).filter fun i => !(r.child i).exited).map Event.killed }

/-- The output is over. -/
def closeFinal (r : LocalRunner) : LocalRunner :=
  { r with finalClosed := true, finalWatch := none }.finishIfDone

/-- The caller gives the run up. -/
def cancel (r : LocalRunner) (wait : Nat → Result ExitStatus) : LocalRunner :=
  if r.done then r else (r.dropStdin.killAll wait).closeFinal

/-! ## The output -/

/-- One read of the final stdout. The output callback may cancel the runner, and then
`cancelled` is what `wait` says of the children. -/
structure Read where
  result : Result Bytes
  cancelled : Option (Nat → Result ExitStatus) := none

/-- The end of a dispatch. -/
def rearm (disarmed rearmed : Bool) (r : LocalRunner) : LocalRunner :=
  if disarmed ∧ r.finalWatch ≠ none ∧ ¬ r.finalClosed ∧ ¬ r.done then
    if rearmed then { r with finalWatch := some .Readable } else r.closeFinal
  else r

/-- The callback with one chunk of output. -/
def deliver (r : LocalRunner) (bytes : Bytes) (cancelled : Option (Nat → Result ExitStatus)) :
    LocalRunner :=
  if r.onOutput then
    match cancelled with
    | none => r.note (.output bytes)
    | some wait => (r.note (.output bytes)).cancel wait
  else r

/-- The read loop. After the last of `reads` there is nothing more for now. -/
def readFinal (disarmed rearmed : Bool) : List Read → Nat → LocalRunner → LocalRunner
  | [], _, r => r.rearm disarmed rearmed
  | read :: reads, bytesRead, r =>
    match read.result with
    | .ok [] => r.closeFinal
    | .ok bytes =>
      let r := r.deliver bytes read.cancelled
      if r.finalWatch = none ∨ r.finalClosed ∨ r.done then r
      else if disarmed ∧ kFinalReadQuantumBytes ≤ bytesRead + bytes.length then
        r.rearm disarmed rearmed
      else readFinal disarmed rearmed reads (bytesRead + bytes.length) r
    | .error e => if e.cls = .WouldBlock then r.rearm disarmed rearmed else r.closeFinal

/-- `disarmed` and `rearmed` are the two calls of `modify`. -/
def onFinalReadable (disarmed rearmed : Bool) (r : LocalRunner) (reads : List Read) : LocalRunner :=
  if r.finalWatch = none ∨ r.finalClosed then r
  else
    readFinal disarmed rearmed reads 0
      (if disarmed then { r with finalWatch := some .None } else r)

/-! ## The input -/

/-- The first process took some of its input. -/
def wrote (r : LocalRunner) (count : Nat) : LocalRunner :=
  { r with stdinBuffer := r.stdinBuffer.drop count }.note (.wrote (r.stdinBuffer.take count))

/-- The write loop. After the last of `writes` the pipe is full. -/
def writeLoop : List (Result Nat) → LocalRunner → LocalRunner
  | [], r => r
  | write :: writes, r =>
    if ¬ r.stdinOpen ∨ r.stdinBuffer = [] then r
    else
      match write with
      | .ok 0 => r
      | .ok count => writeLoop writes (r.wrote count)
      | .error e =>
        if e.cls = .WouldBlock then r
        else { r with stdinBuffer := [] }.note (.dropped r.stdinBuffer)

/-- What is buffered is written to the first process, as far as it goes. -/
def drainStdin (writes : List (Result Nat)) (r : LocalRunner) : LocalRunner :=
  let r := writeLoop writes r
  if ¬ r.stdinOpen then r
  else if r.stdinBuffer = [] then
    if r.stdinEndPending then { r with stdinWatch := none, stdinOpen := false }.note .closedStdin
    else { r with stdinWatch := r.stdinWatch.map fun _ => .None }
  else { r with stdinWatch := r.stdinWatch.map fun _ => .Writable }

/-- Input for the first process. -/
def writeStdin (writes : List (Result Nat)) (r : LocalRunner) (bytes : Bytes) : LocalRunner :=
  if ¬ r.stdinOpen then r
  else { r with stdinBuffer := r.stdinBuffer ++ bytes }.drainStdin writes

/-- The end of the input for the first process. -/
def closeStdin (writes : List (Result Nat)) (r : LocalRunner) : LocalRunner :=
  if ¬ r.stdinOpen then r else { r with stdinEndPending := true }.drainStdin writes

/-! ## The start -/

/-- What the system answers while a chain starts: the pipes in the order of their creation,
the processes, and the watches. -/
structure Launch where
  pipe : Nat → Result Unit
  spawn : Nat → Result Unit
  stdinWatched : Bool
  finalWatched : Result Unit
  childWatched : Nat → Result Unit
  waits : Nat → Waits

/-- The first of the pipes that could not be made. -/
def Launch.pipeError (launch : Launch) (count : Nat) : Option Error :=
  (List.range count).findSome? fun i =>
    match launch.pipe i with
    | .ok () => none
    | .error e => some e

/-- The processes are started, until one of them cannot be. -/
def spawnAll (spawn : Nat → Result Unit) : List Stage → LocalRunner → LocalRunner × Result Unit
  | [], r => (r, .ok ())
  | stage :: stages, r =>
    match spawn r.children.length with
    | .error e => (r, .error e)
    | .ok () =>
      spawnAll spawn stages
        ({ r with children := r.children ++ [({} : Child)] }.note
          (.spawned r.children.length stage.argv))

/-- A child that is gone before it is watched is reaped at once. -/
def watchChildren (launch : Launch) : List Nat → LocalRunner → LocalRunner × Result Unit
  | [], r => (r, .ok ())
  | i :: indices, r =>
    match launch.childWatched i with
    | .ok () => watchChildren launch indices r
    | .error e =>
      if e.cls = .NoSuchProcess then watchChildren launch indices (r.onChildExit i (launch.waits i))
      else (r, .error e)

/-- The first process has an input that the caller writes. -/
def openStdin (launch : Launch) (r : LocalRunner) : LocalRunner :=
  { r with stdinOpen := true, stdinWatch := if launch.stdinWatched then some .None else none }

/-- The chain is started. -/
def run (launch : Launch) (r : LocalRunner) (stages : List Stage) (onComplete : Bool)
    (externalStdin : Bool) : LocalRunner × Result Unit :=
  if stages = [] then (r, .error ⟨.InvalidArgument, 0, "empty pipeline"⟩)
  else
    let r := { r with onComplete }
    match launch.pipeError (stages.length + if externalStdin then 1 else 0) with
    | some e => (r, .error e)
    | none =>
      match spawnAll launch.spawn stages r with
      | (r, .error e) => (r, .error e)
      | (r, .ok ()) =>
        let r := if externalStdin then r.openStdin launch else r
        match launch.finalWatched with
        | .error e => (r, .error e)
        | .ok () =>
          watchChildren launch (List.range r.children.length) { r with
            finalWatch := some .Readable }

/-! ## What can happen -/

/-- What happens to a run. -/
inductive Input
  | finalReadable (disarmed rearmed : Bool) (reads : List Read)
  | childExit (index : Nat) (waits : Waits)
  | stdinWritable (writes : List (Result Nat))
  | writeStdin (bytes : Bytes) (writes : List (Result Nat))
  | closeStdin (writes : List (Result Nat))
  | cancel (wait : Nat → Result ExitStatus)

/-- Only a child that is there reports, and only a watched stdin becomes writable. -/
def step (r : LocalRunner) : Input → LocalRunner
  | .finalReadable disarmed rearmed reads => r.onFinalReadable disarmed rearmed reads
  | .childExit index waits =>
    if index < r.children.length then r.onChildExit index waits else r
  | .stdinWritable writes => if r.stdinWatch ≠ none then r.drainStdin writes else r
  | .writeStdin bytes writes => r.writeStdin writes bytes
  | .closeStdin writes => r.closeStdin writes
  | .cancel wait => r.cancel wait

end LocalRunner

end psx.pipeline
