-- The node's side of a connection (node_stage_runner.cpp): each stream that the controller
-- opens is run as a local process. What the pipes and the process answer comes as an input.
import PipeShellX.Os
import PipeShellX.Transport.Session

namespace psx.transport

open psx.os (ExitStatus Interest Waits)

namespace NodeStageRunner

/-- The buffer of one read. -/
def kReadBytes : Nat := 16 * 1024

/-- What one read gave: no more than its buffer holds. -/
abbrev Chunk := { bytes : Bytes // bytes.length ≤ kReadBytes }

/-- A watch is its interest, and `none` is the token 0. -/
structure Stage where
  stdinBuffer : Bytes := []
  stdoutWatch : Option Interest := none
  stderrWatch : Option Interest := none
  stdinWatch : Option Interest := none
  stdoutOpen : Bool := true
  stderrOpen : Bool := true
  stdinOpen : Bool := true
  stdinEndPending : Bool := false
  exited : Bool := false
  paused : Bool := false
  status : ExitStatus := {}
  deriving DecidableEq

/-- What happened, in order: what the session did, the processes that were spawned, what the pipes
gave and took, and the calls that the runner made of the session. -/
inductive Event
  | session (e : psx.transport.Event)
  /-- With the arguments and the directory of the request. -/
  | started (id : StreamId) (request : OpenRequest)
  | read (id : StreamId) (channel : Channel) (bytes : Bytes)
  | handed (id : StreamId) (channel : Channel) (bytes : Bytes)
  | ended (id : StreamId) (channel : Channel)
  | reaped (id : StreamId) (status : ExitStatus)
  | exitSent (id : StreamId) (status : ExitStatus)
  | resumed (id : StreamId)
  | wrote (id : StreamId) (bytes : Bytes)
  | dropped (id : StreamId) (bytes : Bytes)
  | credited (id : StreamId) (n : UInt32)
  deriving DecidableEq

end NodeStageRunner

/-- `validator` gives the reason of a refusal. -/
structure NodeStageRunner where
  session : Session
  validator : Option (OpenRequest → Option Bytes) := none
  stages : StreamId → Option NodeStageRunner.Stage := fun _ => none
  log : List NodeStageRunner.Event := []

namespace NodeStageRunner

/-- The runner binds itself to its session, for the callback of `onStreamWritable`. -/
def new (initialWindow : UInt32) (validator : Option (OpenRequest → Option Bytes)) :
    NodeStageRunner :=
  { session := .new .Node initialWindow true, validator }

def note (r : NodeStageRunner) (events : List Event) : NodeStageRunner :=
  { r with log := r.log ++ events }

/-- The stage of a stream is changed. -/
def setStage (r : NodeStageRunner) (id : StreamId) (stage : Option Stage) : NodeStageRunner :=
  { r with stages := Function.update r.stages id stage }

/-! ## One stage -/

namespace Stage

/-- A channel of a stage is open. -/
def isOpen (stage : Stage) : Channel → Bool
  | .Stdout => stage.stdoutOpen
  | .Stderr => stage.stderrOpen

/-- What a channel of a stage is watched for. -/
def watch (stage : Stage) : Channel → Option Interest
  | .Stdout => stage.stdoutWatch
  | .Stderr => stage.stderrWatch

/-- A channel of a stage is closed. -/
def closeReader (stage : Stage) : Channel → Stage
  | .Stdout => { stage with stdoutWatch := none, stdoutOpen := false }
  | .Stderr => { stage with stderrWatch := none, stderrOpen := false }

/-- The output of a stage is watched, or not for now. -/
def setReadInterest (stage : Stage) (enabled : Bool) : Stage :=
  let interest : Interest := if enabled then .Readable else .None
  { stage with
    stdoutWatch :=
      if stage.stdoutOpen then stage.stdoutWatch.map fun _ => interest else stage.stdoutWatch
    stderrWatch :=
      if stage.stderrOpen then stage.stderrWatch.map fun _ => interest else stage.stderrWatch }

/-- The input of a stage is closed. -/
def closeStdin (stage : Stage) : Stage := { stage with stdinWatch := none, stdinOpen := false }

/-- The end of `drainStdin`: a drained buffer needs no watch, another one waits for space. -/
def rearmStdin (stage : Stage) : Stage :=
  if stage.stdinBuffer = [] then
    if stage.stdinEndPending then if stage.stdinOpen then stage.closeStdin else stage
    else { stage with stdinWatch := stage.stdinWatch.map fun _ => .None }
  else { stage with stdinWatch := stage.stdinWatch.map fun _ => .Writable }

/-- The child is reaped and both readers are closed. -/
def done (stage : Stage) : Bool := stage.exited && !stage.stdoutOpen && !stage.stderrOpen

end Stage

/-! ## The calls of the session -/

/-- `resume` is the callback `onStreamWritable`, the last thing that `sendData` does. -/
def sendData (resume : NodeStageRunner → StreamId → NodeStageRunner) (r : NodeStageRunner)
    (id : StreamId) (bytes : Bytes) (channel : Channel) : NodeStageRunner :=
  let (session, events) := r.session.sendData id bytes false channel
  let r := { r with session }.note (.handed id channel bytes :: events.map .session)
  if .onStreamWritable id ∈ events then resume r id else r

/-- The status of a stage is sent. -/
def sendExit (r : NodeStageRunner) (id : StreamId) (status : ExitStatus) : NodeStageRunner :=
  let (session, events) := r.session.sendExit id status
  { r with session }.note (.exitSent id status :: events.map .session)

/-- The controller gets credit for what a stage has taken. -/
def consume (r : NodeStageRunner) (id : StreamId) (n : UInt32) : NodeStageRunner :=
  let (session, events) := r.session.consume id n.toNat
  { r with session }.note (.credited id n :: events.map .session)

/-! ## The output of a stage -/

/-- The stage is over once it has exited and its output was closed. -/
def finishIfDone (r : NodeStageRunner) (id : StreamId) : NodeStageRunner :=
  match r.stages id with
  | none => r
  | some stage => if stage.done then (r.sendExit id stage.status).setStage id none else r

/-- A channel of a stage is closed, and the stage may be over with it. -/
def closeReader (r : NodeStageRunner) (id : StreamId) (channel : Channel) : NodeStageRunner :=
  match r.stages id with
  | none => r
  | some stage =>
    if ¬ stage.isOpen channel then r
    else (r.setStage id (stage.closeReader channel)).note [.ended id channel]

/-- The reads stop, so that the write of the stage blocks. -/
def pause (r : NodeStageRunner) (id : StreamId) : NodeStageRunner :=
  match r.stages id with
  | none => r
  | some stage => r.setStage id (some { stage.setReadInterest false with paused := true })

/-- The read loop. After the last of the reads the pipe would block. -/
def readLoop (resume : NodeStageRunner → StreamId → NodeStageRunner) (id : StreamId)
    (channel : Channel) : List (Result Chunk) → NodeStageRunner → NodeStageRunner
  | [], r => if ¬ r.session.isWritable id then r.pause id else r.finishIfDone id
  | got :: reads, r =>
    if ¬ r.session.isWritable id then r.pause id
    else
      match got with
      | .ok chunk =>
        if chunk.1 = [] then (r.closeReader id channel).finishIfDone id
        else
          readLoop resume id channel reads
            ((r.note [.read id channel chunk.1]).sendData resume id chunk.1 channel)
      | .error e =>
        if e.cls = .WouldBlock then r.finishIfDone id
        else (r.closeReader id channel).finishIfDone id

/-- What reads of a closed handle give: `EBADF`, which is not `WouldBlock`. -/
def closedHandle : List (Result Chunk) := [.error ⟨.Closed, 9, "read"⟩]

/-- There is output of a stage. -/
def onReadable (resume : NodeStageRunner → StreamId → NodeStageRunner)
    (reads : Channel → List (Result Chunk)) (r : NodeStageRunner) (id : StreamId)
    (channel : Channel) : NodeStageRunner :=
  match r.stages id with
  | none => r
  | some stage =>
    r.readLoop resume id channel (if stage.isOpen channel then reads channel else closedHandle)

/-- The callback of the session. A read that it starts may send, and that may call it again:
`depth` bounds how deep. -/
def resumeReads (reads : Channel → List (Result Chunk)) :
    Nat → NodeStageRunner → StreamId → NodeStageRunner
  | 0, r, _ => r
  | depth + 1, r, id =>
    match r.stages id with
    | none => r
    | some stage =>
      if ¬ stage.paused then r
      else
        let resumed := { stage with paused := false }.setReadInterest true
        let r := (r.setStage id resumed).note [.resumed id]
        let r := r.onReadable (resumeReads reads depth) reads id .Stdout
        r.onReadable (resumeReads reads depth) reads id .Stderr

/-! ## The input of a stage -/

/-- The write loop and what comes after it. `stage` is the entry of `id` in the map, and the
result puts it back. After the last of the writes the pipe is full. A write takes no more
than it is given. -/
def drainStdin (id : StreamId) :
    List (Result Nat) → Stage → NodeStageRunner → NodeStageRunner
  | [], stage, r => r.setStage id stage.rearmStdin
  | write :: writes, stage, r =>
    if stage.stdinOpen ∧ stage.stdinBuffer ≠ [] then
      match write with
      | .ok count =>
        if count > 0 then
          let count := min count stage.stdinBuffer.length
          drainStdin id writes { stage with stdinBuffer := stage.stdinBuffer.drop count }
            ((r.note [.wrote id (stage.stdinBuffer.take count)]).consume id (.ofNat count))
        else r.setStage id stage.rearmStdin
      | .error e =>
        if e.cls = .WouldBlock then r.setStage id stage.rearmStdin
        else
          -- the stage closed its stdin: the rest is dropped, and its credit given back
          ((r.note [.dropped id stage.stdinBuffer]).consume id
            (.ofNat stage.stdinBuffer.length)).setStage id
              ({ stage with stdinBuffer := [] }.closeStdin)
    else r.setStage id stage.rearmStdin

/-- Input for a stage. -/
def onData (writes : List (Result Nat)) (r : NodeStageRunner) (id : StreamId) (bytes : Bytes)
    (endStream : Bool) : NodeStageRunner :=
  match r.stages id with
  | none => r
  | some stage =>
    r.drainStdin id writes
      { stage with
        stdinBuffer := stage.stdinBuffer ++ bytes
        stdinEndPending := stage.stdinEndPending || endStream }

/-- A stage takes input again. -/
def onStdinWritable (writes : List (Result Nat)) (r : NodeStageRunner) (id : StreamId) :
    NodeStageRunner :=
  match r.stages id with
  | none => r
  | some stage => r.drainStdin id writes stage

/-! ## The start and the end -/

/-- The process of a stage has exited. -/
def onStageExit (r : NodeStageRunner) (id : StreamId) (waits : Waits) : NodeStageRunner :=
  match r.stages id with
  | none => r
  | some stage =>
    let status := waits.status stage.status
    ((r.setStage id (some { stage with status, exited := true })).note
      [.reaped id status]).finishIfDone id

/-- What the system answers while a stage starts. -/
structure Launch where
  stdoutPipe : Result Unit := .ok ()
  stderrPipe : Result Unit := .ok ()
  stdinPipe : Result Unit := .ok ()
  process : Result Unit := .ok ()
  watchOut : Result Unit := .ok ()
  watchErr : Result Unit := .ok ()
  watchStdin : Result Unit := .ok ()
  watchChild : Result Unit := .ok ()
  waits : Waits := ⟨.ok none, .ok {}⟩

/-- A watch that could not be had leaves its token 0. -/
def Launch.armed (launch : Launch) (stage : Stage) : Stage :=
  { stage with
    stdoutWatch := if launch.watchOut = .ok () then some .Readable else stage.stdoutWatch
    stderrWatch := if launch.watchErr = .ok () then some .Readable else stage.stderrWatch
    stdinWatch := if launch.watchStdin = .ok () then some .None else stage.stdinWatch }

/-- A child that is gone before it is watched is reaped at once. -/
def arm (launch : Launch) (r : NodeStageRunner) (id : StreamId) (stage : Stage) : NodeStageRunner :=
  let r := r.setStage id (some (launch.armed stage))
  match launch.watchChild with
  | .ok () => r
  | .error e => if e.cls = .NoSuchProcess then r.onStageExit id launch.waits else r

/-- What a controller reads when the policy refuses its command. -/
def rejection (reason : Bytes) : Bytes :=
  "pipeshellx node: command rejected by policy: ".toUTF8.toList ++ reason ++ "\n".toUTF8.toList

/-- A stage is asked for: it is refused, fails to start or runs. -/
def onOpen (resume : NodeStageRunner → StreamId → NodeStageRunner) (launch : Launch)
    (r : NodeStageRunner) (id : StreamId) (request : OpenRequest) : NodeStageRunner :=
  if request.argv = [] then r.sendExit id ⟨.Exited, 127⟩
  else
    match r.validator.bind fun validator => validator request with
    | some reason => (r.sendData resume id (rejection reason) .Stderr).sendExit id ⟨.Exited, 126⟩
    | none =>
      if launch.stdoutPipe ≠ .ok () ∨ launch.stderrPipe ≠ .ok () ∨ launch.stdinPipe ≠ .ok () then
        r.sendExit id ⟨.Exited, 127⟩
      else if launch.process ≠ .ok () then r.sendExit id ⟨.Exited, 127⟩
      else
        -- an entry that is there stays
        (r.note [.started id request]).arm launch id ((r.stages id).getD {})

/-! ## What can happen -/

/-- What the system answers while the callbacks of one frame run. -/
structure Answers where
  launch : Launch := {}
  reads : Channel → List (Result Chunk) := fun _ => []
  writes : List (Result Nat) := []

/-- There is credit again: what waits in the pipes of a stage is read. -/
def resume (depth : Nat) (answers : Answers) : NodeStageRunner → StreamId → NodeStageRunner :=
  resumeReads answers.reads (depth + 1)

/-- The handler's side of an event of the session. -/
def called (depth : Nat) (answers : Answers) (r : NodeStageRunner) :
    psx.transport.Event → NodeStageRunner
  | .onOpen id request => r.onOpen (resume depth answers) answers.launch id request
  | .onData id bytes endStream _ => r.onData answers.writes id bytes endStream
  | .onStreamWritable id => resume depth answers r id
  | _ => r

/-- A callback is the last thing that `dispatch` does. A refused frame poisons the session. -/
def dispatch (depth : Nat) (answers : Answers) (r : NodeStageRunner) (frame : Frame) :
    NodeStageRunner :=
  if r.session.protocolFailed then r
  else
    match r.session.dispatch frame with
    | .error _ => { r with session := { r.session with protocolFailed := true } }
    | .ok (session, events) =>
      events.foldl (called depth answers)
        ({ r with session }.note (.session (.got frame) :: events.map .session))

/-- A frame that the decoder gave, an edge of a pipe, the exit of a child, the keepalive of the
transport, or bytes that are no frame. -/
inductive Input
  | frame (frame : Frame) (answers : Answers)
  | readable (id : StreamId) (channel : Channel) (answers : Answers)
  | stdinWritable (id : StreamId) (writes : List (Result Nat))
  | stageExit (id : StreamId) (waits : Waits)
  | ping
  | malformed

/-- One step of a node. -/
def step (depth : Nat) (r : NodeStageRunner) : Input → NodeStageRunner
  | .frame frame answers => r.dispatch depth answers frame
  | .readable id channel answers =>
    r.onReadable (resume depth answers) answers.reads id channel
  | .stdinWritable id writes => r.onStdinWritable writes id
  | .stageExit id waits => r.onStageExit id waits
  | .ping => { r with session := r.session.ping.1 }.note (r.session.ping.2.map .session)
  | .malformed => { r with session := { r.session with protocolFailed := true } }

/-- The state after some inputs. -/
def history (depth : Nat) (initialWindow : UInt32)
    (validator : Option (OpenRequest → Option Bytes)) (inputs : List Input) : NodeStageRunner :=
  inputs.foldl (step depth) (new initialWindow validator)

end NodeStageRunner

end psx.transport
