-- A linear chain of remote stages (distributed_runner.cpp): one connection for each
-- stage, the stdout of a stage into the stdin of the next, and an exit that fences
-- every unfinished stage before it. What the transports report comes as an input.
import PipeShellX.Transport.Session

namespace psx.pipeline

open psx.os (ExitStatus)
open psx.transport (Channel StreamId)

/-- What a node's teardown of a connection makes of its stages. -/
def kFencedExitCode : Int := 137

/-- The code of a status, which is above 128 for a signal. -/
def toExitCode (status : ExitStatus) : Int :=
  if status.kind = .Exited then status.code.toInt else 128 + status.code.toInt

/-- pipefail: the rightmost code that is not zero, else 0. -/
def rightmostNonzero (codes : List Int) : Int :=
  codes.foldl (fun last code => if code ≠ 0 then code else last) 0

namespace DistributedRunner

/-- A stage, as its node is asked for it. -/
structure RemoteStage where
  argv : List Bytes
  deriving DecidableEq

/-- What a run is reported to have come to. -/
structure Outcome where
  exitCode : Int := 0
  stageExitCodes : List Int := []
  error : String := ""
  deriving DecidableEq

/-- `session` says that the pointer is not null. `ready` says that the transport has called
`onReady`, which it does once. -/
structure Conn where
  session : Bool := false
  streamId : StreamId := 0
  exited : Bool := false
  exitCode : Int := 0
  transport : Bool := false
  ready : Bool := false
  deriving DecidableEq

/-- What the runner does, as others see it. `null` is a call through a null session. The
last group records what the runner took in. -/
inductive Event
  | opened (index : Nat) (argv : List Bytes)
  | sent (index : Nat) (id : StreamId) (bytes : Bytes) (endStream : Bool)
  | consumed (index : Nat) (id : StreamId) (n : Nat)
  | null (index : Nat)
  | fenced (index : Nat)
  | output (bytes : Bytes)
  | stderr (bytes : Bytes)
  | complete (outcome : Outcome)
  | got (index : Nat) (bytes : Bytes) (channel : Channel)
  | exited (index : Nat) (status : ExitStatus)
  | cancelled
  deriving DecidableEq

end DistributedRunner

/-- A chain of stages, each with a connection to its node. -/
structure DistributedRunner where
  /-- There are handlers for the output, for stderr and for the outcome. -/
  onOutput : Bool := false
  onStderr : Bool := false
  onComplete : Bool := false
  conns : List DistributedRunner.Conn := []
  argvs : List (List Bytes) := []
  readyCount : Nat := 0
  externalStdin : Bool := false
  streamsOpen : Bool := false
  stdinBuffer : Bytes := []
  stdinEndPending : Bool := false
  done : Bool := false
  log : List DistributedRunner.Event := []
  deriving DecidableEq

namespace DistributedRunner

def note (d : DistributedRunner) (e : Event) : DistributedRunner := { d with log := d.log ++ [e] }

def conn (d : DistributedRunner) (index : Nat) : Conn := d.conns.getD index {}

def modify (d : DistributedRunner) (index : Nat) (f : Conn → Conn) : DistributedRunner :=
  { d with conns := d.conns.modify index f }

/-- A call through the session of a connection. -/
def use (d : DistributedRunner) (index : Nat) (e : Event) : DistributedRunner :=
  if (d.conn index).session then d.note e else d.note (.null index)

/-- Bytes, or the end of them, go to a stage. -/
def sendData (d : DistributedRunner) (index : Nat) (bytes : Bytes) (endStream : Bool) :
    DistributedRunner :=
  d.use index (.sent index (d.conn index).streamId bytes endStream)

/-! ## The outcome -/

/-- The outcome, as the stages are now. -/
def outcome (d : DistributedRunner) : Outcome :=
  { stageExitCodes := d.conns.map (·.exitCode)
    exitCode := rightmostNonzero (d.conns.map (·.exitCode)) }

/-- The outcome is reported, unless one was before. -/
def finish (d : DistributedRunner) (outcome : Outcome) : DistributedRunner :=
  if d.done then d
  else
    let d : DistributedRunner := { d with done := true }
    if d.onComplete then { d with onComplete := false }.note (.complete outcome) else d

/-- A stage that has not exited loses its session and its transport. -/
def Conn.fence (conn : Conn) : Conn :=
  if conn.exited then conn
  else
    { conn with exited := true, exitCode := kFencedExitCode, session := false, transport := false }

/-- The loop looks at each connection on its own. -/
def fenceBefore (d : DistributedRunner) (index : Nat) : DistributedRunner :=
  { d with
    conns := d.conns.mapIdx fun i conn => if i < index then conn.fence else conn
    log := d.log ++
      ((List.range index).filter fun i => !(d.conn i).exited).map Event.fenced }

/-- A connection fails, and the run with it. -/
def onConnError (d : DistributedRunner) (index : Nat) (message : String) : DistributedRunner :=
  if d.done then d
  else d.finish { error := "stage " ++ toString index ++ ": " ++ message, exitCode := 1 }

/-! ## The stages -/

/-- Output of a stage goes to the next one, or to the caller. -/
def forward (d : DistributedRunner) (index : Nat) (data : Bytes) : DistributedRunner :=
  if d.done then d
  else if index + 1 < d.conns.length then d.sendData (index + 1) data false
  else if d.onOutput then d.note (.output data)
  else d

/-- `Conn::onData`. -/
def onData (d : DistributedRunner) (index : Nat) (data : Bytes) (channel : Channel) :
    DistributedRunner :=
  let d := d.note (.got index data channel)
  let d :=
    if (d.conn index).session then d.note (.consumed index (d.conn index).streamId data.length)
    else d
  if channel = .Stderr then if d.onStderr then d.note (.stderr data) else d
  else d.forward index data

/-- A stage is over: those before it are fenced, and the next one gets the end of its input. -/
def onStageExit (d : DistributedRunner) (index : Nat) : DistributedRunner :=
  if d.done then d
  else
    let d := d.fenceBefore index
    if index + 1 < d.conns.length then d.sendData (index + 1) [] true else d.finish d.outcome

/-- The status of a stage is known. -/
def Conn.reported (status : ExitStatus) (conn : Conn) : Conn :=
  { conn with exitCode := toExitCode status, exited := true }

/-- `Conn::onExit`. -/
def onExit (d : DistributedRunner) (index : Nat) (status : ExitStatus) : DistributedRunner :=
  ((d.note (.exited index status)).modify index (Conn.reported status)).onStageExit index

/-! ## The start -/

/-- The stage has a stream. -/
def Conn.opened (id : StreamId) (conn : Conn) : Conn := { conn with streamId := id }

/-- `opens` says what `Session::open` returns for each stage. -/
def openStream (opens : Nat → StreamId) (d : DistributedRunner) (index : Nat) :
    DistributedRunner :=
  (d.use index (.opened index (d.argvs.getD index []))).modify index (Conn.opened (opens index))

/-- The end of `onConnReady`: without an upstream the stdin of the first stage ends at once,
and otherwise what was fed early goes out. -/
def feedFirst (d : DistributedRunner) : DistributedRunner :=
  if ¬ d.externalStdin then d.sendData 0 [] true
  else
    let d :=
      if d.stdinBuffer ≠ [] then { d.sendData 0 d.stdinBuffer false with stdinBuffer := [] } else d
    if d.stdinEndPending then d.sendData 0 [] true else d

/-- A connection is ready; with the last of them the streams are opened. -/
def onConnReady (opens : Nat → StreamId) (d : DistributedRunner) (index : Nat) :
    DistributedRunner :=
  if d.done then d
  else
    let d := d.modify index fun conn => { conn with exited := false }
    let d := { d with readyCount := d.readyCount + 1 }
    if d.readyCount ≠ d.conns.length then d
    else
      let d := (List.range d.conns.length).foldl (openStream opens) d
      { d with streamsOpen := true }.feedFirst

/-- Input for the first stage, which is kept until there is a stream. -/
def writeStdin (d : DistributedRunner) (bytes : Bytes) : DistributedRunner :=
  if ¬ d.externalStdin ∨ d.done then d
  else if d.streamsOpen then d.sendData 0 bytes false
  else { d with stdinBuffer := d.stdinBuffer ++ bytes }

/-- The end of the input for the first stage. -/
def closeStdin (d : DistributedRunner) : DistributedRunner :=
  if ¬ d.externalStdin ∨ d.done then d
  else
    let d := { d with stdinEndPending := true }
    if d.streamsOpen then d.sendData 0 [] true else d

/-- The caller gives the run up: every stage is fenced. -/
def cancel (d : DistributedRunner) : DistributedRunner :=
  if d.done then d
  else
    let d := (d.note .cancelled).fenceBefore d.conns.length
    d.finish d.outcome

/-- How the launch of a stage goes. A transport may report an error before its `start`
returns, which may fail as well. -/
inductive Launch
  | connectFailed (message : String)
  | tlsFailed (message : String)
  | started (error : Option String) (failed : Option String)

/-- The connection is there. -/
def Conn.connected (conn : Conn) : Conn := { conn with transport := true, session := true }

/-- The loop of `run` over the stages that are left. -/
def connect (launch : Nat → Launch) : Nat → DistributedRunner → DistributedRunner
  | 0, d => d
  | left + 1, d =>
    let index := d.conns.length
    let d := { d with conns := d.conns ++ [({} : Conn)] }
    match launch index with
    | .connectFailed message => d.onConnError index ("connect: " ++ message)
    | .tlsFailed message => d.onConnError index ("tls: " ++ message)
    | .started error failed =>
      let d := d.modify index Conn.connected
      let d := match error with
        | none => d
        | some message => d.onConnError index message
      match failed with
      | some message => d.onConnError index ("start: " ++ message)
      | none => connect launch left d

/-- The connections are made. -/
def run (launch : Nat → Launch) (d : DistributedRunner) (stages : List RemoteStage)
    (onComplete : Bool) (externalStdin : Bool) : DistributedRunner × Result Unit :=
  if stages = [] then (d, .error ⟨.InvalidArgument, 0, "empty pipeline"⟩)
  else
    (connect launch stages.length
      { d with onComplete, externalStdin, argvs := d.argvs ++ stages.map (·.argv) }, .ok ())

/-! ## What can happen -/

/-- What happens to a run. -/
inductive Input
  | ready (index : Nat)
  | data (index : Nat) (bytes : Bytes) (channel : Channel)
  | exit (index : Nat) (status : ExitStatus)
  | error (index : Nat) (message : String)
  | writeStdin (bytes : Bytes)
  | closeStdin
  | cancel
  deriving DecidableEq

/-- A session calls back for a stream that was opened and has not exited. -/
def live (d : DistributedRunner) (index : Nat) : Bool :=
  (d.conn index).transport && d.streamsOpen && (d.conn index).streamId ≠ 0 &&
    !(d.conn index).exited

/-- Only a transport that is there reports. -/
def step (opens : Nat → StreamId) (d : DistributedRunner) : Input → DistributedRunner
  | .ready index =>
    if (d.conn index).transport ∧ ¬ (d.conn index).ready then
      (d.modify index fun conn => { conn with ready := true }).onConnReady opens index
    else d
  | .data index bytes channel => if d.live index then d.onData index bytes channel else d
  | .exit index status => if d.live index then d.onExit index status else d
  | .error index message =>
    if (d.conn index).transport then d.onConnError index message else d
  | .writeStdin bytes => d.writeStdin bytes
  | .closeStdin => d.closeStdin
  | .cancel => d.cancel

def steps (opens : Nat → StreamId) (d : DistributedRunner) (inputs : List Input) :
    DistributedRunner :=
  inputs.foldl (step opens) d

end DistributedRunner

end psx.pipeline
