-- The command `run --transport native` (run_command.cpp): the sink hears of every host, the
-- canaries go first and the others only after them, a signal or the timer stops what runs, and the
-- exit code says how it all went. What the network does is a parameter, and what else happens comes
-- as moves.
import PipeShellX.Cli.CanaryCount
import PipeShellX.Sink.JsonRecords
import PipeShellX.Ssh.Quoting
import PipeShellX.Stream.LineCuts
import PipeShellX.Transport.NativeResults

namespace psx.cli

open psx.audit (RunRecord StageRecord)
open psx.sink (Call RunSummary StageResult)
open psx.ssh (quoteRemoteCommand)
open psx.stream (Line LineFramer OverflowPolicy)
open psx.transport (NativeController)
open psx.transport.NativeController (Attempt CancelKind HostResult Move Options Target)

/-- A host's name and the texts of errors, as bytes. -/
def bytes (s : String) : Bytes := s.toUTF8.data.toList

/-- The exit code of a run that a signal stopped. -/
def kExitCancelled : Int := 130

/-- What `runNative` reads of a client. -/
structure Client where
  host : String
  nativePort : Nat := 0

/-- What `runNative` reads of the invocation, once the files are read and the reactor is there. -/
structure RunInvocation where
  command : List Bytes
  timeoutSec : Nat := 0
  concurrency : Nat := 0
  policy : OverflowPolicy := .Block
  ringBytes : Nat := 0
  failFast : Bool := false
  canary : Bytes := []
  nativePort : Nat := 7433
  /-- There is an audit log that could be opened. -/
  audit : Bool := false

/-- A run: the clients, whether the sink shows output as it arrives, and what the network does to
the launches of the two controllers. -/
structure Setup where
  invocation : RunInvocation
  clients : List Client
  streamLive : Bool
  runId : Bytes
  first : Nat → Attempt
  rest : Nat → Attempt

namespace Setup

variable (s : Setup)

/-- Where the controller finds a client. -/
def target (client : Client) : Target :=
  ⟨client.host, UInt16.ofNat (if client.nativePort ≠ 0 then client.nativePort
    else s.invocation.nativePort)⟩

/-- The clients as the controllers are given them. -/
def targets : List Target := s.clients.map s.target

/-- What the command line asks of a controller. -/
def options : Options where
  concurrency := s.invocation.concurrency
  policy := s.invocation.policy
  ringBytes := s.invocation.ringBytes
  failFast := s.invocation.failFast

/-- How many clients are canaries. -/
def count : Nat := (canaryCount s.invocation.canary (UInt64.ofNat s.targets.length)).toNat

/-- The targets of the first controller, which are all of them without a canary. -/
def firstTargets : List Target :=
  if s.invocation.canary = [] then s.targets else s.targets.take s.count

/-- The clients that wait for the canaries. -/
def restTargets : List Target := if s.invocation.canary = [] then [] else s.targets.drop s.count

end Setup

/-- Why a run was stopped, if it was. -/
inductive StopCause
  | None
  | Timeout
  | Interrupt
  deriving DecidableEq

/-- The lines of a host that are not over yet, one for each channel. -/
structure HostFramers where
  out : LineFramer := .create LineFramer.kDefaultMaxLineLength
  err : LineFramer := .create LineFramer.kDefaultMaxLineLength

/-- The channel of a stage, as the sink names it. -/
def sinkChannel : transport.Channel → sink.Channel
  | .Stdout => .Stdout
  | .Stderr => .Stderr

/-- The host ran the command to exit code 0. -/
def ok (res : HostResult) : Bool :=
  res.ok && res.exitCode = 0 && res.error = "" && !res.timedOut && !res.cancelled && !res.aborted

/-- The line framers of the hosts, and what the sink was told. -/
structure Told where
  framers : String → HostFramers := fun _ => {}
  calls : List Call := []

namespace Told

/-- The lines of a host, in front of the sink. -/
def emit (host : String) (channel : transport.Channel) (lines : List Line) : List Call :=
  lines.map fun line => .line (bytes host) (sinkChannel channel) line.bytes

/-- Output of a host: the lines that it ends are told. -/
def onOutput (t : Told) (host : String) (data : Bytes) (channel : transport.Channel) : Told :=
  let hf := t.framers host
  match channel with
  | .Stdout => {
      framers := Function.update t.framers host { hf with out := (hf.out.push data).1 }
      calls := t.calls ++ emit host .Stdout (hf.out.push data).2 }
  | .Stderr => {
      framers := Function.update t.framers host { hf with err := (hf.err.push data).1 }
      calls := t.calls ++ emit host .Stderr (hf.err.push data).2 }

/-- What is left of the last lines of a host is told. -/
def flush (t : Told) (host : String) : Told :=
  let hf := t.framers host
  { framers := Function.update t.framers host ⟨hf.out.flush.1, hf.err.flush.1⟩
    calls := t.calls ++ emit host .Stdout hf.out.flush.2.toList ++
      emit host .Stderr hf.err.flush.2.toList }

/-- The lines of what was captured. -/
def framed (captured : Bytes) : List Line :=
  let (framer, lines) := (LineFramer.create LineFramer.kDefaultMaxLineLength).push captured
  lines ++ framer.flush.2.toList

/-- The captured output of a host is told, line by line. -/
def replay (t : Told) (res : HostResult) : Told :=
  { t with
    calls := t.calls ++ emit res.host .Stdout (framed res.stdoutData) ++
      emit res.host .Stderr (framed res.stderrData) }

/-- A result, as the sink is told it. -/
def stageResult (res : HostResult) : StageResult where
  exitCode := res.exitCode
  timedOut := res.timedOut
  errorMessage := bytes res.error
  droppedBytes := res.droppedBytes

/-- One turn of the loop over the results. -/
def finishStage (streamLive : Bool) (t : Told) (res : HostResult) : Told :=
  let t := if streamLive then t.flush res.host else t.replay res
  { t with calls := t.calls ++ [.stageFinished (bytes res.host) (stageResult res)] }

/-- What a controller does, as far as the sink is told. -/
def hear (streamLive : Bool) (t : Told) : NativeController.Event → Told
  | .output host data channel => if streamLive then t.onOutput host data channel else t
  | _ => t

end Told

/-- The controller in charge is the last one that was made. `returned` is what the command
returns. -/
structure RunNative where
  told : Told := {}
  audited : List audit.AuditLog.Entry := []
  stopCause : StopCause := .None
  finalized : Bool := false
  exitCode : Int := 1
  firstController : Option NativeController := none
  restController : Option NativeController := none
  combined : List HostResult := []
  /-- The reactor was told to stop. -/
  stopped : Bool := false
  returned : Option Int := none

namespace RunNative

variable (s : Setup)

/-! ## The results -/

/-- A result, as the audit log records it. -/
def stageRecord (res : HostResult) (i : Nat) : StageRecord where
  host := bytes res.host
  stageId := Text.ascii "s" ++ Decimal.natural i
  exitCode := res.exitCode
  attempts := 1
  timedOut := res.timedOut
  cancelled := res.cancelled
  aborted := res.aborted
  droppedBytes := res.droppedBytes
  error := bytes res.error

/-- The run counts as cancelled. -/
def anyCancelled (r : RunNative) (results : List HostResult) : Bool :=
  r.stopCause = .Interrupt || results.any (·.cancelled)

/-- The exit code of a run that ends with these results. -/
def verdict (cancelled : Bool) (results : List HostResult) : Int :=
  if cancelled then kExitCancelled else if results.countP ok = results.length then 0 else 1

/-- The counts that the sink is told at the end. -/
def summary (cancelled : Bool) (results : List HostResult) : RunSummary where
  stages := results.length
  succeeded := results.countP ok
  failed := results.length - results.countP ok
  droppedBytes := (results.map (·.droppedBytes)).sum
  cancelled := cancelled

/-- The counts that the audit log records at the end. -/
def runRecord (cancelled : Bool) (results : List HostResult) : RunRecord where
  total := results.length
  succeeded := results.countP ok
  failed := results.length - results.countP ok
  cancelled := cancelled
  exitCode := verdict cancelled results

/-- The results are told and recorded, once, and the exit code is set. -/
def finishResults (r : RunNative) (results : List HostResult) : RunNative :=
  if r.finalized then r
  else
    let cancelled := r.anyCancelled results
    let told := results.foldl (Told.finishStage s.streamLive) r.told
    { r with
      finalized := true
      exitCode := verdict cancelled results
      told := { told with calls := told.calls ++ [.runFinished (summary cancelled results)] }
      audited := r.audited ++
        if s.invocation.audit then
          results.zipIdx.map (fun p => .stageFinished s.runId (stageRecord p.1 p.2)) ++
            [.runFinished s.runId (runRecord cancelled results)]
        else []
      stopped := true }

/-- The result of a target that was not run. -/
def cancellationResult (r : RunNative) (message : String) (aborted : Bool) (target : Target) :
    HostResult where
  host := target.host
  error := message
  timedOut := r.stopCause = .Timeout
  cancelled := r.stopCause = .Interrupt
  aborted := aborted && r.stopCause = .None

/-! ## What the controllers report -/

/-- An event of a controller: its output, and its results, which `onComplete` gets. -/
def hear (onComplete : RunNative → List HostResult → RunNative) (r : RunNative) :
    NativeController.Event → RunNative
  | .complete results => onComplete r results
  | e => { r with told := r.told.hear s.streamLive e }

/-- The second controller is done: its results stand behind those of the canaries. -/
def onRestDone (r : RunNative) (restResults : List HostResult) : RunNative :=
  r.finishResults s (r.combined ++ restResults)

/-- Why a client was not run. -/
def skipMessage : StopCause → String
  | .Timeout => "timed out"
  | .Interrupt => "cancelled"
  | .None => "skipped: canary failed"

/-- The canaries are done: the others are started if all of them did well, and are skipped
otherwise. -/
def onCanaryDone (r : RunNative) (canaryResults : List HostResult) : RunNative :=
  if ¬ canaryResults.all ok ∨ s.restTargets = [] ∨ r.stopCause ≠ .None then
    r.finishResults s (canaryResults ++
      s.restTargets.map (r.cancellationResult (skipMessage r.stopCause) true))
  else
    let (rest, restStarted) :=
      ({} : NativeController).start (fun i => (s.rest i).launch) s.restTargets
      s.invocation.command true s.options
    let r := rest.log.foldl (hear s (onRestDone s))
      { r with restController := some rest, combined := canaryResults }
    match restStarted with
    | .ok _ => r
    | .error e =>
      r.finishResults s (r.combined ++ s.restTargets.map
        (r.cancellationResult (e.message "") false))

/-- The first controller is done. -/
def onFirstDone (r : RunNative) (results : List HostResult) : RunNative :=
  if s.invocation.canary = [] then r.finishResults s results else r.onCanaryDone s results

/-- Up to `r.run()`. -/
def start : RunNative :=
  let r : RunNative := {
    told := { calls := s.targets.map fun target => .stageStarted (bytes target.host) }
    audited := if s.invocation.audit then
        [.runStarted s.runId (quoteRemoteCommand s.invocation.command .Posix) s.clients.length]
          else [] }
  let (first, started) := ({} : NativeController).start (fun i => (s.first i).launch) s.firstTargets
    s.invocation.command true s.options
  let r := first.log.foldl (hear s (onFirstDone s)) { r with firstController := some first }
  match started with
  | .ok _ => r
  | .error e => r.finishResults s (s.targets.map (r.cancellationResult (e.message "") false))

/-! ## What can happen -/

/-- A move of the first controller, and what it calls back. -/
def moveFirst (r : RunNative) (move : Move) : RunNative :=
  match r.firstController with
  | none => r
  | some first =>
    let next := first.step (fun i => (s.first i).launch) move.input
    (next.log.drop first.log.length).foldl (hear s (onFirstDone s))
    { r with firstController := some next }

/-- A move of the second controller, and what it calls back. -/
def moveRest (r : RunNative) (move : Move) : RunNative :=
  match r.restController with
  | none => r
  | some rest =>
    let next := rest.step (fun i => (s.rest i).launch) move.input
    (next.log.drop rest.log.length).foldl (hear s (onRestDone s))
    { r with restController := some next }

/-- `activeController->cancel`. -/
def cancel (r : RunNative) (reason : String) (kind : CancelKind) : RunNative :=
  if r.restController.isSome then r.moveRest s (.cancel reason kind)
  else r.moveFirst s (.cancel reason kind)

/-- A signal cancels the run. -/
def onSignal (r : RunNative) : RunNative :=
  if r.finalized ∨ r.stopCause = .Interrupt then r
  else cancel s { r with stopCause := .Interrupt } "cancelled" .Interrupt

/-- The timer cancels the run, unless it was stopped before. -/
def onTimeout (r : RunNative) : RunNative :=
  if r.finalized ∨ r.stopCause ≠ .None then r
  else cancel s { r with stopCause := .Timeout } "timed out" .Timeout

/-- A transport calls back, or a controller retires a connection. -/
inductive Report
  | called (index : Nat) (call : NativeController.Report)
  | retired (index : Nat)

/-- What a report is for its controller. -/
def Report.move : Report → Move
  | .called index call => .report index call
  | .retired index => .retire index

/-- What happens to a run. -/
inductive Input
  | first (report : Report)
  | rest (report : Report)
  | signal
  | timeout
  /-- A turn of the reactor ends, and it stops if it was told to. -/
  | turn
  /-- The reactor fails. -/
  | failed

/-- One step of the loop, until it has returned. -/
def step (r : RunNative) (input : Input) : RunNative :=
  if r.returned.isSome then r
  else
    match input with
    | .first report => r.moveFirst s report.move
    | .rest report => r.moveRest s report.move
    | .signal => r.onSignal s
    | .timeout => if 0 < s.invocation.timeoutSec then r.onTimeout s else r
    | .turn => if r.stopped then { r with returned := some r.exitCode } else r
    | .failed => { r with returned := some (if r.finalized then r.exitCode else 2) }

def run (inputs : List Input) : RunNative := inputs.foldl (step s) (start s)

end RunNative

end psx.cli
