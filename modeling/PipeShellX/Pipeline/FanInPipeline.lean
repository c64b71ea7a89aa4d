-- Fan-in (fanin_pipeline.cpp): one command runs on many hosts, and their merged stdout feeds
-- a pipeline downstream. Each side calls the other's handlers, so what a side calls, and what
-- it calls back while the other one acts on it, are inputs.
import PipeShellX.Pipeline.SegmentedPipeline
import PipeShellX.Transport.NativeController

namespace psx.pipeline

open psx.transport.NativeController (HostResult Target)

namespace FanInPipeline

abbrev Outcome := SegmentedPipeline.Outcome
abbrev ResolvedStage := SegmentedPipeline.ResolvedStage

/-- A call of the controller on the source hosts. `lost` is the outcome of a downstream that
fails while its stdin is written or closed, and `stopped` are the results of a controller
that completes within its cancellation. -/
inductive SourceCall
  | output (bytes : Bytes) (lost : Option Outcome) (stopped : Option (List HostResult))
  | stderr (bytes : Bytes)
  | done (results : List HostResult) (lost : Option Outcome)
  deriving DecidableEq

/-- A call of the downstream pipeline. -/
inductive DownstreamCall
  | output (bytes : Bytes)
  | done (outcome : Outcome) (stopped : Option (List HostResult))
  deriving DecidableEq

/-- What each side calls while it is started, and what its start returns. -/
structure Start where
  downstreamCalls : List DownstreamCall := []
  downstreamStarted : Result Unit := .ok ()
  sourceCalls : List SourceCall := []
  sourceStarted : Result Unit := .ok ()

/-- What the run does, as others see it. `sourceOver` and `downstreamOver` are the calls that
tell it the end of a side. -/
inductive Event
  | downstreamRun (stages : List ResolvedStage)
  | sourceCreated
  | sourceStart (targets : List Target) (argv : List Bytes)
  | writeStdin (bytes : Bytes)
  | closeStdin
  | cancel (reason : String)
  | output (bytes : Bytes)
  | stderr (bytes : Bytes)
  | sourceOver (results : List HostResult)
  | downstreamOver (outcome : Outcome)
  | complete (outcome : Outcome)
  deriving DecidableEq

end FanInPipeline

/-- A source on many hosts and what its output is merged into. -/
structure FanInPipeline where
  /-- There are handlers for the output, for stderr and for the outcome. -/
  onOutput : Bool := false
  onStderr : Bool := false
  onComplete : Bool := false
  /-- The controller has been created. -/
  source : Bool := false
  hasDownstream : Bool := false
  sourceExit : Int := 0
  sourceError : String := ""
  downstreamOutcome : Option FanInPipeline.Outcome := none
  sourceDone : Bool := false
  downstreamDone : Bool := false
  sourceCancellationRequested : Bool := false
  done : Bool := false
  log : List FanInPipeline.Event := []
  deriving DecidableEq

namespace FanInPipeline

def note (p : FanInPipeline) (e : Event) : FanInPipeline := { p with log := p.log ++ [e] }

/-! ## The outcome -/

/-- The outcome is reported, unless one was before. -/
def finish (p : FanInPipeline) (outcome : Outcome) : FanInPipeline :=
  if p.done then p
  else
    let p := { p with done := true }
    if p.onComplete then { p with onComplete := false }.note (.complete outcome) else p

/-- The outcome of the downstream, with the failure of the source where it has none. -/
def merged (sourceExit : Int) (sourceError : String) (outcome : Outcome) : Outcome :=
  { outcome with
    exitCode := if outcome.exitCode = 0 ∧ sourceExit ≠ 0 then sourceExit else outcome.exitCode
    error := if outcome.error = "" ∧ sourceError ≠ "" then sourceError else outcome.error }

/-- The run is over once both sides are. -/
def finishIfReady (p : FanInPipeline) : FanInPipeline :=
  if ¬ p.sourceDone ∨ ¬ p.downstreamDone then p
  else
    match p.downstreamOutcome with
    | none => p
    | some outcome =>
      { p with downstreamOutcome := none }.finish (merged p.sourceExit p.sourceError outcome)

/-- What the result of one host adds to the exit code and the error of the source. 137 is
the exit of a host that was cut off because the downstream had completed. -/
def tally (cancelled : Bool) (source : Int × String) (result : HostResult) : Int × String :=
  if cancelled ∧ ¬ result.ok ∧ result.error = "downstream completed" then (137, source.2)
  else if ¬ result.ok ∨ result.error ≠ "" then
    (source.1, "source host " ++ result.host ++ ": " ++
      (if result.error = "" then "non-zero exit" else result.error))
  else if result.exitCode ≠ 0 then (result.exitCode, source.2)
  else source

/-! ## The ends of the two sides -/

/-- `onSourceDone`, over how the downstream's stdin is closed. -/
def sourceEnded (close : FanInPipeline → FanInPipeline) (p : FanInPipeline)
    (results : List HostResult) : FanInPipeline :=
  if p.done then p
  else
    let source := results.foldl (tally p.sourceCancellationRequested) (p.sourceExit, p.sourceError)
    let p := { p with sourceDone := true, sourceExit := source.1, sourceError := source.2 }.note
      (.sourceOver results)
    if ¬ p.hasDownstream then p.finish { exitCode := p.sourceExit, error := p.sourceError }
    else
      let p := if ¬ p.downstreamDone then close p else p
      p.finishIfReady

/-- `onDownstreamDone`, over how the source is cancelled. -/
def downstreamEnded (cancel : FanInPipeline → FanInPipeline) (p : FanInPipeline)
    (outcome : Outcome) : FanInPipeline :=
  if p.done then p
  else
    let p := { p with downstreamOutcome := some outcome, downstreamDone := true }.note
      (.downstreamOver outcome)
    if ¬ p.sourceDone then cancel { p with sourceCancellationRequested := true }
    else p.finishIfReady

/-- The source is done when the downstream's stdin is closed, so a downstream that fails
there does not cancel it. -/
def closeStdin (lost : Option Outcome) (p : FanInPipeline) : FanInPipeline :=
  let p := p.note .closeStdin
  match lost with
  | none => p
  | some outcome => downstreamEnded id p outcome

/-- The source has ended: the downstream gets the end of its input. -/
def onSourceDone (lost : Option Outcome) : FanInPipeline → List HostResult → FanInPipeline :=
  sourceEnded (closeStdin lost)

/-- The downstream is done when the source is cancelled, so a controller that completes
there does not close its stdin. Where none has been created, none completes. -/
def cancelSource (stopped : Option (List HostResult)) (p : FanInPipeline) : FanInPipeline :=
  let p := p.note (.cancel "downstream completed")
  if p.source then
    match stopped with
    | none => p
    | some results => sourceEnded id p results
  else p

/-- The downstream has ended: the source is stopped. -/
def onDownstreamDone (stopped : Option (List HostResult)) :
    FanInPipeline → Outcome → FanInPipeline :=
  downstreamEnded (cancelSource stopped)

/-- Output of a host goes downstream, or to the caller. -/
def onSourceOutput (lost : Option Outcome) (stopped : Option (List HostResult))
    (p : FanInPipeline) (data : Bytes) : FanInPipeline :=
  if p.done then p
  else if p.hasDownstream then
    let p := p.note (.writeStdin data)
    match lost with
    | none => p
    | some outcome => if p.downstreamDone then p else onDownstreamDone stopped p outcome
  else if p.onOutput then p.note (.output data)
  else p

/-! ## What the sides call -/

/-- A controller completes once, and calls nothing after that. -/
def sourceCalled (p : FanInPipeline) (call : SourceCall) : FanInPipeline :=
  if p.sourceDone then p
  else
    match call with
    | .output bytes lost stopped => p.onSourceOutput lost stopped bytes
    | .stderr bytes => if p.onStderr then p.note (.stderr bytes) else p
    | .done results lost => p.onSourceDone lost results

/-- A pipeline completes once, and calls nothing after that. -/
def downstreamCalled (p : FanInPipeline) (call : DownstreamCall) : FanInPipeline :=
  if p.downstreamDone then p
  else
    match call with
    | .output bytes => if p.onOutput then p.note (.output bytes) else p
    | .done outcome stopped => p.onDownstreamDone stopped outcome

/-! ## The start -/

/-- The downstream is started first, so that the output of the source has a live consumer. -/
def runDownstream (start : Start) (p : FanInPipeline) (stages : List ResolvedStage) :
    FanInPipeline × Result Unit :=
  if p.hasDownstream then
    (start.downstreamCalls.foldl downstreamCalled (p.note (.downstreamRun stages)),
      start.downstreamStarted)
  else (p, .ok ())

/-- The command is started on the hosts. -/
def startSource (start : Start) (p : FanInPipeline) (argv : List Bytes) (targets : List Target) :
    FanInPipeline × Result Unit :=
  let p := { p with source := true }.note .sourceCreated
  (start.sourceCalls.foldl sourceCalled (p.note (.sourceStart targets argv)), start.sourceStarted)

/-- Both sides are started, the downstream first. -/
def run (start : Start) (p : FanInPipeline) (sourceArgv : List Bytes) (sourceTargets : List Target)
    (downstream : List ResolvedStage) (onComplete : Bool) : FanInPipeline × Result Unit :=
  if sourceArgv = [] ∨ sourceTargets = [] then
    (p, .error ⟨.InvalidArgument, 0, "fan-in needs a source command and hosts"⟩)
  else
    let (p, started) :=
      { p with onComplete, hasDownstream := decide (downstream ≠ []) }.runDownstream
        start downstream
    match started with
    | .error e => (p, .error e)
    | .ok () => p.startSource start sourceArgv sourceTargets

/-! ## Runs -/

/-- What can happen once the run has started. -/
inductive Input
  | source (call : SourceCall)
  | downstream (call : DownstreamCall)

/-- Only a side that is there calls. -/
def step (p : FanInPipeline) : Input → FanInPipeline
  | .source call => if p.source then p.sourceCalled call else p
  | .downstream call => if p.hasDownstream then p.downstreamCalled call else p

/-- The inputs of a run, one after the other. -/
def steps (p : FanInPipeline) (inputs : List Input) : FanInPipeline := inputs.foldl step p

end FanInPipeline

end psx.pipeline
