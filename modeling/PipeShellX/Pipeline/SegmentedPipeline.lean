-- A chain that mixes local and remote stages (segmented_pipeline.cpp): it is cut into
-- segments of one locality, each on its own runner, and the segments are spliced: the
-- output of one feeds the next, and its end closes the next one's stdin.
import PipeShellX.Pipeline.LocalRunner

namespace psx.pipeline

open psx.os (ExitStatus Waits)
open psx.transport (Channel StreamId)

namespace SegmentedPipeline

/-- A stage is local when its host is empty. -/
structure ResolvedStage where
  argv : List Bytes
  host : String := ""
  deriving DecidableEq

/-- The stage runs on this machine. -/
def ResolvedStage.isLocal (stage : ResolvedStage) : Bool := stage.host = ""

/-- What a run is reported to have come to. -/
structure Outcome where
  exitCode : Int := 0
  stageExitCodes : List Int := []
  error : String := ""
  deriving DecidableEq

/-! ## The runner of a segment -/

/-- What runs a segment. -/
inductive Runner
  | localRunner (runner : LocalRunner)
  | remoteRunner (runner : DistributedRunner)
  deriving DecidableEq

/-- A call of a runner into the pipeline. -/
inductive Call
  | output (bytes : Bytes)
  | done (codes : List Int) (error : String)
  deriving DecidableEq

/-- What a chain of processes calls. -/
@[simp] def Call.ofLocal : LocalRunner.Event → Option Call
  | .output bytes => some (.output bytes)
  | .complete outcome => some (.done outcome.stageExitCodes "")
  | _ => none

/-- What a chain of nodes calls. -/
@[simp] def Call.ofRemote : DistributedRunner.Event → Option Call
  | .output bytes => some (.output bytes)
  | .complete outcome => some (.done outcome.stageExitCodes outcome.error)
  | _ => none

namespace Runner

/-- All calls that a runner made so far. -/
def calls : Runner → List Call
  | localRunner r => r.log.filterMap Call.ofLocal
  | remoteRunner d => d.log.filterMap Call.ofRemote

/-- The runner has completed. -/
def isOver : Runner → Bool
  | localRunner r => r.done
  | remoteRunner d => d.done

end Runner

/-- What the system answers within one event: how much the stdin of a local segment takes, a
connection of a remote one that fails while its stdin is written or closed (the stage and
the message), and what `wait` says of a killed child. -/
structure Answers where
  writes : Nat → List (Result Nat) := fun _ => []
  lost : Nat → Option (Nat × String) := fun _ => none
  wait : Nat → Nat → Result ExitStatus := fun _ _ => .ok ⟨.Signaled, 9⟩

/-- A connection can fail within a call that sends something. -/
def lose (lost : Option (Nat × String)) (before after : DistributedRunner) : DistributedRunner :=
  match lost with
  | none => after
  | some (stage, message) =>
    if before.log.length < after.log.length ∧ (after.conn stage).transport then
      after.onConnError stage message
    else after

namespace Runner

/-- Input for the first stage of a segment. -/
def writeStdin (answers : Answers) (index : Nat) (runner : Runner) (bytes : Bytes) : Runner :=
  match runner with
  | localRunner r => localRunner (r.writeStdin (answers.writes index) bytes)
  | remoteRunner d => remoteRunner (lose (answers.lost index) d (d.writeStdin bytes))

/-- The end of the input for the first stage of a segment. -/
def closeStdin (answers : Answers) (index : Nat) (runner : Runner) : Runner :=
  match runner with
  | localRunner r => localRunner (r.closeStdin (answers.writes index))
  | remoteRunner d => remoteRunner (lose (answers.lost index) d d.closeStdin)

/-- A segment is given up. -/
def cancel (answers : Answers) (index : Nat) (runner : Runner) : Runner :=
  match runner with
  | localRunner r => localRunner (r.cancel (answers.wait index))
  | remoteRunner d => remoteRunner d.cancel

end Runner

/-- How the start of each segment goes. -/
structure Launches where
  locals : Nat → LocalRunner.Launch
  remotes : Nat → Nat → DistributedRunner.Launch

/-- A segment is started. -/
def Runner.run (launches : Launches) (index : Nat) (runner : Runner) (stages : List ResolvedStage)
    (externalStdin : Bool) : Runner × Result Unit :=
  match runner with
  | localRunner r =>
    let (r, started) := LocalRunner.run (launches.locals index) r
      (stages.map fun stage => { argv := stage.argv }) true externalStdin
    (localRunner r, started)
  | remoteRunner d =>
    let (d, started) := DistributedRunner.run (launches.remotes index) d
      (stages.map fun stage => { argv := stage.argv }) true externalStdin
    (remoteRunner d, started)

/-- Neighbouring stages of one kind, with what runs them. -/
structure Segment where
  runner : Runner := .localRunner {}
  stageCount : Nat := 0
  exitCodes : List Int := []
  done : Bool := false
  deriving DecidableEq

/-- What the pipeline does, as others see it. `started` is the call of a segment's `run`,
`completed` the completion of a segment, and `finished` the end of the pipeline, with or
without a handler for it. -/
inductive Event
  | started (index : Nat)
  | completed (index : Nat) (codes : List Int)
  | output (bytes : Bytes)
  | finished (outcome : Outcome)
  | complete (outcome : Outcome)
  deriving DecidableEq

end SegmentedPipeline

/-- A chain of segments, local and remote by turns. -/
structure SegmentedPipeline where
  /-- There are handlers for the output, for stderr and for the outcome. -/
  onOutput : Bool := false
  onStderr : Bool := false
  onComplete : Bool := false
  segments : List SegmentedPipeline.Segment := []
  externalStdin : Bool := false
  finalSegmentDone : Bool := false
  cancellingUpstream : Bool := false
  done : Bool := false
  log : List SegmentedPipeline.Event := []
  deriving DecidableEq

namespace SegmentedPipeline

def note (p : SegmentedPipeline) (e : Event) : SegmentedPipeline := { p with log := p.log ++ [e] }

def segment (p : SegmentedPipeline) (index : Nat) : Segment := p.segments.getD index {}

def runner (p : SegmentedPipeline) (index : Nat) : Runner := (p.segment index).runner

def modify (p : SegmentedPipeline) (index : Nat) (f : Segment → Segment) : SegmentedPipeline :=
  { p with segments := p.segments.modify index f }

/-- A segment has its runner back. -/
def put (p : SegmentedPipeline) (index : Nat) (runner : Runner) : SegmentedPipeline :=
  p.modify index fun segment => { segment with runner }

/-! ## The outcome -/

/-- The outcome is reported, unless one was before. -/
def finish (p : SegmentedPipeline) (outcome : Outcome) : SegmentedPipeline :=
  if p.done then p
  else
    let p := { p with done := true }.note (.finished outcome)
    if p.onComplete then { p with onComplete := false }.note (.complete outcome) else p

/-- The outcome, as the segments are now. -/
def outcome (p : SegmentedPipeline) : Outcome :=
  let codes := p.segments.flatMap (·.exitCodes)
  { stageExitCodes := codes, exitCode := rightmostNonzero codes }

/-- The run is over once every segment is. -/
def finishIfAllDone (p : SegmentedPipeline) : SegmentedPipeline :=
  if p.finalSegmentDone ∧ ∀ segment ∈ p.segments, segment.done = true then p.finish p.outcome else p

/-! ## The segments -/

/-- The codes of a segment are known. -/
def Segment.completed (codes : List Int) (segment : Segment) : Segment :=
  { segment with exitCodes := codes, done := true }

/-- `onSegmentDone`, over what it makes of the next segment and of those before the last. -/
def segmentDone (close : SegmentedPipeline → Nat → SegmentedPipeline)
    (cancelUpstream : SegmentedPipeline → SegmentedPipeline) (p : SegmentedPipeline) (index : Nat)
    (codes : List Int) (error : String) : SegmentedPipeline :=
  if p.done then p
  else if error ≠ "" then p.finish { error, exitCode := 1 }
  else
    let p := (p.modify index (Segment.completed codes)).note (.completed index codes)
    let p :=
      if index + 1 < p.segments.length then close p (index + 1)
      else cancelUpstream { p with finalSegmentDone := true }
    if ¬ p.cancellingUpstream then p.finishIfAllDone else p

/-- One call of the runner of a segment, over what the pipeline makes of output and of an end. -/
def heard (onOutput : SegmentedPipeline → Nat → Bytes → SegmentedPipeline)
    (onDone : SegmentedPipeline → Nat → List Int → String → SegmentedPipeline) (index : Nat)
    (p : SegmentedPipeline) : Call → SegmentedPipeline
  | .output bytes => onOutput p index bytes
  | .done codes error => onDone p index codes error

/-- The calls that the runner of a segment has made since it was looked at last. -/
def hear (onOutput : SegmentedPipeline → Nat → Bytes → SegmentedPipeline)
    (onDone : SegmentedPipeline → Nat → List Int → String → SegmentedPipeline)
    (p : SegmentedPipeline) (index : Nat) (runner : Runner) : SegmentedPipeline :=
  (runner.calls.drop (p.runner index).calls.length).foldl (heard onOutput onDone index)
    (p.put index runner)

/-- While a stdin is written or closed, the failure of a connection is all that comes back. -/
def feed (p : SegmentedPipeline) (index : Nat) (runner : Runner) : SegmentedPipeline :=
  p.hear (fun p _ _ => p) (segmentDone (fun p _ => p) id) index runner

/-- A segment gets the end of its input. -/
def closeSegment (answers : Answers) (p : SegmentedPipeline) (index : Nat) : SegmentedPipeline :=
  p.feed index ((p.runner index).closeStdin answers index)

/-- A segment gets input. -/
def writeSegment (answers : Answers) (p : SegmentedPipeline) (index : Nat) (bytes : Bytes) :
    SegmentedPipeline :=
  p.feed index ((p.runner index).writeStdin answers index bytes)

/-- Output of a segment goes to the next one, or to the caller. -/
def routeOutput (answers : Answers) (p : SegmentedPipeline) (index : Nat) (data : Bytes) :
    SegmentedPipeline :=
  if p.done then p
  else if index + 1 < p.segments.length then p.writeSegment answers (index + 1) data
  else if p.onOutput then p.note (.output data)
  else p

/-- A segment that is cancelled completes within the call. It is not the last one, so it
cancels none itself. -/
def cancelSegment (answers : Answers) (p : SegmentedPipeline) (index : Nat) : SegmentedPipeline :=
  if (p.segment index).done then p
  else
    p.hear (routeOutput answers) (segmentDone (closeSegment answers) id) index
      ((p.runner index).cancel answers index)

/-- The segments in front of the last one are given up. -/
def cancelUnfinishedUpstream (answers : Answers) (p : SegmentedPipeline) : SegmentedPipeline :=
  let p := { p with cancellingUpstream := true }
  let p := (List.range (p.segments.length - 1)).foldl (cancelSegment answers) p
  { p with cancellingUpstream := false }

/-- A segment has completed. -/
def onSegmentDone (answers : Answers) : SegmentedPipeline → Nat → List Int → String →
    SegmentedPipeline :=
  segmentDone (closeSegment answers) (cancelUnfinishedUpstream answers)

/-- The runner of a segment did something. -/
def take (answers : Answers) (p : SegmentedPipeline) (index : Nat) (runner : Runner) :
    SegmentedPipeline :=
  p.hear (routeOutput answers) (onSegmentDone answers) index runner

/-! ## The start -/

/-- Maximal segments of one locality. -/
def grouped (stages : List ResolvedStage) : List (List ResolvedStage) :=
  stages.foldl
    (fun groups stage =>
      match groups.getLast? with
      | none => [[stage]]
      | some group =>
        if group.head?.map (·.isLocal) ≠ some stage.isLocal then groups ++ [[stage]]
        else groups.dropLast ++ [group ++ [stage]])
    []

/-- A segment for neighbouring stages. -/
def Segment.build (onStderr : Bool) (group : List ResolvedStage) : Segment :=
  { stageCount := group.length
    runner :=
      if group.head?.map (·.isLocal) = some true then .localRunner { onOutput := true }
      else .remoteRunner { onOutput := true, onStderr } }

/-- The loop that starts each segment. It stops at an error, and at nothing else. -/
def startAll (launches : Launches) (answers : Answers) : List (List ResolvedStage) → Nat →
    SegmentedPipeline → SegmentedPipeline × Result Unit
  | [], _, p => (p, .ok ())
  | group :: groups, index, p =>
    let p := p.note (.started index)
    let (runner, started) :=
      (p.runner index).run launches index group (decide (0 < index) || p.externalStdin)
    let p := p.take answers index runner
    match started with
    | .error e => (p, .error e)
    | .ok () => startAll launches answers groups (index + 1) p

/-- The stages are grouped, and the segments are started. -/
def run (launches : Launches) (answers : Answers) (p : SegmentedPipeline)
    (stages : List ResolvedStage) (onComplete : Bool) (externalStdin : Bool) :
    SegmentedPipeline × Result Unit :=
  if stages = [] then (p, .error ⟨.InvalidArgument, 0, "empty pipeline"⟩)
  else
    startAll launches answers (grouped stages) 0
      { p with
        onComplete
        externalStdin
        segments := (grouped stages).map (Segment.build p.onStderr) }

/-- Input for the first segment. -/
def writeStdin (answers : Answers) (p : SegmentedPipeline) (bytes : Bytes) : SegmentedPipeline :=
  if ¬ p.done ∧ p.segments ≠ [] then p.writeSegment answers 0 bytes else p

/-- The end of the input for the first segment. -/
def closeStdin (answers : Answers) (p : SegmentedPipeline) : SegmentedPipeline :=
  if ¬ p.done ∧ p.segments ≠ [] then p.closeSegment answers 0 else p

/-! ## What can happen -/

/-- What the pipes and the children of a local segment, or the transports of a remote one,
report to its runner. -/
inductive Report
  | finalReadable (disarmed rearmed : Bool) (reads : List (Result Bytes))
  | childExit (child : Nat) (waits : Waits)
  | stdinWritable
  | ready (stage : Nat)
  | data (stage : Nat) (bytes : Bytes) (channel : Channel)
  | exit (stage : Nat) (status : ExitStatus)
  | error (stage : Nat) (message : String)

/-- `opens` is what `Session::open` returns for each stage. -/
def Runner.told (opens : Nat → StreamId) (writes : List (Result Nat)) (runner : Runner)
    (report : Report) : Runner :=
  match runner, report with
  | localRunner r, .finalReadable disarmed rearmed reads =>
    localRunner (r.step (.finalReadable disarmed rearmed (reads.map fun result => { result })))
  | localRunner r, .childExit child waits => localRunner (r.step (.childExit child waits))
  | localRunner r, .stdinWritable => localRunner (r.step (.stdinWritable writes))
  | remoteRunner d, .ready stage => remoteRunner (d.step opens (.ready stage))
  | remoteRunner d, .data stage bytes channel =>
    remoteRunner (d.step opens (.data stage bytes channel))
  | remoteRunner d, .exit stage status => remoteRunner (d.step opens (.exit stage status))
  | remoteRunner d, .error stage message => remoteRunner (d.step opens (.error stage message))
  | runner, _ => runner

/-- What happens to a run. -/
inductive Input
  | report (index : Nat) (report : Report)
  | writeStdin (bytes : Bytes)
  | closeStdin

def step (opens : Nat → Nat → StreamId) (p : SegmentedPipeline) (input : Input × Answers) :
    SegmentedPipeline :=
  match input with
  | (.report index report, answers) =>
    p.take answers index ((p.runner index).told (opens index) (answers.writes index) report)
  | (.writeStdin bytes, answers) => p.writeStdin answers bytes
  | (.closeStdin, answers) => p.closeStdin answers

def steps (opens : Nat → Nat → StreamId) (p : SegmentedPipeline) (inputs : List (Input × Answers)) :
    SegmentedPipeline :=
  inputs.foldl (step opens) p

end SegmentedPipeline

end psx.pipeline
