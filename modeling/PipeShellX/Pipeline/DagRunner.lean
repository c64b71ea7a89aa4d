-- A graph of local stages (dag_runner.cpp): the output of a stage goes to the bounded buffer
-- of each of its edges, and a stage is fed from the buffers of the edges into it in turn.
-- What the pipes and the processes answer comes as an input.
import PipeShellX.Pipeline.DistributedRunner
import PipeShellX.Pipeline.Planner
import PipeShellX.Stream.BoundedBuffer

namespace psx.pipeline

open psx.os (ExitStatus Interest Waits)
open psx.stream (BoundedBuffer)

namespace DagRunner

/-- The size of the buffer for one read. -/
def kReadBytes : Nat := 16 * 1024

/-- What a run is reported to have come to. -/
structure Outcome where
  exitCode : Int := 0
  stageExitCodes : List Int := []
  topologicalOrder : List String := []
  deriving DecidableEq

/-- A watch is its interest, and `none` is the token 0. -/
structure Node where
  stage : Stage
  stdoutWatch : Option Interest := none
  stdinWatch : Option Interest := none
  incoming : List Nat := []
  outgoing : List Nat := []
  nextIncoming : Nat := 0
  exitCode : Int := 0
  stdoutClosed : Bool := false
  stdoutReadable : Bool := true
  stdinOpen : Bool := false
  childWatched : Bool := false
  exited : Bool := false
  deriving DecidableEq

/-- `producer` and `consumer` are `from` and `to`. -/
structure EdgeState (capacity : Nat) where
  producer : Nat
  consumer : Nat
  buffer : BoundedBuffer capacity := BoundedBuffer.create capacity .Block
  sourceClosed : Bool := false
  consumerClosed : Bool := false

/-- What a run does, as others see it. A write error has failed the stdin of a node. -/
inductive Event
  | read (node : Nat) (bytes : Bytes)
  | output (bytes : Bytes)
  | wrote (edge : Nat) (bytes : Bytes)
  | failed (node : Nat)
  | closedStdin (node : Nat)
  | closedStdout (node : Nat)
  | exited (node : Nat) (answer : Option ExitStatus)
  | complete (outcome : Outcome)
  deriving DecidableEq

end DagRunner

/-- `writes` is what the writes of the current callback answer, in the order of the calls. -/
structure DagRunner (capacity : Nat) where
  onOutput : Bool := false
  onComplete : Bool := false
  nodes : List DagRunner.Node := []
  edges : List (DagRunner.EdgeState capacity) := []
  buffered : Nat := 0
  peakBuffered : Nat := 0
  exitedCount : Nat := 0
  started : Bool := false
  done : Bool := false
  writes : List (Result Nat) := []
  log : List DagRunner.Event := []

namespace DagRunner

variable {capacity : Nat}

def note (r : DagRunner capacity) (e : Event) : DagRunner capacity := { r with log := r.log ++ [e] }

def node (r : DagRunner capacity) (index : Nat) : Node :=
  r.nodes.getD index { stage := { argv := [] } }

def edge (r : DagRunner capacity) (index : Nat) : EdgeState capacity :=
  r.edges.getD index { producer := 0, consumer := 0 }

def setNode (r : DagRunner capacity) (index : Nat) (f : Node → Node) : DagRunner capacity :=
  { r with nodes := r.nodes.modify index f }

def setEdge (r : DagRunner capacity) (index : Nat) (f : EdgeState capacity → EdgeState capacity) :
    DagRunner capacity :=
  { r with edges := r.edges.modify index f }

/-! ## The end -/

/-- The outcome, as the nodes are now. -/
def outcome (r : DagRunner capacity) : Outcome :=
  { exitCode := rightmostNonzero (r.nodes.map (·.exitCode))
    stageExitCodes := r.nodes.map (·.exitCode)
    topologicalOrder := r.nodes.map (·.stage.id) }

/-- The run is over once every process has exited and every output was closed. -/
def finishIfDone (r : DagRunner capacity) : DagRunner capacity :=
  if r.done ∨ r.exitedCount ≠ r.nodes.length ∨ ¬ r.nodes.all (·.stdoutClosed) then r
  else
    let r : DagRunner capacity := { r with done := true }
    if r.onComplete then { r with onComplete := false }.note (.complete r.outcome) else r

/-! ## Interest -/

/-- Whether a producer may be read: none of its open edges is full. -/
def producerCanRead (r : DagRunner capacity) (index : Nat) : Bool :=
  (r.node index).outgoing.all fun i => (r.edge i).consumerClosed || !(r.edge i).buffer.full

/-- The output of a node is watched, or not for now. -/
def setProducerReadable (r : DagRunner capacity) (index : Nat) (readable : Bool) :
    DagRunner capacity :=
  let node := r.node index
  if node.stdoutClosed ∨ node.stdoutWatch = none ∨ node.stdoutReadable = readable then r
  else
    r.setNode index fun node =>
      { node with
        stdoutReadable := readable
        stdoutWatch := some (if readable then .Readable else .None) }

/-- The input of a node is watched for room, or not for now. -/
def setConsumerWritable (r : DagRunner capacity) (index : Nat) (writable : Bool) :
    DagRunner capacity :=
  let node := r.node index
  if ¬ node.stdinOpen ∨ node.stdinWatch = none then r
  else
    r.setNode index fun node =>
      { node with stdinWatch := some (if writable then .Writable else .None) }

/-! ## The consumer -/

/-- An edge into a consumer that is gone. -/
def closeEdge (r : DagRunner capacity) (index : Nat) : DagRunner capacity :=
  let size := (r.edge index).buffer.contents.length
  let r := { r.setEdge index fun edge =>
      { edge with buffer := edge.buffer.clear, consumerClosed := true } with
    buffered := r.buffered - size }
  r.setProducerReadable (r.edge index).producer (r.producerCanRead (r.edge index).producer)

/-- The input of a node is closed. -/
def closeConsumer (r : DagRunner capacity) (index : Nat) : DagRunner capacity :=
  if ¬ (r.node index).stdinOpen then r
  else
    let r := (r.setNode index fun node => { node with stdinWatch := none, stdinOpen := false }).note
      (.closedStdin index)
    (r.node index).incoming.foldl closeEdge r

/-- The first place, from the one whose turn it is, whose edge has something to write. -/
def nextSlot (r : DagRunner capacity) (index : Nat) : Option Nat :=
  let node := r.node index
  let slots := (List.range node.incoming.length).map fun offset =>
    (node.nextIncoming + offset) % node.incoming.length
  slots.find? fun slot => !(r.edge (node.incoming.getD slot 0)).buffer.empty

/-- Some bytes of an edge went to the consumer. -/
def wrote (r : DagRunner capacity) (index slot count : Nat) : DagRunner capacity :=
  let incoming := (r.node index).incoming
  let i := incoming.getD slot 0
  let bytes := (r.edge i).buffer.peek.take count
  let r := { r.setEdge i fun edge => { edge with buffer := edge.buffer.drop bytes.length } with
    buffered := r.buffered - bytes.length }
  let r := (r.setNode index fun node =>
    { node with nextIncoming := (slot + 1) % incoming.length }).note (.wrote i bytes)
  r.setProducerReadable (r.edge i).producer (r.producerCanRead (r.edge i).producer)

/-- Nothing is left to write for now. -/
def drained (r : DagRunner capacity) (index : Nat) : DagRunner capacity :=
  if (r.node index).incoming.all fun i => (r.edge i).sourceClosed || (r.edge i).consumerClosed then
    r.closeConsumer index
  else r.setConsumerWritable index false

/-- The write loop. After the last of `writes` the pipe is full. -/
def drainLoop (index : Nat) : List (Result Nat) → DagRunner capacity → DagRunner capacity
  | [], r =>
    match r.nextSlot index with
    | none => { r with writes := [] }.drained index
    | some _ => { r with writes := [] }.setConsumerWritable index true
  | write :: writes, r =>
    match r.nextSlot index with
    | none => { r with writes := write :: writes }.drained index
    | some slot =>
      match write with
      | .ok 0 => { r with writes }.setConsumerWritable index true
      | .ok count => drainLoop index writes (r.wrote index slot count)
      | .error e =>
        if e.cls = .WouldBlock then { r with writes }.setConsumerWritable index true
        else ({ r with writes }.note (.failed index)).closeConsumer index

/-- What is buffered for a node is written to it, as far as it goes. -/
def drainConsumer (r : DagRunner capacity) (index : Nat) : DagRunner capacity :=
  if ¬ (r.node index).stdinOpen then r else drainLoop index r.writes r

/-! ## The producer -/

/-- The consumers of some edges, in ascending order and each once. -/
def consumersOf (r : DagRunner capacity) (edges : List Nat) : List Nat :=
  (List.range r.nodes.length).filter fun i => edges.any fun e => (r.edge e).consumer = i

/-- The output of a node is over: its edges have no source any more. -/
def closeProducer (r : DagRunner capacity) (index : Nat) : DagRunner capacity :=
  if (r.node index).stdoutClosed then r
  else
    let r := (r.setNode index fun node =>
      { node with stdoutClosed := true, stdoutReadable := false, stdoutWatch := none }).note
        (.closedStdout index)
    let outgoing := (r.node index).outgoing
    let r := outgoing.foldl
      (fun r i => r.setEdge i fun edge => { edge with sourceClosed := true }) r
    ((r.consumersOf outgoing).foldl drainConsumer r).finishIfDone

/-- The edges of a node whose consumer still reads. -/
def activeEdges (r : DagRunner capacity) (index : Nat) : List Nat :=
  (r.node index).outgoing.filter fun i => !(r.edge i).consumerClosed

/-- How much one read may take. -/
def readLimit (r : DagRunner capacity) (index : Nat) : Nat :=
  (r.activeEdges index).foldl (fun limit i => min limit (r.edge i).buffer.available) kReadBytes

/-- A copy of a chunk for one edge. -/
def feed (chunk : Bytes) (r : DagRunner capacity) (index : Nat) : DagRunner capacity :=
  let accepted := ((r.edge index).buffer.append chunk).2
  { r.setEdge index fun edge => { edge with buffer := (edge.buffer.append chunk).1 } with
    buffered := r.buffered + accepted
    peakBuffered := max r.peakBuffered (r.buffered + accepted) }

/-- A chunk goes to every edge whose consumer is there. -/
def deliver (r : DagRunner capacity) (index : Nat) (chunk : Bytes) : DagRunner capacity :=
  let r := r.note (.read index chunk)
  if (r.node index).outgoing = [] then if r.onOutput then r.note (.output chunk) else r
  else
    let active := r.activeEdges index
    let r := active.foldl (feed chunk) r
    (r.consumersOf active).foldl drainConsumer r

/-- The read loop. After the last of `reads` there is nothing more for now. -/
def readLoop (index : Nat) : List (Result Bytes) → DagRunner capacity → DagRunner capacity
  | reads, r =>
    if (r.node index).stdoutClosed then r
    else if r.activeEdges index ≠ [] ∧ r.readLimit index = 0 then r.setProducerReadable index false
    else
      match reads with
      | [] => r
      | .ok bytes :: reads =>
        if bytes = [] then r.closeProducer index
        else readLoop index reads (r.deliver index (bytes.take (r.readLimit index)))
      | .error e :: _ => if e.cls = .WouldBlock then r else r.closeProducer index

/-- There is output to be read of a node. -/
def onProducerReadable (r : DagRunner capacity) (index : Nat) (reads : List (Result Bytes)) :
    DagRunner capacity :=
  readLoop index reads r

/-! ## The children -/

/-- A child whose status cannot be had counts with 1. -/
def onChildExit (r : DagRunner capacity) (index : Nat) (waits : Waits) : DagRunner capacity :=
  if (r.node index).exited then r
  else
    let r := { r.setNode index fun node =>
        { node with
          childWatched := false
          exitCode := toExitCode (waits.status ⟨.Exited, 1⟩)
          exited := true } with
      exitedCount := r.exitedCount + 1 }
    ((r.note (.exited index waits.answer)).closeConsumer index).finishIfDone

/-- The run is given up: every process is killed and everything is closed. -/
def abortRun (r : DagRunner capacity) : DagRunner capacity :=
  { r with
    nodes := r.nodes.map fun node =>
      { node with
        stdoutWatch := none
        stdinWatch := none
        childWatched := false
        stdoutClosed := true
        stdoutReadable := false
        stdinOpen := false
        exited := true }
    edges := r.edges.map fun edge =>
      { edge with buffer := edge.buffer.clear, sourceClosed := true, consumerClosed := true }
    buffered := 0
    exitedCount := r.nodes.length
    onComplete := false
    done := true }

/-- The caller gives the run up. -/
def cancel (r : DagRunner capacity) : DagRunner capacity := if ¬ r.started then r else r.abortRun

/-! ## The start -/

/-- The stage runs on this machine. -/
def isLocalPlacement (placement : String) : Bool := placement = "" || placement = "local"

/-- The nodes in the order of the plan. -/
def planned (p : Pipeline) (order : List String) : List Node :=
  order.map fun id => { stage := (p.stages.find? fun stage => stage.id = id).getD { argv := [] } }

/-- One turn of the loop over the edges. An edge that is there already is left out. -/
def connect (order : List String) (r : DagRunner capacity) (edge : Edge) : DagRunner capacity :=
  let producer := order.idxOf edge.producer
  let consumer := order.idxOf edge.consumer
  if r.edges.any fun edge => edge.producer = producer && edge.consumer = consumer then r
  else
    let index := r.edges.length
    (({ r with edges := r.edges ++ [({ producer, consumer } : EdgeState capacity)] }.setNode
      producer
        fun node =>
        { node with outgoing := node.outgoing ++ [index] }).setNode consumer) fun node =>
        { node with incoming := node.incoming ++ [index] }

/-- The pipes of a node are watched. Its stdin is the null device when nothing feeds it. -/
def opened (node : Node) : Node :=
  { node with
    stdoutWatch := some .Readable
    stdinOpen := node.incoming ≠ []
    stdinWatch := if node.incoming ≠ [] then some .None else none }

/-- What the system answers while a run starts. `setup` is the first failure of the pipes, the
spawns and the watches of the pipes, and `waits` is about a child that is gone before it is
watched. -/
structure Launch where
  setup : Result Unit
  childWatched : Nat → Result Unit
  waits : Nat → Waits

/-- The processes are watched, until one of them cannot be. -/
def watchChildren (launch : Launch) :
    List Nat → DagRunner capacity → DagRunner capacity × Result Unit
  | [], r => (r, .ok ())
  | i :: indices, r =>
    match launch.childWatched i with
    | .ok () =>
      watchChildren launch indices (r.setNode i fun node => { node with childWatched := true })
    | .error e =>
      if e.cls = .NoSuchProcess then watchChildren launch indices (r.onChildExit i (launch.waits i))
      else (r.abortRun, .error e)

/-- The graph is planned and its processes are started. -/
def run (launch : Launch) (r : DagRunner capacity) (p : Pipeline) (onComplete : Bool) :
    DagRunner capacity × Result Unit :=
  if r.started then (r, .error ⟨.InvalidArgument, 0, "dag runner already started"⟩)
  else if capacity = 0 then (r, .error ⟨.InvalidArgument, 0, "dag runner edge capacity is zero"⟩)
  else if ¬ p.stages.all fun stage => isLocalPlacement stage.placement then
    (r, .error ⟨.InvalidArgument, 0, "dag runner only supports local stages"⟩)
  else
    match Planner.plan p with
    | .error e => (r, .error e)
    | .ok plan =>
      let r := { r with started := true, onComplete, nodes := planned p plan.order }
      let r := p.edges.foldl (connect plan.order) r
      match launch.setup with
      | .error e => (r.abortRun, .error e)
      | .ok () =>
        watchChildren launch (List.range r.nodes.length) { r with nodes := r.nodes.map opened }

/-! ## What can happen -/

/-- What happens to a run. -/
inductive Input
  | readable (index : Nat) (reads : List (Result Bytes)) (writes : List (Result Nat))
  | writable (index : Nat) (writes : List (Result Nat))
  | childExit (index : Nat) (waits : Waits)

/-- The reactor knows the pipes and the children that are watched. -/
def Enabled (r : DagRunner capacity) : Input → Prop
  | .readable index .. => (r.node index).stdoutWatch ≠ none
  | .writable index _ => (r.node index).stdinWatch ≠ none
  | .childExit index _ => (r.node index).childWatched = true

def step (r : DagRunner capacity) : Input → DagRunner capacity
  | .readable index reads writes => { r with writes }.onProducerReadable index reads
  | .writable index writes => { r with writes }.drainConsumer index
  | .childExit index waits => r.onChildExit index waits

/-- The states of a run between two callbacks, when nobody cancels it. -/
inductive Reachable (p : Pipeline) : DagRunner capacity → Prop
  | run {launch : Launch} {onOutput : Bool} {r : DagRunner capacity} :
      ({ onOutput } : DagRunner capacity).run launch p true = (r, .ok ()) → Reachable p r
  | step {r : DagRunner capacity} (input : Input) :
      Reachable p r → r.Enabled input → Reachable p (r.step input)

end DagRunner

end psx.pipeline
