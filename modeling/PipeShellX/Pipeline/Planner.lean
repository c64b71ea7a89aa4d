-- The planner (planner.cpp): it checks the shape of a pipeline and sorts its stages, so that
-- every producer comes before its consumers.
import PipeShellX.Loop
import PipeShellX.Pipeline.Pipeline

namespace psx.pipeline.Planner

/-- The error of a graph that cannot be planned. -/
def invalid (what : String) : Error := ⟨.InvalidArgument, 0, what⟩

instance lawful_edges : LawfulBEq (Nat × Nat) := inferInstance

/-- The stages in the order in which they are started. -/
structure Plan where
  order : List String
  deriving DecidableEq

/-- One turn of the loop over the stages. The position of an id is its place in the list. -/
def index (position : List String) (stage : Stage) : Result (List String) :=
  if stage.id = "" then .error (invalid "stage has an empty id")
  else if stage.argv = [] then .error (invalid "stage has an empty command")
  else if stage.id ∈ position then .error (invalid "duplicate stage id")
  else .ok (position ++ [stage.id])

/-- What follows each stage, and how much each one waits for. -/
structure Adjacency where
  successors : List (List Nat)
  indegree : List Int
  seen : List (Nat × Nat) := []

/-- One turn of the loop over the edges. -/
def Adjacency.add (position : List String) (a : Adjacency) (edge : Edge) : Result Adjacency :=
  match position.idxOf? edge.producer, position.idxOf? edge.consumer with
  | some producer, some consumer =>
    if producer = consumer then .error (invalid "edge is a self-loop")
    else if (producer, consumer) ∈ a.seen then .ok a
    else
      .ok {
        successors := a.successors.modify producer (· ++ [consumer])
        indegree := a.indegree.modify consumer (· + 1)
        seen := a.seen ++ [(producer, consumer)] }
  | _, _ => .error (invalid "edge references an unknown stage")

/-- The stages that are ready, and what the others still wait for. -/
structure Worklist where
  ready : List Nat
  indegree : List Int
  order : List String := []

/-- One turn of the loop over the successors of a stage. -/
def release (w : Worklist) (next : Nat) : Worklist :=
  let w := { w with indegree := w.indegree.modify next (· - 1) }
  if w.indegree.getD next 0 = 0 then { w with ready := w.ready ++ [next] } else w

/-- One turn of the loop over the queue. -/
def turn (p : Pipeline) (successors : List (List Nat)) (w : Worklist) :
    Option (Worklist × List Unit) :=
  match w.ready with
  | [] => none
  | current :: ready =>
    some ((successors.getD current []).foldl release
      { w with ready, order := w.order ++ [p.ids.getD current ""] }, [])

/-- Each turn takes a stage that was not ready before, so a turn for each stage is enough. -/
def plan (p : Pipeline) : Result Plan := do
  if p.stages = [] then throw (invalid "pipeline has no stages")
  let position ← p.stages.foldlM index []
  let n := p.stages.length
  let a ← p.edges.foldlM (Adjacency.add position)
    { successors := List.replicate n [], indegree := List.replicate n 0 }
  let ready := (List.range n).filter fun i => a.indegree.getD i 0 = 0
  let w := (Loop.run (turn p a.successors) n { ready, indegree := a.indegree }).1
  if w.order.length ≠ n then throw (invalid "pipeline has a cycle")
  pure { order := w.order }

end psx.pipeline.Planner
