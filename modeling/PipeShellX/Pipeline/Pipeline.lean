-- A pipeline as it is written (pipeline.hpp): stages, and the edges that feed the stdout of
-- one stage to the stdin of another one.
import PipeShellX.Result

namespace psx.pipeline

/-- A command, with the host that it is to run on. -/
structure Stage where
  id : String := ""
  argv : List Bytes
  placement : String := ""
  deriving DecidableEq

/-- `from` and `to`. -/
structure Edge where
  producer : String
  consumer : String
  deriving DecidableEq

/-- A graph of stages. -/
structure Pipeline where
  stages : List Stage
  edges : List Edge
  deriving DecidableEq

/-- The names of the stages. -/
def Pipeline.ids (p : Pipeline) : List String := p.stages.map fun stage => stage.id

/-- One stage feeds another one. -/
def Pipeline.Feeds (p : Pipeline) (producer consumer : String) : Prop :=
  ⟨producer, consumer⟩ ∈ p.edges

end psx.pipeline
