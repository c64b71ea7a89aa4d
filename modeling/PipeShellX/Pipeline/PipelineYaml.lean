-- The pipeline files (pipeline_yaml.cpp): two block lists, of stages and of edges, in a few forms
-- of YAML.
import PipeShellX.Pipeline.Parser
import PipeShellX.Pipeline.Planner
import PipeShellX.Quoted

namespace psx.pipeline.PipelineYaml

open Quoted (Marks State)
open Scan (blocks cut strip words)
open Text (ascii)
open psx.ClientConfig (isSpace)

/-- The error of a file that cannot be read. -/
def invalid (what : String) : Error := ⟨.InvalidArgument, 0, "pipeline YAML: " ++ what⟩

/-- A line, without its indentation and its comment. -/
structure Line where
  indent : Nat
  text : Bytes
  deriving DecidableEq

/-- A key and a value. -/
structure Field where
  key : Bytes
  value : Bytes
  deriving DecidableEq

/-- A value without its quotes. -/
structure Scalar where
  value : Bytes
  quoted : Bool
  deriving DecidableEq

/-- `'` and `"`, and the backslash that escapes in the second one. -/
def marks : Marks UInt8 where
  single := 39
  double := 34
  slash := 92
  distinct := by decide

def newline : UInt8 := 10

def hash : UInt8 := 35

def colon : UInt8 := 58

def comma : UInt8 := 44

def trim (s : Bytes) : Bytes := strip isSpace s

/-! ## Lines -/

/-- The line up to a `#` that stands outside quotes, at its start or behind white space. -/
def stripFrom (s : State UInt8) (before : Option UInt8) : Bytes → Bytes
  | [] => []
  | c :: rest =>
    if s.quote = none ∧ c = hash ∧ before.all isSpace = true then []
    else c :: stripFrom (s.next marks c) (some c) rest

/-- A line without its comment. -/
def stripComment (line : Bytes) : Bytes := stripFrom {} none line

/-- One turn of the loop over the text: a line of it, unless nothing is left of the line. -/
def tokenizeLine (raw : Bytes) : Result (List Line) :=
  let raw := stripComment raw
  let raw := if raw.getLast? = some 13 then raw.dropLast else raw
  let rest := raw.dropWhile (· = 32)
  if rest.head? = some 9 then .error (invalid "tabs are not valid indentation")
  else if trim rest = [] then .ok []
  else .ok [⟨(raw.takeWhile (· = 32)).length, trim rest⟩]

/-- The lines that say something. -/
def tokenizeLines (yaml : Bytes) : Result (List Line) := do
  let lines ← (yaml.splitOn newline).mapM tokenizeLine
  pure lines.flatten

/-- A line that is a key and a value. -/
def parseField (text : Bytes) : Result Field :=
  match cut colon text with
  | none => .error (invalid "expected key: value")
  | some (key, value) =>
    if trim key = [] ∨ 32 ∈ trim key ∨ 9 ∈ trim key then .error (invalid "invalid mapping key")
    else .ok ⟨trim key, trim value⟩

/-! ## Values -/

/-- A value, quoted or not. -/
def parseScalar (text : Bytes) : Result Scalar :=
  match trim text with
  | [] => .error (invalid "scalar cannot be empty")
  | c :: rest =>
    if c = marks.single ∨ c = marks.double then
      match Quoted.body marks c false rest with
      | none => .error (invalid "unterminated quoted scalar")
      | some (result, behind) =>
        if trim behind ≠ [] then .error (invalid "trailing text after quoted scalar")
        else if result = [] then .error (invalid "scalar cannot be empty")
        else .ok ⟨result, true⟩
    else if marks.single ∈ rest ∨ marks.double ∈ rest then
      .error (invalid "quotes must enclose the whole scalar")
    else .ok ⟨c :: rest, false⟩

/-- No quotes, but a blank or a tab. -/
def Scalar.spaced (scalar : Scalar) : Bool :=
  !scalar.quoted && (32 ∈ scalar.value || 9 ∈ scalar.value)

/-- The loop over the body of a list: the items so far, and the text since the last comma. -/
structure Items where
  argv : List Bytes := []
  item : Bytes := []
  quoting : State UInt8 := {}

/-- One more character of a list. -/
def Items.push (s : Items) (c : UInt8) : Result Items :=
  if s.quoting.quote = none ∧ c = comma then do
    let scalar ← parseScalar s.item
    if scalar.spaced then .error (invalid "run list items cannot contain spaces")
    else .ok { s with argv := s.argv ++ [scalar.value], item := [] }
  else .ok { s with item := s.item ++ [c], quoting := s.quoting.next marks c }

/-- The end of the body is taken for a comma. -/
def parseList (body : Bytes) : Result (List Bytes) := do
  let s ← (body ++ [comma]).foldlM Items.push {}
  if s.quoting.quote ≠ none ∨ s.quoting.escaped = true then
    .error (invalid "unterminated quoted run list item")
  else if s.argv = [[]] then .error (invalid "run list cannot be empty")
  else .ok s.argv

/-- The words of a command: a list in brackets, or a value that is split. -/
def parseArgv (text : Bytes) : Result (List Bytes) :=
  match trim text with
  | [] => .error (invalid "run cannot be empty")
  | c :: rest =>
    if c = 91 then
      if rest.getLast? = some 93 then parseList rest.dropLast
      else .error (invalid "unterminated run list")
    else do
      let scalar ← parseScalar (c :: rest)
      if scalar.spaced then .error (invalid "run with spaces must be quoted or a YAML list")
      else .ok (words isSpace scalar.value)

/-! ## Items -/

/-- A key that comes once. -/
def once {α : Type} (old : Option α) (duplicate : String) (value : Result α) : Result (Option α) :=
  if old.isSome then .error (invalid duplicate) else value.map some

/-- The value of a field. -/
def scalarOf (field : Field) : Result Bytes := (parseScalar field.value).map Scalar.value

/-- What a stage has said so far. -/
structure StageFields where
  id : Option Bytes := none
  run : Option (List Bytes) := none
  placement : Option Bytes := none

/-- One more field of a stage; no field is said twice. -/
def StageFields.add (s : StageFields) (field : Field) : Result StageFields :=
  if field.key = ascii "id" then do
    let id ← once s.id "duplicate stage key" (scalarOf field)
    pure { s with id }
  else if field.key = ascii "run" then do
    let run ← once s.run "duplicate stage key" (parseArgv field.value)
    pure { s with run }
  else if field.key = ascii "at" then do
    let placement ← once s.placement "duplicate stage key" (scalarOf field)
    pure { s with placement }
  else .error (invalid "unknown key in stage")

/-- The fields of a stage. -/
def parseStage (fields : List Field) : Result Stage := do
  let s ← fields.foldlM StageFields.add {}
  match s.id, s.run with
  | some id, some argv =>
    .ok { id := text id, argv, placement := (s.placement.map text).getD "local" }
  | _, _ => .error (invalid "stage needs id and run")

/-- What an edge has said so far. -/
structure EdgeFields where
  producer : Option Bytes := none
  consumer : Option Bytes := none

/-- One more field of an edge; no field is said twice. -/
def EdgeFields.add (s : EdgeFields) (field : Field) : Result EdgeFields :=
  if field.key = ascii "from" then do
    let producer ← once s.producer "duplicate edge key" (scalarOf field)
    pure { s with producer }
  else if field.key = ascii "to" then do
    let consumer ← once s.consumer "duplicate edge key" (scalarOf field)
    pure { s with consumer }
  else .error (invalid "unknown key in edge")

/-- The fields of an edge. -/
def parseEdge (fields : List Field) : Result Edge := do
  let s ← fields.foldlM EdgeFields.add {}
  match s.producer, s.consumer with
  | some producer, some consumer => .ok ⟨text producer, text consumer⟩
  | _, _ => .error (invalid "edge needs from and to")

/-! ## The document -/

/-- What the file has said so far. -/
structure Document where
  pipeline : Pipeline := ⟨[], []⟩
  sawStages : Bool := false
  sawEdges : Bool := false

def dash : Bytes := [45, 32]

/-- A line of an item behind its first one. -/
def parseInner (line : Line) : Result Field :=
  if line.indent ≠ 4 ∨ dash <+: line.text then .error (invalid "bad indentation")
  else parseField line.text

/-- The fields of an item. -/
def parseFields (item : Line × List Line) : Result (List Field) :=
  if item.1.indent ≠ 2 ∨ ¬ dash <+: item.1.text then
    .error (invalid "bad indentation or expected list item")
  else do
    let first ← parseField (item.1.text.drop 2)
    let more ← item.2.mapM parseInner
    pure (first :: more)

/-- One more stage. -/
def Document.addStage (d : Document) (item : Line × List Line) : Result Document := do
  let fields ← parseFields item
  let stage ← parseStage fields
  pure { d with pipeline := { d.pipeline with stages := d.pipeline.stages ++ [stage] } }

/-- One more edge. -/
def Document.addEdge (d : Document) (item : Line × List Line) : Result Document := do
  let fields ← parseFields item
  let edge ← parseEdge fields
  pure { d with pipeline := { d.pipeline with edges := d.pipeline.edges ++ [edge] } }

/-- The items of a section. No line of an item stands in front of the first one. -/
def itemsOf (lines : List Line) : Result (List (Line × List Line)) :=
  match blocks (fun line => 2 < line.indent) lines with
  | ([], items) => .ok items
  | _ => .error (invalid "bad indentation or expected list item")

/-- One turn of the loop over the sections. -/
def Document.addSection (d : Document) (lines : Line × List Line) : Result Document := do
  let head ← parseField lines.1.text
  if head.value ≠ [] then .error (invalid "top-level sections must be block lists")
  else if head.key = ascii "stages" then
    if d.sawStages then .error (invalid "duplicate top-level key")
    else do
      let items ← itemsOf lines.2
      items.foldlM addStage { d with sawStages := true }
  else if head.key = ascii "edges" then
    if d.sawEdges then .error (invalid "duplicate top-level key")
    else do
      let items ← itemsOf lines.2
      items.foldlM addEdge { d with sawEdges := true }
  else .error (invalid "unknown top-level key")

/-- The loops over the lines take a section, and in it an item, with the deeper lines behind it. -/
def parseDocument (lines : List Line) : Result Pipeline :=
  match blocks (fun line => 0 < line.indent) lines with
  | ([], sections) => do
    let d ← sections.foldlM Document.addSection {}
    if d.sawStages = false then .error (invalid "missing stages section")
    else do
      let _ ← Planner.plan d.pipeline
      pure d.pipeline
  | _ => .error (invalid "bad indentation")

/-- The text of a pipeline file is read. -/
def loadPipelineYaml (yamlText : Bytes) : Result Pipeline := do
  let lines ← tokenizeLines yamlText
  parseDocument lines

end psx.pipeline.PipelineYaml
