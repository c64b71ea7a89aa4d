-- Pipelines that are written inline (parser.cpp): commands between bars, each in single quotes or
-- one unquoted word, and a placement behind an `@`.
import PipeShellX.Decimal
import PipeShellX.Inventory.ClientConfig
import PipeShellX.Pipeline.Pipeline
import Mathlib.Data.List.Forall2

namespace psx.pipeline

open Scan (cut strip words)
open Text (ascii)
open psx.ClientConfig (isSpace)

/-- A `std::string` as a string: a character for each of its bytes. -/
def text (bytes : Bytes) : String := String.ofList (bytes.map fun b => Char.ofNat b.toNat)

namespace Parser

/-- The error of a spec that cannot be read. -/
def invalid (what : String) : Error := ⟨.InvalidArgument, 0, what⟩

/-- The single quote. -/
def quote : UInt8 := 39

def bar : UInt8 := 124

/-- The `@`. -/
def sign : UInt8 := 64

def trim (s : Bytes) : Bytes := strip isSpace s

/-- The words of a command. -/
def tokenize (command : Bytes) : List Bytes := words isSpace command

/-! ## The segments -/

/-- How far a spec is split. -/
structure Splitter where
  segments : List Bytes := []
  current : Bytes := []
  inQuote : Bool := false

/-- One turn of the loop over the spec. -/
def Splitter.push (s : Splitter) (c : UInt8) : Splitter :=
  if c = quote then { s with inQuote := !s.inQuote, current := s.current ++ [c] }
  else if c = bar ∧ s.inQuote = false then
    { s with segments := s.segments ++ [s.current], current := [] }
  else { s with current := s.current ++ [c] }

/-- The segments between the bars that are not quoted. -/
def split (spec : Bytes) : Result (List Bytes) :=
  let s := spec.foldl Splitter.push {}
  if s.inQuote then .error (invalid "unterminated quote in pipe spec")
  else .ok (s.segments ++ [s.current])

/-! ## One stage -/

/-- The command and the placement, behind a single quote. -/
def parseQuoted (behind : Bytes) : Result (Bytes × Bytes) :=
  match cut quote behind with
  | none => .error (invalid "unterminated quote in pipe spec")
  | some (command, rest) =>
    match trim rest with
    | [] => .ok (command, [])
    | c :: rest =>
      if c ≠ sign then .error (invalid "expected @placement after a quoted command")
      else if trim rest = [] then .error (invalid "empty placement after @")
      else .ok (command, trim rest)

/-- Blanks and tabs are looked for, and no other white space. -/
def parseUnquoted (seg : Bytes) : Result (Bytes × Bytes) :=
  if 32 ∈ seg ∨ 9 ∈ seg then
    .error (invalid "unquoted command contains spaces; wrap it in single quotes")
  else
    match cut sign seg with
    | none => .ok (seg, [])
    | some (command, placement) =>
      if placement = [] then .error (invalid "empty placement after @")
      else .ok (command, placement)

/-- The command of a segment, and what is behind it. -/
def parseCommand : Bytes → Result (Bytes × Bytes)
  | [] => .error (invalid "empty stage in pipe spec")
  | c :: behind => if c = quote then parseQuoted behind else parseUnquoted (c :: behind)

/-- The id of a stage. -/
def name (idx : Nat) : String := text (ascii "s" ++ Decimal.natural idx)

/-- A segment is read as a stage. -/
def parseStage (segment : Bytes) (idx : Nat) : Result Stage := do
  let (command, placement) ← parseCommand (trim segment)
  if tokenize command = [] then .error (invalid "empty command in pipe spec")
  else .ok { id := name idx, argv := tokenize command, placement := text placement }

/-- One turn of the loop over the segments. -/
def addStage (pipeline : Pipeline) (segment : Bytes × Nat) : Result Pipeline := do
  let stage ← parseStage segment.1 segment.2
  pure {
    stages := pipeline.stages ++ [stage]
    edges := pipeline.edges ++
      if 0 < segment.2 then [⟨name (segment.2 - 1), name segment.2⟩] else [] }

/-- A spec is read as a chain of stages. -/
def parsePipeSpec (spec : Bytes) : Result Pipeline := do
  let segments ← split spec
  segments.zipIdx.foldlM addStage ⟨[], []⟩

/-! ## The stages of a spec -/

theorem parseStage_ok {segment : Bytes} {idx : Nat} {stage : Stage} :
    parseStage segment idx = .ok stage ↔ ∃ command placement,
      parseCommand (trim segment) = .ok (command, placement) ∧ tokenize command ≠ [] ∧
        stage = { id := name idx, argv := tokenize command, placement := text placement } := by
  unfold parseStage
  rw [bind_ok]
  constructor
  · rintro ⟨⟨command, placement⟩, hcommand, hstage⟩
    dsimp only at hstage
    split_ifs at hstage with hnone
    exact ⟨command, placement, hcommand, hnone, (Except.ok.inj hstage).symm⟩
  · rintro ⟨command, placement, hcommand, hsome, rfl⟩
    exact ⟨(command, placement), hcommand, if_neg hsome⟩

/-- The edges into the stages from `k` on. -/
def edgesFrom (k n : Nat) : List Edge :=
  (List.range' k n).flatMap fun idx => if 0 < idx then [⟨name (idx - 1), name idx⟩] else []

theorem addStage_ok {p p' : Pipeline} {segment : Bytes × Nat} :
    addStage p segment = .ok p' ↔ ∃ stage, parseStage segment.1 segment.2 = .ok stage ∧
      p' = ⟨p.stages ++ [stage], p.edges ++ edgesFrom segment.2 1⟩ := by
  unfold addStage
  rw [bind_ok]
  refine exists_congr fun stage => and_congr_right fun _ => ?_
  rw [pure_ok, eq_comm]
  simp [edgesFrom]

/-- Each segment gives its stage, and each stage but the first its edge. -/
theorem addStages_ok {segments : List Bytes} {k : Nat} {p p' : Pipeline} :
    (segments.zipIdx k).foldlM addStage p = .ok p' ↔ ∃ stages,
      List.Forall₂ (fun segment stage => parseStage segment.1 segment.2 = .ok stage)
        (segments.zipIdx k) stages ∧
      p' = ⟨p.stages ++ stages, p.edges ++ edgesFrom k segments.length⟩ := by
  induction segments generalizing k p with
  | nil =>
    rw [List.zipIdx_nil, List.foldlM_nil, pure_ok]
    constructor
    · rintro rfl
      exact ⟨[], List.Forall₂.nil, by simp [edgesFrom]⟩
    · rintro ⟨stages, hstages, rfl⟩
      obtain rfl := List.forall₂_nil_left_iff.mp hstages
      simp [edgesFrom]
  | cons segment segments ih =>
    rw [List.zipIdx_cons, List.foldlM_cons, bind_ok]
    have hedges : edgesFrom k (segments.length + 1) =
        edgesFrom k 1 ++ edgesFrom (k + 1) segments.length := by
      unfold edgesFrom
      rw [List.range'_succ, List.flatMap_cons, List.range'_one, List.flatMap_singleton]
    constructor
    · rintro ⟨next, hnext, hrest⟩
      obtain ⟨stage, hstage, rfl⟩ := addStage_ok.mp hnext
      obtain ⟨stages, hstages, rfl⟩ := ih.mp hrest
      refine ⟨stage :: stages, List.Forall₂.cons hstage hstages, ?_⟩
      rw [List.length_cons, hedges]
      simp
    · rintro ⟨all, hall, rfl⟩
      obtain ⟨stage, stages, hstage, hstages, rfl⟩ := List.forall₂_cons_left_iff.mp hall
      refine ⟨_, addStage_ok.mpr ⟨stage, hstage, rfl⟩, ih.mpr ⟨stages, hstages, ?_⟩⟩
      rw [List.length_cons, hedges]
      simp

/-- A spec is a pipeline when its segments are its stages. -/
theorem parsePipeSpec_ok {spec : Bytes} {p : Pipeline} : parsePipeSpec spec = .ok p ↔
    ∃ segments stages, split spec = .ok segments ∧
      List.Forall₂ (fun segment stage => parseStage segment.1 segment.2 = .ok stage)
        segments.zipIdx stages ∧
      p = ⟨stages, edgesFrom 0 segments.length⟩ := by
  unfold parsePipeSpec
  rw [bind_ok]
  refine exists_congr fun segments => ?_
  rw [addStages_ok]
  simp

theorem stage_of_segment {spec : Bytes} {p : Pipeline} {segments : List Bytes} {i : Nat}
    {segment : Bytes} {stage : Stage} (hparse : parsePipeSpec spec = .ok p)
    (hsplit : split spec = .ok segments) (hsegment : segments[i]? = some segment)
    (hstage : p.stages[i]? = some stage) : parseStage segment i = .ok stage := by
  obtain ⟨segments', stages, hsplit', hstages, rfl⟩ := parsePipeSpec_ok.mp hparse
  obtain rfl := Except.ok.inj (hsplit.symm.trans hsplit')
  have hindexed : segments.zipIdx[i]? = some (segment, i) := by
    rw [List.getElem?_zipIdx, hsegment, Nat.zero_add]
    rfl
  obtain ⟨hi, hget⟩ := List.getElem?_eq_some_iff.mp hindexed
  obtain ⟨hi', hget'⟩ := List.getElem?_eq_some_iff.mp hstage
  have hboth := hstages.get hi hi'
  rw [List.get_eq_getElem, List.get_eq_getElem, hget, hget'] at hboth
  exact hboth

/-! ## Unquoted commands -/

theorem takeWhile_cut {c : UInt8} {s before behind : Bytes} (h : cut c s = some (before, behind)) :
    s.takeWhile (· ≠ c) = before := by
  obtain ⟨rfl, hnot⟩ := Scan.cut_some.mp h
  have hall : ∀ a ∈ before, decide (a ≠ c) = true := fun a ha =>
    decide_eq_true fun heq => hnot (heq ▸ ha)
  rw [List.takeWhile_append_of_pos hall, List.takeWhile_cons_of_neg (by simp), List.append_nil]

/-- An unquoted command is the text in front of the first `@`, and it has no blank and no tab. -/
theorem parseUnquoted_ok {seg command placement : Bytes}
    (h : parseUnquoted seg = .ok (command, placement)) :
    command = seg.takeWhile (· ≠ sign) ∧ 32 ∉ seg ∧ 9 ∉ seg := by
  unfold parseUnquoted at h
  split_ifs at h with hblank
  refine ⟨?_, not_or.mp hblank⟩
  cases hcut : cut sign seg with
  | none =>
    rw [hcut] at h
    obtain ⟨rfl, -⟩ := Prod.mk.inj (Except.ok.inj h)
    have hall : ∀ c ∈ seg, decide (c ≠ sign) = true := fun c hc =>
      decide_eq_true fun heq => Scan.cut_none.mp hcut (heq ▸ hc)
    exact (List.takeWhile_eq_self_iff.mpr hall).symm
  | some r =>
    obtain ⟨before, behind⟩ := r
    rw [hcut] at h
    dsimp only at h
    split_ifs at h
    obtain ⟨rfl, -⟩ := Prod.mk.inj (Except.ok.inj h)
    exact (takeWhile_cut hcut).symm

/-- An unquoted command is one word, as it is written, unless it has white space in it that is no
blank and no tab. -/
theorem an_unquoted_stage_is_one_word_iff {spec : Bytes} {p : Pipeline} {segments : List Bytes}
    {i : Nat} {segment : Bytes} {stage : Stage} (hparse : parsePipeSpec spec = .ok p)
    (hsplit : split spec = .ok segments) (hsegment : segments[i]? = some segment)
    (hstage : p.stages[i]? = some stage) (hunquoted : (trim segment).head? ≠ some quote) :
    stage.argv = [(trim segment).takeWhile (· ≠ sign)] ↔
      ∀ c ∈ (trim segment).takeWhile (· ≠ sign), c ≠ 10 ∧ c ≠ 11 ∧ c ≠ 12 ∧ c ≠ 13 := by
  obtain ⟨command, placement, hcommand, hsome, rfl⟩ :=
    parseStage_ok.mp (stage_of_segment hparse hsplit hsegment hstage)
  have hunquoted : parseUnquoted (trim segment) = .ok (command, placement) := by
    unfold parseCommand at hcommand
    split at hcommand
    · cases hcommand
    · next c behind hseg =>
      rw [hseg] at hunquoted ⊢
      rwa [if_neg fun hc => hunquoted (by rw [hc]; rfl)] at hcommand
  obtain ⟨htext, hblank, htab⟩ := parseUnquoted_ok hunquoted
  rw [← htext]
  change words isSpace command = [command] ↔ _
  have hplain : (∀ c ∈ command, isSpace c = false) ↔
      ∀ c ∈ command, c ≠ 10 ∧ c ≠ 11 ∧ c ≠ 12 ∧ c ≠ 13 := by
    refine forall₂_congr fun c hc => ?_
    have hin : c ∈ trim segment := by
      rw [htext] at hc
      exact (List.takeWhile_prefix _).subset hc
    have h32 : c ≠ 32 := fun heq => hblank (heq ▸ hin)
    have h9 : c ≠ 9 := fun heq => htab (heq ▸ hin)
    rw [← Bool.not_eq_true, ClientConfig.isSpace_iff]
    simp [h32, h9]
  rw [← hplain]
  constructor
  · intro hone
    have hmem : command ∈ words isSpace command := by rw [hone]; exact List.mem_singleton_self _
    exact (Scan.isWord_of_mem hmem).2
  · intro hall
    refine Scan.words_one ⟨?_, hall⟩
    rintro rfl
    exact hsome Scan.words_nil

theorem a_word_with_a_placement :
    [ascii "ps"] = [(trim (ascii " ps@web")).takeWhile (· ≠ sign)] ↔
      ∀ c ∈ (trim (ascii " ps@web")).takeWhile (· ≠ sign), c ≠ 10 ∧ c ≠ 11 ∧ c ≠ 12 ∧ c ≠ 13 :=
  an_unquoted_stage_is_one_word_iff
    (by decide : parsePipeSpec (ascii " ps@web") = .ok ⟨[⟨"s0", [ascii "ps"], "web"⟩], []⟩)
    (by decide : split (ascii " ps@web") = .ok [ascii " ps@web"])
    (by decide : [ascii " ps@web"][0]? = some (ascii " ps@web"))
    (by decide : [(⟨"s0", [ascii "ps"], "web"⟩ : Stage)][0]? = some ⟨"s0", [ascii "ps"], "web"⟩)
    (by decide)

/-- A newline cuts an unquoted command in two. -/
theorem a_newline_splits_a_word :
    ¬ ∀ (spec : Bytes) (p : Pipeline) (segments : List Bytes) (i : Nat) (segment : Bytes)
      (stage : Stage), parsePipeSpec spec = .ok p → split spec = .ok segments →
      segments[i]? = some segment → p.stages[i]? = some stage →
      (trim segment).head? ≠ some quote →
      stage.argv = [(trim segment).takeWhile (· ≠ sign)] := by
  intro h
  have hone := h [97, 10, 98] ⟨[⟨"s0", [[97], [98]], ""⟩], []⟩ [[97, 10, 98]] 0 [97, 10, 98]
    ⟨"s0", [[97], [98]], ""⟩ (by decide) (by decide) rfl rfl (by decide)
  exact absurd hone (by decide)

end Parser

end psx.pipeline
