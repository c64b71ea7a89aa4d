-- The sink of JSON Lines (json_sink.cpp): the lines of a stage are gathered, and one object is
-- written when the stage finishes. The lines that were gathered come back from the object, unless
-- they start with an empty one that others follow.
import PipeShellX.Sink.Quote
import Mathlib.Data.List.Induction
import Mathlib.Data.List.TakeWhile
import Mathlib.Logic.Function.Basic

namespace psx.sink

open Json (newline print Value)
open Text (ascii)
open psx.json (quote quoting quoting_quote)

/-- The two channels of a stage. -/
inductive Channel
  | Stdout
  | Stderr
  deriving DecidableEq, Repr

/-- How a stage ended. -/
structure StageResult where
  exitCode : Int := 0
  timedOut : Bool := false
  errorMessage : Bytes := []
  droppedBytes : Nat := 0

/-- The counts of a run. -/
structure RunSummary where
  stages : Nat := 0
  succeeded : Nat := 0
  failed : Nat := 0
  droppedBytes : Nat := 0
  cancelled : Bool := false

/-- One more line of a text. -/
def appendLine (text line : Bytes) : Bytes :=
  (if text ≠ [] then text ++ [newline] else text) ++ line

/-- What a stage has written so far. -/
structure Buffered where
  stdoutText : Bytes := []
  stderrText : Bytes := []

/-- What it has written on a channel. -/
def Buffered.text (b : Buffered) : Channel → Bytes
  | .Stdout => b.stdoutText
  | .Stderr => b.stderrText

/-- One more line of a stage. -/
def Buffered.line (b : Buffered) (channel : Channel) (text : Bytes) : Buffered :=
  match channel with
  | .Stdout => { b with stdoutText := appendLine b.stdoutText text }
  | .Stderr => { b with stderrText := appendLine b.stderrText text }

/-- `out` is what the stream was given so far. -/
structure JsonSink where
  out : Bytes := []
  buffers : Bytes → Option Buffered := fun _ => none

namespace JsonSink

/-- `buffers_[stage]`. -/
def buffered (s : JsonSink) (stage : Bytes) : Buffered := (s.buffers stage).getD {}

/-- A stage starts with nothing written. -/
def stageStarted (s : JsonSink) (stage : Bytes) : JsonSink :=
  { s with buffers := Function.update s.buffers stage none }

/-- A stage has written a line. -/
def line (s : JsonSink) (stage : Bytes) (channel : Channel) (text : Bytes) : JsonSink :=
  { s with
    buffers := Function.update s.buffers stage (some ((s.buffered stage).line channel text)) }

/-- A stage is over, and its object is written. -/
def stageFinished (s : JsonSink) (stage : Bytes) (result : StageResult) : JsonSink where
  out := s.out ++ (ascii "\x7b\"stage\":" ++ quote stage ++ ascii ",\"exit\":" ++
    Decimal.integer result.exitCode ++ ascii ",\"timed_out\":" ++ Json.boolean result.timedOut ++
    ascii ",\"error\":" ++ quote result.errorMessage ++ ascii ",\"dropped\":" ++
    Decimal.natural result.droppedBytes ++ ascii ",\"stdout\":" ++
      quote (s.buffered stage).stdoutText ++
    ascii ",\"stderr\":" ++ quote (s.buffered stage).stderrText ++ ascii "\x7d\n")
  buffers := Function.update s.buffers stage none

/-- The run is over, and its summary is written. -/
def runFinished (s : JsonSink) (summary : RunSummary) : JsonSink :=
  { s with
    out := s.out ++ (ascii "\x7b\"summary\":true,\"stages\":" ++ Decimal.natural summary.stages ++
      ascii ",\"succeeded\":" ++ Decimal.natural summary.succeeded ++ ascii ",\"failed\":" ++
      Decimal.natural summary.failed ++ ascii ",\"dropped\":" ++
        Decimal.natural summary.droppedBytes ++
      ascii ",\"cancelled\":" ++ Json.boolean summary.cancelled ++ ascii "\x7d\n") }

/-! ## The objects -/

/-- The value that a stage is written as. -/
def stageObject (stage : Bytes) (result : StageResult) (b : Buffered) : Value :=
  .object [(ascii "stage", .string stage), (ascii "exit", .number result.exitCode),
    (ascii "timed_out", .bool result.timedOut), (ascii "error", .string result.errorMessage),
    (ascii "dropped", .number result.droppedBytes), (ascii "stdout", .string b.stdoutText),
    (ascii "stderr", .string b.stderrText)]

/-- The value that the summary is written as. -/
def summaryObject (summary : RunSummary) : Value :=
  .object [(ascii "summary", .bool true), (ascii "stages", .number summary.stages),
    (ascii "succeeded", .number summary.succeeded), (ascii "failed", .number summary.failed),
    (ascii "dropped", .number summary.droppedBytes), (ascii "cancelled", .bool summary.cancelled)]

theorem out_stageFinished (s : JsonSink) (stage : Bytes) (result : StageResult) :
    (s.stageFinished stage result).out =
      s.out ++ (print quoting (stageObject stage result (s.buffered stage)) ++ [newline]) := by
  unfold stageFinished stageObject
  simp only [print, Json.printFields, quoting_quote, List.append_assoc, List.cons_append]
  rfl

theorem out_runFinished (s : JsonSink) (summary : RunSummary) : (s.runFinished summary).out =
    s.out ++ (print quoting (summaryObject summary) ++ [newline]) := by
  unfold runFinished summaryObject
  simp only [print, Json.printFields, quoting_quote, List.append_assoc, List.cons_append]
  rfl

end JsonSink

/-! ## Lines that are joined -/

theorem splitOn_appendLine (text : Bytes) {line : Bytes} (h : newline ∉ line) :
    (appendLine text line).splitOn newline =
      if text = [] then [line] else text.splitOn newline ++ [line] := by
  unfold appendLine
  by_cases htext : text = []
  · rw [if_neg (not_not_intro htext), if_pos htext, htext, List.nil_append]
    exact List.splitOn_eq_singleton h
  · rw [if_pos htext, if_neg htext, List.append_assoc, List.singleton_append,
      List.splitOn_append_cons_self, List.splitOn_eq_singleton h]

theorem appendLine_eq_nil {text line : Bytes} :
    appendLine text line = [] ↔ text = [] ∧ line = [] := by
  unfold appendLine
  by_cases htext : text = []
  · rw [if_neg (not_not_intro htext), htext, List.nil_append]
    exact (and_iff_right rfl).symm
  · rw [if_pos htext]
    exact iff_of_false (by simp) fun hnil => htext hnil.1

/-- The text that lines are gathered in. -/
def joined (lines : List Bytes) : Bytes := lines.foldl appendLine []

theorem joined_snoc (lines : List Bytes) (line : Bytes) :
    joined (lines ++ [line]) = appendLine (joined lines) line := by
  unfold joined
  rw [List.foldl_append]
  rfl

theorem joined_eq_nil {lines : List Bytes} : joined lines = [] ↔ ∀ line ∈ lines, line = [] := by
  induction lines using List.reverseRecOn with
  | nil => exact iff_of_true rfl nofun
  | append_singleton lines line ih =>
    rw [joined_snoc, appendLine_eq_nil, ih, List.forall_mem_append, List.forall_mem_singleton]

/-- The empty lines in front are lost. -/
theorem splitOn_joined {lines : List Bytes} (h : ∀ line ∈ lines, newline ∉ line)
    (hsome : joined lines ≠ []) :
    (joined lines).splitOn newline = lines.dropWhile (fun line => line = []) := by
  induction lines using List.reverseRecOn with
  | nil => exact absurd rfl hsome
  | append_singleton lines line ih =>
    rw [List.forall_mem_append, List.forall_mem_singleton] at h
    rw [joined_snoc, splitOn_appendLine _ h.2, List.dropWhile_append]
    by_cases htext : joined lines = []
    · have hnone : lines.dropWhile (fun line => line = []) = [] := by
        rw [List.dropWhile_eq_nil_iff]
        exact fun line hline => decide_eq_true (joined_eq_nil.mp htext line hline)
      have hline : ¬ line = [] := by
        rintro rfl
        rw [joined_snoc] at hsome
        exact hsome (appendLine_eq_nil.mpr ⟨htext, rfl⟩)
      rw [if_pos htext, hnone, if_pos List.isEmpty_nil, List.dropWhile_cons,
        if_neg (by simpa using hline)]
    · have hkept := ih h.1 htext
      have hmore : ¬ (lines.dropWhile (fun line => line = [])).isEmpty = true := by
        rw [← hkept, List.isEmpty_iff]
        exact List.splitOn_ne_nil newline _
      rw [if_neg htext, if_neg hmore, hkept]

/-- Of lines that may have lost some in front, the text splits into all. -/
theorem splitOn_joined_iff {lines all : List Bytes} (h : ∀ line ∈ all, newline ∉ line)
    (hsome : all ≠ []) (hlost : lines <:+ all) : (joined lines).splitOn newline = all ↔
      all = [[]] ∨ (lines = all ∧ all.head? ≠ some []) := by
  by_cases htext : joined lines = []
  · rw [htext, List.splitOn_nil]
    constructor
    · exact fun heq => .inl heq.symm
    · rintro (hone | ⟨rfl, hhead⟩)
      · exact hone.symm
      · obtain ⟨line, rest, rfl⟩ := List.exists_cons_of_ne_nil hsome
        exact absurd (congrArg some (joined_eq_nil.mp htext line List.mem_cons_self)) hhead
  · rw [splitOn_joined (fun line hline => h line (hlost.subset hline)) htext]
    constructor
    · intro heq
      have hsuffix := List.dropWhile_suffix (fun line : Bytes => decide (line = [])) (l := lines)
      rw [heq] at hsuffix
      have hall : lines = all := hlost.eq_of_length_le hsuffix.length_le
      refine .inr ⟨hall, fun hhead => ?_⟩
      obtain ⟨rest, hrest⟩ := List.head?_eq_some_iff.mp hhead
      rw [hall, hrest, List.dropWhile_cons, if_pos (by simp)] at heq
      have hshort :=
        (List.dropWhile_suffix (fun line : Bytes => decide (line = [])) (l := rest)).length_le
      rw [heq, List.length_cons] at hshort
      omega
    · rintro (hone | ⟨rfl, hhead⟩)
      · refine absurd (joined_eq_nil.mpr fun line hline => ?_) htext
        rw [hone] at hlost
        exact List.mem_singleton.mp (hlost.subset hline)
      · obtain ⟨line, rest, rfl⟩ := List.exists_cons_of_ne_nil hsome
        rw [List.dropWhile_cons, if_neg]
        intro hempty
        exact hhead (congrArg some (of_decide_eq_true hempty))

/-! ## Calls -/

/-- What a sink is told. -/
inductive Call
  | stageStarted (stage : Bytes)
  | line (stage : Bytes) (channel : Channel) (text : Bytes)
  | stageFinished (stage : Bytes) (result : StageResult)
  | runFinished (summary : RunSummary)

namespace JsonSink

/-- The sink is told something. -/
def call (s : JsonSink) : Call → JsonSink
  | .stageStarted stage => s.stageStarted stage
  | .line stage channel text => s.line stage channel text
  | .stageFinished stage result => s.stageFinished stage result
  | .runFinished summary => s.runFinished summary

/-- The object that a call writes. -/
def written (s : JsonSink) : Call → List Value
  | .stageStarted _ => []
  | .line _ _ _ => []
  | .stageFinished stage result => [stageObject stage result (s.buffered stage)]
  | .runFinished summary => [summaryObject summary]

theorem out_call (s : JsonSink) (c : Call) :
    (s.call c).out = s.out ++ Json.lines quoting (s.written c) := by
  have hone : ∀ v, Json.lines quoting [v] = print quoting v ++ [newline] :=
    fun v => List.append_nil _
  cases c with
  | stageStarted stage => exact (List.append_nil _).symm
  | line stage channel text => exact (List.append_nil _).symm
  | stageFinished stage result =>
    exact (out_stageFinished s stage result).trans (by rw [written, hone])
  | runFinished summary => exact (out_runFinished s summary).trans (by rw [written, hone])

/-- The objects that calls write, one after the other. -/
def objects (s : JsonSink) : List Call → List Value
  | [] => []
  | c :: calls => s.written c ++ (s.call c).objects calls

theorem out_calls (s : JsonSink) (calls : List Call) :
    (calls.foldl call s).out = s.out ++ Json.lines quoting (s.objects calls) := by
  induction calls generalizing s with
  | nil => exact (List.append_nil _).symm
  | cons c calls ih =>
    rw [List.foldl_cons, ih, out_call, objects, Json.lines_append, List.append_assoc]

end JsonSink

/-! ## What is gathered for a stage -/

section

variable (stage : Bytes) (channel : Channel)

/-- The lines that calls send for the stage on the channel. -/
def sent (calls : List Call) : List Bytes :=
  calls.flatMap fun
    | .line stage' channel' text => if stage' = stage ∧ channel' = channel then [text] else []
    | _ => []

/-- One call, for the lines that are gathered: an attempt that starts and the object take them. -/
def gather (lines : List Bytes) : Call → List Bytes
  | .stageStarted stage' => if stage' = stage then [] else lines
  | .line stage' channel' text =>
    if stage' = stage ∧ channel' = channel then lines ++ [text] else lines
  | .stageFinished stage' _ => if stage' = stage then [] else lines
  | .runFinished _ => lines

/-- No object of the stage was written behind one of its lines. -/
def Unbroken (calls : List Call) : Prop :=
  ∀ pre result post, calls = pre ++ .stageFinished stage result :: post →
    sent stage channel pre = []

variable {stage channel}

theorem sent_snoc (calls : List Call) (c : Call) :
    sent stage channel (calls ++ [c]) = sent stage channel calls ++ sent stage channel [c] :=
  List.flatMap_append

theorem Buffered.text_line (b : Buffered) (channel' : Channel) (text : Bytes) :
    (b.line channel' text).text channel =
      if channel' = channel then appendLine (b.text channel) text else b.text channel := by
  cases channel <;> cases channel' <;> rfl

theorem buffered_update {s after : JsonSink} {stage' : Bytes} {b : Option Buffered}
    (h : after.buffers = Function.update s.buffers stage' b) :
    after.buffered stage = if stage' = stage then b.getD {} else s.buffered stage := by
  unfold JsonSink.buffered
  rw [h]
  by_cases hstage : stage' = stage
  · rw [if_pos hstage, hstage, Function.update_self]
  · rw [if_neg hstage, Function.update_of_ne (Ne.symm hstage)]

/-- What the buffer of the stage holds is what was gathered. -/
theorem buffered_call {s : JsonSink} {lines : List Bytes}
    (h : (s.buffered stage).text channel = joined lines) (c : Call) :
    ((s.call c).buffered stage).text channel = joined (gather stage channel lines c) := by
  have hnone : (Option.getD none ({} : Buffered)).text channel = joined [] := by
    cases channel <;> rfl
  cases c with
  | stageStarted stage' =>
    have hafter : (s.call (.stageStarted stage')).buffers =
        Function.update s.buffers stage' none := rfl
    rw [buffered_update hafter]
    dsimp only [gather]
    split_ifs
    · exact hnone
    · exact h
  | line stage' channel' text =>
    have hafter : (s.call (.line stage' channel' text)).buffers =
        Function.update s.buffers stage' (some ((s.buffered stage').line channel' text)) := rfl
    rw [buffered_update hafter]
    dsimp only [gather]
    by_cases hstage : stage' = stage
    · rw [if_pos hstage, hstage, Option.getD_some, Buffered.text_line, h]
      by_cases hchannel : channel' = channel
      · rw [if_pos hchannel, if_pos ⟨rfl, hchannel⟩, joined_snoc]
      · rw [if_neg hchannel, if_neg fun hboth => hchannel hboth.2]
    · rw [if_neg hstage, if_neg fun hboth => hstage hboth.1]
      exact h
  | stageFinished stage' result =>
    have hafter : (s.call (.stageFinished stage' result)).buffers =
        Function.update s.buffers stage' none := rfl
    rw [buffered_update hafter]
    dsimp only [gather]
    split_ifs
    · exact hnone
    · exact h
  | runFinished summary => exact h

theorem buffered_calls {s : JsonSink} {lines : List Bytes}
    (h : (s.buffered stage).text channel = joined lines) (calls : List Call) :
    ((calls.foldl JsonSink.call s).buffered stage).text channel =
      joined (calls.foldl (gather stage channel) lines) := by
  induction calls generalizing s lines with
  | nil => exact h
  | cons c calls ih => exact ih (buffered_call h c)

/-- The object of the last call is the last that may break the lines. -/
theorem unbroken_snoc (calls : List Call) (c : Call) :
    Unbroken stage channel (calls ++ [c]) ↔
      Unbroken stage channel calls ∧
        ∀ result, c = .stageFinished stage result → sent stage channel calls = [] := by
  constructor
  · refine fun h => ⟨fun pre result post heq => ?_, fun result heq => ?_⟩
    · exact h pre result (post ++ [c]) (by rw [heq, List.append_assoc, List.cons_append])
    · exact h calls result [] (by rw [heq])
  · rintro ⟨hbefore, hlast⟩ pre result post heq
    rcases List.eq_nil_or_concat post with rfl | ⟨post, last, rfl⟩
    · obtain ⟨rfl, hc⟩ := List.append_inj' heq rfl
      exact hlast result (List.head_eq_of_cons_eq hc)
    · rw [List.concat_eq_append, ← List.cons_append, ← List.append_assoc] at heq
      obtain ⟨hcalls, -⟩ := List.append_inj' heq rfl
      exact hbefore pre result post hcalls

/-- Without a new attempt, the last lines are gathered; all of them, unless an object took some. -/
theorem gather_calls (channel : Channel) {calls : List Call} (h : .stageStarted stage ∉ calls) :
    calls.foldl (gather stage channel) [] <:+ sent stage channel calls ∧
      (calls.foldl (gather stage channel) [] = sent stage channel calls ↔
        Unbroken stage channel calls) := by
  induction calls using List.reverseRecOn with
  | nil => exact ⟨List.suffix_refl [], iff_of_true rfl fun pre result post heq => by simp at heq⟩
  | append_singleton calls c ih =>
    rw [List.mem_append, List.mem_singleton, not_or] at h
    obtain ⟨hsuffix, hall⟩ := ih h.1
    have hone : sent stage channel [c] = _ := List.append_nil _
    rw [List.foldl_append, List.foldl_cons, List.foldl_nil, sent_snoc, unbroken_snoc, ← hall, hone]
    cases c with
    | stageStarted stage' =>
      have hstage : ¬ stage' = stage := fun heq => h.2 (by rw [heq])
      dsimp only [gather]
      rw [if_neg hstage, List.append_nil]
      exact ⟨hsuffix, (and_iff_left (by simp)).symm⟩
    | line stage' channel' text =>
      dsimp only [gather]
      by_cases hmine : stage' = stage ∧ channel' = channel
      · rw [if_pos hmine, if_pos hmine]
        refine ⟨?_, by simp⟩
        obtain ⟨taken, htaken⟩ := hsuffix
        exact ⟨taken, by rw [← htaken, List.append_assoc]⟩
      · rw [if_neg hmine, if_neg hmine, List.append_nil]
        exact ⟨hsuffix, (and_iff_left (by simp)).symm⟩
    | stageFinished stage' result =>
      dsimp only [gather]
      rw [List.append_nil]
      by_cases hstage : stage' = stage
      · rw [if_pos hstage, hstage]
        refine ⟨List.nil_suffix, ?_⟩
        constructor
        · intro hnone
          rw [← hnone] at hsuffix ⊢
          exact ⟨List.suffix_nil.mp hsuffix, fun _ _ => rfl⟩
        · exact fun hboth => (hboth.2 result rfl).symm
      · rw [if_neg hstage]
        refine ⟨hsuffix, (and_iff_left ?_).symm⟩
        intro result' heq
        injection heq with heq
        exact absurd heq hstage
    | runFinished summary =>
      dsimp only [gather]
      rw [List.append_nil]
      exact ⟨hsuffix, (and_iff_left (by simp)).symm⟩

end

/-! ## What the object says of the lines -/

/-- The field of a channel. -/
def Channel.field : Channel → Bytes
  | .Stdout => ascii "stdout"
  | .Stderr => ascii "stderr"

/-- The object that the stage writes when it finishes has the text in the channel's field. -/
def Emits (s : JsonSink) (stage : Bytes) (result : StageResult) (channel : Channel) (text : Bytes) :
    Prop :=
  ∃ body fields, (s.stageFinished stage result).out = s.out ++ body ++ [newline] ∧
    Json.parse body = some (.object fields) ∧ fields.lookup channel.field = some (.string text)

theorem emits_buffered (s : JsonSink) (stage : Bytes) (result : StageResult) (channel : Channel) :
    Emits s stage result channel ((s.buffered stage).text channel) := by
  refine ⟨print quoting (JsonSink.stageObject stage result (s.buffered stage)), _, ?_,
    Json.parse_print quoting _, ?_⟩
  · rw [JsonSink.out_stageFinished, List.append_assoc]
  · cases channel <;> rfl

/-- The lines of an attempt are those that the field splits into, if they are one empty line, or if
the first is not empty and no object of the stage came between. -/
theorem the_lines_come_back_iff (s : JsonSink) (stage : Bytes) (channel : Channel)
    (calls : List Call) (result : StageResult) (hattempt : .stageStarted stage ∉ calls)
    (hlines : ∀ line ∈ sent stage channel calls, newline ∉ line)
    (hsome : sent stage channel calls ≠ []) :
    ∃ text, Emits (calls.foldl JsonSink.call (s.stageStarted stage)) stage result channel text ∧
      (text.splitOn newline = sent stage channel calls ↔
        sent stage channel calls = [[]] ∨
          (Unbroken stage channel calls ∧ (sent stage channel calls).head? ≠ some [])) := by
  obtain ⟨hsuffix, hall⟩ := gather_calls channel hattempt
  have hstart : ((s.stageStarted stage).buffered stage).text channel = joined [] := by
    rw [buffered_update (s := s) rfl, if_pos rfl]
    cases channel <;> rfl
  refine ⟨_, emits_buffered _ stage result channel, ?_⟩
  rw [buffered_calls hstart, splitOn_joined_iff hlines hsome hsuffix, hall]

/-- Two lines of one stage among those of another, the second one empty. -/
theorem a_last_empty_line_is_kept :
    ∃ text, Emits ([.line [97] .Stdout [120], .line [98] .Stdout [], .line [97] .Stdout []].foldl
        JsonSink.call (({} : JsonSink).stageStarted [97])) [97] {} .Stdout text ∧
      text.splitOn newline = [[120], []] := by
  obtain ⟨text, hemits, hiff⟩ := the_lines_come_back_iff {} [97] .Stdout
    [.line [97] .Stdout [120], .line [98] .Stdout [], .line [97] .Stdout []] {}
    (by simp) (by decide) (by decide)
  refine ⟨text, hemits, hiff.mpr (.inr ⟨fun pre result post heq => ?_, by decide⟩)⟩
  have hin : Call.stageFinished [97] result ∈ pre ++ .stageFinished [97] result :: post := by simp
  rw [← heq] at hin
  simp at hin

/-- An empty line and a line behind it give the field of that line alone. -/
theorem a_leading_empty_line_is_lost :
    sent [97] .Stdout [.line [97] .Stdout [], .line [97] .Stdout [120]] = [[], [120]] ∧
    Emits ([.line [97] .Stdout [], .line [97] .Stdout [120]].foldl JsonSink.call
      (({} : JsonSink).stageStarted [97])) [97] {} .Stdout [120] ∧
    Emits ([.line [97] .Stdout [120]].foldl JsonSink.call
      (({} : JsonSink).stageStarted [97])) [97] {} .Stdout [120] ∧
    [120].splitOn newline = [[120]] :=
  ⟨by decide, emits_buffered _ [97] {} .Stdout, emits_buffered _ [97] {} .Stdout, by decide⟩

end psx.sink
