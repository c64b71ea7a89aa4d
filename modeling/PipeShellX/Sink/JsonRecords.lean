-- The other writers of JSON: the consensus report (consensus.cpp) and the audit log
-- (audit_log.cpp). Every object that is written, by them and by the sink, takes exactly one line,
-- and a reader gets back what it was written from.
import PipeShellX.Sink.Consensus
import PipeShellX.Sink.JsonSink

namespace psx.sink

open Json (newline print Value)
open Text (ascii)
open psx.json (quote quoting quoting_quote)

/-! ## The consensus report -/

namespace ConsensusReport

def hostCount (report : ConsensusReport) : Nat :=
  report.buckets.foldl (fun total bucket => total + bucket.hosts.length) 0

/-- The loops of the renderer: a comma in front of every item but the first. -/
def separated {α : Type} (render : α → Bytes) : List α → Bytes
  | [] => []
  | item :: items => render item ++ items.flatMap fun item => ascii "," ++ render item

def renderBucket (bucket : Bucket) : Bytes :=
  ascii "\x7b\"hosts\":[" ++ separated quote bucket.hosts ++ ascii "],\"output\":" ++
    quote bucket.output ++ ascii "\x7d"

/-- The buckets in a line of JSON. -/
def renderConsensusJson (report : ConsensusReport) (out : Bytes) : Bytes :=
  out ++ (ascii "\x7b\"unanimous\":" ++ Json.boolean report.unanimous ++ ascii ",\"hosts\":" ++
    Decimal.natural report.hostCount ++ ascii ",\"buckets\":[" ++
    separated renderBucket report.buckets ++ ascii "]\x7d\n")

/-- The value that a bucket is written as. -/
def bucketObject (bucket : Bucket) : Value :=
  .object [(ascii "hosts", .array (bucket.hosts.map .string)),
    (ascii "output", .string bucket.output)]

/-- The value that the report is written as. -/
def object (report : ConsensusReport) : Value :=
  .object [(ascii "unanimous", .bool report.unanimous), (ascii "hosts", .number report.hostCount),
    (ascii "buckets", .array (report.buckets.map bucketObject))]

/-- The items of an array that are behind the first one. -/
theorem print_items {α : Type} {render : α → Bytes} {item : α → Value}
    (h : ∀ a, print quoting (item a) = render a) (items : List α) :
    Json.printItems quoting (items.map item) =
      (items.flatMap fun item => ascii "," ++ render item) ++ ascii "]" := by
  induction items with
  | nil => rfl
  | cons a items ih =>
    rw [List.map_cons, Json.printItems, List.flatMap_cons, ih, h, List.append_assoc,
      List.append_assoc]
    rfl

theorem print_array {α : Type} {render : α → Bytes} {item : α → Value}
    (h : ∀ a, print quoting (item a) = render a) (items : List α) :
    print quoting (.array (items.map item)) = ascii "[" ++ separated render items ++ ascii "]" := by
  cases items with
  | nil => rfl
  | cons a items =>
    rw [List.map_cons, print, separated, print_items h, h, List.append_assoc, List.append_assoc]
    rfl

theorem print_bucket (bucket : Bucket) :
    print quoting (bucketObject bucket) = renderBucket bucket := by
  have hhosts := print_array (fun host => (by rw [print]; rfl :
    print quoting (.string host) = quote host)) bucket.hosts
  unfold bucketObject renderBucket
  simp only [print, Json.printFields, hhosts, quoting_quote, List.append_assoc, List.cons_append]
  rfl

theorem out_renderConsensusJson (report : ConsensusReport) (out : Bytes) :
    report.renderConsensusJson out = out ++ (print quoting report.object ++ [newline]) := by
  unfold renderConsensusJson object
  simp only [print, Json.printFields, print_array print_bucket, quoting_quote, List.append_assoc,
    List.cons_append]
  rfl

end ConsensusReport

end psx.sink

namespace psx.audit

open Json (newline print Value)
open Text (ascii)
open psx.json (quote quoting quoting_quote)

/-! ## The audit log -/

/-- What the audit log has of a stage. -/
structure StageRecord where
  host : Bytes
  stageId : Bytes
  exitCode : Int := 0
  attempts : Int := 1
  timedOut : Bool := false
  cancelled : Bool := false
  aborted : Bool := false
  droppedBytes : Nat := 0
  error : Bytes := []

/-- What the audit log has of a run. -/
structure RunRecord where
  total : Nat := 0
  succeeded : Nat := 0
  failed : Nat := 0
  cancelled : Bool := false
  exitCode : Int := 0

/-- `out` is what the file holds, and `ok` whether it could be opened. -/
structure AuditLog where
  ok : Bool
  out : Bytes := []

namespace AuditLog

/-- The clock is an argument. -/
def writeLine (log : AuditLog) (nowMillis : Int) (body : Bytes) : AuditLog :=
  if ¬ log.ok then log
  else { log with
    out := log.out ++ (ascii "\x7b\"ts_ms\":" ++ Decimal.integer nowMillis ++ ascii "," ++ body ++
      ascii "\x7d\n") }

/-- The line for the start of a run. -/
def runStarted (log : AuditLog) (nowMillis : Int) (runId command : Bytes) (hostCount : Nat) :
    AuditLog :=
  log.writeLine nowMillis (ascii "\"event\":\"run_started\",\"run_id\":" ++ quote runId ++
    ascii ",\"command\":" ++ quote command ++ ascii ",\"hosts\":" ++ Decimal.natural hostCount)

/-- The line for the end of a stage. -/
def stageFinished (log : AuditLog) (nowMillis : Int) (runId : Bytes) (record : StageRecord) :
    AuditLog :=
  log.writeLine nowMillis (ascii "\"event\":\"stage_finished\",\"run_id\":" ++ quote runId ++
    ascii ",\"stage\":" ++ quote record.stageId ++ ascii ",\"host\":" ++ quote record.host ++
    ascii ",\"exit_code\":" ++ Decimal.integer record.exitCode ++ ascii ",\"attempts\":" ++
    Decimal.integer record.attempts ++ ascii ",\"timed_out\":" ++ Json.boolean record.timedOut ++
    ascii ",\"cancelled\":" ++ Json.boolean record.cancelled ++ ascii ",\"aborted\":" ++
    Json.boolean record.aborted ++ ascii ",\"dropped_bytes\":" ++
      Decimal.natural record.droppedBytes ++
    ascii ",\"error\":" ++ quote record.error)

/-- The line for the end of a run. -/
def runFinished (log : AuditLog) (nowMillis : Int) (runId : Bytes) (record : RunRecord) :
    AuditLog :=
  log.writeLine nowMillis (ascii "\"event\":\"run_finished\",\"run_id\":" ++ quote runId ++
    ascii ",\"total\":" ++ Decimal.natural record.total ++ ascii ",\"succeeded\":" ++
    Decimal.natural record.succeeded ++ ascii ",\"failed\":" ++ Decimal.natural record.failed ++
    ascii ",\"cancelled\":" ++ Json.boolean record.cancelled ++ ascii ",\"exit_code\":" ++
    Decimal.integer record.exitCode)

/-- A call to the log. -/
inductive Entry
  | runStarted (runId command : Bytes) (hostCount : Nat)
  | stageFinished (runId : Bytes) (record : StageRecord)
  | runFinished (runId : Bytes) (record : RunRecord)

/-- One more line of the log. -/
def call (log : AuditLog) (nowMillis : Int) : Entry → AuditLog
  | .runStarted runId command hostCount => log.runStarted nowMillis runId command hostCount
  | .stageFinished runId record => log.stageFinished nowMillis runId record
  | .runFinished runId record => log.runFinished nowMillis runId record

/-- The object of an entry. -/
def object (nowMillis : Int) : Entry → Value
  | .runStarted runId command hostCount =>
    .object [(ascii "ts_ms", .number nowMillis), (ascii "event", .string (ascii "run_started")),
      (ascii "run_id", .string runId), (ascii "command", .string command),
      (ascii "hosts", .number hostCount)]
  | .stageFinished runId record =>
    .object [(ascii "ts_ms", .number nowMillis), (ascii "event", .string (ascii "stage_finished")),
      (ascii "run_id", .string runId), (ascii "stage", .string record.stageId),
      (ascii "host", .string record.host), (ascii "exit_code", .number record.exitCode),
      (ascii "attempts", .number record.attempts), (ascii "timed_out", .bool record.timedOut),
      (ascii "cancelled", .bool record.cancelled), (ascii "aborted", .bool record.aborted),
      (ascii "dropped_bytes", .number record.droppedBytes), (ascii "error", .string record.error)]
  | .runFinished runId record =>
    .object [(ascii "ts_ms", .number nowMillis), (ascii "event", .string (ascii "run_finished")),
      (ascii "run_id", .string runId), (ascii "total", .number record.total),
      (ascii "succeeded", .number record.succeeded), (ascii "failed", .number record.failed),
      (ascii "cancelled", .bool record.cancelled), (ascii "exit_code", .number record.exitCode)]

set_option maxRecDepth 1024 in
theorem out_call {log : AuditLog} (h : log.ok = true) (nowMillis : Int) (entry : Entry) :
    log.call nowMillis entry =
      { log with out := log.out ++ (print quoting (object nowMillis entry) ++ [newline]) } := by
  have hwrite : ∀ body, log.writeLine nowMillis body = { log with
      out := log.out ++ (ascii "\x7b\"ts_ms\":" ++ Decimal.integer nowMillis ++ ascii "," ++ body ++
        ascii "\x7d\n") } := fun body => if_neg (not_not_intro h)
  cases entry with
  | runStarted runId command hostCount =>
    dsimp only [call, runStarted, object]
    rw [hwrite]
    simp only [print, Json.printFields, quoting_quote, List.append_assoc, List.cons_append]
    rfl
  | stageFinished runId record =>
    dsimp only [call, stageFinished, object]
    rw [hwrite]
    simp only [print, Json.printFields, quoting_quote, List.append_assoc, List.cons_append]
    rfl
  | runFinished runId record =>
    dsimp only [call, runFinished, object]
    rw [hwrite]
    simp only [print, Json.printFields, quoting_quote, List.append_assoc, List.cons_append]
    rfl

theorem call_closed {log : AuditLog} (h : log.ok = false) (nowMillis : Int) (entry : Entry) :
    log.call nowMillis entry = log := by
  have hnot : ¬ log.ok = true := by
    rw [h]
    exact Bool.false_ne_true
  cases entry <;> exact if_pos hnot

theorem out_calls {log : AuditLog} (h : log.ok = true) (entries : List (Int × Entry)) :
    (entries.foldl (fun log entry => log.call entry.1 entry.2) log).out =
      log.out ++ Json.lines quoting (entries.map fun entry => object entry.1 entry.2) := by
  induction entries generalizing log with
  | nil => exact (List.append_nil _).symm
  | cons entry entries ih =>
    have hstep := out_call h entry.1 entry.2
    rw [List.foldl_cons, ih (by rw [hstep]; exact h), hstep, List.map_cons, Json.lines_cons,
      List.append_assoc, List.append_assoc]
    rfl

end AuditLog

end psx.audit

namespace psx.sink

open Json (Appends Visible readLines)
open psx.json (quote)
open psx.audit (AuditLog)

/-! ## Every writer -/

/-- What `quote` writes has no control character and reads back, every object takes one line of its
own and reads back, and so do all the objects of a sink and of an audit log, line by line. -/
theorem every_object_takes_one_line :
    (∀ value, Visible (quote value) ∧ ∃ body, quote value = Json.mark :: body ∧
      ∀ rest, Json.string .text none (body ++ rest) = some (value, rest)) ∧
    (∀ (s : JsonSink) stage result, Appends s.out (s.stageFinished stage result).out
      (JsonSink.stageObject stage result (s.buffered stage))) ∧
    (∀ (s : JsonSink) summary, Appends s.out (s.runFinished summary).out
      (JsonSink.summaryObject summary)) ∧
    (∀ (report : ConsensusReport) out, Appends out (report.renderConsensusJson out) report.object) ∧
    (∀ log : AuditLog, log.ok = true → ∀ nowMillis entry,
      Appends log.out (log.call nowMillis entry).out (AuditLog.object nowMillis entry)) ∧
    (∀ calls, readLines (calls.foldl JsonSink.call {}).out =
      (({} : JsonSink).objects calls).map some) ∧
    (∀ (ok : Bool) (entries : List (Int × AuditLog.Entry)),
      readLines (entries.foldl (fun log entry => log.call entry.1 entry.2)
        ({ ok } : AuditLog)).out =
        if ok then entries.map fun entry => some (AuditLog.object entry.1 entry.2) else []) := by
  refine ⟨fun value => ⟨psx.json.quoting.visible_quote value, ?_⟩, fun s stage result => ?_,
    fun s summary => ?_, fun report out => ?_, fun log h nowMillis entry => ?_, fun calls => ?_,
    fun ok entries => ?_⟩
  · refine ⟨psx.json.body value ++ [Json.mark], rfl, fun rest => ?_⟩
    rw [List.append_assoc]
    exact psx.json.read_body value rest
  · rw [JsonSink.out_stageFinished]
    exact Json.appends_print _ _ _
  · rw [JsonSink.out_runFinished]
    exact Json.appends_print _ _ _
  · rw [ConsensusReport.out_renderConsensusJson]
    exact Json.appends_print _ _ _
  · rw [AuditLog.out_call h]
    exact Json.appends_print _ _ _
  · rw [JsonSink.out_calls]
    exact Json.readLines_lines _ _
  · cases ok with
    | true =>
      rw [AuditLog.out_calls rfl, if_pos rfl, List.nil_append, Json.readLines_lines, List.map_map]
      rfl
    | false =>
      have hsame : ∀ log : AuditLog, log.ok = false →
          entries.foldl (fun log entry => log.call entry.1 entry.2) log = log := by
        intro log h
        induction entries with
        | nil => rfl
        | cons entry entries ih =>
          rw [List.foldl_cons, AuditLog.call_closed h]
          exact ih
      rw [hsame _ rfl]
      rfl

end psx.sink
