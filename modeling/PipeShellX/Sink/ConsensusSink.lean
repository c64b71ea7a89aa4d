-- The sink of `run --consensus` (consensus_sink.cpp): it joins the lines of each host's stdout, and
-- buckets the hosts by that text. The lines come from the replay of what was captured
-- (process_manager.cpp), so captures with the same lines are one bucket.
import PipeShellX.Process.RemoteResult
import PipeShellX.Sink.JsonRecords
import PipeShellX.Stream.LineCuts

namespace psx.sink

open Json (newline)
open Text (ascii)
open psx.process (bytes ClientResult)
open psx.stream (LineFramer)
open psx.stream.LineFramer (canonical frames rejoined kDefaultMaxLineLength)

/-- A bucket that is not the largest. -/
def renderOutlier (outlier : Bucket) : Bytes :=
  ascii "--- outlier" ++ (outlier.hosts.flatMap fun host => ascii " " ++ host) ++ ascii " ---\n" ++
    outlier.output ++
    if outlier.output ≠ [] ∧ outlier.output.getLast? ≠ some newline then [newline] else []

/-- The buckets as text. -/
def renderConsensus (report : ConsensusReport) (out : Bytes) : Bytes :=
  match report.buckets with
  | [] => out ++ ascii "no hosts\n"
  | majority :: outliers =>
    let total := Decimal.natural report.hostCount
    if report.unanimous then
      out ++ ascii "consensus: all " ++ total ++
        ascii (if report.hostCount = 1 then " host agrees" else " hosts agree") ++ [newline]
    else
      out ++ ascii "consensus: " ++ Decimal.natural majority.hosts.length ++ ascii "/" ++ total ++
        ascii " hosts agree; " ++ Decimal.natural outliers.length ++
        ascii (if outliers.length = 1 then " outlier" else " outliers") ++ [newline] ++
        outliers.flatMap renderOutlier

/-- A sink that compares what the hosts have written. -/
structure ConsensusSink where
  out : Bytes := []
  json : Bool
  stdoutByHost : Std.TreeMap Bytes Bytes compare := ∅

namespace ConsensusSink

/-- A retry replaces the failed attempt. -/
def stageStarted (s : ConsensusSink) (stage : Bytes) : ConsensusSink :=
  { s with stdoutByHost := (s.stdoutByHost.erase stage).insertIfNew stage [] }

/-- A line of standard output is kept. -/
def line (s : ConsensusSink) (stage : Bytes) (channel : Channel) (text : Bytes) : ConsensusSink :=
  if channel ≠ .Stdout then s
  else
    { s with
      stdoutByHost := s.stdoutByHost.alter stage fun output =>
        some (output.getD [] ++ text ++ [newline]) }

/-- A host is compared even if it has written nothing. -/
def stageFinished (s : ConsensusSink) (stage : Bytes) (_ : StageResult) : ConsensusSink :=
  { s with stdoutByHost := s.stdoutByHost.insertIfNew stage [] }

/-- What the run ends with. -/
def report (s : ConsensusSink) : ConsensusReport := consensus s.stdoutByHost.toList

/-- The report is written. -/
def runFinished (s : ConsensusSink) (_ : RunSummary) : ConsensusSink :=
  { s with
    out :=
      if s.json then s.report.renderConsensusJson s.out else renderConsensus s.report s.out }

/-! ## The replay -/

/-- The captured bytes of a channel, as lines. -/
def replay (s : ConsensusSink) (stage : Bytes) (channel : Channel) (data : Bytes) : ConsensusSink :=
  let (lines, last) := frames kDefaultMaxLineLength [data]
  (lines ++ last.toList).foldl (fun s line => s.line stage channel line.bytes) s

/-- One turn of the loop over the results. -/
def finish (s : ConsensusSink) (clientResult : ClientResult) : ConsensusSink :=
  let stage := bytes clientResult.clientId
  let s := s.replay stage .Stdout clientResult.stdoutData
  let s := s.replay stage .Stderr clientResult.stderrData
  s.stageFinished stage ⟨clientResult.exitCode, clientResult.timedOut,
    bytes clientResult.errorMessage, clientResult.droppedBytes⟩

/-- A run in which these stages started, in this order, and ended with these results. -/
def run (json : Bool) (started : List Bytes) (clientResults : List ClientResult) : ConsensusSink :=
  clientResults.foldl finish (started.foldl stageStarted { json })

/-! ## What is kept of a host -/

/-- What is kept of a host. -/
def output (s : ConsensusSink) (stage : Bytes) : Bytes := s.stdoutByHost[stage]?.getD []

theorem get_line (s : ConsensusSink) (stage text k : Bytes) :
    (s.line stage .Stdout text).stdoutByHost[k]? =
      if stage = k then some (s.output stage ++ text ++ [newline]) else s.stdoutByHost[k]? := by
  refine Std.TreeMap.getElem?_alter.trans ?_
  simp only [Std.LawfulEqCmp.compare_eq_iff_eq]
  rfl

theorem line_stderr (s : ConsensusSink) (stage text : Bytes) : s.line stage .Stderr text = s :=
  if_pos (by decide)

theorem lines_other {stage k : Bytes} (h : stage ≠ k) (lines : List psx.stream.Line)
    (s : ConsensusSink) :
    (lines.foldl (fun s line => s.line stage .Stdout line.bytes) s).stdoutByHost[k]? =
      s.stdoutByHost[k]? := by
  induction lines generalizing s with
  | nil => rfl
  | cons line lines ih => rw [List.foldl_cons, ih, get_line, if_neg h]

theorem lines_own {stage : Bytes} (lines : List psx.stream.Line) (s : ConsensusSink) :
    (lines.foldl (fun s line => s.line stage .Stdout line.bytes) s).output stage =
      s.output stage ++ rejoined lines := by
  induction lines generalizing s with
  | nil => exact (List.append_nil _).symm
  | cons line lines ih =>
    have hline : (s.line stage .Stdout line.bytes).output stage =
        s.output stage ++ line.bytes ++ [newline] := by
      rw [output, get_line, if_pos rfl]
      rfl
    have hcons : rejoined (line :: lines) = line.bytes ++ [newline] ++ rejoined lines :=
      List.flatMap_cons
    rw [List.foldl_cons, ih, hline, hcons]
    simp only [List.append_assoc]

theorem replay_stderr (s : ConsensusSink) (stage data : Bytes) :
    s.replay stage .Stderr data = s := by
  unfold replay
  simp only [line_stderr]
  exact List.foldl_fixed _

theorem get_stageFinished (s : ConsensusSink) (stage : Bytes) (result : StageResult) (k : Bytes) :
    (s.stageFinished stage result).stdoutByHost[k]? =
      if stage = k then some (s.output stage) else s.stdoutByHost[k]? := by
  refine Std.TreeMap.getElem?_insertIfNew.trans ?_
  simp only [Std.LawfulEqCmp.compare_eq_iff_eq]
  by_cases hk : stage = k
  · subst hk
    rw [if_pos rfl, output]
    by_cases hmem : stage ∈ s.stdoutByHost
    · rw [if_neg fun h => h.2 hmem, Std.TreeMap.getElem?_eq_some_getElem hmem]
      rfl
    · rw [if_pos ⟨rfl, hmem⟩, Std.TreeMap.getElem?_eq_none hmem]
      rfl
  · rw [if_neg hk, if_neg fun h => hk h.1]

/-- The capture of a host is kept by its lines. -/
theorem get_finish (s : ConsensusSink) (r : ClientResult) (k : Bytes) :
    (s.finish r).stdoutByHost[k]? =
      if bytes r.clientId = k then
        some (s.output k ++ canonical kDefaultMaxLineLength r.stdoutData)
      else s.stdoutByHost[k]? := by
  unfold finish
  dsimp only
  rw [replay_stderr, get_stageFinished]
  by_cases hk : bytes r.clientId = k
  · subst hk
    have hmost : kDefaultMaxLineLength ≠ 0 := by decide
    rw [if_pos rfl, if_pos rfl, replay, lines_own, LineFramer.rejoined_frames hmost]
  · rw [if_neg hk, if_neg hk, replay, lines_other hk]

/-- A stage that starts has no output. -/
theorem output_started (json : Bool) (started : List Bytes) (k : Bytes) :
    (started.foldl stageStarted { json }).output k = [] := by
  induction started using List.reverseRecOn with
  | nil => exact congrArg (Option.getD · []) Std.TreeMap.getElem?_emptyc
  | append_singleton started stage ih =>
    rw [List.foldl_append]
    unfold output at ih ⊢
    refine (congrArg (Option.getD · []) Std.TreeMap.getElem?_insertIfNew).trans ?_
    split_ifs
    · rfl
    · rw [Std.TreeMap.getElem?_erase]
      split_ifs
      · rfl
      · exact ih

theorem finishes_other {k : Bytes} {clientResults : List ClientResult} (s : ConsensusSink)
    (h : ∀ r ∈ clientResults, bytes r.clientId ≠ k) :
    (clientResults.foldl finish s).stdoutByHost[k]? = s.stdoutByHost[k]? := by
  induction clientResults generalizing s with
  | nil => rfl
  | cons r clientResults ih =>
    obtain ⟨hr, hrest⟩ := List.forall_mem_cons.mp h
    rw [List.foldl_cons, ih _ hrest, get_finish, if_neg hr]

/-- Each host has the lines of its own capture. -/
theorem get_finishes {s : ConsensusSink} {clientResults : List ClientResult}
    (hnodup : (clientResults.map fun r => bytes r.clientId).Nodup)
    (hfresh : ∀ k, s.output k = []) {r : ClientResult} (hr : r ∈ clientResults) :
    (clientResults.foldl finish s).stdoutByHost[bytes r.clientId]? =
      some (canonical kDefaultMaxLineLength r.stdoutData) := by
  obtain ⟨before, after, rfl⟩ := List.append_of_mem hr
  rw [List.map_append, List.map_cons, List.nodup_append, List.nodup_cons] at hnodup
  obtain ⟨-, ⟨hafter, -⟩, hbefore⟩ := hnodup
  have hmine : (before.foldl finish s).output (bytes r.clientId) = [] := by
    rw [output, finishes_other]
    · exact hfresh _
    · intro other hother
      exact hbefore _ (List.mem_map_of_mem hother) _ List.mem_cons_self
  rw [List.foldl_append, List.foldl_cons, finishes_other, get_finish, if_pos rfl, hmine,
    List.nil_append]
  intro other hother hsame
  exact hafter (hsame ▸ List.mem_map_of_mem hother)

/-- Two hosts of a run are in one bucket. -/
def Together (report : ConsensusReport) (a b : ClientResult) : Prop :=
  ∃ bucket ∈ report.buckets, bytes a.clientId ∈ bucket.hosts ∧ bytes b.clientId ∈ bucket.hosts

theorem together_iff {s : ConsensusSink} {a b : ClientResult} {x y : Bytes}
    (ha : s.stdoutByHost[bytes a.clientId]? = some x)
    (hb : s.stdoutByHost[bytes b.clientId]? = some y) : Together s.report a b ↔ x = y := by
  have hmem : ∀ {k z : Bytes}, s.stdoutByHost[k]? = some z →
      ∀ output, (k, output) ∈ s.stdoutByHost.toList ↔ output = z := by
    intro k z hk output
    rw [Std.TreeMap.mem_toList_iff_getElem?_eq_some, hk, Option.some_inj, eq_comm]
  constructor
  · rintro ⟨bucket, hbucket, hina, hinb⟩
    have hx := (hmem ha _).mp ((mem_hosts hbucket).mp hina)
    have hy := (hmem hb _).mp ((mem_hosts hbucket).mp hinb)
    exact hx.symm.trans hy
  · rintro rfl
    have hbucket : ⟨x, sort (hostsOf x s.stdoutByHost.toList)⟩ ∈ s.report.buckets :=
      mem_buckets.mpr ⟨rfl, Grouping.valuesAt_ne_nil.mpr ⟨_, (hmem ha x).mpr rfl, rfl⟩⟩
    exact ⟨_, hbucket, (mem_hosts hbucket).mpr ((hmem ha x).mpr rfl),
      (mem_hosts hbucket).mpr ((hmem hb x).mpr rfl)⟩

/-- What shares a bucket has the same lines. -/
theorem together_run (json : Bool) (started : List Bytes) {clientResults : List ClientResult}
    (hnodup : (clientResults.map fun r => bytes r.clientId).Nodup) {a b : ClientResult}
    (ha : a ∈ clientResults) (hb : b ∈ clientResults) :
    Together (run json started clientResults).report a b ↔
      canonical kDefaultMaxLineLength a.stdoutData =
        canonical kDefaultMaxLineLength b.stdoutData :=
  have hfresh := output_started json started
  together_iff (get_finishes hnodup hfresh ha) (get_finishes hnodup hfresh hb)

/-- The buckets of a run are those of the exact captures unless two hosts have different captures
with the same lines. -/
theorem the_buckets_are_exact_iff (json : Bool) (started : List Bytes)
    (clientResults : List ClientResult)
    (hnodup : (clientResults.map fun r => bytes r.clientId).Nodup) :
    (∀ a ∈ clientResults, ∀ b ∈ clientResults,
      Together (run json started clientResults).report a b ↔ a.stdoutData = b.stdoutData) ↔
    ∀ a ∈ clientResults, ∀ b ∈ clientResults,
      canonical kDefaultMaxLineLength a.stdoutData = canonical kDefaultMaxLineLength b.stdoutData →
      a.stdoutData = b.stdoutData := by
  constructor
  · intro h a ha b hb hsame
    exact (h a ha b hb).mp ((together_run json started hnodup ha hb).mpr hsame)
  · intro h a ha b hb
    rw [together_run json started hnodup ha hb]
    refine ⟨h a ha b hb, fun heq => ?_⟩
    rw [heq]

/-- A host that exited with 0. -/
def exited (clientId : String) (stdoutData : Bytes) : ClientResult := {
  clientId, stdoutData
  exitCode := 0
  stderrData := []
  timedOut := false
  droppedBytes := 0
  cancelled := false
  attempts := 1
  aborted := false }

theorem two_lines_are_two_buckets :
    ¬ Together (run false [] [exited "a" [120, 10], exited "b" [121, 10]]).report
      (exited "a" [120, 10]) (exited "b" [121, 10]) := by
  intro htogether
  have hexact := (the_buckets_are_exact_iff false [] [exited "a" [120, 10], exited "b" [121, 10]]
    (by decide +kernel)).mpr (by decide)
  have hsame := (hexact _ (by simp) _ (by simp)).mp htogether
  exact absurd hsame (by decide)

/-- One host ends its line, the other does not, and they share a bucket. -/
theorem a_last_newline_is_not_seen :
    ¬ ∀ (json : Bool) (started : List Bytes) (clientResults : List ClientResult),
      (clientResults.map fun r => bytes r.clientId).Nodup →
      ∀ a ∈ clientResults, ∀ b ∈ clientResults,
        Together (run json started clientResults).report a b ↔ a.stdoutData = b.stdoutData := by
  intro h
  have hnodup : ([exited "a" [120, 10], exited "b" [120]].map fun r => bytes r.clientId).Nodup := by
    decide +kernel
  have htogether :=
    (together_run false [] hnodup (a := exited "a" [120, 10]) (b := exited "b" [120])
    (by simp) (by simp)).mpr (by decide)
  have hsame := (h false [] _ hnodup _ (by simp) _ (by simp)).mp htogether
  exact absurd hsame (by decide)

end ConsensusSink

end psx.sink
