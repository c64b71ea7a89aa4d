-- The verdict on a finished run over ssh (process_manager.cpp, run_command.cpp): the exit
-- code, and the summary and audit record next to it. They agree unless a stage that exited
-- with 0 wrote a message of the worker's own setup on its stderr.
import PipeShellX.Process.Worker

namespace psx.process

/-- What is reported of a client. -/
structure ClientResult where
  clientId : String
  exitCode : Int
  stdoutData : Bytes
  stderrData : Bytes
  errorMessage : String := ""
  timedOut : Bool
  droppedBytes : Nat
  cancelled : Bool
  attempts : Nat
  aborted : Bool
  deriving DecidableEq

/-- The counts that the sink is told at the end. -/
structure RunSummary where
  stages : Nat
  succeeded : Nat
  failed : Nat
  droppedBytes : Nat
  cancelled : Bool

/-- The counts that the audit log records at the end. -/
structure RunRecord where
  total : Nat
  succeeded : Nat
  failed : Nat
  cancelled : Bool
  exitCode : Int

/-- The result, with the summary that the sink gets. -/
structure RemoteResult where
  exitCode : Int
  cancelled : Bool
  clientResults : List ClientResult
  summary : RunSummary

/-- The exit code of a run that a signal stopped. -/
def kExitCancelled : Int := 130

/-- The spellings of the worker child's own messages, but the first. -/
def kSetupNeedles : List String :=
  ["dup2 failed", "open(/dev/null) failed", "setpgid failed", "password pipe", "password too long"]

/-- What is said of a client that failed. -/
def classifyRemoteError (clientResult : ClientResult) : String :=
  let stderrText := clientResult.stderrData
  if clientResult.cancelled then "ERROR: cancelled"
  else if clientResult.aborted then "ERROR: aborted (fail-fast)"
  else if clientResult.timedOut then "ERROR: command timed out"
  else if contains stderrText "execvp failed" then "ERROR: command execution failed"
  else if containsAny stderrText kSetupNeedles then "ERROR: remote worker setup failed"
  else
    let sshFailure := if clientResult.exitCode = 255 then classifySshFailure stderrText else none
    match sshFailure with
    | some failure => "ERROR: " ++ failure
    | none =>
      if clientResult.exitCode ≠ 0 then
        "ERROR: command failed with exit code " ++ toString clientResult.exitCode
      else ""

/-- One turn of the loop over the finished workers. A stage that was killed because of a sibling
does not overwrite the code of the real failure. -/
def overall (overallExitCode : Int) (w : Worker) : Int :=
  if w.aborted then if overallExitCode = 0 then 1 else overallExitCode
  else if w.exitCode ≠ 0 ∨ w.timedOut then if w.exitCode = 0 then 1 else w.exitCode
  else overallExitCode

/-- The result of a worker. -/
def clientResult (w : Worker) : ClientResult :=
  let clientResult : ClientResult := {
    clientId := w.clientId
    exitCode := w.exitCode
    stdoutData := w.stdoutFull
    stderrData := w.stderrFull
    timedOut := w.timedOut
    droppedBytes := w.droppedBytes
    cancelled := w.cancelled
    attempts := w.attempt + 1
    aborted := w.aborted }
  { clientResult with errorMessage := classifyRemoteError clientResult }

/-- A stage succeeded, as the summary counts it. -/
def ClientResult.ok (clientResult : ClientResult) : Bool :=
  clientResult.exitCode = 0 && !clientResult.timedOut && clientResult.errorMessage = ""

/-- `executeRemote`, once the run is over. -/
def executeRemote (workers : List Worker) (cancelled : Bool) : RemoteResult :=
  let clientResults := workers.map clientResult
  let succeeded := clientResults.countP ClientResult.ok
  { exitCode := if cancelled then kExitCancelled else workers.foldl overall 0
    cancelled
    clientResults
    summary := {
      stages := clientResults.length
      succeeded
      failed := clientResults.length - succeeded
      droppedBytes := clientResults.foldl (fun n r => n + r.droppedBytes) 0
      cancelled } }

/-- A stage succeeded, as the audit counts it. -/
def ClientResult.audited (stage : ClientResult) : Bool :=
  stage.exitCode = 0 && !stage.timedOut && !stage.cancelled && !stage.aborted &&
    stage.errorMessage = ""

/-- The end of `runSubcommand`: the audit record, which holds the exit code of the command. -/
def runSubcommand (result : RemoteResult) : RunRecord :=
  let succeeded := result.clientResults.countP ClientResult.audited
  { total := result.clientResults.length
    succeeded
    failed := result.clientResults.length - succeeded
    cancelled := result.cancelled
    exitCode := if result.cancelled then kExitCancelled else if result.exitCode = 0 then 0 else 1 }

/-! ## The two verdicts -/

/-- The flags and the exit code of the worker say that it failed. -/
def Worker.Failed (w : Worker) : Prop := w.aborted = true ∨ w.timedOut = true ∨ w.exitCode ≠ 0

/-- Its stderr has a message of the worker's own setup in it. -/
def Worker.Sniffed (w : Worker) : Prop :=
  contains w.stderrFull "execvp failed" = true ∨ containsAny w.stderrFull kSetupNeedles = true

theorem overall_zero (workers : List Worker) (start : Int) :
    workers.foldl overall start = 0 ↔ start = 0 ∧ ∀ w ∈ workers, ¬ w.Failed := by
  induction workers generalizing start with
  | nil => simp
  | cons w workers ih =>
    rw [List.foldl_cons, ih]
    have hstep : overall start w = 0 ↔ start = 0 ∧ ¬ w.Failed := by
      unfold overall Worker.Failed
      split_ifs with haborted hstart hfailed hzero <;> simp_all
    rw [hstep, List.forall_mem_cons, and_assoc]

theorem append_ne {a : String} (h : a ≠ "") (b : String) : a ++ b ≠ "" := by
  simp [h]

/-- An empty message: nothing that the classifier looks at failed. -/
theorem classify_empty {w : Worker} (h : w.cancelled = false) :
    (clientResult w).errorMessage = "" ↔ ¬ w.Failed ∧ ¬ w.Sniffed := by
  change classifyRemoteError _ = "" ↔ _
  unfold classifyRemoteError Worker.Failed Worker.Sniffed
  simp only [h, Bool.false_eq_true, if_false]
  by_cases haborted : w.aborted = true
  · simp [haborted]
  by_cases htimedOut : w.timedOut = true
  · simp [haborted, htimedOut]
  by_cases hexec : contains w.stderrFull "execvp failed" = true
  · simp [haborted, htimedOut, hexec]
  by_cases hsetup : containsAny w.stderrFull kSetupNeedles = true
  · simp [haborted, htimedOut, hexec, hsetup]
  rw [if_neg haborted, if_neg htimedOut, if_neg hexec, if_neg hsetup]
  by_cases hcode : w.exitCode = 0
  · simp [hcode, haborted, htimedOut, hexec, hsetup]
  · refine iff_of_false ?_ fun hall => hall.1 (Or.inr (Or.inr hcode))
    rw [if_pos hcode]
    split
    · exact append_ne (by decide) _
    · exact append_ne (by decide) _

theorem ok_iff {w : Worker} (h : w.cancelled = false) :
    (clientResult w).ok = true ↔ ¬ w.Failed ∧ ¬ w.Sniffed := by
  rw [← classify_empty h]
  unfold ClientResult.ok
  rw [Bool.and_eq_true, decide_eq_true_eq]
  refine ⟨fun hall => hall.2, fun hempty => ⟨?_, hempty⟩⟩
  have hfailed := ((classify_empty h).mp hempty).1
  unfold Worker.Failed at hfailed
  simp only [not_or, Decidable.not_not, Bool.not_eq_true] at hfailed
  change (decide (w.exitCode = 0) && !w.timedOut) = true
  simp [hfailed]

/-- The audit looks at two more flags, which the message covers. -/
theorem audited_eq {w : Worker} (h : w.cancelled = false) :
    (clientResult w).audited = (clientResult w).ok := by
  rw [Bool.eq_iff_iff, ok_iff h, ← classify_empty h]
  unfold ClientResult.audited
  rw [Bool.and_eq_true, decide_eq_true_eq]
  refine ⟨fun hall => hall.2, fun hempty => ⟨?_, hempty⟩⟩
  have hfailed := ((classify_empty h).mp hempty).1
  unfold Worker.Failed at hfailed
  simp only [not_or, Decidable.not_not, Bool.not_eq_true] at hfailed
  change (decide (w.exitCode = 0) && !w.timedOut && !w.cancelled && !w.aborted) = true
  simp [hfailed, h]

/-- The exit codes are 0 exactly when the summary and the audit count every stage as succeeded. -/
def Agrees (workers : List Worker) : Prop :=
  let result := executeRemote workers false
  let record := runSubcommand result
  let every := result.summary.succeeded = result.summary.stages ∧ record.succeeded = record.total
  (result.exitCode = 0 ↔ every) ∧ (record.exitCode = 0 ↔ every)

theorem every_iff {workers : List Worker} (h : ∀ w ∈ workers, w.cancelled = false) :
    ((executeRemote workers false).summary.succeeded =
        (executeRemote workers false).summary.stages ∧
      (runSubcommand (executeRemote workers false)).succeeded =
        (runSubcommand (executeRemote workers false)).total) ↔
    ∀ w ∈ workers, ¬ w.Failed ∧ ¬ w.Sniffed := by
  change (workers.map clientResult).countP _ = (workers.map clientResult).length ∧
    (workers.map clientResult).countP _ = (workers.map clientResult).length ↔ _
  rw [List.countP_eq_length, List.countP_eq_length, List.forall_mem_map, List.forall_mem_map]
  constructor
  · intro hall w hw
    exact (ok_iff (h w hw)).mp (hall.1 w hw)
  · intro hall
    refine ⟨fun w hw => (ok_iff (h w hw)).mpr (hall w hw), fun w hw => ?_⟩
    rw [audited_eq (h w hw)]
    exact (ok_iff (h w hw)).mpr (hall w hw)

/-- Of a run that was not cancelled: the exit code and the counts agree if and only if a worker
failed, or none has a message of the worker's setup on the stderr that was retained of it. -/
theorem verdicts_agree_iff (workers : List Worker) (h : ∀ w ∈ workers, w.cancelled = false) :
    Agrees workers ↔ (∃ w ∈ workers, w.Failed) ∨ ∀ w ∈ workers, ¬ w.Sniffed := by
  have hevery := every_iff h
  have hcode : (executeRemote workers false).exitCode = 0 ↔ ∀ w ∈ workers, ¬ w.Failed := by
    change workers.foldl overall 0 = 0 ↔ _
    rw [overall_zero]
    simp
  have hrecord : (runSubcommand (executeRemote workers false)).exitCode = 0 ↔
      (executeRemote workers false).exitCode = 0 := by
    change (if (executeRemote workers false).exitCode = 0 then (0 : Int) else 1) = 0 ↔ _
    split_ifs with hzero <;> simp [hzero]
  unfold Agrees
  dsimp only
  rw [hrecord, and_self, hcode, hevery]
  constructor
  · intro hagree
    by_cases hfailed : ∃ w ∈ workers, w.Failed
    · exact Or.inl hfailed
    · right
      have hnone : ∀ w ∈ workers, ¬ w.Failed := fun w hw hfail => hfailed ⟨w, hw, hfail⟩
      exact fun w hw => (hagree.mp hnone w hw).2
  · rintro (⟨w, hw, hfail⟩ | hnone)
    · exact iff_of_false (fun hall => hall w hw hfail) fun hall => (hall w hw).1 hfail
    · exact ⟨fun hall w hw => ⟨hall w hw, hnone w hw⟩, fun hall w hw => (hall w hw).1⟩

/-- A stage that ran to its end and exited with 0. -/
def exitedWell (stderrText : String) : Worker where
  clientId := "deploy@web-01"
  status := some { kind := .Exited, code := 0 }
  stderrData := bytes stderrText
  stdoutClosed := true
  stderrClosed := true
  stdinClosed := true
  exited := true
  counted := true
  spawned := true

theorem a_failed_stage_settles_both :
    Agrees [exitedWell "execvp failed", { exitedWell "" with timedOut := true }] :=
  (verdicts_agree_iff _ (by decide)).mpr
    (Or.inl ⟨{ exitedWell "" with timedOut := true }, by simp, Or.inr (Or.inl rfl)⟩)

/-- The command exited with 0 and wrote of a helper that it could not start. -/
theorem a_stage_with_exit_0_counts_as_failed :
    ¬ Agrees [exitedWell "warning: execvp failed: no helper\n"] ∧
      (executeRemote [exitedWell "warning: execvp failed: no helper\n"] false).exitCode = 0 ∧
      (executeRemote [exitedWell "warning: execvp failed: no helper\n"] false).summary.failed = 1 ∧
      (runSubcommand (executeRemote [exitedWell "warning: execvp failed: no helper\n"]
        false)).failed
        = 1 := by
  unfold Agrees
  decide +kernel

end psx.process
