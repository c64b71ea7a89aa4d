-- The verdict of `pipeshellx diff` (diff_command.cpp): the stdout of the hosts that succeeded goes
-- into a consensus, and the exit code says whether a host failed and whether the hosts agree.
import PipeShellX.Process.Worker
import PipeShellX.Sink.Consensus
import PipeShellX.Transport.NativeController

namespace psx.cli

open psx.process (bytes)
open psx.sink
open psx.transport.NativeController (HostResult)

/-- What the comparison leaves: the report for stdout, the hosts for stderr, and the exit code. -/
structure Comparison where
  report : ConsensusReport
  failed : List String
  exitCode : Nat

/-- The results that count. -/
def comparable (result : HostResult) : Bool :=
  result.ok && result.error = "" && result.exitCode = 0

/-- How a host that cannot be compared is listed. -/
def failure (result : HostResult) : String :=
  let reason := if result.error ≠ "" then result.error else "exit " ++ toString result.exitCode
  result.host ++ " (" ++ reason ++ ")"

/-- The hosts whose command succeeded are compared, and the others are listed as failures. -/
def diffSubcommand (results : List HostResult) : Comparison :=
  let hostOutputs := (results.filter comparable).map fun result =>
    (bytes result.host, result.stdoutData)
  let failed := (results.filter fun result => !comparable result).map failure
  let report := consensus hostOutputs
  ⟨report, failed, if failed ≠ [] then 2 else if report.unanimous then 0 else 1⟩

theorem exitCode_diffSubcommand (results : List HostResult) : (diffSubcommand results).exitCode =
    if ∃ result ∈ results, ¬ (result.ok ∧ result.error = "" ∧ result.exitCode = 0) then 2
    else if ∀ a ∈ results, ∀ b ∈ results, a.stdoutData = b.stdoutData then 0 else 1 := by
  have hcomparable : ∀ result, comparable result = true ↔
      (result.ok ∧ result.error = "" ∧ result.exitCode = 0) := by
    intro result
    simp [comparable, and_assoc]
  simp only [← hcomparable]
  unfold diffSubcommand
  by_cases hfailed : ∃ result ∈ results, ¬ comparable result = true
  · obtain ⟨result, hresult, hnot⟩ := hfailed
    rw [if_pos ⟨result, hresult, hnot⟩]
    refine if_pos (List.ne_nil_of_mem (List.mem_map_of_mem (a := result) ?_))
    exact List.mem_filter.mpr ⟨hresult, by simp [hnot]⟩
  · rw [if_neg hfailed]
    have hall : ∀ result ∈ results, comparable result = true := by
      intro result hresult
      by_contra hnot
      exact hfailed ⟨result, hresult, hnot⟩
    have hnone : results.filter (fun result => !comparable result) = [] :=
      List.filter_eq_nil_iff.mpr fun result hresult => by simp [hall result hresult]
    dsimp only
    rw [hnone, List.filter_eq_self.mpr hall, if_neg (by simp)]
    refine if_congr (unanimous_iff.trans ?_) rfl rfl
    simp only [List.forall_mem_map]

/-- The entries are partitioned by their outputs, in one order whatever order they came in, and
`diff` fails if a host failed, and agrees if all that the hosts wrote to stdout is the same. -/
theorem diff_partitions (hostOutputs : List (Bytes × Bytes)) (results : List HostResult) :
    Partitions hostOutputs (consensus hostOutputs).buckets ∧
    (consensus hostOutputs).buckets.Pairwise Before ∧
    (∀ bucket ∈ (consensus hostOutputs).buckets,
      bucket.hosts.Pairwise fun a b => (compare a b).isLE) ∧
    (∀ others : List (Bytes × Bytes), others.Perm hostOutputs →
      consensus others = consensus hostOutputs) ∧
    ((consensus hostOutputs).unanimous = true ↔
      ∀ p ∈ hostOutputs, ∀ q ∈ hostOutputs, p.2 = q.2) ∧
    (diffSubcommand results).exitCode =
      if ∃ result ∈ results, ¬ (result.ok ∧ result.error = "" ∧ result.exitCode = 0) then 2
      else if ∀ a ∈ results, ∀ b ∈ results, a.stdoutData = b.stdoutData then 0 else 1 :=
  ⟨consensus_partitions hostOutputs, buckets_before, fun _ => hosts_sorted,
    fun _ => consensus_perm, unanimous_iff, exitCode_diffSubcommand results⟩

end psx.cli
