-- A segmented pipeline tells its outcome once, and calls nothing after that.
import PipeShellX.Pipeline.SegmentedPipelineLaws

namespace psx.pipeline.SegmentedPipeline

open Trace (Lawful)
open psx.transport (StreamId)

/-- Nothing is called once the outcome is out. -/
def Quiet (log : List Event) : Event → Prop
  | .output _ | .complete _ => ∀ outcome, .complete outcome ∉ log
  | _ => True

/-- A pipeline that told its outcome is done, and fell silent. -/
structure Silenced (p : SegmentedPipeline) : Prop where
  done : ∀ outcome, .complete outcome ∈ p.log → p.done = true
  lawful : Lawful Quiet p.log

section

variable {p p' : SegmentedPipeline}

theorem Silenced.flags (h : Silenced p) (hlog : p'.log = p.log)
    (hdone : p.done = true → p'.done = true) :
    Silenced p' :=
  ⟨fun outcome hmem => hdone (h.done outcome (hlog ▸ hmem)), hlog ▸ h.lawful⟩

theorem Silenced.note {e : Event} (h : Silenced p) (he : Quiet p.log e)
    (hends : ∀ outcome, e = .complete outcome → p.done = true) : Silenced (p.note e) := by
  refine ⟨fun outcome hmem => ?_, h.lawful.snoc he⟩
  rcases List.mem_append.mp hmem with hmem | hmem
  · exact h.done outcome hmem
  · exact hends outcome (List.mem_singleton.mp hmem).symm

theorem Silenced.open_ (h : Silenced p) (hdone : ¬ p.done = true) (outcome : Outcome) :
    .complete outcome ∉ p.log := fun hmem => hdone (h.done outcome hmem)

theorem Silenced.finish (h : Silenced p) (outcome : Outcome) : Silenced (p.finish outcome) := by
  unfold SegmentedPipeline.finish
  by_cases hdone : p.done = true
  · rw [if_pos hdone]
    exact h
  · rw [if_neg hdone]
    have hopen := h.open_ hdone
    extract_lets ended
    have hended : Silenced ended := by
      have hflags : Silenced { p with done := true } := h.flags rfl fun _ => rfl
      exact hflags.note trivial (by simp)
    split_ifs
    · have hhandled : Silenced { ended with onComplete := false } := hended.flags rfl id
      refine hhandled.note (fun earlier hmem => ?_) fun _ _ => rfl
      rcases List.mem_append.mp hmem with hmem | hmem
      · exact hopen earlier hmem
      · cases List.mem_singleton.mp hmem
    · exact hended

theorem Silenced.finishIfAllDone (h : Silenced p) : Silenced p.finishIfAllDone := by
  unfold SegmentedPipeline.finishIfAllDone
  split_ifs
  · exact h.finish _
  · exact h

theorem Silenced.segmentDone {close : SegmentedPipeline → Nat → SegmentedPipeline}
    {cancelUpstream : SegmentedPipeline → SegmentedPipeline}
    (hclose : ∀ q i, Silenced q → Silenced (close q i))
    (hcancel : ∀ q, Silenced q → Silenced (cancelUpstream q)) (h : Silenced p) (index : Nat)
    (codes : List Int) (error : String) :
    Silenced (segmentDone close cancelUpstream p index codes error) := by
  unfold SegmentedPipeline.segmentDone
  by_cases hdone : p.done = true
  · rw [if_pos hdone]
    exact h
  · rw [if_neg hdone]
    by_cases herror : error ≠ ""
    · rw [if_pos herror]
      exact h.finish _
    · rw [if_neg herror]
      extract_lets noted next
      have hmarked : Silenced (p.modify index (Segment.completed codes)) := h.flags rfl id
      have hnoted : Silenced noted := hmarked.note trivial (by simp)
      have hnext : Silenced next := by
        unfold next
        split_ifs
        · exact hclose _ _ hnoted
        · exact hcancel _ (hnoted.flags rfl id)
      split_ifs
      · exact hnext
      · exact hnext.finishIfAllDone

theorem Silenced.hear {onOutput : SegmentedPipeline → Nat → Bytes → SegmentedPipeline}
    {onDone : SegmentedPipeline → Nat → List Int → String → SegmentedPipeline}
    (houtput : ∀ q i bytes, Silenced q → Silenced (onOutput q i bytes))
    (hdone : ∀ q i codes error, Silenced q → Silenced (onDone q i codes error)) (h : Silenced p)
    (index : Nat) (runner : Runner) : Silenced (p.hear onOutput onDone index runner) := by
  unfold SegmentedPipeline.hear
  have hput : Silenced (p.put index runner) := h.flags rfl id
  refine Trace.foldl_induction (P := Silenced) hput fun pre call post _ hpre => ?_
  cases call with
  | output bytes => exact houtput _ index bytes hpre
  | done codes error => exact hdone _ index codes error hpre

theorem Silenced.feed (h : Silenced p) (index : Nat) (runner : Runner) :
    Silenced (p.feed index runner) :=
  h.hear (fun _ _ _ h => h) (fun _ i codes error h =>
    h.segmentDone (fun _ _ h => h) (fun _ h => h) i codes error) index runner

theorem Silenced.routeOutput (h : Silenced p) (answers : Answers) (index : Nat) (data : Bytes) :
    Silenced (p.routeOutput answers index data) := by
  unfold SegmentedPipeline.routeOutput
  split_ifs with hdone
  · exact h
  · exact h.feed _ _
  · exact h.note (h.open_ hdone) (by simp)
  · exact h

theorem Silenced.cancelSegment (h : Silenced p) (answers : Answers) (index : Nat) :
    Silenced (p.cancelSegment answers index) := by
  unfold SegmentedPipeline.cancelSegment
  split_ifs
  · exact h
  · exact h.hear (fun _ i bytes h => h.routeOutput answers i bytes) (fun _ i codes error h =>
      h.segmentDone (fun _ _ h => h.feed _ _) (fun _ h => h) i codes error) index _

theorem Silenced.cancelUnfinishedUpstream (h : Silenced p) (answers : Answers) :
    Silenced (p.cancelUnfinishedUpstream answers) := by
  have hcancelling : Silenced { p with cancellingUpstream := true } := h.flags rfl id
  have hall : Silenced ((List.range (p.segments.length - 1)).foldl
      (SegmentedPipeline.cancelSegment answers) { p with cancellingUpstream := true }) :=
    Trace.foldl_induction (P := Silenced) hcancelling fun _ index _ _ h =>
      h.cancelSegment answers index
  unfold SegmentedPipeline.cancelUnfinishedUpstream
  exact hall.flags rfl id

theorem Silenced.take (h : Silenced p) (answers : Answers) (index : Nat) (runner : Runner) :
    Silenced (p.take answers index runner) :=
  h.hear (fun _ i bytes h => h.routeOutput answers i bytes) (fun _ i codes error h =>
    h.segmentDone (fun _ _ h => h.feed _ _) (fun _ h => h.cancelUnfinishedUpstream answers) i
      codes error)
    index runner

theorem Silenced.startAll (launches : Launches) (answers : Answers)
    (groups : List (List ResolvedStage))
    (index : Nat) (h : Silenced p) : Silenced (startAll launches answers groups index p).1 := by
  induction groups generalizing index p with
  | nil => exact h
  | cons group groups ih =>
    unfold SegmentedPipeline.startAll
    dsimp only
    have hnoted : Silenced (p.note (.started index)) := h.note trivial (by simp)
    have htaken := hnoted.take answers index
      (((p.note (.started index)).runner index).run launches index group
        (decide (0 < index) || (p.note (.started index)).externalStdin)).1
    cases (((p.note (.started index)).runner index).run launches index group
        (decide (0 < index) || (p.note (.started index)).externalStdin)).2 with
    | error e => exact htaken
    | ok _ => exact ih (index + 1) htaken

theorem Silenced.run (h : Silenced p) (launches : Launches) (answers : Answers)
    (stages : List ResolvedStage) (onComplete externalStdin : Bool) :
    Silenced (run launches answers p stages onComplete externalStdin).1 := by
  unfold SegmentedPipeline.run
  split_ifs
  · exact h
  · exact Silenced.startAll launches answers _ 0 (h.flags rfl id)

theorem Silenced.step (h : Silenced p) (opens : Nat → Nat → StreamId) (input : Input × Answers) :
    Silenced (p.step opens input) := by
  obtain ⟨input, answers⟩ := input
  unfold SegmentedPipeline.step
  cases input with
  | report index report => exact h.take answers index _
  | writeStdin bytes =>
    unfold SegmentedPipeline.writeStdin
    dsimp only
    split_ifs
    · exact h.feed _ _
    · exact h
  | closeStdin =>
    unfold SegmentedPipeline.closeStdin
    dsimp only
    split_ifs
    · exact h.feed _ _
    · exact h

end

/-- Whatever happens to a pipeline, it tells its outcome at most once, and no output after
that. -/
theorem outcome_comes_last (launches : Launches) (opens : Nat → Nat → StreamId) (answers : Answers)
    (onOutput onStderr onComplete externalStdin : Bool) (stages : List ResolvedStage)
    (inputs : List (Input × Answers)) :
    Lawful Quiet (steps opens
      (run launches answers { onOutput, onStderr } stages onComplete externalStdin).1
        inputs).log := by
  have hnew : Silenced ({ onOutput, onStderr } : SegmentedPipeline) := ⟨by simp, .nil⟩
  unfold steps
  refine (Trace.foldl_induction (P := Silenced) ?_ fun _ input _ _ h => h.step opens input).lawful
  exact hnew.run launches answers stages onComplete externalStdin

end psx.pipeline.SegmentedPipeline
