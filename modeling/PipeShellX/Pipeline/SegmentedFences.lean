-- Whole runs of a spliced chain: when a completed segment leaves a segment before it
-- running, and when a segment starts after the pipeline has finished.
import PipeShellX.Pipeline.SegmentedPipelineLaws

namespace psx.pipeline.SegmentedPipeline

open psx.os (ExitStatus Waits)
open psx.transport (Channel StreamId)
open Trace (Lawful)

variable {p p' : SegmentedPipeline} {n bound index : Nat} {answers : Answers}

/-! ## Segments that are over -/

/-- The runners before `k` are over. -/
def Upto (k : Nat) (p : SegmentedPipeline) : Prop := ∀ i < k, (p.runner i).isOver = true

/-- A runner that is over stays so. -/
def Mono (p p' : SegmentedPipeline) : Prop :=
  ∀ i, (p.runner i).isOver = true → (p'.runner i).isOver = true

theorem Upto.mono {k : Nat} (h : Upto k p) (hmono : Mono p p') : Upto k p' :=
  fun i hi => hmono i (h i hi)

/-- A segment starts only while the pipeline goes on. -/
def Starts (log : List Event) : Event → Prop
  | .started _ => ∀ outcome, .finished outcome ∉ log
  | _ => True

/-- Each of the first `bound` segments that has completed left none before it running. -/
structure Safe (n bound : Nat) (p : SegmentedPipeline) : Prop where
  inv : Inv p
  length : p.segments.length = n
  fenced : ∀ k < bound, ∀ codes, .completed k codes ∈ p.log → Upto k p
  starts : Lawful Starts p.log

theorem Safe.aside (h : Safe n bound p) (ha : Aside p p') : Safe n bound p' := by
  obtain ⟨more, hlog, hplain⟩ := ha.log
  refine ⟨ha.inv h.inv, ha.length.trans h.length, fun k hk codes hmem => ?_, ?_⟩
  · rw [hlog, List.mem_append] at hmem
    rcases hmem with hmem | hmem
    · exact (h.fenced k hk codes hmem).mono ha.isOver
    · exact (hplain _ hmem).elim
  · rw [hlog]
    refine h.starts.extend fun pre e post heq => ?_
    have hplain := hplain e (by simp [heq])
    cases e with
    | started i => exact hplain.elim
    | _ => trivial

/-- A segment is marked as completed. -/
def marked (p : SegmentedPipeline) (index : Nat) (codes : List Int) : SegmentedPipeline :=
  (p.modify index (Segment.completed codes)).note (.completed index codes)

theorem runner_marked (p : SegmentedPipeline) (index : Nat) (codes : List Int) (i : Nat) :
    (p.marked index codes).runner i = p.runner i := by
  unfold SegmentedPipeline.runner marked
  rw [segment_note]
  by_cases hi : index < p.segments.length
  · rw [segment_modify _ hi]
    split_ifs
    · rfl
    · rfl
  · unfold modify
    rw [List.modify_eq_self (Nat.le_of_not_lt hi)]

theorem Safe.marked (h : Safe n bound p) (hi : index < n) (hover : (p.runner index).isOver = true)
    (hbefore : index < bound → Upto index p) (codes : List Int) :
    Safe n bound (p.marked index codes) := by
  have hrunner := runner_marked p index codes
  have hlog : (p.marked index codes).log = p.log ++ [.completed index codes] := rfl
  refine ⟨⟨fun i => ?_, fun i hdone => ?_, fun outcome hmem => ?_⟩,
    (List.length_modify ..).trans h.length, fun k hk codes' hmem i hik => ?_, ?_⟩
  · rw [hrunner]
    exact h.inv.good i
  · rw [hrunner]
    unfold SegmentedPipeline.marked at hdone
    rw [segment_note, segment_modify _ (h.length.symm ▸ hi)] at hdone
    split_ifs at hdone with heq
    · exact heq ▸ hover
    · exact h.inv.marked i hdone
  · exact h.inv.ended outcome (by simpa [hlog] using hmem)
  · rw [hrunner]
    rw [hlog, List.mem_append] at hmem
    rcases hmem with hmem | hmem
    · exact h.fenced k hk codes' hmem i hik
    · obtain ⟨rfl, -⟩ := Event.completed.inj (List.mem_singleton.mp hmem)
      exact hbefore hk i hik
  · exact h.starts.snoc trivial

/-! ## A completion -/

/-- What a completion does, but for the segments before the last. -/
theorem Safe.segmentDone {close : SegmentedPipeline → Nat → SegmentedPipeline}
    (cancelUpstream : SegmentedPipeline → SegmentedPipeline) (h : Safe n bound p)
    (hi : index + 1 < n)
    (hover : (p.runner index).isOver = true)
    (hbefore : p.done = false → index < bound → Upto index p)
    (hclose : ∀ q i, Aside q (close q i)) (codes : List Int) (error : String) :
    Safe n bound (p.segmentDone close cancelUpstream index codes error) ∧
      Mono p (p.segmentDone close cancelUpstream index codes error) := by
  unfold SegmentedPipeline.segmentDone
  by_cases hdone : p.done = true
  · rw [if_pos hdone]
    exact ⟨h, fun _ => id⟩
  · rw [if_neg hdone]
    by_cases herror : error ≠ ""
    · rw [if_pos herror]
      exact ⟨h.aside (aside_finish _), (aside_finish _).isOver⟩
    · rw [if_neg herror]
      have hsafe := h.marked (by omega) hover (hbefore (by simpa using hdone)) codes
      have hmono : Mono p (p.marked index codes) := fun i hover => by
        rw [runner_marked]
        exact hover
      have hclosed := hclose (p.marked index codes) (index + 1)
      extract_lets noted next
      have hnext : next = close (p.marked index codes) (index + 1) := by
        have hlen : noted.segments.length = n := hsafe.length
        unfold next
        rw [if_pos (hlen.symm ▸ hi)]
        rfl
      rw [hnext]
      split_ifs
      · refine ⟨hsafe.aside hclosed, fun i hover => hclosed.isOver i (hmono i hover)⟩
      · have hall := hclosed.trans aside_finishIfAllDone
        exact ⟨hsafe.aside hall, fun i hover => hall.isOver i (hmono i hover)⟩

/-! ## The cancel of what is before the last segment -/

theorem Safe.cancelSegment (h : Safe n bound p) (answers : Answers) (hi : index + 1 < n)
    (hupto : Upto index p) :
    Safe n bound (p.cancelSegment answers index) ∧
      Upto (index + 1) (p.cancelSegment answers index) ∧
      Mono p (p.cancelSegment answers index) := by
  have hstep : ∀ q, Upto index q → (q.runner index).isOver = true → Upto (index + 1) q := by
    intro q hq hover i hlt
    rcases Nat.lt_succ_iff_lt_or_eq.mp hlt with hlt | rfl
    · exact hq i hlt
    · exact hover
  unfold SegmentedPipeline.cancelSegment
  split_ifs with hdone
  · exact ⟨h, hstep p hupto (h.inv.marked index hdone), fun _ => id⟩
  · have hput := aside_put (p := p) (Runner.follows_cancel (p.runner index) answers index)
    have hcancelled : ((p.put index ((p.runner index).cancel answers index)).runner index).isOver =
        true := by
      rw [runner_put (h.length.symm ▸ (by omega)), if_pos rfl]
      exact (h.inv.good index).cancel
    unfold hear
    refine Trace.foldl_induction (P := fun q => Safe n bound q ∧ Upto (index + 1) q ∧ Mono p q)
      ⟨h.aside hput, hstep _ (hupto.mono hput.isOver) hcancelled, hput.isOver⟩
      fun pre call post _ ⟨hsafe, hq, hmono⟩ => ?_
    cases call with
    | output bytes =>
      have hrouted :=
        aside_routeOutput answers (pre.foldl (heard (SegmentedPipeline.routeOutput answers)
        (SegmentedPipeline.segmentDone (SegmentedPipeline.closeSegment answers) id) index)
        (p.put index ((p.runner index).cancel answers index))) index bytes
      exact ⟨hsafe.aside hrouted, hq.mono hrouted.isOver,
        fun i hover => hrouted.isOver i (hmono i hover)⟩
    | done codes error =>
      obtain ⟨hsafe', hmono'⟩ := hsafe.segmentDone id hi (hq index (by omega))
        (fun _ _ i hlt => hq i (by omega)) (aside_closeSegment answers) codes error
      exact ⟨hsafe', hq.mono hmono', fun i hover => hmono' i (hmono i hover)⟩

theorem Safe.cancelSegments (h : Safe n bound p) (answers : Answers) {k : Nat} (hk : k ≤ n - 1) :
    Safe n bound ((List.range k).foldl (SegmentedPipeline.cancelSegment answers) p) ∧
      Upto k ((List.range k).foldl (SegmentedPipeline.cancelSegment answers) p) ∧
      Mono p ((List.range k).foldl (SegmentedPipeline.cancelSegment answers) p) := by
  induction k with
  | zero => exact ⟨h, fun i hi => by omega, fun _ => id⟩
  | succ k ih =>
    obtain ⟨hsafe, hupto, hmono⟩ := ih (by omega)
    rw [List.range_succ, List.foldl_append]
    obtain ⟨hsafe', hupto', hmono'⟩ := hsafe.cancelSegment answers (by omega) hupto
    exact ⟨hsafe', hupto', fun i hover => hmono' i (hmono i hover)⟩

/-- Once the last segment has completed, no segment before it runs. -/
theorem Safe.last (h : Safe n n p) (answers : Answers) (hi : index + 1 = n)
    (hover : (p.runner index).isOver = true) (codes : List Int) (error : String) :
    Safe n n (p.onSegmentDone answers index codes error) ∧
      Mono p (p.onSegmentDone answers index codes error) := by
  unfold onSegmentDone SegmentedPipeline.segmentDone
  by_cases hdone : p.done = true
  · rw [if_pos hdone]
    exact ⟨h, fun _ => id⟩
  · rw [if_neg hdone]
    by_cases herror : error ≠ ""
    · rw [if_pos herror]
      exact ⟨h.aside (aside_finish _), (aside_finish _).isOver⟩
    · rw [if_neg herror]
      have hlow : Safe n index p :=
        ⟨h.inv, h.length, fun k hk => h.fenced k (by omega), h.starts⟩
      have hsafe := hlow.marked (by omega) hover (fun hlt => by omega) codes
      have hmono : Mono p (p.marked index codes) := fun i hover => by
        rw [runner_marked]
        exact hover
      extract_lets noted next
      have hlen : noted.segments.length = n := hsafe.length
      have hnext : next =
          cancelUnfinishedUpstream answers { p.marked index codes with
                                             finalSegmentDone := true } := by
        unfold next
        rw [if_neg (by omega)]
        rfl
      have hflags : Aside (p.marked index codes)
          { p.marked index codes with finalSegmentDone := true, cancellingUpstream := true } :=
        aside_flags rfl rfl rfl
      obtain ⟨hcancelled, hupto, hmono'⟩ :=
        (hsafe.aside hflags).cancelSegments answers (Nat.le_refl (n - 1))
      have hover' : Safe n index next ∧ Upto index next ∧ Mono p next := by
        rw [hnext]
        unfold cancelUnfinishedUpstream
        dsimp only
        rw [show (p.marked index codes).segments.length = n from hlen]
        have hreset : ∀ q : SegmentedPipeline, Aside q { q with cancellingUpstream := false } :=
          fun q => aside_flags rfl rfl rfl
        refine ⟨hcancelled.aside (hreset _), fun i hlt => (hreset _).isOver i (hupto i (by omega)),
          fun i hover => (hreset _).isOver i (hmono' i (hflags.isOver i (hmono i hover)))⟩
      have hwhole : Safe n n next := by
        refine ⟨hover'.1.inv, hover'.1.length, fun k hk codes' hmem => ?_, hover'.1.starts⟩
        by_cases hlt : k < index
        · exact hover'.1.fenced k hlt codes' hmem
        · exact fun i hik => hover'.2.1 i (by omega)
      split_ifs
      · exact ⟨hwhole, hover'.2.2⟩
      · have hall := aside_finishIfAllDone (p := next)
        exact ⟨hwhole.aside hall, fun i hover => hall.isOver i (hover'.2.2 i hover)⟩

/-! ## One event -/

/-- The runner of a segment that is not the last one completes, while the pipeline goes on and
a segment before it still runs. -/
def CompletesEarly (answers : Answers) (p : SegmentedPipeline) (index : Nat) (runner' : Runner) :
    Prop :=
  index + 1 < p.segments.length ∧ (∃ i < index, (p.runner i).isOver = false) ∧
    ∃ pre codes post, runner'.calls.drop (p.runner index).calls.length =
      pre ++ .done codes "" :: post ∧
      (pre.foldl (heard (routeOutput answers) (onSegmentDone answers) index)
        (p.put index runner')).done = false

/-- In this step a segment completes before one that is in front of it. -/
def OutOfOrder (opens : Nat → Nat → StreamId) (p : SegmentedPipeline) : Input × Answers → Prop
  | (.report index report, answers) => p.CompletesEarly answers index
      ((p.runner index).told (opens index) (answers.writes index) report)
  | _ => False

theorem Safe.take (h : Safe n n p) (hi : index < n) {runner' : Runner}
    (hfollows : (p.runner index).Follows runner') (hcalls : ∀ codes error,
      .done codes error ∈ runner'.calls.drop (p.runner index).calls.length → runner'.isOver = true)
    (hearly : ¬ p.CompletesEarly answers index runner') :
    Safe n n (p.take answers index runner') := by
  have hput := aside_put hfollows
  have hrunner := runner_put (p := p) (h.length.symm ▸ hi) runner' index
  rw [if_pos rfl] at hrunner
  unfold SegmentedPipeline.take hear
  refine (Trace.foldl_induction (P := fun q => Safe n n q ∧ Mono (p.put index runner') q)
    ⟨h.aside hput, fun _ => id⟩ fun pre call post heq ⟨hsafe, hmono⟩ => ?_).1
  obtain ⟨q, hq⟩ : ∃ q, q = pre.foldl (heard (routeOutput answers) (onSegmentDone answers) index)
    (p.put index runner') := ⟨_, rfl⟩
  rw [← hq] at hsafe hmono ⊢
  cases call with
  | output bytes =>
    have hrouted := aside_routeOutput answers q index bytes
    exact ⟨hsafe.aside hrouted, fun i hover => hrouted.isOver i (hmono i hover)⟩
  | done codes error =>
    have hover : (q.runner index).isOver = true := by
      apply hmono
      rw [hrunner]
      exact hcalls codes error (by rw [heq]; simp)
    by_cases hlast : index + 1 = n
    · obtain ⟨hsafe', hmono'⟩ := hsafe.last answers hlast hover codes error
      exact ⟨hsafe', fun i hover => hmono' i (hmono i hover)⟩
    · by_cases herror : error = ""
      · -- a completion that does not come early finds every segment before it over
        have hbefore : q.done = false → index < n → Upto index q := by
          intro hgoing _ i hlt
          by_contra hrunning
          refine hearly ⟨h.length.symm ▸ (by omega), ⟨i, hlt, ?_⟩, pre, codes, post, ?_, ?_⟩
          · by_contra hover'
            exact hrunning (hmono i (hput.isOver i (by simpa using hover')))
          · rw [heq, herror]
          · rw [← hq]
            exact hgoing
        obtain ⟨hsafe', hmono'⟩ := hsafe.segmentDone (cancelUnfinishedUpstream answers)
          (by omega) hover hbefore (aside_closeSegment answers) codes error
        exact ⟨hsafe', fun i hover => hmono' i (hmono i hover)⟩
      · have hfailed : Aside q (q.onSegmentDone answers index codes error) := by
          unfold onSegmentDone SegmentedPipeline.segmentDone
          rw [if_pos herror]
          split_ifs
          · exact .refl q
          · exact aside_finish _
        exact ⟨hsafe.aside hfailed, fun i hover => hfailed.isOver i (hmono i hover)⟩

/-- There is no segment to report to. -/
theorem told_outside (h : p.segments.length ≤ index) (opens : Nat → StreamId)
    (writes : List (Result Nat)) (report : Report) :
    (p.runner index).told opens writes report = p.runner index := by
  have hrunner : p.runner index = .localRunner {} := by
    unfold SegmentedPipeline.runner
    rw [segment_outside h]
  rw [hrunner]
  cases report <;> rfl

theorem Safe.step (h : Safe n n p) (opens : Nat → Nat → StreamId) {input : Input × Answers}
    (horder : ¬ p.OutOfOrder opens input) : Safe n n (p.step opens input) := by
  obtain ⟨input, answers⟩ := input
  cases input with
  | report index report =>
    unfold SegmentedPipeline.step
    dsimp only
    by_cases hi : index < n
    · have hfollows :=
        Runner.follows_told (p.runner index) (opens index) (answers.writes index) report
      refine h.take hi hfollows (fun codes error hmem => ?_) horder
      exact (hfollows.good (h.inv.good index)).isOver (List.mem_of_mem_drop hmem)
    · have hout : p.segments.length ≤ index := by
        rw [h.length]
        omega
      rw [told_outside hout]
      unfold SegmentedPipeline.take hear
      rw [List.drop_length, put_outside hout]
      exact h
  | writeStdin bytes =>
    unfold SegmentedPipeline.step writeStdin
    dsimp only
    split_ifs
    · exact h.aside (aside_writeSegment answers p 0 bytes)
    · exact h
  | closeStdin =>
    unfold SegmentedPipeline.step closeStdin
    dsimp only
    split_ifs
    · exact h.aside (aside_closeSegment answers p 0)
    · exact h

/-! ## The start -/

/-- The run of one segment's own runner, and what it returned. -/
def ownRun (launches : Launches) (onStderr externalStdin : Bool)
    (groups : List (List ResolvedStage)) (index : Nat) : Runner × Result Unit :=
  (Segment.build onStderr (groups.getD index [])).runner.run launches index (groups.getD index [])
    (decide (0 < index) || externalStdin)

/-- No segment before the last one that is started fails within its own start. -/
def StartsClean (launches : Launches) (onStderr externalStdin : Bool)
    (groups : List (List ResolvedStage)) : Prop :=
  ∀ index, index + 1 < groups.length →
    (∀ i < index, (ownRun launches onStderr externalStdin groups i).2 = .ok ()) →
      (ownRun launches onStderr externalStdin groups index).1.isOver = false

theorem built (onStderr : Bool) (group : List ResolvedStage) :
    (Segment.build onStderr group).runner.Built := by
  unfold Segment.build
  dsimp only
  split_ifs
  · exact ⟨true, rfl⟩
  · exact ⟨true, onStderr, rfl⟩

/-- The pipeline before segment `index` is started. -/
structure Ahead (onStderr externalStdin : Bool) (groups : List (List ResolvedStage)) (index : Nat)
    (p : SegmentedPipeline) : Prop where
  safe : Safe groups.length groups.length p
  fed : p.externalStdin = externalStdin
  fresh : ∀ i, index ≤ i → i < groups.length →
    p.runner i = (Segment.build onStderr (groups.getD i [])).runner
  running : p.done = false

theorem Safe.started (h : Safe n bound p) (index : Nat) (hrunning : p.done = false) :
    Safe n bound (p.note (.started index)) := by
  refine ⟨⟨h.inv.good, h.inv.marked, fun outcome hmem => ?_⟩, h.length, fun k hk codes hmem => ?_,
    h.starts.snoc fun outcome hmem => ?_⟩
  · exact h.inv.ended outcome (by simpa [note] using hmem)
  · exact h.fenced k hk codes (by simpa [note] using hmem)
  · rw [h.inv.ended outcome hmem] at hrunning
    cases hrunning

/-- The start of one segment. -/
theorem Ahead.start {onStderr externalStdin : Bool} {groups : List (List ResolvedStage)}
    (h : Ahead onStderr externalStdin groups index p) (launches : Launches) (answers : Answers)
    (hi : index < groups.length) {runner' : Runner}
    (hrun : runner' = (ownRun launches onStderr externalStdin groups index).1) :
    Safe groups.length groups.length ((p.note (.started index)).take answers index runner') ∧
      (runner'.isOver = false →
        Ahead onStderr externalStdin groups (index + 1)
          ((p.note (.started index)).take answers index runner')) := by
  have hbuilt : (p.runner index).Built := by
    rw [h.fresh index (Nat.le_refl _) hi]
    exact built onStderr _
  have hsame : runner' = ((p.runner index).run launches index (groups.getD index [])
      (decide (0 < index) || externalStdin)).1 := by
    rw [hrun, h.fresh index (Nat.le_refl _) hi]
    rfl
  obtain ⟨hgood, hfails⟩ := hbuilt.run launches index (groups.getD index [])
    (decide (0 < index) || externalStdin)
  rw [← hsame] at hgood hfails
  have hcalls := hbuilt.calls
  have hidle : (p.runner index).isOver = false := by
    cases hover : (p.runner index).isOver with
    | false => rfl
    | true =>
      rw [h.fresh index (Nat.le_refl _) hi] at hover
      unfold Segment.build at hover
      dsimp only at hover
      split_ifs at hover
      · cases hover
      · cases hover
  have hstarted := h.safe.started index h.running
  have hfollows : ((p.note (.started index)).runner index).Follows runner' :=
    ⟨fun _ => hgood, fun hover => by
      rw [show (p.note (.started index)).runner index = p.runner index from rfl, hidle] at hover
      cases hover⟩
  have haside : Aside (p.note (.started index))
      ((p.note (.started index)).take answers index runner') :=
    aside_hear hfollows hfails
  refine ⟨hstarted.aside haside, fun hrunning => ?_⟩
  -- nothing came back from a start that did not fail
  have hnone : runner'.calls = [] := by
    rw [List.eq_nil_iff_forall_not_mem]
    intro call hmem
    have hdrop : call ∈ runner'.calls.drop (p.runner index).calls.length := by
      rw [hcalls]
      exact hmem
    obtain ⟨codes, error, -, rfl⟩ := hfails call hdrop
    rw [hgood.isOver hmem] at hrunning
    cases hrunning
  have hput : (p.note (.started index)).take answers index runner' =
      (p.note (.started index)).put index runner' := by
    unfold SegmentedPipeline.take hear
    rw [hnone, List.drop_nil, List.foldl_nil]
  have hsafe := hstarted.aside haside
  rw [hput] at hsafe ⊢
  refine ⟨hsafe, h.fed, fun i hle hlt => ?_, h.running⟩
  rw [runner_put
    (show index < (p.note (.started index)).segments.length from h.safe.length.symm ▸ hi),
    if_neg (by omega)]
  exact h.fresh i (by omega) hlt

theorem startAll_safe {launches : Launches} {onStderr externalStdin : Bool}
    {groups : List (List ResolvedStage)}
    (hclean : StartsClean launches onStderr externalStdin groups)
    (rest : List (List ResolvedStage)) (hrest : groups.drop index = rest)
    (hok : ∀ i < index, (ownRun launches onStderr externalStdin groups i).2 = .ok ())
    (h : Ahead onStderr externalStdin groups index p) :
    Safe groups.length groups.length (startAll launches answers rest index p).1 := by
  induction rest generalizing index p with
  | nil => exact h.safe
  | cons group rest ih =>
    have hi : index < groups.length := by
      by_contra hout
      rw [List.drop_eq_nil_of_le (Nat.le_of_not_lt hout)] at hrest
      cases hrest
    have hgroup : groups.getD index [] = group := by
      rw [List.getD_eq_getElem?_getD, ← List.head?_drop, hrest]
      rfl
    have htail : groups.drop (index + 1) = rest := by
      rw [← List.tail_drop, hrest]
      rfl
    have hown : ((p.note (.started index)).runner index).run launches index group
        (decide (0 < index) || (p.note (.started index)).externalStdin) =
        ownRun launches onStderr externalStdin groups index := by
      have hfresh := h.fresh index (Nat.le_refl _) hi
      unfold ownRun
      rw [show (p.note (.started index)).runner index = p.runner index from rfl, hfresh, hgroup,
        show (p.note (.started index)).externalStdin = p.externalStdin from rfl, h.fed]
    unfold startAll
    dsimp only
    rw [hown]
    obtain ⟨hsafe, hahead⟩ := h.start launches answers hi rfl
    cases hstarted : (ownRun launches onStderr externalStdin groups index).2 with
    | error e => exact hsafe
    | ok _ =>
      cases rest with
      | nil => exact hsafe
      | cons next rest =>
        have hmore : index + 1 < groups.length := by
          by_contra hout
          rw [List.drop_eq_nil_of_le (Nat.le_of_not_lt hout)] at htail
          cases htail
        refine ih htail (fun i hlt => ?_) (hahead (hclean index hmore hok))
        rcases Nat.lt_succ_iff_lt_or_eq.mp hlt with hlt | rfl
        · exact hok i hlt
        · exact hstarted

theorem run_safe (launches : Launches) (answers : Answers) (onOutput onStderr : Bool)
    (stages : List ResolvedStage) (onComplete externalStdin : Bool)
    (hclean : StartsClean launches onStderr externalStdin (grouped stages)) :
    Safe (grouped stages).length (grouped stages).length
      (run launches answers { onOutput, onStderr } stages onComplete externalStdin).1 := by
  have hnew : ∀ (onComplete externalStdin : Bool) (segments : List Segment),
      (∀ segment ∈ segments, segment.done = false ∧ segment.runner.Built) →
        Safe segments.length segments.length
          { onOutput, onStderr, onComplete, externalStdin, segments } := by
    intro onComplete externalStdin segments hbuilt
    have hsegment : ∀ i, (segments.getD i {}).done = false ∧ (segments.getD i {}).runner.Built := by
      intro i
      by_cases hi : i < segments.length
      · rw [List.getD_eq_getElem _ _ hi]
        exact hbuilt _ (List.getElem_mem hi)
      · rw [List.getD_eq_getElem?_getD, List.getElem?_eq_none (Nat.le_of_not_lt hi)]
        exact ⟨rfl, false, rfl⟩
    refine ⟨⟨fun i => (hsegment i).2.good, fun i hdone => ?_, by simp⟩, rfl, by simp, .nil⟩
    rw [show (segment { onOutput, onStderr, onComplete, externalStdin, segments } i).done =
      (segments.getD i {}).done from rfl, (hsegment i).1] at hdone
    cases hdone
  unfold run
  by_cases hstages : stages = []
  · subst hstages
    exact hnew false false [] (by simp)
  · rw [if_neg hstages]
    refine startAll_safe hclean (grouped stages) List.drop_zero (by simp) ⟨?_, rfl,
      fun i _ hi => ?_, rfl⟩
    · have hsafe :=
        hnew onComplete externalStdin ((grouped stages).map (Segment.build onStderr))
          fun segment hmem => by
        obtain ⟨group, -, rfl⟩ := List.mem_map.mp hmem
        exact ⟨rfl, built onStderr group⟩
      rw [List.length_map] at hsafe
      exact ⟨⟨hsafe.inv.good, hsafe.inv.marked, by simp⟩, List.length_map .., by simp, .nil⟩
    · have hlen : i < ((grouped stages).map (Segment.build onStderr)).length := by
        rwa [List.length_map]
      unfold runner segment
      dsimp only
      rw [List.getD_eq_getElem _ _ hlen, List.getElem_map, List.getD_eq_getElem _ _ hi]

/-! ## Whole runs -/

/-- A pipeline as constructed runs a chain of stages, and then takes some inputs. -/
def history (launches : Launches) (opens : Nat → Nat → StreamId) (answers : Answers)
    (onOutput onStderr onComplete externalStdin : Bool) (stages : List ResolvedStage)
    (inputs : List (Input × Answers)) : SegmentedPipeline :=
  steps opens (run launches answers { onOutput, onStderr } stages onComplete externalStdin).1 inputs

/-- While no segment before the last one completes early, and none fails within its own start,
a completed segment leaves none before it running, in every state, and no segment starts
once the pipeline has finished. -/
theorem upstream_is_over_in_order (launches : Launches) (opens : Nat → Nat → StreamId)
    (answers : Answers) (onOutput onStderr onComplete externalStdin : Bool)
    (stages : List ResolvedStage) (inputs : List (Input × Answers))
    (hclean : StartsClean launches onStderr externalStdin (grouped stages))
    (horder : ∀ before input after, inputs = before ++ input :: after →
      ¬ OutOfOrder opens (history launches opens answers onOutput onStderr onComplete externalStdin
        stages before) input) :
    let p := history launches opens answers onOutput onStderr onComplete externalStdin stages inputs
    (∀ k < p.segments.length, ∀ codes, .completed k codes ∈ p.log →
      ∀ i < k, (p.runner i).isOver = true) ∧ Lawful Starts p.log := by
  suffices h : Safe (grouped stages).length (grouped stages).length
      (history launches opens answers onOutput onStderr onComplete externalStdin stages inputs) from
    ⟨fun k hk => h.fenced k (h.length ▸ hk), h.starts⟩
  induction inputs using List.reverseRecOn with
  | nil => exact run_safe launches answers onOutput onStderr stages onComplete externalStdin hclean
  | append_singleton inputs input ih =>
    have hbefore := ih fun before input' after heq =>
      horder before input' (after ++ [input]) (by simp [heq])
    have hsnoc : history launches opens answers onOutput onStderr onComplete externalStdin stages
        (inputs ++ [input]) = (history launches opens answers onOutput onStderr onComplete
          externalStdin stages inputs).step opens input := by
      simp [history, steps]
    rw [hsnoc]
    exact hbefore.step opens (horder inputs input [] rfl)

/-- Every pipe, process and connection that is asked for is there. -/
def calmLaunches : Launches :=
  ⟨fun _ => ⟨fun _ => .ok (), fun _ => .ok (), true, .ok (), fun _ => .ok (),
    fun _ => ⟨.ok none, .ok {}⟩⟩, fun _ _ => .started none none⟩

/-- A local producer before a remote stage. The remote one exits, it is the last one, and the
producer is cancelled. -/
theorem a_producer_before_the_last_segment_is_over :
    let stages : List ResolvedStage := [⟨[[121]], ""⟩, ⟨[[104]], "a"⟩]
    let inputs : List (Input × Answers) :=
      [(.report 1 (.ready 0), {}), (.report 1 (.exit 0 {}), {})]
    let p := history calmLaunches (fun _ _ => 1) {} true true true false stages inputs
    .completed 1 [0] ∈ p.log ∧ (∀ k < p.segments.length, ∀ codes, .completed k codes ∈ p.log →
      ∀ i < k, (p.runner i).isOver = true) ∧ Lawful Starts p.log := by
  refine ⟨by decide, upstream_is_over_in_order _ (fun _ _ => 1) _ true true true false _ _
    (fun index hi _ => ?_) fun before input after heq horder => ?_⟩
  · have hlen : (grouped [⟨[[121]], ""⟩, ⟨[[104]], "a"⟩]).length = 2 := by decide
    obtain rfl : index = 0 := by omega
    decide
  · rcases before with _ | ⟨first, _ | ⟨second, before⟩⟩
    · obtain ⟨rfl, -⟩ := List.cons.inj heq
      exact absurd horder.1 (by decide)
    · obtain ⟨rfl, hrest⟩ := List.cons.inj heq
      obtain ⟨rfl, -⟩ := List.cons.inj hrest
      exact absurd horder.1 (by decide)
    · simp at heq

/-- Two runs. A local producer, a remote stage and a local one: the remote stage exits, and the
producer keeps running. And a remote stage whose connection fails at once, before a local
one: the pipeline has finished, and the local segment is started all the same. -/
theorem a_producer_before_a_middle_segment_runs_on :
    (let stages : List ResolvedStage := [⟨[[121]], ""⟩, ⟨[[104]], "a"⟩, ⟨[[99]], ""⟩]
    let inputs : List (Input × Answers) :=
      [(.report 1 (.ready 0), {}), (.report 1 (.exit 0 {}), {})]
    let p := history calmLaunches (fun _ _ => 1) {} true true true false stages inputs
    .completed 1 [0] ∈ p.log ∧ (p.runner 0).isOver = false ∧ p.done = false) ∧
    (let stages : List ResolvedStage := [⟨[[104]], "a"⟩, ⟨[[99]], ""⟩]
    let launches := { calmLaunches with remotes := fun _ _ => .connectFailed "no such host" }
    let outcome : Outcome := { error := "stage 0: connect: no such host", exitCode := 1 }
    (history launches (fun _ _ => 1) {} true true true false stages []).log =
      [.started 0, .finished outcome, .complete outcome, .started 1]) := by
  decide

end psx.pipeline.SegmentedPipeline
