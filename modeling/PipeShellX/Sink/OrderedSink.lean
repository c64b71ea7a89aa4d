-- The sink that waits for the end of the run (ordered_sink.cpp): it keeps what each stage sent
-- since its last start, and tells an inner sink all of it, stage by stage in the order of their
-- names. What the inner sink is told depends on the events of each stage alone, not on how they
-- interleaved.
import PipeShellX.Sink.JsonSink
import Mathlib.Data.List.DropRight
import Mathlib.Data.List.Sort

namespace psx.sink

namespace OrderedSink

/-- A line, with its channel. -/
structure Event where
  channel : Channel
  text : Bytes

/-- What is held back of a stage. -/
structure Buffered where
  events : List Event := []
  result : Option StageResult := none

/-- The calls that a stage is told with. -/
def replay (stage : Bytes) (buffered : Buffered) : List Call :=
  .stageStarted stage :: buffered.events.map (fun event => .line stage event.channel event.text) ++
    buffered.result.toList.map (.stageFinished stage)

end OrderedSink

/-- `inner` is where the inner sink stands. A sink is what a call makes of its state. -/
structure OrderedSink (σ : Type) where
  inner : σ
  buffers : Std.TreeMap Bytes OrderedSink.Buffered compare := ∅

namespace OrderedSink

variable {σ : Type} (handle : σ → Call → σ)

/-- A stage starts with nothing held back. -/
def stageStarted (s : OrderedSink σ) (stage : Bytes) : OrderedSink σ :=
  { s with buffers := s.buffers.erase stage }

/-- `buffers_[stage]`, changed. -/
def modify (s : OrderedSink σ) (stage : Bytes) (f : Buffered → Buffered) : OrderedSink σ :=
  { s with buffers := s.buffers.alter stage fun buffered => some (f (buffered.getD {})) }

/-- A line is held back. -/
def line (s : OrderedSink σ) (stage : Bytes) (channel : Channel) (text : Bytes) : OrderedSink σ :=
  s.modify stage fun buffered => { buffered with events := buffered.events ++ [⟨channel, text⟩] }

/-- A result is held back. -/
def stageFinished (s : OrderedSink σ) (stage : Bytes) (result : StageResult) : OrderedSink σ :=
  s.modify stage fun buffered => { buffered with result := some result }

/-- The stages are told in the order of their names, and the summary after them. -/
def runFinished (s : OrderedSink σ) (summary : RunSummary) : OrderedSink σ :=
  let inner := s.buffers.toList.foldl (fun inner p => (replay p.1 p.2).foldl handle inner) s.inner
  { s with inner := handle inner (.runFinished summary) }

end OrderedSink

/-! ## The events of a stage -/

/-- What a stage sends while the run goes on. -/
inductive StageEvent
  | stageStarted
  | line (channel : Channel) (text : Bytes)
  | stageFinished (result : StageResult)

namespace StageEvent

/-- The stage starts. -/
def isStart : StageEvent → Bool
  | .stageStarted => true
  | _ => false

/-- The line that an event tells. -/
def line? : StageEvent → Option OrderedSink.Event
  | .line channel text => some ⟨channel, text⟩
  | _ => none

/-- The result that an event tells. -/
def result? : StageEvent → Option StageResult
  | .stageFinished result => some result
  | _ => none

end StageEvent

/-- The events of one stage, in order. -/
def own (stage : Bytes) (events : List (Bytes × StageEvent)) : List StageEvent :=
  (events.filter fun e => e.1 = stage).map Prod.snd

/-- What came behind the last start. -/
def lastAttempt (events : List StageEvent) : List StageEvent :=
  events.rtakeWhile fun e => !e.isStart

/-- The start, the lines and the last result of an attempt. -/
def told (stage : Bytes) (attempt : List StageEvent) : List Call :=
  .stageStarted stage ::
    (attempt.filterMap StageEvent.line?).map (fun event => .line stage event.channel event.text) ++
    (attempt.filterMap StageEvent.result?).getLast?.toList.map (.stageFinished stage)

namespace OrderedSink

variable {σ : Type} (handle : σ → Call → σ)

/-- The sink is told of a stage. -/
def event (s : OrderedSink σ) (e : Bytes × StageEvent) : OrderedSink σ :=
  match e.2 with
  | .stageStarted => s.stageStarted e.1
  | .line channel text => s.line e.1 channel text
  | .stageFinished result => s.stageFinished e.1 result

/-- What is kept of an attempt. -/
def kept (attempt : List StageEvent) : Option Buffered :=
  if attempt = [] then none
  else some ⟨attempt.filterMap StageEvent.line?, (attempt.filterMap StageEvent.result?).getLast?⟩

end OrderedSink

theorem own_snoc (stage : Bytes) (events : List (Bytes × StageEvent)) (e : Bytes × StageEvent) :
    own stage (events ++ [e]) = own stage events ++ if e.1 = stage then [e.2] else [] := by
  unfold own
  rw [List.filter_append, List.map_append, List.filter_singleton]
  by_cases h : e.1 = stage <;> simp [h]

theorem lastAttempt_snoc (events : List StageEvent) (e : StageEvent) :
    lastAttempt (events ++ [e]) = if e.isStart then [] else lastAttempt events ++ [e] := by
  unfold lastAttempt
  rw [List.rtakeWhile_concat]
  cases e.isStart <;> rfl

namespace OrderedSink

variable {σ : Type} (handle : σ → Call → σ)

theorem get_modify (s : OrderedSink σ) (stage : Bytes) (f : Buffered → Buffered) (k : Bytes) :
    (s.modify stage f).buffers[k]? =
      if stage = k then some (f (s.buffers[stage]?.getD {})) else s.buffers[k]? := by
  unfold modify
  rw [Std.TreeMap.getElem?_alter]
  simp only [Std.LawfulEqCmp.compare_eq_iff_eq]

theorem kept_getD (attempt : List StageEvent) : (kept attempt).getD {} =
    ⟨attempt.filterMap StageEvent.line?, (attempt.filterMap StageEvent.result?).getLast?⟩ := by
  unfold kept
  by_cases hnone : attempt = []
  · rw [if_pos hnone, hnone]
    rfl
  · rw [if_neg hnone]
    rfl

theorem kept_eq_none {attempt : List StageEvent} : kept attempt = none ↔ attempt = [] := by
  unfold kept
  by_cases hnone : attempt = []
  · rw [if_pos hnone]
    exact iff_of_true rfl hnone
  · rw [if_neg hnone]
    exact iff_of_false (Option.some_ne_none _) hnone

theorem replay_kept {stage : Bytes} {attempt : List StageEvent} {buffered : Buffered}
    (h : kept attempt = some buffered) : replay stage buffered = told stage attempt := by
  have hgetD := kept_getD attempt
  rw [h, Option.getD_some] at hgetD
  rw [hgetD]
  rfl

theorem kept_snoc (attempt : List StageEvent) (e : StageEvent) : kept (attempt ++ [e]) =
    some ⟨attempt.filterMap StageEvent.line? ++ [e].filterMap StageEvent.line?,
      (attempt.filterMap StageEvent.result? ++ [e].filterMap StageEvent.result?).getLast?⟩ := by
  unfold kept
  rw [if_neg (by simp), List.filterMap_append, List.filterMap_append]

/-- One more event, for what is kept of each stage. -/
theorem get_event {s : OrderedSink σ} {events : List (Bytes × StageEvent)}
    (h : ∀ stage : Bytes, s.buffers[stage]? = kept (lastAttempt (own stage events)))
    (e : Bytes × StageEvent) (stage : Bytes) :
    (s.event e).buffers[stage]? = kept (lastAttempt (own stage (events ++ [e]))) := by
  obtain ⟨name, e⟩ := e
  rw [own_snoc]
  cases e with
  | stageStarted =>
    have herase : (s.event (name, .stageStarted)).buffers[stage]? =
        if name = stage then none else s.buffers[stage]? := by
      refine Std.TreeMap.getElem?_erase.trans ?_
      simp only [Std.LawfulEqCmp.compare_eq_iff_eq]
    rw [herase]
    by_cases hname : name = stage
    · rw [if_pos hname, if_pos hname, lastAttempt_snoc]
      rfl
    · rw [if_neg hname, if_neg hname, List.append_nil, h]
  | line channel text =>
    refine (get_modify s name _ stage).trans ?_
    by_cases hname : name = stage
    · rw [if_pos hname, if_pos hname, lastAttempt_snoc, hname, h, kept_getD]
      simp [kept_snoc, StageEvent.isStart, StageEvent.line?, StageEvent.result?]
    · rw [if_neg hname, if_neg hname, List.append_nil, h]
  | stageFinished result =>
    refine (get_modify s name _ stage).trans ?_
    by_cases hname : name = stage
    · rw [if_pos hname, if_pos hname, lastAttempt_snoc, hname, h, kept_getD]
      simp [kept_snoc, StageEvent.isStart, StageEvent.line?, StageEvent.result?]
    · rw [if_neg hname, if_neg hname, List.append_nil, h]

/-- What is kept of each stage after a run. -/
theorem get_events (inner : σ) (events : List (Bytes × StageEvent)) (stage : Bytes) :
    (events.foldl event { inner }).buffers[stage]? = kept (lastAttempt (own stage events)) := by
  induction events using List.reverseRecOn generalizing stage with
  | nil => exact Std.TreeMap.getElem?_emptyc
  | append_singleton events e ih =>
    rw [List.foldl_append]
    exact get_event ih e stage

theorem inner_events (inner : σ) (events : List (Bytes × StageEvent)) :
    (events.foldl event { inner }).inner = inner := by
  induction events using List.reverseRecOn with
  | nil => rfl
  | append_singleton events e ih =>
    rw [List.foldl_append]
    obtain ⟨name, e⟩ := e
    cases e <;> exact ih

/-- The calls on the inner sink that end the run. -/
theorem inner_runFinished (s : OrderedSink σ) (summary : RunSummary) :
    (s.runFinished handle summary).inner = List.foldl handle s.inner
      ((s.buffers.toList.flatMap fun p => replay p.1 p.2) ++ [.runFinished summary]) := by
  unfold runFinished
  rw [List.foldl_append, List.foldl_flatMap]
  rfl

/-- The inner sink is told, at the end of the run and by name, of each stage with events in its last
attempt, and it is told the same of all runs in which each stage sends the same. -/
theorem the_run_is_told_by_name (inner : σ) (events : List (Bytes × StageEvent))
    (summary : RunSummary) :
    (∃ names : List Bytes, names.Pairwise (fun a b => compare a b = .lt) ∧
      (∀ stage, stage ∈ names ↔ lastAttempt (own stage events) ≠ []) ∧
      ((events.foldl event { inner }).runFinished handle summary).inner =
        List.foldl handle inner ((names.flatMap fun stage =>
          told stage (lastAttempt (own stage events))) ++ [.runFinished summary])) ∧
    ∀ others : List (Bytes × StageEvent), (∀ stage, own stage others = own stage events) →
      ((others.foldl event { inner }).runFinished handle summary).inner =
        ((events.foldl event { inner }).runFinished handle summary).inner := by
  have hget := get_events inner events
  have hinner := inner_events inner events
  constructor
  · generalize events.foldl event { inner } = s at hget hinner
    refine ⟨s.buffers.toList.map Prod.fst, ?_, fun stage => ?_, ?_⟩
    · rw [List.pairwise_map]
      exact Std.TreeMap.ordered_keys_toList
    · rw [List.mem_map, Ne, ← kept_eq_none, ← hget stage, ← Ne, ← Option.isSome_iff_ne_none,
        Option.isSome_iff_exists]
      constructor
      · rintro ⟨p, hp, rfl⟩
        exact ⟨p.2, Std.TreeMap.mem_toList_iff_getElem?_eq_some.mp hp⟩
      · rintro ⟨buffered, hsome⟩
        exact ⟨(stage, buffered), Std.TreeMap.mem_toList_iff_getElem?_eq_some.mpr hsome, rfl⟩
    · rw [inner_runFinished, hinner, List.flatMap_map]
      refine congrArg (fun calls => List.foldl handle inner (calls ++ [.runFinished summary])) ?_
      refine List.flatMap_congr fun p hp => ?_
      have hkept : kept (lastAttempt (own p.1 events)) = some p.2 :=
        (hget p.1).symm.trans (Std.TreeMap.mem_toList_iff_getElem?_eq_some.mp hp)
      exact replay_kept hkept
  · intro others hsame
    have hequiv : (others.foldl event { inner }).buffers.toList =
        (events.foldl event { inner }).buffers.toList := by
      refine (Std.TreeMap.Equiv.of_forall_constGet?_eq fun stage => ?_).toList_eq
      rw [hget, get_events, hsame]
    rw [inner_runFinished, inner_runFinished, hequiv, inner_events, inner_events]

end OrderedSink

end psx.sink
