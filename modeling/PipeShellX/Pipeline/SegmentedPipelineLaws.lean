-- What holds of a spliced chain after every order of events: which runners are over, and
-- which segments were completed. A cancel completes a runner within the call, so once the
-- last segment has completed, every segment before it is over.
import PipeShellX.Pipeline.DistributedRuns
import PipeShellX.Pipeline.LocalRunnerLaws
import PipeShellX.Pipeline.SegmentedPipeline

namespace psx.pipeline.DistributedRunner

open psx.transport (StreamId)

variable {d : DistributedRunner}

/-- A runner that completed, or that goes on and told nothing. -/
def Phased (d : DistributedRunner) : Prop := d.done = true ∨ ∃ n given, Going n given d

theorem Phased.done (h : d.Phased) {outcome : Outcome} (hmem : .complete outcome ∈ d.log) :
    d.done = true := by
  rcases h with hdone | ⟨n, given, hgoing⟩
  · exact hdone
  · exact absurd hmem (hgoing.silent outcome)

theorem Phased.step (h : d.Phased) (opens : Nat → StreamId) (input : Input) :
    (d.step opens input).Phased := by
  rcases h with hdone | ⟨n, given, hgoing⟩
  · exact .inl (done_step hdone opens input).1
  · rcases (hgoing.step opens input).1 with ⟨outcome, hdone, -⟩ | hnext
    · exact .inl hdone
    · exact .inr ⟨n, given, hnext⟩

theorem cancel_done (d : DistributedRunner) : d.cancel.done = true := by
  unfold cancel
  split_ifs with hdone
  · exact hdone
  · have hrunning : ((d.note .cancelled).fenceBefore d.conns.length).done = false :=
      eq_false_of_ne_true hdone
    dsimp only
    rw [finish_running hrunning]

/-- The runner has told nothing but that it failed. -/
def Failing (d : DistributedRunner) : Prop :=
  ∀ e ∈ d.log, ∃ outcome : Outcome, e = .complete outcome ∧ outcome.error ≠ ""

/-- The text of a connection error. -/
theorem error_text (index : Nat) (message : String) :
    "stage " ++ toString index ++ ": " ++ message ≠ "" := by
  simp [String.append_assoc]

theorem Failing.onConnError (h : d.Failing) (index : Nat) (message : String) :
    (d.onConnError index message).Failing := by
  unfold DistributedRunner.onConnError
  split_ifs with hdone
  · exact h
  · rw [finish_running (eq_false_of_ne_true hdone)]
    intro e he
    rcases List.mem_append.mp he with he | he
    · exact h e he
    · split_ifs at he
      · exact ⟨_, List.mem_singleton.mp he, error_text index message⟩
      · cases he

theorem Failing.connect (h : d.Failing) (launch : Nat → Launch) (left : Nat) :
    (DistributedRunner.connect launch left d).Failing := by
  induction left generalizing d with
  | zero => exact h
  | succ left ih =>
    have hpushed : Failing { d with conns := d.conns ++ [({} : Conn)] } := h
    unfold DistributedRunner.connect
    extract_lets index pushed
    cases launch index with
    | connectFailed message => exact hpushed.onConnError _ _
    | tlsFailed message => exact hpushed.onConnError _ _
    | started error failed =>
      have hup : Failing (pushed.modify index Conn.connected) := h
      cases failed with
      | some message =>
        cases error with
        | none => exact hup.onConnError _ _
        | some message' => exact (hup.onConnError _ _).onConnError _ _
      | none =>
        cases error with
        | none => exact ih hup
        | some message => exact ih (hup.onConnError _ _)

end psx.pipeline.DistributedRunner

namespace psx.pipeline.SegmentedPipeline

open psx.os (ExitStatus Waits)
open psx.transport (Channel StreamId)
open Trace (Lawful)

variable {p p' : SegmentedPipeline} {index : Nat} {answers : Answers}

/-! ## Runners -/

namespace Runner

variable {runner : Runner}

theorem calls_local (r : LocalRunner) : (localRunner r).calls = r.log.filterMap Call.ofLocal := rfl

theorem calls_remote (d : DistributedRunner) :
    (remoteRunner d).calls = d.log.filterMap Call.ofRemote := rfl

/-- A runner that was built by the pipeline, after any events. -/
def Good : Runner → Prop
  | localRunner r => r.Sound
  | remoteRunner d => d.Phased

/-- What an event may do to a runner. -/
structure Follows (runner runner' : Runner) : Prop where
  good : runner.Good → runner'.Good
  isOver : runner.isOver = true → runner'.isOver = true

theorem Follows.refl (runner : Runner) : Follows runner runner := ⟨id, id⟩

theorem follows_local {r r' : LocalRunner} (h : r.Follows r') :
    Follows (localRunner r) (localRunner r') := ⟨h.sound, h.done⟩

theorem follows_remote (d : DistributedRunner) (opens : Nat → StreamId)
    (input : DistributedRunner.Input) :
    Follows (remoteRunner d) (remoteRunner (d.step opens input)) :=
  ⟨fun h => h.step opens input, fun h => (DistributedRunner.done_step h opens input).1⟩

theorem follows_lose (lost : Option (Nat × String)) (d d' : DistributedRunner)
    (h : Follows (remoteRunner d) (remoteRunner d')) :
    Follows (remoteRunner d) (remoteRunner (lose lost d d')) := by
  unfold lose
  cases lost with
  | none => exact h
  | some failure =>
    obtain ⟨stage, message⟩ := failure
    dsimp only
    split_ifs with hlost
    · have hstep : d'.step (fun _ => 0) (.error stage message) = d'.onConnError stage message := by
        unfold DistributedRunner.step
        dsimp only
        rw [if_pos hlost.2]
      have hfailed := follows_remote d' (fun _ => 0) (.error stage message)
      rw [hstep] at hfailed
      exact ⟨fun hgood => hfailed.good (h.good hgood), fun hover => hfailed.isOver (h.isOver hover)⟩
    · exact h

theorem follows_writeStdin (runner : Runner) (bytes : Bytes) :
    Follows runner (runner.writeStdin answers index bytes) := by
  cases runner with
  | localRunner r => exact follows_local (LocalRunner.inwards_writeStdin _ bytes).follows
  | remoteRunner d => exact follows_lose _ d _ (follows_remote d (fun _ => 0) (.writeStdin bytes))

theorem follows_closeStdin (runner : Runner) :
    Follows runner (runner.closeStdin answers index) := by
  cases runner with
  | localRunner r => exact follows_local (LocalRunner.inwards_closeStdin _).follows
  | remoteRunner d => exact follows_lose _ d _ (follows_remote d (fun _ => 0) .closeStdin)

theorem follows_cancel (runner : Runner) (answers : Answers) (index : Nat) :
    Follows runner (runner.cancel answers index) := by
  cases runner with
  | localRunner r => exact follows_local (LocalRunner.follows_cancel _)
  | remoteRunner d => exact follows_remote d (fun _ => 0) .cancel

theorem follows_told (runner : Runner) (opens : Nat → StreamId) (writes : List (Result Nat))
    (report : Report) : Follows runner (runner.told opens writes report) := by
  cases runner with
  | localRunner r =>
    cases report with
    | finalReadable | childExit | stdinWritable => exact follows_local (LocalRunner.follows_step _)
    | _ => exact .refl _
  | remoteRunner d =>
    cases report with
    | ready | data | exit | error => exact follows_remote d opens _
    | _ => exact .refl _

/-- A cancel ends a runner within the call. -/
theorem Good.cancel (h : runner.Good) : (runner.cancel answers index).isOver = true := by
  cases runner with
  | localRunner r => exact LocalRunner.Sound.cancel h _
  | remoteRunner d => exact DistributedRunner.cancel_done d

/-- A runner that told its outcome is over. -/
theorem Good.isOver (h : runner.Good) {codes : List Int} {error : String}
    (hmem : .done codes error ∈ runner.calls) : runner.isOver = true := by
  cases runner with
  | localRunner r =>
    obtain ⟨e, he, hcall⟩ := List.mem_filterMap.mp hmem
    cases e with
    | complete outcome => exact LocalRunner.Sound.told h outcome he
    | _ => simp at hcall
  | remoteRunner d =>
    obtain ⟨e, he, hcall⟩ := List.mem_filterMap.mp hmem
    cases e with
    | complete outcome => exact DistributedRunner.Phased.done h he
    | _ => simp at hcall

end Runner

/-! ## What comes back from a call into a runner -/

/-- Since `runner`, nothing but failures came back. -/
def Fails (runner runner' : Runner) : Prop :=
  ∀ call ∈ runner'.calls.drop runner.calls.length, ∃ codes error, error ≠ "" ∧
    call = .done codes error

theorem fails_of_append {runner runner' : Runner} (more : List Call)
    (hcalls : runner'.calls = runner.calls ++ more)
    (hmore : ∀ call ∈ more, ∃ codes error, error ≠ "" ∧ call = .done codes error) :
    Fails runner runner' := by
  unfold Fails
  rw [hcalls, List.drop_left]
  exact hmore

theorem fails_same {runner runner' : Runner} (hcalls : runner'.calls = runner.calls) :
    Fails runner runner' :=
  fails_of_append [] (by simp [hcalls]) (by simp)

theorem inwards_calls {r r' : LocalRunner} (h : r.Inwards r') :
    (Runner.localRunner r').calls = (Runner.localRunner r).calls := by
  obtain ⟨more, hlog, hin⟩ := h.log
  have hnone : more.filterMap Call.ofLocal = [] := by
    rw [List.filterMap_eq_nil_iff]
    intro e he
    have := hin e he
    cases e <;> first | rfl | exact this.elim
  rw [Runner.calls_local, Runner.calls_local, hlog, List.filterMap_append, hnone, List.append_nil]

theorem send_calls (d : DistributedRunner) (bytes : Bytes) (endStream : Bool) :
    (Runner.remoteRunner (d.sendData 0 bytes endStream)).calls = (Runner.remoteRunner d).calls := by
  unfold DistributedRunner.sendData DistributedRunner.use
  split_ifs <;> simp [Runner.calls_remote, DistributedRunner.note]

theorem write_calls (d : DistributedRunner) (bytes : Bytes) :
    (Runner.remoteRunner (d.writeStdin bytes)).calls = (Runner.remoteRunner d).calls := by
  unfold DistributedRunner.writeStdin
  split_ifs
  · rfl
  · exact send_calls d bytes false
  · rfl

theorem close_calls (d : DistributedRunner) :
    (Runner.remoteRunner d.closeStdin).calls = (Runner.remoteRunner d).calls := by
  unfold DistributedRunner.closeStdin
  dsimp only
  split_ifs
  · rfl
  · exact send_calls { d with stdinEndPending := true } [] true
  · rfl

theorem lose_fails (lost : Option (Nat × String)) {d d' : DistributedRunner}
    (hcalls : (Runner.remoteRunner d').calls = (Runner.remoteRunner d).calls) :
    Fails (.remoteRunner d) (.remoteRunner (lose lost d d')) := by
  unfold lose
  cases lost with
  | none => exact fails_same hcalls
  | some failure =>
    obtain ⟨stage, message⟩ := failure
    dsimp only
    split_ifs
    · unfold DistributedRunner.onConnError
      split_ifs with hdone
      · exact fails_same hcalls
      · rw [DistributedRunner.finish_running (eq_false_of_ne_true hdone)]
        refine fails_of_append ((if d'.onComplete then
            [.complete { error := "stage " ++ toString stage ++ ": " ++ message, exitCode := 1 }]
          else []).filterMap Call.ofRemote) ?_ fun call hcall => ?_
        · rw [Runner.calls_remote, List.filterMap_append, ← Runner.calls_remote d', hcalls]
        split_ifs at hcall
        · obtain rfl : call = .done [] ("stage " ++ toString stage ++ ": " ++ message) := by
            simpa using hcall
          exact ⟨_, _, DistributedRunner.error_text stage message, rfl⟩
        · simp at hcall
    · exact fails_same hcalls

theorem writeStdin_fails (runner : Runner) (bytes : Bytes) :
    Fails runner (runner.writeStdin answers index bytes) := by
  cases runner with
  | localRunner r => exact fails_same (inwards_calls (LocalRunner.inwards_writeStdin _ bytes))
  | remoteRunner d => exact lose_fails _ (write_calls d bytes)

theorem closeStdin_fails (runner : Runner) : Fails runner (runner.closeStdin answers index) := by
  cases runner with
  | localRunner r => exact fails_same (inwards_calls (LocalRunner.inwards_closeStdin _))
  | remoteRunner d => exact lose_fails _ (close_calls d)

/-- A runner that was built, but not run. -/
def Runner.Built : Runner → Prop
  | .localRunner r => ∃ onOutput, r = { onOutput }
  | .remoteRunner d => ∃ onOutput onStderr, d = { onOutput, onStderr }

theorem Runner.Built.good {runner : Runner} (h : runner.Built) : runner.Good := by
  cases runner with
  | localRunner r =>
    obtain ⟨onOutput, rfl⟩ := h
    exact LocalRunner.Starting.sound ⟨rfl, rfl, rfl, by simp⟩
  | remoteRunner d =>
    obtain ⟨onOutput, onStderr, rfl⟩ := h
    have hfresh : DistributedRunner.Fresh 0 ⟨onOutput, onStderr, false, false⟩
        { onOutput, onStderr } := ⟨rfl, rfl, rfl, rfl, rfl, rfl⟩
    exact .inr ⟨_, _, hfresh.going⟩

theorem Runner.Built.calls {runner : Runner} (h : runner.Built) : runner.calls = [] := by
  cases runner with
  | localRunner r =>
    obtain ⟨onOutput, rfl⟩ := h
    rfl
  | remoteRunner d =>
    obtain ⟨onOutput, onStderr, rfl⟩ := h
    rfl

/-- The start of a runner tells at most that it failed. -/
theorem Runner.Built.run {runner : Runner} (h : runner.Built) (launches : Launches) (index : Nat)
    (stages : List ResolvedStage) (externalStdin : Bool) :
    (runner.run launches index stages externalStdin).1.Good ∧
      Fails runner (runner.run launches index stages externalStdin).1 := by
  unfold Fails
  rw [h.calls, List.length_nil, List.drop_zero]
  cases runner with
  | localRunner r =>
    obtain ⟨onOutput, rfl⟩ := h
    have hfresh : LocalRunner.Starting { onOutput } := ⟨rfl, rfl, rfl, by simp⟩
    have hstarted := hfresh.run (launches.locals index)
      (stages.map fun stage => { argv := stage.argv }) true externalStdin
    refine ⟨hstarted.sound, fun call hcall => ?_⟩
    obtain ⟨e, he, hcall⟩ := List.mem_filterMap.mp hcall
    obtain ⟨i, argv, rfl⟩ := hstarted.silent e he
    simp at hcall
  | remoteRunner d =>
    obtain ⟨onOutput, onStderr, rfl⟩ := h
    have hphase := DistributedRunner.history_phase (launches.remotes index) (fun _ => 0)
      ⟨onOutput, onStderr, true, externalStdin⟩ (stages.map fun stage => { argv := stage.argv }) []
    refine ⟨hphase.imp id fun ⟨given, _, hgoing⟩ => ⟨_, given, hgoing⟩, fun call hcall => ?_⟩
    obtain ⟨e, he, hcall⟩ := List.mem_filterMap.mp hcall
    have hfailing : DistributedRunner.Failing (DistributedRunner.run (launches.remotes index)
        { onOutput, onStderr } (stages.map fun stage => { argv := stage.argv }) true
          externalStdin).1 := by
      unfold DistributedRunner.run
      split_ifs
      · exact fun e he => by cases he
      · exact DistributedRunner.Failing.connect (fun e he => by cases he) _ _
    obtain ⟨outcome, rfl, herror⟩ := hfailing e he
    obtain rfl : .done outcome.stageExitCodes outcome.error = call := by simpa using hcall
    exact ⟨_, _, herror, rfl⟩

/-! ## Segments -/

@[simp] theorem segment_note (p : SegmentedPipeline) (e : Event) (i : Nat) :
    (p.note e).segment i = p.segment i := rfl

theorem segment_modify (f : Segment → Segment) (h : index < p.segments.length) (i : Nat) :
    (p.modify index f).segment i = if i = index then f (p.segment i) else p.segment i :=
  Counts.getD_modify f p.segments index i {} h

theorem segment_outside (h : p.segments.length ≤ index) : p.segment index = {} := by
  simp [segment, List.getD_eq_getElem?_getD, List.getElem?_eq_none h]

theorem runner_put (h : index < p.segments.length) (runner : Runner) (i : Nat) :
    (p.put index runner).runner i = if i = index then runner else p.runner i := by
  unfold SegmentedPipeline.runner put
  rw [segment_modify _ h]
  split_ifs
  · rfl
  · rfl

theorem put_outside (h : p.segments.length ≤ index) (runner : Runner) : p.put index runner = p := by
  unfold put modify
  rw [List.modify_eq_self h]

/-- The runners are as the events made them, a completed segment has a runner that is over,
and the pipeline is done when it said so. -/
structure Inv (p : SegmentedPipeline) : Prop where
  good : ∀ i, (p.runner i).Good
  marked : ∀ i, (p.segment i).done = true → (p.runner i).isOver = true
  ended : ∀ outcome, .finished outcome ∈ p.log → p.done = true

/-- No segment starts, and none completes. -/
def Event.Plain : Event → Prop
  | .started _ | .completed .. => False
  | _ => True

/-- A step that completes no segment. -/
structure Aside (p p' : SegmentedPipeline) : Prop where
  inv : Inv p → Inv p'
  length : p'.segments.length = p.segments.length
  isOver : ∀ i, (p.runner i).isOver = true → (p'.runner i).isOver = true
  done : p.done = true → p'.done = true
  log : ∃ more, p'.log = p.log ++ more ∧ ∀ e ∈ more, e.Plain

theorem Aside.refl (p : SegmentedPipeline) : Aside p p :=
  ⟨id, rfl, fun _ => id, id, [], by simp, by simp⟩

theorem Aside.trans {a b c : SegmentedPipeline} (h : Aside a b) (h' : Aside b c) : Aside a c := by
  obtain ⟨first, hfirst, hplain⟩ := h.log
  obtain ⟨second, hsecond, hplain'⟩ := h'.log
  refine ⟨fun hinv => h'.inv (h.inv hinv), h'.length.trans h.length,
    fun i hover => h'.isOver i (h.isOver i hover), fun hdone => h'.done (h.done hdone),
      first ++ second,
    by rw [hsecond, hfirst, List.append_assoc], fun e he => ?_⟩
  rcases List.mem_append.mp he with he | he
  · exact hplain e he
  · exact hplain' e he

/-- Only the flags changed. -/
theorem aside_flags (hsegments : p'.segments = p.segments) (hdone : p'.done = p.done)
    (hlog : p'.log = p.log) : Aside p p' := by
  have hsegment : ∀ i, p'.segment i = p.segment i := fun i => by simp only [segment, hsegments]
  have hrunner : ∀ i, p'.runner i = p.runner i := fun i => by
    simp only [SegmentedPipeline.runner, hsegment]
  refine ⟨fun h => ⟨fun i => ?_, fun i => ?_, fun outcome => ?_⟩, by rw [hsegments], fun i => ?_,
    fun h => hdone.trans h, [], by simp [hlog], by simp⟩
  · rw [hrunner]
    exact h.good i
  · rw [hrunner, hsegment]
    exact h.marked i
  · rw [hlog, hdone]
    exact h.ended outcome
  · rw [hrunner]
    exact id

theorem aside_note {e : Event} (he : e.Plain)
    (hends : ∀ outcome, e = .finished outcome → p.done = true) :
    Aside p (p.note e) := by
  refine ⟨fun h => ⟨h.good, h.marked, fun outcome hmem => ?_⟩, rfl, fun _ => id, id, [e], rfl,
    fun _ hmem => List.mem_singleton.mp hmem ▸ he⟩
  rcases List.mem_append.mp hmem with hmem | hmem
  · exact h.ended outcome hmem
  · exact hends outcome (List.mem_singleton.mp hmem).symm

theorem aside_finish (outcome : Outcome) : Aside p (p.finish outcome) := by
  unfold finish
  by_cases hdone : p.done = true
  · rw [if_pos hdone]
    exact .refl p
  · rw [if_neg hdone]
    extract_lets ended
    have hended : Aside p ended :=
      ⟨fun h => ⟨h.good, h.marked, fun _ _ => rfl⟩, rfl, fun _ => id, fun _ => rfl,
        [.finished outcome], rfl, by simp [Event.Plain]⟩
    split_ifs
    · have hflags : Aside ended { ended with onComplete := false } := aside_flags rfl rfl rfl
      have htold : Aside { ended with onComplete := false }
          ({ ended with onComplete := false }.note (.complete outcome)) :=
        aside_note trivial (by simp)
      exact (hended.trans hflags).trans htold
    · exact hended

theorem aside_finishIfAllDone : Aside p p.finishIfAllDone := by
  unfold finishIfAllDone
  split_ifs
  · exact aside_finish _
  · exact .refl p

theorem aside_put {runner' : Runner} (h : (p.runner index).Follows runner') :
    Aside p (p.put index runner') := by
  by_cases hi : index < p.segments.length
  · have hrunner := runner_put hi runner'
    have hmarked : ∀ i, ((p.put index runner').segment i).done = (p.segment i).done := by
      intro i
      unfold put
      rw [segment_modify _ hi]
      split_ifs
      · rfl
      · rfl
    have hover : ∀ i, (p.runner i).isOver = true →
        ((p.put index runner').runner i).isOver = true := by
      intro i hover
      rw [hrunner]
      split_ifs with heq
      · subst heq
        exact h.isOver hover
      · exact hover
    refine ⟨fun hinv => ⟨fun i => ?_, fun i hdone => ?_, hinv.ended⟩, List.length_modify ..,
      hover, id,
      [], (List.append_nil _).symm, by simp⟩
    · rw [hrunner]
      split_ifs with heq
      · subst heq
        exact h.good (hinv.good i)
      · exact hinv.good i
    · rw [hmarked] at hdone
      exact hover i (hinv.marked i hdone)
  · rw [put_outside (Nat.le_of_not_lt hi)]
    exact .refl p

/-- When nothing but failures comes back from a runner, the pipeline fails or goes on. -/
theorem aside_hear {onOutput : SegmentedPipeline → Nat → Bytes → SegmentedPipeline}
    {close : SegmentedPipeline → Nat → SegmentedPipeline}
    {cancelUpstream : SegmentedPipeline → SegmentedPipeline} {runner' : Runner}
    (h : (p.runner index).Follows runner') (hfails : Fails (p.runner index) runner') :
    Aside p (p.hear onOutput (segmentDone close cancelUpstream) index runner') := by
  unfold hear
  refine Trace.foldl_induction (P := Aside p) (aside_put h) fun pre call post heq hpre => ?_
  obtain ⟨codes, error, herror, rfl⟩ := hfails call (by rw [heq]; simp)
  refine hpre.trans ?_
  unfold heard segmentDone
  dsimp only
  rw [if_pos herror]
  split_ifs
  · exact .refl _
  · exact aside_finish _

theorem aside_closeSegment (answers : Answers) (p : SegmentedPipeline) (index : Nat) :
    Aside p (p.closeSegment answers index) :=
  aside_hear (Runner.follows_closeStdin _) (closeStdin_fails _)

theorem aside_writeSegment (answers : Answers) (p : SegmentedPipeline) (index : Nat)
    (bytes : Bytes) :
    Aside p (p.writeSegment answers index bytes) :=
  aside_hear (Runner.follows_writeStdin _ bytes) (writeStdin_fails _ bytes)

theorem aside_routeOutput (answers : Answers) (p : SegmentedPipeline) (index : Nat) (data : Bytes) :
    Aside p (p.routeOutput answers index data) := by
  unfold routeOutput
  split_ifs
  · exact .refl p
  · exact aside_writeSegment answers p (index + 1) data
  · exact aside_note trivial (by simp)
  · exact .refl p

end psx.pipeline.SegmentedPipeline
