-- Where the exit codes of the three runners come from. A stage counts with 0 only when one of the
-- two calls has said so, unless both fail for a child whose exit was notified: then a chain and a
-- node keep the status that they started with, which is an exit with 0. A graph starts with 1.
import PipeShellX.Pipeline.DagRunnerLaws
import PipeShellX.Pipeline.LocalRunnerRuns
import PipeShellX.Transport.NodeStageRuns

namespace psx.pipeline

open psx.os (ExitStatus Waits)

/-! ## Statuses -/

/-- The status of a process that exited with 0. -/
def zeroExit : ExitStatus := ⟨.Exited, 0⟩

theorem zeroExit_of_code {status : ExitStatus} (h : status.Decoded)
    (hcode : toExitCode status = 0) :
    status = zeroExit := by
  obtain ⟨kind, code⟩ := status
  unfold toExitCode at hcode
  by_cases hkind : kind = .Exited
  · rw [if_pos hkind] at hcode
    have hzero : code = 0 := Int32.toInt_inj.mp hcode
    rw [hkind, hzero]
    rfl
  · rw [if_neg hkind] at hcode
    have hne := h.code_ne hkind
    dsimp only at hcode hne
    omega

/-- An answer decides the status, and so the code. -/
theorem answer_of_code {waits : Waits} {status : ExitStatus} (hdecoded : waits.Decoded)
    (hsome : waits.answer ≠ none) (hcode : toExitCode (waits.status status) = 0) :
    waits.answer = some zeroExit := by
  obtain ⟨answer, hanswer⟩ := Option.ne_none_iff_exists'.mp hsome
  rw [waits.status_eq, hanswer] at hcode
  rw [hanswer, zeroExit_of_code (hdecoded answer hanswer) hcode]

/-! ## A local chain -/

namespace LocalRunner

variable {r r' : LocalRunner} {statuses : ExitStatus → Prop}

/-- What may become of a child: nothing, or it is reaped with one of `statuses`. -/
def Turns (statuses : ExitStatus → Prop) (child child' : Child) : Prop :=
  child' = child ∨ child.exited = false ∧ ∃ status, statuses status ∧ child' = child.reaped status

theorem Turns.refl (child : Child) : Turns statuses child child := .inl rfl

theorem Turns.trans {a b c : Child} (h : Turns statuses a b) (h' : Turns statuses b c) :
    Turns statuses a c := by
  rcases h with rfl | ⟨hrunning, status, hstatus, rfl⟩
  · exact h'
  · rcases h' with rfl | ⟨hlate, -⟩
    · exact .inr ⟨hrunning, status, hstatus, rfl⟩
    · exact absurd hlate nofun

theorem Turns.mono {statuses' : ExitStatus → Prop} {child child' : Child}
    (h : Turns statuses child child') (hsub : ∀ status, statuses status → statuses' status) :
    Turns statuses' child child' := by
  rcases h with rfl | ⟨hrunning, status, hstatus, rfl⟩
  · exact .refl _
  · exact .inr ⟨hrunning, status, hsub status hstatus, rfl⟩

/-- The status of a child that is killed. -/
def fenced : Result ExitStatus → ExitStatus
  | .ok status => status
  | .error _ => ⟨.Signaled, 9⟩

theorem children_finishIfDone (r : LocalRunner) : r.finishIfDone.children = r.children := by
  unfold finishIfDone
  dsimp only
  split
  · rfl
  · split
    · rfl
    · rfl

theorem child_finishIfDone (i : Nat) : r.finishIfDone.child i = r.child i := by
  unfold child
  rw [children_finishIfDone]

theorem turns_onChildExit {index : Nat} (hi : index < r.children.length) (waits : Waits) (i : Nat) :
    Turns (fun status => index = i ∧ status = waits.status {}) (r.child i)
      ((r.onChildExit index waits).child i) := by
  unfold onChildExit
  by_cases hexited : (r.child index).exited = true
  · rw [if_pos hexited]
    exact .refl _
  · rw [if_neg hexited, child_finishIfDone]
    have hchild := Counts.getD_modify (Child.reaped (waits.status {})) r.children index i {} hi
    by_cases hself : i = index
    · rw [if_pos hself] at hchild
      subst hself
      exact .inr ⟨by simpa using hexited, _, ⟨rfl, rfl⟩, hchild⟩
    · rw [if_neg hself] at hchild
      exact .inl hchild

theorem turns_cancel (wait : Nat → Result ExitStatus) (i : Nat) :
    Turns (fun status => status = fenced (wait i)) (r.child i) ((r.cancel wait).child i) := by
  unfold cancel
  split_ifs
  · exact .refl _
  · unfold closeFinal
    rw [child_finishIfDone]
    have hchild : ((r.dropStdin.killAll wait).child i) =
        if i < r.children.length then Child.killed (wait i) (r.child i) else r.child i := by
      unfold child killAll dropStdin
      dsimp only
      split_ifs with hi
      · rw [List.getD_eq_getElem _ _ (by rwa [List.length_mapIdx]), List.getElem_mapIdx,
          List.getD_eq_getElem _ _ hi]
      · rw [List.getD_eq_default _ _ (by rw [List.length_mapIdx]; omega),
          List.getD_eq_default _ _ (by omega)]
    change Turns _ _ ((r.dropStdin.killAll wait).child i)
    rw [hchild]
    split_ifs
    · unfold Child.killed
      split_ifs with hexited
      · exact .refl _
      · refine .inr ⟨by simpa using hexited, _, rfl, ?_⟩
        cases wait i with
        | ok status => rfl
        | error e => rfl
    · exact .refl _

theorem turns_rearm (disarmed rearmed : Bool) (i : Nat) :
    Turns statuses (r.child i) ((r.rearm disarmed rearmed).child i) := by
  unfold rearm
  split_ifs
  · exact .refl _
  · exact .inl (child_finishIfDone i)
  · exact .refl _

/-- The status of child `i` when one of the reads cancels the runner. -/
def Cancelled (reads : List Read) (i : Nat) (status : ExitStatus) : Prop :=
  ∃ read ∈ reads, ∃ wait, read.cancelled = some wait ∧ status = fenced (wait i)

theorem turns_readFinal (disarmed rearmed : Bool) (reads : List Read) (bytesRead i : Nat) :
    Turns (Cancelled reads i) (r.child i)
      ((readFinal disarmed rearmed reads bytesRead r).child i) := by
  induction reads generalizing r bytesRead with
  | nil => exact turns_rearm disarmed rearmed i
  | cons read reads ih =>
    have hdelivered : ∀ bytes, Turns (Cancelled (read :: reads) i) (r.child i)
        ((r.deliver bytes read.cancelled).child i) := by
      intro bytes
      unfold deliver
      split_ifs
      · cases hcancel : read.cancelled with
        | none => exact .refl _
        | some wait =>
          refine (turns_cancel wait i).mono fun status hstatus => ?_
          exact ⟨read, by simp, wait, hcancel, hstatus⟩
      · exact .refl _
    have hclosed : Turns (Cancelled (read :: reads) i) (r.child i) (r.closeFinal.child i) :=
      .inl (child_finishIfDone i)
    unfold readFinal
    split
    · exact hclosed
    · extract_lets delivered
      split_ifs
      · exact hdelivered _
      · exact (hdelivered _).trans (turns_rearm disarmed rearmed i)
      · refine (hdelivered _).trans ((ih _).mono fun status hstatus => ?_)
        obtain ⟨one, hone, wait, hcancel, hfenced⟩ := hstatus
        exact ⟨one, by simp [hone], wait, hcancel, hfenced⟩
    · split_ifs
      · exact turns_rearm disarmed rearmed i
      · exact hclosed

theorem turns_onFinalReadable (disarmed rearmed : Bool) (reads : List Read) (i : Nat) :
    Turns (Cancelled reads i) (r.child i) ((r.onFinalReadable disarmed rearmed reads).child i) := by
  unfold onFinalReadable
  split_ifs
  · exact .refl _
  · exact turns_readFinal (r := { r with finalWatch := some .None }) disarmed rearmed reads 0 i
  · exact turns_readFinal disarmed rearmed reads 0 i

/-- The statuses with which an input may reap child `i`. -/
def Input.Reaps (i : Nat) (status : ExitStatus) : Input → Prop
  | .childExit index waits => index = i ∧ status = waits.status {}
  | .cancel wait => status = fenced (wait i)
  | .finalReadable _ _ reads => Cancelled reads i status
  | _ => False

theorem step_turns (r : LocalRunner) (input : Input) (i : Nat) :
    Turns (fun status => input.Reaps i status) (r.child i) ((r.step input).child i) := by
  have hinwards : ∀ {r r' : LocalRunner}, Inwards r r' → r'.child i = r.child i := by
    intro r r' hin
    unfold child
    rw [hin.children]
  cases input with
  | finalReadable disarmed rearmed reads => exact turns_onFinalReadable disarmed rearmed reads i
  | childExit index waits =>
    unfold step
    dsimp only
    split_ifs with hi
    · exact turns_onChildExit hi waits i
    · exact .refl _
  | stdinWritable writes =>
    unfold step
    dsimp only
    split_ifs
    · exact .inl (hinwards (inwards_drainStdin writes))
    · exact .refl _
  | writeStdin bytes writes => exact .inl (hinwards (inwards_writeStdin writes bytes))
  | closeStdin writes => exact .inl (hinwards (inwards_closeStdin writes))
  | cancel wait => exact turns_cancel wait i

/-! ### What the calls returned -/

/-- One of the two calls for child `i` returned `status`. -/
def Input.Returns (i : Nat) (status : ExitStatus) : Input → Prop
  | .childExit index waits => index = i ∧ waits.answer = some status
  | .cancel wait => wait i = .ok status
  | .finalReadable _ _ reads =>
    ∃ read ∈ reads, ∃ wait, read.cancelled = some wait ∧ wait i = .ok status
  | _ => False

/-- All that the calls return is decoded. -/
def Input.Decoded (input : Input) : Prop := ∀ i status, input.Returns i status → status.Decoded

/-- A child whose exit is notified, and that was not reaped before, gives its status. -/
def Known (r : LocalRunner) : Input → Prop
  | .childExit index waits =>
    index < r.children.length → (r.child index).exited = false → waits.answer ≠ none
  | _ => True

/-- The child is gone before it is watched. -/
def Launch.Gone (launch : Launch) (i : Nat) : Prop :=
  ∃ e, launch.childWatched i = .error e ∧ e.cls = .NoSuchProcess

/-- The status of a child that is killed decides what it counts with. -/
theorem fenced_zero {wait : Result ExitStatus}
    (hdecoded : ∀ status, wait = .ok status → status.Decoded)
    (hcode : toExitCode (fenced wait) = 0) : wait = .ok zeroExit := by
  cases wait with
  | ok status => rw [zeroExit_of_code (hdecoded status rfl) hcode]
  | error e =>
    have hkilled : toExitCode ⟨.Signaled, 9⟩ ≠ 0 := by decide
    exact absurd hcode hkilled

theorem returns_of_reaps {input : Input} {i : Nat} {status : ExitStatus}
    (hi : i < r.children.length)
    (hrunning : (r.child i).exited = false) (hknown : r.Known input) (hdecoded : input.Decoded)
    (hreaps : input.Reaps i status) (hcode : toExitCode status = 0) : input.Returns i zeroExit := by
  cases input with
  | finalReadable disarmed rearmed reads =>
    obtain ⟨read, hread, wait, hcancel, rfl⟩ := hreaps
    refine ⟨read, hread, wait, hcancel, fenced_zero (fun status hstatus => ?_) hcode⟩
    exact hdecoded i status ⟨read, hread, wait, hcancel, hstatus⟩
  | childExit index waits =>
    obtain ⟨rfl, rfl⟩ := hreaps
    refine ⟨rfl, answer_of_code (fun status hstatus => ?_) (hknown hi hrunning) hcode⟩
    exact hdecoded index status ⟨rfl, hstatus⟩
  | cancel wait =>
    obtain rfl : status = fenced (wait i) := hreaps
    exact fenced_zero (fun status hstatus => hdecoded i status hstatus) hcode
  | stdinWritable | writeStdin | closeStdin => exact hreaps.elim

/-! ### The start -/

theorem length_onChildExit (index : Nat) (waits : Waits) :
    (r.onChildExit index waits).children.length = r.children.length := by
  unfold onChildExit
  split_ifs
  · rfl
  · rw [children_finishIfDone]
    exact List.length_modify ..

theorem turns_watchChildren (launch : Launch) {indices : List Nat}
    (hindices : ∀ i ∈ indices, i < r.children.length) (i : Nat) :
    Turns (fun status => launch.Gone i ∧ status = (launch.waits i).status {}) (r.child i)
      ((watchChildren launch indices r).1.child i) := by
  induction indices generalizing r with
  | nil => exact .refl _
  | cons index indices ih =>
    have hrest : ∀ j ∈ indices, j < r.children.length := fun j hj => hindices j (by simp [hj])
    unfold watchChildren
    split
    · exact ih hrest
    · rename_i e herror
      split_ifs with hgone
      · have hturns := turns_onChildExit (hindices index (by simp)) (launch.waits index) i
        have hnext : ∀ j ∈ indices,
            j < (r.onChildExit index (launch.waits index)).children.length := by
          rw [length_onChildExit]
          exact hrest
        refine (hturns.mono ?_).trans (ih hnext)
        rintro status ⟨rfl, hstatus⟩
        exact ⟨⟨e, herror, hgone⟩, hstatus⟩
      · exact .refl _

/-- A call for child `i` returned `status`, at the start. -/
def Launch.Returns (launch : Launch) (i : Nat) (status : ExitStatus) : Prop :=
  launch.Gone i ∧ (launch.waits i).answer = some status

/-- Over every run of a chain: a stage counts with 0 only when a call for it said so, if no exit
is notified of which both calls say nothing. -/
theorem success_is_real {launch : Launch} {onOutput externalStdin : Bool} {stages : List Stage}
    (hrun : run launch { onOutput } stages true externalStdin = (r, .ok ())) (inputs : List Input)
    (hlaunch : ∀ i < stages.length, launch.Gone i → (launch.waits i).answer ≠ none)
    (hknown : ∀ pre input post, inputs = pre ++ input :: post → (pre.foldl step r).Known input)
    (hwaits : ∀ i, (launch.waits i).Decoded) (hdecoded : ∀ input ∈ inputs, input.Decoded)
    {outcome : Outcome} (htold : .complete outcome ∈ (inputs.foldl step r).log) {i : Nat}
    (hcode : outcome.stageExitCodes[i]? = some 0) :
    launch.Returns i zeroExit ∨
      ∃ pre input post, inputs = pre ++ input :: post ∧
        ((pre.foldl step r).child i).exited = false ∧ input.Returns i zeroExit := by
  have hstarted : r.Settled stages.length ∧ Fed True r [] := run_ok hrun
  have hkeeps : ∀ inputs : List Input, (inputs.foldl step r).Settled stages.length := fun inputs =>
    Trace.foldl_induction (P := fun r : LocalRunner => r.Settled stages.length) hstarted.1
      fun _ input _ _ h => h.step input
  have hend := hkeeps inputs
  have hin : outcome ∈ (inputs.foldl step r).log.filterMap Event.told :=
    List.mem_filterMap.mpr ⟨_, htold, rfl⟩
  rw [hend.told] at hin
  by_cases hdone : (inputs.foldl step r).done = true
  · rw [if_pos hdone, List.mem_singleton] at hin
    subst hin
    have hcode : ((inputs.foldl step r).children.map (·.exitCode))[i]? = some 0 := hcode
    rw [List.getElem?_map, Option.map_eq_some_iff] at hcode
    obtain ⟨child, hchild, hzero⟩ := hcode
    obtain ⟨hi, hget⟩ := List.getElem?_eq_some_iff.mp hchild
    have hself : (inputs.foldl step r).child i = child := by
      unfold LocalRunner.child
      rw [List.getD_eq_getElem _ _ hi, hget]
    have hexited : child.exited = true := (hend.over_ hdone).2 child (hget ▸ List.getElem_mem hi)
    rw [hend.length] at hi
    -- the step of the run, or of the start, that reaped the child with 0
    by_cases hstart : (r.child i).exited = true ∧ (r.child i).exitCode = 0
    · obtain ⟨launched, h, hwatch⟩ := run_watches hrun
      have hturns := turns_watchChildren launch
        (fun j (hj : j ∈ List.range launched.children.length) => List.mem_range.mp hj) i
      have hfresh : launched.child i = {} := by
        unfold LocalRunner.child
        rw [List.getD_eq_getElem _ _ (h.length.symm ▸ hi)]
        exact h.new _ (List.getElem_mem _)
      rw [hwatch, hfresh] at hturns
      rcases hturns with hsame | ⟨-, status, ⟨hgone, rfl⟩, hreaped⟩
      · exact absurd ((congrArg Child.exited hsame).symm.trans hstart.1) nofun
      · have hzero := (congrArg Child.exitCode hreaped).symm.trans hstart.2
        exact .inl ⟨hgone, answer_of_code (hwaits i) (hlaunch i hi hgone) hzero⟩
    · obtain ⟨pre, input, post, heq, hbefore, hafter⟩ :=
        Trace.foldl_meets (P := fun r : LocalRunner => (r.child i).exited = true ∧
          (r.child i).exitCode = 0)
          hstart ⟨by rw [hself]; exact hexited, by rw [hself]; exact hzero⟩
      rcases step_turns (pre.foldl step r) input i with hsame | ⟨hrunning, status, hreaps, hreaped⟩
      · rw [hsame] at hafter
        exact absurd hafter hbefore
      · have hzero := (congrArg Child.exitCode hreaped).symm.trans hafter.2
        refine .inr ⟨pre, input, post, heq, hrunning, ?_⟩
        refine returns_of_reaps ?_ hrunning (hknown pre input post heq)
          (hdecoded input (by rw [heq]; simp)) hreaps hzero
        rw [(hkeeps pre).length]
        exact hi
  · rw [if_neg hdone] at hin
    cases hin

end LocalRunner

/-! ## A local graph -/

/-- Over every run of a graph: a stage counts with 0 only when a call for it said so. -/
theorem DagRunner.success_is_real {capacity : Nat} {r : DagRunner capacity} {p : Pipeline}
    (h : Reachable p r)
    (hdecoded : ∀ i status, .exited i (some status) ∈ r.log → status.Decoded)
    {outcome : Outcome} (htold : .complete outcome ∈ r.log) {i : Nat}
    (hcode : outcome.stageExitCodes[i]? = some 0) : .exited i (some zeroExit) ∈ r.log := by
  obtain ⟨rfl, hover⟩ := h.tells htold
  have hcode : (r.nodes.map (·.exitCode))[i]? = some 0 := hcode
  rw [List.getElem?_map, Option.map_eq_some_iff] at hcode
  obtain ⟨node, hnode, hzero⟩ := hcode
  obtain ⟨hi, hget⟩ := List.getElem?_eq_some_iff.mp hnode
  have hself : r.node i = node := by
    unfold DagRunner.node
    rw [List.getD_eq_getElem _ _ hi, hget]
  obtain ⟨answer, hmem, hexit⟩ := h.settled.reaped i hi (hover.node hi).1
  rw [hself, hzero] at hexit
  cases answer with
  | none =>
    have hunknown : toExitCode ⟨.Exited, 1⟩ ≠ 0 := by decide
    exact absurd hexit.symm hunknown
  | some status =>
    rw [zeroExit_of_code (hdecoded i status hmem) hexit.symm] at hmem
    exact hmem

end psx.pipeline

/-! ## The stages of a node -/

namespace psx.transport.NodeStageRunner

open psx.os (ExitStatus Waits)
open psx.pipeline (toExitCode zeroExit answer_of_code)

variable {r r' : NodeStageRunner} {returned : StreamId → Prop}

/-- Stages that count with 0, and EXITs that say so, are about stages of which `returned` holds. -/
structure Honest (returned : StreamId → Prop) (r : NodeStageRunner) : Prop where
  stages : ∀ id stage, r.stages id = some stage → stage.exited = true →
    toExitCode stage.status = 0 → returned id
  exits : ∀ id status, .exitSent id status ∈ r.log → toExitCode status = 0 → returned id

/-- A change that reaps nothing, and sends no EXIT but that of a stage that was reaped. -/
structure Reports (r r' : NodeStageRunner) : Prop where
  validator : r'.validator = r.validator
  stages : ∀ id stage', r'.stages id = some stage' →
    ∃ stage, r.stages id = some stage ∧ stage'.exited = stage.exited ∧ stage'.status = stage.status
  log : ∀ id status, .exitSent id status ∈ r'.log → .exitSent id status ∈ r.log ∨
    ∃ stage, r.stages id = some stage ∧ stage.exited = true ∧ stage.status = status

theorem Reports.refl (r : NodeStageRunner) : Reports r r :=
  ⟨rfl, fun _ stage h => ⟨stage, h, rfl, rfl⟩, fun _ _ h => .inl h⟩

theorem Reports.trans {a b c : NodeStageRunner} (h : Reports a b) (h' : Reports b c) :
    Reports a c := by
  refine ⟨h'.validator.trans h.validator, fun id stage hstage => ?_, fun id status hsent => ?_⟩
  · obtain ⟨middle, hmiddle, hexited, hstatus⟩ := h'.stages id stage hstage
    obtain ⟨first, hfirst, hexited', hstatus'⟩ := h.stages id middle hmiddle
    exact ⟨first, hfirst, hexited.trans hexited', hstatus.trans hstatus'⟩
  · rcases h'.log id status hsent with hold | ⟨middle, hmiddle, hexited, hstatus⟩
    · exact h.log id status hold
    · obtain ⟨first, hfirst, hexited', hstatus'⟩ := h.stages id middle hmiddle
      exact .inr ⟨first, hfirst, hexited'.symm.trans hexited, hstatus'.symm.trans hstatus⟩

theorem Honest.reports (h : Honest returned r) (hreports : Reports r r') : Honest returned r' := by
  refine ⟨fun id stage hstage hexited hcode => ?_, fun id status hsent hcode => ?_⟩
  · obtain ⟨first, hfirst, hsame, hstatus⟩ := hreports.stages id stage hstage
    exact h.stages id first hfirst (hsame.symm.trans hexited) (hstatus ▸ hcode)
  · rcases hreports.log id status hsent with hold | ⟨first, hfirst, hexited, rfl⟩
    · exact h.exits id status hold hcode
    · exact h.stages id first hfirst hexited hcode

theorem Honest.mono {returned' : StreamId → Prop} (h : Honest returned r)
    (hsub : ∀ id, returned id → returned' id) : Honest returned' r :=
  ⟨fun id stage hstage hexited hcode => hsub id (h.stages id stage hstage hexited hcode),
    fun id status hsent hcode => hsub id (h.exits id status hsent hcode)⟩

/-- What is noted, and what the session does. -/
theorem reports_note {events : List Event} (hstages : r'.stages = r.stages)
    (hvalidator : r'.validator = r.validator) (hlog : r'.log = r.log ++ events)
    (hevents : ∀ id status, .exitSent id status ∉ events) : Reports r r' := by
  refine ⟨hvalidator, fun id stage hstage => ⟨stage, hstages ▸ hstage, rfl, rfl⟩,
    fun id status hsent => .inl ?_⟩
  rw [hlog] at hsent
  exact (List.mem_append.mp hsent).resolve_right (hevents id status)

/-- The entry of a stage, put back with other pipes. -/
theorem reports_setStage {id : StreamId} {stage stage' : Stage} (hstage : r.stages id = some stage)
    (hexited : stage'.exited = stage.exited) (hstatus : stage'.status = stage.status) :
    Reports r (r.setStage id (some stage')) := by
  refine ⟨rfl, fun j other hother => ?_, fun j status hsent => .inl hsent⟩
  simp only [setStage, Function.update_apply] at hother
  split_ifs at hother with hj
  · rw [hj]
    obtain rfl : stage' = other := Option.some.inj hother
    exact ⟨stage, hstage, hexited, hstatus⟩
  · exact ⟨other, hother, rfl, rfl⟩

theorem not_exit {events : List psx.transport.Event} (id : StreamId) (status : ExitStatus) :
    .exitSent id status ∉ events.map Event.session := by
  simp

theorem reports_finishIfDone (r : NodeStageRunner) (id : StreamId) :
    Reports r (r.finishIfDone id) := by
  unfold finishIfDone
  split
  · exact .refl r
  · rename_i stage hstage
    split_ifs with hdone
    · have hexited : stage.exited = true := by
        unfold Stage.done at hdone
        simp only [Bool.and_eq_true] at hdone
        exact hdone.1.1
      refine ⟨rfl, fun j other hother => ?_, fun j status hsent => ?_⟩
      · simp only [setStage, sendExit, note, Function.update_apply] at hother
        split_ifs at hother with hj
        exact ⟨other, hother, rfl, rfl⟩
      · simp only [setStage, sendExit, note, List.mem_append, List.mem_cons] at hsent
        rcases hsent with hold | hnew | hsession
        · exact .inl hold
        · obtain ⟨rfl, rfl⟩ := Event.exitSent.inj hnew
          exact .inr ⟨stage, hstage, hexited, rfl⟩
        · exact absurd hsession (not_exit j status)
    · exact .refl r

theorem reports_closeReader (r : NodeStageRunner) (id : StreamId) (channel : Channel) :
    Reports r (r.closeReader id channel) := by
  unfold closeReader
  split
  · exact .refl r
  · rename_i stage hstage
    split_ifs
    · refine (reports_setStage hstage ?_ ?_).trans (reports_note rfl rfl rfl (by simp))
      · cases channel <;> rfl
      · cases channel <;> rfl
    · exact .refl r

theorem reports_pause (r : NodeStageRunner) (id : StreamId) : Reports r (r.pause id) := by
  unfold pause
  split
  · exact .refl r
  · rename_i stage hstage
    exact reports_setStage hstage rfl rfl

variable {resume : NodeStageRunner → StreamId → NodeStageRunner}

theorem reports_sendData (hresume : ∀ r id, Reports r (resume r id)) (r : NodeStageRunner)
    (id : StreamId) (bytes : Bytes) (channel : Channel) :
    Reports r (r.sendData resume id bytes channel) := by
  unfold sendData
  dsimp only
  have hsent : Reports r ({ r with session := (r.session.sendData id bytes false channel).1 }.note
      (.handed id channel bytes :: (r.session.sendData id bytes false channel).2.map .session)) :=
    reports_note rfl rfl rfl (by simp)
  split_ifs
  · exact hsent.trans (hresume _ id)
  · exact hsent

theorem reports_readLoop (hresume : ∀ r id, Reports r (resume r id)) (id : StreamId)
    (channel : Channel) (reads : List (Result Chunk)) (r : NodeStageRunner) :
    Reports r (readLoop resume id channel reads r) := by
  have hclosed : ∀ r : NodeStageRunner, Reports r ((r.closeReader id channel).finishIfDone id) :=
    fun r => (reports_closeReader r id channel).trans (reports_finishIfDone _ id)
  induction reads generalizing r with
  | nil =>
    unfold readLoop
    split_ifs
    · exact reports_finishIfDone r id
    · exact reports_pause r id
  | cons got reads ih =>
    unfold readLoop
    split_ifs
    · split
      · split_ifs
        · exact hclosed r
        · refine Reports.trans ?_ (ih _)
          refine Reports.trans ?_ (reports_sendData hresume _ id _ channel)
          exact reports_note rfl rfl rfl (by simp)
      · split_ifs
        · exact reports_finishIfDone r id
        · exact hclosed r
    · exact reports_pause r id

theorem reports_onReadable (hresume : ∀ r id, Reports r (resume r id))
    (reads : Channel → List (Result Chunk)) (r : NodeStageRunner) (id : StreamId)
    (channel : Channel) : Reports r (r.onReadable resume reads id channel) := by
  unfold onReadable
  split
  · exact .refl r
  · exact reports_readLoop hresume id channel _ r

theorem reports_resumeReads (reads : Channel → List (Result Chunk)) (depth : Nat)
    (r : NodeStageRunner) (id : StreamId) : Reports r (resumeReads reads depth r id) := by
  induction depth generalizing r id with
  | zero => exact .refl r
  | succ depth ih =>
    unfold resumeReads
    split
    · exact .refl r
    · rename_i stage hstage
      split_ifs
      · refine Reports.trans ?_ (reports_onReadable ih reads _ id .Stderr)
        refine Reports.trans ?_ (reports_onReadable ih reads _ id .Stdout)
        refine (reports_setStage hstage ?_ ?_).trans (reports_note rfl rfl rfl (by simp))
        · rfl
        · rfl
      · exact .refl r

/-- The write loop puts the stage back that it was given. -/
theorem reports_drainStdin (id : StreamId) (writes : List (Result Nat)) {before stage : Stage}
    (hstage : r.stages id = some before) (hexited : stage.exited = before.exited)
    (hstatus : stage.status = before.status) : Reports r (drainStdin id writes stage r) := by
  have hconsume : ∀ (r : NodeStageRunner) (e : Event) (n : UInt32),
      (∀ id status, .exitSent id status ∉ [e]) → Reports r ((r.note [e]).consume id n) := by
    intro r e n he
    have hnoted : Reports r (r.note [e]) := reports_note rfl rfl rfl he
    exact hnoted.trans (reports_note rfl rfl rfl (by simp))
  have hrearm : ∀ stage : Stage, stage.rearmStdin.exited = stage.exited ∧
      stage.rearmStdin.status = stage.status := by
    intro stage
    unfold Stage.rearmStdin
    split_ifs
    all_goals exact ⟨rfl, rfl⟩
  induction writes generalizing r stage with
  | nil =>
    obtain ⟨hsame, hkept⟩ := hrearm stage
    exact reports_setStage hstage (hsame.trans hexited) (hkept.trans hstatus)
  | cons write writes ih =>
    obtain ⟨hsame, hkept⟩ := hrearm stage
    have hrearmed : Reports r (r.setStage id stage.rearmStdin) :=
      reports_setStage hstage (hsame.trans hexited) (hkept.trans hstatus)
    unfold drainStdin
    split_ifs
    · split
      · split_ifs
        · refine Reports.trans ?_ (ih hstage hexited hstatus)
          exact hconsume r _ _ (by simp)
        · exact hrearmed
      · split_ifs
        · exact hrearmed
        · have hdropped := hconsume r (.dropped id stage.stdinBuffer)
            (.ofNat stage.stdinBuffer.length) (by simp)
          exact hdropped.trans (reports_setStage hstage hexited hstatus)
    · exact hrearmed

theorem reports_onData (writes : List (Result Nat)) (r : NodeStageRunner) (id : StreamId)
    (bytes : Bytes) (endStream : Bool) : Reports r (r.onData writes id bytes endStream) := by
  unfold onData
  split
  · exact .refl r
  · rename_i stage hstage
    exact reports_drainStdin id writes hstage rfl rfl

theorem reports_onStdinWritable (writes : List (Result Nat)) (r : NodeStageRunner) (id : StreamId) :
    Reports r (r.onStdinWritable writes id) := by
  unfold onStdinWritable
  split
  · exact .refl r
  · rename_i stage hstage
    exact reports_drainStdin id writes hstage rfl rfl

/-! ### A child that is reaped -/

/-- A stage whose exit is notified, and whose status was not had before, gives it now. -/
theorem Honest.onStageExit (h : Honest returned r) (id : StreamId) {waits : Waits}
    (hdecoded : waits.Decoded)
    (hknown : ∀ stage, r.stages id = some stage → stage.exited = false → waits.answer ≠ none)
    (hreturned : r.stages id ≠ none → waits.answer = some zeroExit → returned id) :
    Honest returned (r.onStageExit id waits) := by
  unfold NodeStageRunner.onStageExit
  split
  · exact h
  · rename_i stage hstage
    dsimp only
    refine Honest.reports ?_ (reports_finishIfDone _ id)
    refine ⟨fun j other hother hexited hcode => ?_, fun j status hsent hcode => ?_⟩
    · simp only [note, setStage, Function.update_apply] at hother
      split_ifs at hother with hj
      · subst hj
        obtain rfl := Option.some.inj hother
        dsimp only at hcode
        by_cases hsome : waits.answer = none
        · -- the status is the one that the stage had: only a stage that was reaped before may
          -- keep it
          have hbefore : stage.exited = true := by
            by_contra hrunning
            exact hknown stage hstage (by simpa using hrunning) hsome
          rw [waits.status_eq, hsome, Option.getD_none] at hcode
          exact h.stages j stage hstage hbefore hcode
        · exact hreturned (by simp [hstage]) (answer_of_code hdecoded hsome hcode)
      · exact h.stages j other hother hexited hcode
    · refine h.exits j status ?_ hcode
      simpa [note, setStage] using hsent

/-- The child of a stage that starts is gone before it is watched. -/
def Launch.Gone (launch : Launch) : Prop :=
  ∃ e, launch.watchChild = .error e ∧ e.cls = .NoSuchProcess

theorem Honest.arm (h : Honest returned r) (id : StreamId) {launch : Launch} {stage : Stage}
    (hstage : stage = (r.stages id).getD {}) (hdecoded : launch.waits.Decoded)
    (hknown : launch.Gone → launch.waits.answer ≠ none)
    (hreturned : launch.Gone → launch.waits.answer = some zeroExit → returned id) :
    Honest returned (r.arm launch id stage) := by
  have harmed : Honest returned (r.setStage id (some (launch.armed stage))) := by
    refine ⟨fun j other hother hexited hcode => ?_, fun j status hsent => h.exits j status hsent⟩
    simp only [setStage, Function.update_apply] at hother
    split_ifs at hother with hj
    · subst hj
      obtain rfl := Option.some.inj hother
      cases hentry : r.stages j with
      | none =>
        rw [hstage, hentry] at hexited
        exact absurd hexited Bool.false_ne_true
      | some old =>
        rw [hentry, Option.getD_some] at hstage
        subst hstage
        exact h.stages j stage hentry hexited hcode
    · exact h.stages j other hother hexited hcode
  unfold NodeStageRunner.arm
  dsimp only
  split
  · exact harmed
  · rename_i e herror
    split_ifs with hgone
    · have hgone : launch.Gone := ⟨e, herror, hgone⟩
      exact harmed.onStageExit id hdecoded (fun _ _ _ => hknown hgone) fun _ => hreturned hgone
    · exact harmed

/-! ### Frames -/

/-- A request for which a process is started. -/
def Launches (validator : Option (OpenRequest → Option Bytes)) (launch : Launch)
    (request : OpenRequest) : Prop :=
  request.argv ≠ [] ∧ (validator.bind fun validator => validator request) = none ∧
    launch.stdoutPipe = .ok () ∧ launch.stderrPipe = .ok () ∧ launch.stdinPipe = .ok () ∧
    launch.process = .ok ()

theorem Honest.refuse (h : Honest returned r) (id : StreamId) {status : ExitStatus}
    (hcode : toExitCode status ≠ 0) : Honest returned (r.sendExit id status) := by
  refine ⟨h.stages, fun j sent hsent hzero => ?_⟩
  simp only [sendExit, note, List.mem_append, List.mem_cons] at hsent
  rcases hsent with hold | hnew | hsession
  · exact h.exits j sent hold hzero
  · obtain ⟨-, rfl⟩ := Event.exitSent.inj hnew
    exact absurd hzero hcode
  · exact absurd hsession (not_exit j sent)

theorem Honest.onOpen (h : Honest returned r) (hresume : ∀ r id, Reports r (resume r id))
    {launch : Launch} (id : StreamId) (request : OpenRequest) (hdecoded : launch.waits.Decoded)
    (hknown : Launches r.validator launch request → launch.Gone → launch.waits.answer ≠ none)
    (hreturned : Launches r.validator launch request → launch.Gone →
      launch.waits.answer = some zeroExit → returned id) :
    Honest returned (r.onOpen resume launch id request) := by
  have hrefused : toExitCode ⟨.Exited, 127⟩ ≠ 0 := by decide
  have hrejected : toExitCode ⟨.Exited, 126⟩ ≠ 0 := by decide
  unfold NodeStageRunner.onOpen
  by_cases hargv : request.argv = []
  · rw [if_pos hargv]
    exact h.refuse id hrefused
  · rw [if_neg hargv]
    split
    · exact (h.reports (reports_sendData hresume r id _ .Stderr)).refuse id hrejected
    · rename_i hvalid
      by_cases hpipes : launch.stdoutPipe ≠ .ok () ∨ launch.stderrPipe ≠ .ok () ∨
          launch.stdinPipe ≠ .ok ()
      · rw [if_pos hpipes]
        exact h.refuse id hrefused
      · rw [if_neg hpipes]
        by_cases hprocess : launch.process ≠ .ok ()
        · rw [if_pos hprocess]
          exact h.refuse id hrefused
        · rw [if_neg hprocess]
          push Not at hpipes hprocess
          have hlaunches : Launches r.validator launch request :=
            ⟨hargv, hvalid, hpipes.1, hpipes.2.1, hpipes.2.2, hprocess⟩
          have hstarted : Honest returned (r.note [.started id request]) :=
            h.reports (reports_note rfl rfl rfl (by simp))
          exact hstarted.arm id rfl hdecoded (hknown hlaunches) (hreturned hlaunches)

theorem validator_called (depth : Nat) (answers : Answers) (r : NodeStageRunner)
    (e : psx.transport.Event) : (called depth answers r e).validator = r.validator := by
  have hexit : ∀ (r : NodeStageRunner) id waits,
      (r.onStageExit id waits).validator = r.validator := by
    intro r id waits
    unfold NodeStageRunner.onStageExit
    split
    · rfl
    · exact (reports_finishIfDone _ id).validator
  have hresume := fun r id => reports_resumeReads answers.reads (depth + 1) r id
  cases e with
  | onOpen id request =>
    unfold called NodeStageRunner.onOpen
    dsimp only
    cases r.validator.bind fun validator => validator request with
    | some reason =>
      dsimp only
      split_ifs
      · rfl
      · exact (reports_sendData hresume r id _ .Stderr).validator
    | none =>
      dsimp only
      split_ifs
      · rfl
      · rfl
      · rfl
      · unfold NodeStageRunner.arm
        dsimp only
        split
        · rfl
        · split_ifs
          · exact hexit _ id _
          · rfl
  | onData id bytes endStream channel =>
    exact (reports_onData answers.writes r id bytes endStream).validator
  | onStreamWritable id => exact (hresume r id).validator
  | _ => rfl

/-- A frame opens stream `id` with a process for it. -/
def Starts (r : NodeStageRunner) (frame : Frame) (launch : Launch) (id : StreamId) : Prop :=
  r.session.protocolFailed = false ∧ ∃ session events request,
    r.session.dispatch frame = .ok (session, events) ∧ .onOpen id request ∈ events ∧
      Launches r.validator launch request

theorem Honest.dispatch (h : Honest returned r) (depth : Nat) {answers : Answers} {frame : Frame}
    (hdecoded : answers.launch.waits.Decoded)
    (hknown : ∀ id, r.Starts frame answers.launch id → answers.launch.Gone →
      answers.launch.waits.answer ≠ none)
    (hreturned : ∀ id, r.Starts frame answers.launch id → answers.launch.Gone →
      answers.launch.waits.answer = some zeroExit → returned id) :
    Honest returned (r.dispatch depth answers frame) := by
  unfold NodeStageRunner.dispatch
  by_cases hfailed : r.session.protocolFailed = true
  · rw [if_pos hfailed]
    exact h
  · rw [if_neg hfailed]
    cases hdispatch : r.session.dispatch frame with
    | error e => exact h.reports (reports_note rfl rfl (List.append_nil _).symm (by simp))
    | ok taken =>
      obtain ⟨session, events⟩ := taken
      dsimp only
      have htook : Honest returned
          ({ r with session }.note (.session (.got frame) :: events.map .session)) :=
        h.reports (reports_note rfl rfl rfl (by simp))
      have hresume := fun r id => reports_resumeReads answers.reads (depth + 1) r id
      refine (Trace.foldl_induction
        (P := fun s : NodeStageRunner => Honest returned s ∧ s.validator = r.validator)
        ⟨htook, rfl⟩ fun pre e post heq hpre => ?_).1
      obtain ⟨hpre, hvalidator⟩ := hpre
      refine ⟨?_, (validator_called depth answers _ e).trans hvalidator⟩
      cases e with
      | onOpen id request =>
        have hstarts : Launches r.validator answers.launch request →
            r.Starts frame answers.launch id := fun hlaunches =>
          ⟨by simpa using hfailed, session, events, request, hdispatch,
            by rw [heq]; simp, hlaunches⟩
        refine hpre.onOpen hresume id request hdecoded ?_ ?_
        · rw [hvalidator]
          exact fun hlaunches => hknown id (hstarts hlaunches)
        · rw [hvalidator]
          exact fun hlaunches => hreturned id (hstarts hlaunches)
      | onData id bytes endStream channel =>
        exact hpre.reports (reports_onData answers.writes _ id bytes endStream)
      | onStreamWritable id => exact hpre.reports (hresume _ id)
      | _ => exact hpre

/-! ### Runs -/

/-- An exit that the runner hears of for a stage whose status it does not have. -/
def Known (r : NodeStageRunner) : Input → Prop
  | .stageExit id waits =>
    ∀ stage, r.stages id = some stage → stage.exited = false → waits.answer ≠ none
  | .frame frame answers =>
    (∃ id, r.Starts frame answers.launch id) → answers.launch.Gone →
      answers.launch.waits.answer ≠ none
  | _ => True

/-- One of the two calls for stage `id` returned `status`. -/
def Returns (r : NodeStageRunner) (id : StreamId) (status : ExitStatus) : Input → Prop
  | .stageExit exited waits => exited = id ∧ r.stages id ≠ none ∧ waits.answer = some status
  | .frame frame answers =>
    r.Starts frame answers.launch id ∧ answers.launch.Gone ∧
      answers.launch.waits.answer = some status
  | _ => False

/-- The statuses of a step come from the kernel. -/
def Input.Decoded : Input → Prop
  | .stageExit _ waits => waits.Decoded
  | .frame _ answers => answers.launch.waits.Decoded
  | _ => True

theorem Honest.step (h : Honest returned r) (depth : Nat) {input : Input}
    (hdecoded : input.Decoded) (hknown : r.Known input) :
    Honest (fun id => returned id ∨ r.Returns id zeroExit input) (r.step depth input) := by
  have hmore : Honest (fun id => returned id ∨ r.Returns id zeroExit input) r :=
    h.mono fun id => .inl
  have hresume : ∀ answers : Answers, ∀ r id,
      Reports r (NodeStageRunner.resume depth answers r id) :=
    fun answers r id => reports_resumeReads answers.reads (depth + 1) r id
  cases input with
  | frame frame answers =>
    exact hmore.dispatch depth hdecoded (fun id hstarts => hknown ⟨id, hstarts⟩)
      fun id hstarts hgone hanswer => .inr ⟨hstarts, hgone, hanswer⟩
  | readable id channel answers =>
    exact hmore.reports (reports_onReadable (hresume answers) answers.reads r id channel)
  | stdinWritable id writes => exact hmore.reports (reports_onStdinWritable writes r id)
  | stageExit id waits =>
    exact hmore.onStageExit id hdecoded hknown fun hstage hanswer => .inr ⟨rfl, hstage, hanswer⟩
  | ping => exact hmore.reports (reports_note rfl rfl rfl (by simp))
  | malformed => exact hmore.reports (reports_note rfl rfl (List.append_nil _).symm (by simp))

/-- Over every run of a node: a stage counts with 0 only when a call for it said so, if no exit is
heard of about which both calls say nothing. -/
theorem success_is_real (depth : Nat) (W : UInt32)
    (validator : Option (OpenRequest → Option Bytes)) (inputs : List Input)
    (hdecoded : ∀ input ∈ inputs, input.Decoded)
    (hknown : ∀ pre input post, inputs = pre ++ input :: post →
      (history depth W validator pre).Known input)
    {id : StreamId} {status : ExitStatus}
    (hsent : .exitSent id status ∈ (history depth W validator inputs).log)
    (hcode : toExitCode status = 0) :
    ∃ pre input post, inputs = pre ++ input :: post ∧
      (history depth W validator pre).Returns id zeroExit input := by
  have hnew : Honest (fun _ => False) (new W validator) :=
    ⟨fun id stage hstage => by simp [new] at hstage, fun id status hin => by simp [new] at hin⟩
  have hrun : Honest (fun id => ∃ pre input post, inputs = pre ++ input :: post ∧
      (history depth W validator pre).Returns id zeroExit input)
        (history depth W validator inputs) :=
    Trace.foldl_induction (hnew.mono fun id h => h.elim) fun pre input post heq h =>
      (h.step depth (hdecoded input (by rw [heq]; simp)) (hknown pre input post heq)).mono
        fun id hid => hid.elim (fun h => h) fun h => ⟨pre, input, post, heq, h⟩
  exact hrun.exits id status hsent hcode

end psx.transport.NodeStageRunner

/-! ## The three runners -/

namespace psx.pipeline

open psx.os (ExitStatus Waits)
open psx.transport (NodeStageRunner StreamId encodeOpen)

/-- A stage counts with 0 only when a call for it returned an exit with 0: in every run of a graph,
and in every run of a chain or of a node in which no exit is heard of about which both calls say
nothing. -/
theorem success_is_a_real_zero_exit (launch : LocalRunner.Launch) (onOutput externalStdin : Bool)
    (stages : List Stage) (capacity : Nat) (p : Pipeline) (depth : Nat) (W : UInt32)
    (validator : Option (psx.transport.OpenRequest → Option Bytes)) :
    (∀ (r : LocalRunner) (inputs : List LocalRunner.Input),
      LocalRunner.run launch { onOutput } stages true externalStdin = (r, .ok ()) →
      (∀ i < stages.length, launch.Gone i → (launch.waits i).answer ≠ none) →
      (∀ pre input post, inputs = pre ++ input :: post →
        (pre.foldl LocalRunner.step r).Known input) →
      (∀ i, (launch.waits i).Decoded) → (∀ input ∈ inputs, input.Decoded) →
      ∀ outcome, .complete outcome ∈ (inputs.foldl LocalRunner.step r).log →
        ∀ i : Nat, outcome.stageExitCodes[i]? = some 0 →
          launch.Returns i zeroExit ∨
            ∃ pre input post, inputs = pre ++ input :: post ∧
              ((pre.foldl LocalRunner.step r).child i).exited = false ∧
              input.Returns i zeroExit) ∧
    (∀ r : DagRunner capacity, DagRunner.Reachable p r →
      (∀ i status, .exited i (some status) ∈ r.log → status.Decoded) →
      ∀ outcome, .complete outcome ∈ r.log →
        ∀ i : Nat, outcome.stageExitCodes[i]? = some 0 → .exited i (some zeroExit) ∈ r.log) ∧
    (∀ inputs : List NodeStageRunner.Input, (∀ input ∈ inputs, input.Decoded) →
      (∀ pre input post, inputs = pre ++ input :: post →
        (NodeStageRunner.history depth W validator pre).Known input) →
      ∀ (id : StreamId) (status : ExitStatus),
        .exitSent id status ∈ (NodeStageRunner.history depth W validator inputs).log →
        toExitCode status = 0 →
          ∃ pre input post, inputs = pre ++ input :: post ∧
            (NodeStageRunner.history depth W validator pre).Returns id zeroExit input) :=
  ⟨fun _ inputs hrun hlaunch hknown hwaits hdecoded _ htold _ hcode =>
      LocalRunner.success_is_real hrun inputs hlaunch hknown hwaits hdecoded htold hcode,
    fun _ h hdecoded _ htold _ hcode => DagRunner.success_is_real h hdecoded htold hcode,
    fun inputs hdecoded hknown _ _ hsent hcode =>
      NodeStageRunner.success_is_real depth W validator inputs hdecoded hknown hsent hcode⟩

/-! ### A stage of each that exits with 0 -/

/-- A child that has exited with 0. -/
def somebody : Waits := ⟨.ok (some zeroExit), .ok zeroExit⟩

theorem decoded_zeroExit : zeroExit.Decoded := ⟨0, by decide⟩

theorem decoded_somebody : somebody.Decoded := fun _ h => Option.some.inj h ▸ decoded_zeroExit

/-- The child exits, and its output ends. -/
def knownExit : List LocalRunner.Input :=
  [.childExit 0 somebody, .finalReadable true true [{ result := .ok [] }]]

/-- A graph of one stage, its start, and its run. -/
def single : Pipeline := { stages := [{ id := "a", argv := [[104]] }], edges := [] }

/-- Everything starts. -/
def singleLaunch : DagRunner.Launch where
  setup := .ok ()
  childWatched _ := .ok ()
  waits _ := somebody

/-- A graph of one stage, whose exit is known. -/
def singleRun : DagRunner 1 :=
  ((({} : DagRunner 1).run singleLaunch single true).1.step (.readable 0 [.ok []] [])).step
    (.childExit 0 somebody)

/-- A stage on a node, whose exit is known. -/
def knownStage : List NodeStageRunner.Input :=
  [.frame ⟨.Open, 0, 1, encodeOpen ⟨[[97]], []⟩⟩ {}, .stageExit 1 somebody,
    .readable 1 .Stdout { reads := fun _ => [.ok ⟨[], Nat.zero_le _⟩] },
    .readable 1 .Stderr { reads := fun _ => [.ok ⟨[], Nat.zero_le _⟩] }]

theorem reachable_singleRun : DagRunner.Reachable single singleRun := by
  have hok : (({} : DagRunner 1).run singleLaunch single true).2 = .ok () := by decide
  have hrun : ({ onOutput := false } : DagRunner 1).run singleLaunch single true =
      ((({} : DagRunner 1).run singleLaunch single true).1, .ok ()) := Prod.ext rfl hok
  refine .step _ (.step _ (.run hrun) ?_) ?_
  · change ((({} : DagRunner 1).run singleLaunch single true).1.node 0).stdoutWatch ≠ none
    decide
  · change (((({} : DagRunner 1).run singleLaunch single true).1.step
      (.readable 0 [.ok []] [])).node 0).childWatched = true
    decide

theorem a_zero_exit_is_success :
    (∃ input ∈ knownExit, input.Returns 0 zeroExit) ∧
      .exited 0 (some zeroExit) ∈ singleRun.log ∧
      ∃ input ∈ knownStage, ∃ r : NodeStageRunner, r.Returns 1 zeroExit input := by
  obtain ⟨hlocal, hdag, hnode⟩ := success_is_a_real_zero_exit LocalRunner.calmLaunch false true
    [{ argv := [[104]] }] 1 single 0 4 none
  refine ⟨?_, ?_, ?_⟩
  · have h :=
      hlocal LocalRunner.calm knownExit rfl (fun i _ ⟨e, herror, _⟩ => absurd herror nofun)
        (fun pre input post heq => ?_)
      (fun i status hanswer => ?_) (fun input hinput => ?_) ⟨0, [0]⟩ (by decide) 0 rfl
    · rcases h with ⟨⟨e, herror, -⟩, -⟩ | ⟨pre, input, post, heq, -, hreturns⟩
      · cases herror
      · exact ⟨input, by rw [heq]; simp, hreturns⟩
    · have hin : input ∈ knownExit := by rw [heq]; simp
      simp only [knownExit, List.mem_cons, List.not_mem_nil, or_false] at hin
      rcases hin with rfl | rfl
      · exact fun _ _ => nofun
      · trivial
    · exact Option.some.inj hanswer ▸ decoded_zeroExit
    · simp only [knownExit, List.mem_cons, List.not_mem_nil, or_false] at hinput
      rcases hinput with rfl | rfl
      · exact fun i status hreturns => decoded_somebody status hreturns.2
      · rintro i status ⟨read, hread, wait, hcancel, -⟩
        rw [List.mem_singleton.mp hread] at hcancel
        cases hcancel
  · have hlog : singleRun.log = [.closedStdout 0, .exited 0 (some zeroExit),
        .complete ⟨0, [0], ["a"]⟩] := by decide
    refine hdag singleRun reachable_singleRun (fun i status hmem => ?_) ⟨0, [0], ["a"]⟩ ?_ 0 rfl
    · rw [hlog] at hmem
      simp only [List.mem_cons, List.not_mem_nil, or_false, reduceCtorEq, false_or,
        DagRunner.Event.exited.injEq, Option.some.injEq] at hmem
      exact hmem.2 ▸ decoded_zeroExit
    · rw [hlog]
      simp
  · have h := hnode knownStage (fun input hinput => ?_) (fun pre input post heq => ?_) 1
      zeroExit (by decide) (by decide)
    · obtain ⟨pre, input, post, heq, hreturns⟩ := h
      exact ⟨input, by rw [heq]; simp, _, hreturns⟩
    · simp only [knownStage, List.mem_cons, List.not_mem_nil, or_false] at hinput
      rcases hinput with rfl | rfl | rfl | rfl
      · exact fun status hanswer => Option.some.inj hanswer ▸ decoded_zeroExit
      · exact decoded_somebody
      · trivial
      · trivial
    · have hin : input ∈ knownStage := by rw [heq]; simp
      simp only [knownStage, List.mem_cons, List.not_mem_nil, or_false] at hin
      rcases hin with rfl | rfl | rfl | rfl
      · rintro - ⟨e, herror, -⟩
        cases herror
      · exact fun _ _ _ => nofun
      · trivial
      · trivial

/-! ### An exit of which both calls say nothing -/

/-- The child was reaped by somebody else. -/
def nobody : Waits :=
  ⟨.error ⟨.NoSuchProcess, 10, "waitpid"⟩, .error ⟨.NoSuchProcess, 10, "waitpid"⟩⟩

/-- The child exits, but its status cannot be had. -/
def unknownExit : List LocalRunner.Input :=
  [.childExit 0 nobody, .finalReadable true true [{ result := .ok [] }]]

/-- A stage on a node, whose status cannot be had. -/
def unknownStage : List NodeStageRunner.Input :=
  [.frame ⟨.Open, 0, 1, encodeOpen ⟨[[97]], []⟩⟩ {}, .stageExit 1 nobody,
    .readable 1 .Stdout { reads := fun _ => [.ok ⟨[], Nat.zero_le _⟩] },
    .readable 1 .Stderr { reads := fun _ => [.ok ⟨[], Nat.zero_le _⟩] }]

/-- It counts as success, in a chain and in a node, though no call returned anything. -/
theorem an_unknown_exit_counts_as_success :
    (LocalRunner.run LocalRunner.calmLaunch {} [{ argv := [[104]] }] true true =
        (LocalRunner.calm, .ok ()) ∧
      (∀ input ∈ unknownExit, ∀ i status, ¬ input.Returns i status) ∧
      (unknownExit.foldl LocalRunner.step LocalRunner.calm).log.filterMap LocalRunner.Event.told =
        [⟨0, [0]⟩]) ∧
    ((∀ pre input post, unknownStage = pre ++ input :: post → ∀ id status,
        ¬ (NodeStageRunner.history 0 4 none pre).Returns id status input) ∧
      .exitSent 1 zeroExit ∈ (NodeStageRunner.history 0 4 none unknownStage).log) := by
  refine ⟨⟨rfl, ?_, by decide⟩, fun pre input post heq id status hreturns => ?_, by decide⟩
  · simp [unknownExit, LocalRunner.Input.Returns, nobody, Waits.answer]
  · have hin : input ∈ unknownStage := by rw [heq]; simp
    simp only [unknownStage, List.mem_cons, List.not_mem_nil, or_false] at hin
    rcases hin with rfl | rfl | rfl | rfl
    · obtain ⟨-, ⟨e, herror, -⟩, -⟩ := hreturns
      cases herror
    · exact absurd hreturns.2.2 nofun
    · exact hreturns
    · exact hreturns

end psx.pipeline
