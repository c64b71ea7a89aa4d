-- A staged rollout (canary_controller.cpp): the command runs on the canary targets, and on the
-- others only if every canary host succeeded. Each wave is a controller of its own; what the
-- network does to the launches of a wave is a parameter.
import PipeShellX.Transport.NativeControllerRuns

namespace psx.transport

open NativeController (HostResult Launch Target)

/-- The results that a controller handed over so far. -/
def NativeController.completions (c : NativeController) : List (List HostResult) :=
  c.log.filterMap fun
    | .complete results => some results
    | _ => none

/-- A controller for the canaries and one for the others. -/
structure CanaryController where
  onComplete : Bool := false
  restTargets : List Target := []
  command : List Bytes := []
  canaryResults : List HostResult := []
  canary : Option NativeController := none
  rest : Option NativeController := none
  done : Bool := false
  /-- The calls of `onComplete`. -/
  log : List (List HostResult) := []

namespace CanaryController

/-- What the network does to the launches of the two waves. -/
structure Networks where
  canary : Nat → Launch
  rest : Nat → Launch

/-- The results are handed over, once. -/
def finish (c : CanaryController) (results : List HostResult) : CanaryController :=
  if c.done then c
  else
    let c := { c with done := true }
    if c.onComplete then { c with onComplete := false, log := c.log ++ [results] } else c

/-- The others are done. -/
def onRestDone (c : CanaryController) (results : List HostResult) : CanaryController :=
  if c.done then c
  else { c with canaryResults := [] }.finish (c.canaryResults ++ results)

/-- The controller of a wave did something: what it handed over since then goes to `callback`. -/
def handOver (callback : CanaryController → List HostResult → CanaryController)
    (before after : NativeController) (c : CanaryController) : CanaryController :=
  (after.completions.drop before.completions.length).foldl callback c

/-- The host did well. -/
def succeeded (result : HostResult) : Bool :=
  result.ok && result.exitCode = 0 && result.error = ""

/-- The result of a host that was not run. -/
def skipped (target : Target) : HostResult :=
  { host := target.host, error := "skipped: canary failed" }

/-- The result of the second start is not looked at. -/
def onCanaryDone (networks : Networks) (c : CanaryController) (results : List HostResult) :
    CanaryController :=
  if c.done then c
  else
    let c := { c with canaryResults := results }
    let allOk := c.canaryResults.all succeeded
    if allOk ∧ c.restTargets ≠ [] then
      let rest := (({} : NativeController).start networks.rest c.restTargets c.command true {}).1
      handOver onRestDone {} rest { c with rest := some rest }
    else
      let combined :=
        c.canaryResults ++ if allOk then [] else c.restTargets.map skipped
      { c with canaryResults := [] }.finish combined

/-- `canaryCount`, clamped to the targets. -/
def canaries (targets : List Target) (canaryCount : Nat) : Nat :=
  max 1 (min canaryCount targets.length)

/-- The canaries are started. -/
def start (networks : Networks) (c : CanaryController) (targets : List Target) (canaryCount : Nat)
    (command : List Bytes) (onComplete : Bool) : CanaryController × Result Unit :=
  let c := { c with onComplete, command }
  if targets = [] then (c.finish [], .ok ())
  else
    let c := { c with restTargets := targets.drop (canaries targets canaryCount) }
    let (canary, started) := ({} : NativeController).start networks.canary
      (targets.take (canaries targets canaryCount)) c.command true {}
    (handOver (onCanaryDone networks) {} canary { c with canary := some canary }, started)

/-! ## What can happen -/

/-- What the transports and the timers of a wave report. -/
inductive Report
  | callback (index : Nat) (call : NativeController.Callback)
  | retire (index : Nat)

/-- What a report is for its controller. -/
def Report.input : Report → NativeController.Input
  | .callback index call => .callback index call
  | .retire index => .retire index

/-- A move of the first controller. -/
def stepCanary (networks : Networks) (c : CanaryController) (input : NativeController.Input) :
    CanaryController :=
  match c.canary with
  | none => c
  | some canary =>
    let next := canary.step networks.canary input
    handOver (onCanaryDone networks) canary next { c with canary := some next }

/-- A move of the second controller. -/
def stepRest (networks : Networks) (c : CanaryController) (input : NativeController.Input) :
    CanaryController :=
  match c.rest with
  | none => c
  | some rest =>
    let next := rest.step networks.rest input
    handOver onRestDone rest next { c with rest := some next }

/-- Both controllers are cancelled. -/
def cancel (networks : Networks) (c : CanaryController) (reason : String) : CanaryController :=
  (c.stepCanary networks (.cancel reason .Other)).stepRest networks (.cancel reason .Other)

/-- What happens to a run. -/
inductive Input
  | canary (report : Report)
  | rest (report : Report)
  | cancel (reason : String)

def step (networks : Networks) (c : CanaryController) : Input → CanaryController
  | .canary report => c.stepCanary networks report.input
  | .rest report => c.stepRest networks report.input
  | .cancel reason => c.cancel networks reason

/-! ## The waves -/

section

variable {targets : List Target} {options : NativeController.Options} {onComplete : Bool}
  {w : NativeController}

theorem waiting_completions (h : NativeController.Waiting targets options onComplete w) :
    w.completions = [] := by
  unfold NativeController.completions
  rw [List.filterMap_eq_nil_iff]
  intro e he
  cases e with
  | complete results => exact absurd he (h.live.running.told.quiet results)
  | _ => rfl

theorem completions_length (w : NativeController) :
    w.completions.length = w.log.countP NativeController.Event.isComplete := by
  unfold NativeController.completions
  rw [List.length_filterMap_eq_countP]
  congr 1
  funext e
  cases e <;> rfl

/-- A run that is over handed over one result for each of its targets, in their order. -/
theorem over_completions (h : NativeController.Over targets options true w) :
    ∃ results, w.completions = [results] ∧ results.map (·.host) = targets.map (·.host) := by
  obtain ⟨results, hresults⟩ : ∃ results, w.completions = [results] := by
    rw [← List.length_eq_one_iff, completions_length, h.told]
    rfl
  refine ⟨results, hresults, ?_⟩
  have hmem : results ∈ w.completions := by rw [hresults]; exact List.mem_singleton_self results
  obtain ⟨e, he, heq⟩ := List.mem_filterMap.mp hmem
  cases e with
  | complete told =>
    cases heq
    obtain ⟨pre, post, hlog⟩ := List.append_of_mem he
    obtain ⟨targets', options', onComplete', hbegun, hhosts, -⟩ := h.lawful pre _ post hlog
    obtain ⟨rfl, -, -⟩ := NativeController.same_start h.lawful h.begun
      (by rw [hlog]; exact List.mem_append_left _ hbegun)
    exact hhosts
  | _ => cases heq

/-- What `start` checks of a target. -/
def Valid (target : Target) : Prop := target.host ≠ "" ∧ target.port ≠ 0

instance (target : Target) : Decidable (Valid target) := inferInstanceAs (Decidable (_ ∧ _))

theorem start_cases (network : Nat → Launch) (hempty : targets ≠ []) (command : List Bytes) :
    ((({} : NativeController).start network targets command true {}).2 = .ok () ∧
      (command ≠ [] ∧ command.head? ≠ some []) ∧ (∀ target ∈ targets, Valid target) ∧
      NativeController.Waiting targets {} true
        (({} : NativeController).start network targets command true {}).1) ∨
    ((({} : NativeController).start network targets command true {}).2 ≠ .ok () ∧
      (({} : NativeController).start network targets command true {}).1 = {} ∧
      ¬ ((command ≠ [] ∧ command.head? ≠ some []) ∧ ∀ target ∈ targets, Valid target)) := by
  have hnew : NativeController.Unstarted {} := ⟨rfl, rfl, rfl, rfl, rfl, rfl, by simp⟩
  have hinvalid : (targets.any fun target => target.host = "" || target.port = 0) = true ↔
      ¬ ∀ target ∈ targets, Valid target := by
    simp [Valid, List.any_eq_true]
    constructor
    · rintro ⟨target, hmem, hbad⟩
      exact ⟨target, hmem, fun hhost => hbad.resolve_left hhost⟩
    · rintro ⟨target, hmem, hbad⟩
      exact ⟨target, hmem, Classical.or_iff_not_imp_left.mpr hbad⟩
  unfold NativeController.start
  rw [if_neg (by simp)]
  by_cases hcommand : command = [] ∨ command.head? = some []
  · rw [if_pos hcommand]
    refine .inr ⟨by simp, rfl, fun ⟨⟨h, h'⟩, _⟩ => hcommand.elim h h'⟩
  · rw [if_neg hcommand]
    rw [not_or] at hcommand
    by_cases htargets : (targets.any fun target => target.host = "" || target.port = 0) = true
    · rw [if_pos htargets]
      exact .inr ⟨by simp, rfl, fun ⟨_, hvalid⟩ => hinvalid.mp htargets hvalid⟩
    · rw [if_neg htargets]
      dsimp only
      rw [if_neg hempty]
      refine .inl ⟨rfl, hcommand, not_not.mp (mt hinvalid.mpr htargets), ?_⟩
      exact hnew.begins network hempty command true {}

theorem unstarted_completions (h : NativeController.Unstarted w) : w.completions = [] := by
  unfold NativeController.completions
  rw [List.filterMap_eq_nil_iff]
  intro e he
  rw [h.log e he]

/-- A controller whose start was refused only records that it is cancelled. -/
theorem unstarted_step (network : Nat → Launch) (h : NativeController.Unstarted w)
    {input : NativeController.Input}
    (hinput : (∃ report : Report, input = report.input) ∨
      ∃ reason kind, input = .cancel reason kind) :
    NativeController.Unstarted (w.step network input) := by
  rcases hinput with ⟨report, rfl⟩ | ⟨reason, kind, rfl⟩
  · cases report with
    | callback index call =>
      have hnone : (w.conn index).transport = false := by simp [NativeController.conn, h.conns]
      simpa [NativeController.step, Report.input, hnone] using h
    | retire index => simpa [NativeController.step, Report.input, h.timers] using h
  · exact h.cancel reason kind

end

/-! ## The phases of a rollout -/

/-- A rollout that goes on. -/
structure Rolling (others : List Target) (command : List Bytes) (c : CanaryController) : Prop where
  onComplete : c.onComplete = true
  running : c.done = false
  silent : c.log = []
  restTargets : c.restTargets = others
  command : c.command = command

/-- A wave that is over, with its results. -/
structure Wave (targets : List Target) (results : List HostResult) (w : NativeController) :
    Prop where
  over_ : NativeController.Over targets {} true w
  handed : w.completions = [results]
  hosts : results.map (·.host) = targets.map (·.host)

/-- Where a run is. -/
inductive Phase (first others : List Target) (command : List Bytes) (c : CanaryController) : Prop
  /-- There are no targets. -/
  | nothing (hfirst : first = []) (hothers : others = []) (hcanary : c.canary = none)
      (hrest : c.rest = none) (hdone : c.done = true) (hlog : c.log = [[]])
  /-- The canaries run. -/
  | canary (w : NativeController) (h : Rolling others command c) (hcanary : c.canary = some w)
      (hrest : c.rest = none) (hw : NativeController.Waiting first {} true w)
      (hcommand : command ≠ [] ∧ command.head? ≠ some [])
  /-- The others run. -/
  | rest (w r : NativeController) (results : List HostResult) (h : Rolling others command c)
      (hcanary : c.canary = some w) (hw : Wave first results w)
      (hok : results.all succeeded = true) (hresults : c.canaryResults = results)
      (hrest : c.rest = some r) (hr : NativeController.Waiting others {} true r)
      (hvalid : ∀ target ∈ others, Valid target)
  /-- The second start was refused, and nothing runs. -/
  | refused (w r : NativeController) (results : List HostResult) (h : Rolling others command c)
      (hcanary : c.canary = some w) (hw : Wave first results w)
      (hok : results.all succeeded = true) (hrest : c.rest = some r)
      (hr : NativeController.Unstarted r) (hinvalid : ¬ ∀ target ∈ others, Valid target)
  /-- The others are skipped, or there are none. -/
  | skipped (w : NativeController) (results : List HostResult) (hcanary : c.canary = some w)
      (hw : Wave first results w) (hrest : c.rest = none) (hdone : c.done = true)
      (hothers : results.all succeeded = true → others = [])
      (hlog : c.log = [results ++ others.map CanaryController.skipped])
  /-- Both waves are over. -/
  | complete (w r : NativeController) (results more : List HostResult)
      (hcanary : c.canary = some w) (hw : Wave first results w)
      (hok : results.all succeeded = true) (hrest : c.rest = some r) (hr : Wave others more r)
      (hdone : c.done = true) (hlog : c.log = [results ++ more])
      (hvalid : ∀ target ∈ others, Valid target)

section

variable {first others : List Target} {command : List Bytes} {c : CanaryController}
  {w r : NativeController} {results : List HostResult}

theorem Rolling.finish (h : Rolling others command c) (results : List HostResult) :
    (c.finish results).done = true ∧ (c.finish results).log = [results] ∧
      (c.finish results).canary = c.canary ∧ (c.finish results).rest = c.rest := by
  unfold CanaryController.finish
  rw [if_neg (by simp [h.running])]
  dsimp only
  rw [if_pos h.onComplete, h.silent]
  exact ⟨rfl, rfl, rfl, rfl⟩

/-- The callback of the first wave. -/
theorem Rolling.onCanaryDone (networks : Networks) (h : Rolling others command c)
    (hcommand : command ≠ [] ∧ command.head? ≠ some []) (hcanary : c.canary = some w)
    (hrest : c.rest = none) (hw : Wave first results w) :
    Phase first others command (c.onCanaryDone networks results) := by
  have hset : Rolling others command { c with canaryResults := results } :=
    ⟨h.onComplete, h.running, h.silent, h.restTargets, h.command⟩
  have hmoved : Rolling others command { c with canaryResults := [] } :=
    ⟨h.onComplete, h.running, h.silent, h.restTargets, h.command⟩
  unfold CanaryController.onCanaryDone
  rw [if_neg (by simp [h.running])]
  dsimp only
  by_cases hgo : results.all succeeded = true ∧ c.restTargets ≠ []
  · rw [if_pos hgo]
    obtain ⟨hok, hothers⟩ := hgo
    have hrest' := h.restTargets
    have hcommand' := h.command
    subst hrest' hcommand'
    unfold handOver
    rcases start_cases networks.rest hothers c.command with ⟨-, -, hvalid, hwait⟩ | ⟨-, hsame, hbad⟩
    · rw [waiting_completions hwait]
      exact .rest w _ results ⟨h.onComplete, h.running, h.silent, rfl, rfl⟩
        hcanary hw hok rfl rfl hwait
        hvalid
    · rw [hsame]
      exact .refused w {} results ⟨h.onComplete, h.running, h.silent, rfl, rfl⟩ hcanary hw hok rfl
        ⟨rfl, rfl, rfl, rfl, rfl, rfl, by simp⟩ fun hvalid => hbad ⟨hcommand, hvalid⟩
  · rw [if_neg hgo]
    obtain ⟨hdone, hlog, hcanary', hrest'⟩ := hmoved.finish
      (results ++ if results.all succeeded then [] else c.restTargets.map CanaryController.skipped)
    refine .skipped w results (hcanary'.trans hcanary) hw (hrest'.trans hrest)
      hdone (fun hok => ?_) ?_
    · by_contra hothers
      exact hgo ⟨hok, by rw [h.restTargets]; exact hothers⟩
    · rw [hlog]
      by_cases hok : results.all succeeded = true
      · have hothers : others = [] := by
          by_contra hothers
          exact hgo ⟨hok, by rw [h.restTargets]; exact hothers⟩
        rw [if_pos hok, hothers]
        rfl
      · rw [if_neg hok, h.restTargets]

/-- Nothing comes from a wave that is over. -/
theorem stepCanary_over (networks : Networks) (hcanary : c.canary = some w)
    (hw : Wave first results w) (input : NativeController.Input) :
    c.stepCanary networks input = c := by
  unfold stepCanary
  rw [hcanary]
  dsimp only
  rw [hw.over_.step networks.canary input]
  unfold handOver
  rw [List.drop_length, List.foldl_nil, ← hcanary]

theorem stepRest_over (networks : Networks) {targets : List Target} (hrest : c.rest = some r)
    (hr : Wave targets results r) (input : NativeController.Input) :
    c.stepRest networks input = c := by
  unfold stepRest
  rw [hrest]
  dsimp only
  rw [hr.over_.step networks.rest input]
  unfold handOver
  rw [List.drop_length, List.foldl_nil, ← hrest]

theorem Phase.stepCanary (networks : Networks) (h : Phase first others command c)
    (input : NativeController.Input) :
    Phase first others command (c.stepCanary networks input) := by
  cases h with
  | nothing hfirst hothers hcanary hrest hdone hlog =>
    unfold CanaryController.stepCanary
    rw [hcanary]
    exact .nothing hfirst hothers hcanary hrest hdone hlog
  | canary w h hcanary hrest hw hcommand =>
    unfold CanaryController.stepCanary
    rw [hcanary]
    dsimp only
    have hmoved : Rolling others command { c with canary := some (w.step networks.canary input) } :=
      ⟨h.onComplete, h.running, h.silent, h.restTargets, h.command⟩
    unfold handOver
    rw [waiting_completions hw, List.length_nil, List.drop_zero]
    rcases hw.next networks.canary input with hnext | hover
    · rw [waiting_completions hnext]
      exact .canary _ hmoved rfl hrest hnext hcommand
    · obtain ⟨results, hresults, hhosts⟩ := over_completions hover
      rw [hresults]
      exact hmoved.onCanaryDone networks hcommand rfl hrest ⟨hover, hresults, hhosts⟩
  | rest w r results h hcanary hw hok hresults hrest hr hvalid =>
    rw [stepCanary_over networks hcanary hw]
    exact .rest w r results h hcanary hw hok hresults hrest hr hvalid
  | refused w r results h hcanary hw hok hrest hr hinvalid =>
    rw [stepCanary_over networks hcanary hw]
    exact .refused w r results h hcanary hw hok hrest hr hinvalid
  | skipped w results hcanary hw hrest hdone hothers hlog =>
    rw [stepCanary_over networks hcanary hw]
    exact .skipped w results hcanary hw hrest hdone hothers hlog
  | complete w r results more hcanary hw hok hrest hr hdone hlog hvalid =>
    rw [stepCanary_over networks hcanary hw]
    exact .complete w r results more hcanary hw hok hrest hr hdone hlog hvalid

theorem Phase.stepRest (networks : Networks) (h : Phase first others command c)
    {input : NativeController.Input}
    (hinput : (∃ report : Report, input = report.input) ∨
      ∃ reason kind, input = .cancel reason kind) :
    Phase first others command (c.stepRest networks input) := by
  have hidle : c.rest = none → c.stepRest networks input = c := fun hrest => by
    unfold CanaryController.stepRest
    rw [hrest]
  cases h with
  | nothing hfirst hothers hcanary hrest hdone hlog =>
    rw [hidle hrest]
    exact .nothing hfirst hothers hcanary hrest hdone hlog
  | canary w h hcanary hrest hw hcommand =>
    rw [hidle hrest]
    exact .canary w h hcanary hrest hw hcommand
  | rest w r results h hcanary hw hok hresults hrest hr hvalid =>
    unfold CanaryController.stepRest
    rw [hrest]
    dsimp only
    have hmoved : Rolling others command { c with rest := some (r.step networks.rest input) } :=
      ⟨h.onComplete, h.running, h.silent, h.restTargets, h.command⟩
    unfold handOver
    rw [waiting_completions hr, List.length_nil, List.drop_zero]
    rcases hr.next networks.rest input with hnext | hover
    · rw [waiting_completions hnext]
      exact .rest w _ results hmoved hcanary hw hok hresults rfl hnext hvalid
    · obtain ⟨more, hmore, hhosts⟩ := over_completions hover
      have hlast : Rolling others command { c with
          canaryResults := [], rest := some (r.step networks.rest input) } :=
        ⟨h.onComplete, h.running, h.silent, h.restTargets, h.command⟩
      obtain ⟨hdone, hlog, hcanary', hrest'⟩ := hlast.finish (results ++ more)
      rw [hmore]
      change Phase first others command (CanaryController.onRestDone _ more)
      unfold CanaryController.onRestDone
      rw [if_neg (by simp [h.running])]
      dsimp only
      rw [hresults]
      exact .complete w _ results more (hcanary'.trans hcanary) hw hok hrest' ⟨hover, hmore,
        hhosts⟩ hdone
        hlog hvalid
  | refused w r results h hcanary hw hok hrest hr hinvalid =>
    have hnext := unstarted_step networks.rest hr hinput
    unfold CanaryController.stepRest
    rw [hrest]
    dsimp only
    unfold handOver
    rw [unstarted_completions hnext, List.drop_nil]
    exact .refused w _ results ⟨h.onComplete, h.running, h.silent, h.restTargets, h.command⟩
      hcanary hw hok
      rfl hnext hinvalid
  | skipped w results hcanary hw hrest hdone hothers hlog =>
    rw [hidle hrest]
    exact .skipped w results hcanary hw hrest hdone hothers hlog
  | complete w r results more hcanary hw hok hrest hr hdone hlog hvalid =>
    rw [stepRest_over networks hrest hr]
    exact .complete w r results more hcanary hw hok hrest hr hdone hlog hvalid

theorem Phase.step (networks : Networks) (h : Phase first others command c) (input : Input) :
    Phase first others command (c.step networks input) := by
  cases input with
  | canary report => exact h.stepCanary networks report.input
  | rest report => exact h.stepRest networks (.inl ⟨report, rfl⟩)
  | cancel reason =>
    exact (h.stepCanary networks _).stepRest networks (.inr ⟨reason, .Other, rfl⟩)

end

/-! ## Whole rollouts -/

theorem start_phase {networks : Networks} {targets : List Target} {canaryCount : Nat}
    {command : List Bytes} {c : CanaryController}
    (h : start networks {} targets canaryCount command true = (c, .ok ())) :
    Phase (targets.take (canaries targets canaryCount))
      (targets.drop (canaries targets canaryCount))
      command c := by
  unfold start at h
  dsimp only at h
  by_cases hempty : targets = []
  · rw [if_pos hempty] at h
    cases h
    subst hempty
    exact .nothing List.take_nil List.drop_nil rfl rfl rfl rfl
  · rw [if_neg hempty] at h
    have hfirst : targets.take (canaries targets canaryCount) ≠ [] := by
      have hpos : 1 ≤ canaries targets canaryCount := Nat.le_max_left ..
      rw [Ne, List.take_eq_nil_iff, not_or]
      exact ⟨by omega, hempty⟩
    have hstarted := congrArg Prod.snd h
    have hc := congrArg Prod.fst h
    dsimp only at hstarted hc
    rcases start_cases networks.canary hfirst command with ⟨-, hcommand, -, hwait⟩ | ⟨hbad, -⟩
    · rw [← hc]
      unfold handOver
      rw [waiting_completions hwait]
      exact .canary _ ⟨rfl, rfl, rfl, rfl, rfl⟩ rfl rfl hwait hcommand
    · exact absurd hstarted hbad

/-- Every host that was started finished. -/
def Finished (c : CanaryController) : Prop :=
  (∀ w, c.canary = some w → w.completed = true) ∧
    ∀ r, c.rest = some r → r.started = true → r.completed = true

/-- The results of the canaries. -/
def Canaries (c : CanaryController) (results : List HostResult) : Prop :=
  ∃ w, c.canary = some w ∧ w.completions = [results]

/-- The rollout completes at most once, after all started hosts finished, with one result for each
target in their order. The others are started only if every canary succeeded, and skipped if not.
Once all started hosts finished the rollout is complete, unless the canaries succeeded and the start
of the others was refused for a target without a host or a port. -/
theorem a_rollout_completes_iff_its_second_start_is_not_refused {networks : Networks}
    {targets : List Target} {canaryCount : Nat} {command : List Bytes} {c : CanaryController}
    (hstart : start networks {} targets canaryCount command true = (c, .ok ()))
    (inputs : List Input) :
    let after := inputs.foldl (step networks) c
    let others := targets.drop (canaries targets canaryCount)
    after.log.length ≤ 1 ∧
      (∀ results ∈ after.log, after.Finished ∧ results.map (·.host) = targets.map (·.host)) ∧
      (after.rest ≠ none → ∃ results, after.Canaries results ∧ results.all succeeded = true) ∧
      (∀ results, after.Canaries results → results.all succeeded = false →
        after.log = [results ++ others.map skipped]) ∧
      (after.Finished → (after.log.length = 1 ↔ (∀ target ∈ others, Valid target) ∨
        ∃ results, after.Canaries results ∧ results.all succeeded = false)) := by
  intro after others
  have hphase : Phase (targets.take (canaries targets canaryCount)) others command after := by
    refine Trace.foldl_induction (P := Phase (targets.take (canaries targets canaryCount))
      others command)
      (start_phase hstart) ?_
    intro pre input post _ hpre
    exact hpre.step networks input
  have hall : (targets.take (canaries targets canaryCount)).map (·.host) ++ others.map (·.host) =
      targets.map (·.host) := by
    rw [← List.map_append, List.take_append_drop]
  have hone : ∀ {w results results'}, after.canary = some w → w.completions = [results] →
      after.Canaries results' → results' = results := by
    rintro w results results' hcanary hhanded ⟨w', hcanary', hhanded'⟩
    obtain rfl : w = w' := Option.some.inj (hcanary.symm.trans hcanary')
    exact List.singleton_inj.mp (hhanded'.symm.trans hhanded)
  have hgood : ∀ {w results}, after.canary = some w → w.completions = [results] →
      results.all succeeded = true →
        ¬ ∃ results, after.Canaries results ∧ results.all succeeded = false := by
    rintro w results hcanary hhanded hok ⟨results', hcanaries, hbad⟩
    rw [hone hcanary hhanded hcanaries] at hbad
    exact absurd (hok.symm.trans hbad) nofun
  cases hphase with
  | nothing hfirst hothers hcanary hrest hdone hlog =>
    have hfinished : after.Finished := by
      refine ⟨fun w hw => ?_, fun r hr => ?_⟩
      · exact absurd (hcanary.symm.trans hw) nofun
      · exact absurd (hrest.symm.trans hr) nofun
    refine ⟨by simp [hlog], fun results hmem => ⟨hfinished, ?_⟩, fun hnot => absurd hrest hnot, ?_,
      fun _ => ?_⟩
    · rw [hlog, List.mem_singleton] at hmem
      rw [hmem, ← hall, hfirst, hothers]
      rfl
    · rintro results ⟨w, hw, -⟩
      exact absurd (hcanary.symm.trans hw) nofun
    · rw [hothers]
      simp [hlog]
  | canary w h hcanary hrest hw hcommand =>
    have hrunning : ¬ after.Finished := fun hfinished =>
      absurd ((hfinished.1 w hcanary).symm.trans hw.live.running.told.running) nofun
    refine ⟨by simp [h.silent], by simp [h.silent], fun hnot => absurd hrest hnot, ?_,
      fun hfinished =>
      absurd hfinished hrunning⟩
    rintro results ⟨w', hw', hhanded⟩ _
    obtain rfl : w = w' := Option.some.inj (hcanary.symm.trans hw')
    exact absurd ((waiting_completions hw).symm.trans hhanded) nofun
  | rest w r results h hcanary hw hok hresults hrest hr hvalid =>
    have hrunning : ¬ after.Finished := fun hfinished =>
      absurd ((hfinished.2 r hrest hr.live.running.told.started).symm.trans
        hr.live.running.told.running) nofun
    refine ⟨by simp [h.silent], by simp [h.silent],
      fun _ => ⟨results, ⟨w, hcanary, hw.handed⟩, hok⟩, ?_,
      fun hfinished => absurd hfinished hrunning⟩
    intro results' hcanaries hbad
    exact absurd ⟨results', hcanaries, hbad⟩ (hgood hcanary hw.handed hok)
  | refused w r results h hcanary hw hok hrest hr hinvalid =>
    refine ⟨by simp [h.silent], by simp [h.silent],
      fun _ => ⟨results, ⟨w, hcanary, hw.handed⟩, hok⟩, ?_,
      fun _ => ?_⟩
    · intro results' hcanaries hbad
      exact absurd ⟨results', hcanaries, hbad⟩ (hgood hcanary hw.handed hok)
    · have hnot := not_or.mpr ⟨hinvalid, hgood hcanary hw.handed hok⟩
      exact iff_of_false (by simp [h.silent]) hnot
  | skipped w results hcanary hw hrest hdone hothers hlog =>
    have hfinished : after.Finished := by
      refine ⟨fun w' hw' => ?_, fun r hr => ?_⟩
      · obtain rfl : w = w' := Option.some.inj (hcanary.symm.trans hw')
        exact hw.over_.completed
      · exact absurd (hrest.symm.trans hr) nofun
    refine ⟨by simp [hlog], fun results' hmem => ⟨hfinished, ?_⟩, fun hnot => absurd hrest hnot, ?_,
      fun _ => ?_⟩
    · rw [hlog, List.mem_singleton] at hmem
      rw [hmem, List.map_append, hw.hosts, ← hall, List.map_map]
      rfl
    · intro results' hcanaries _
      rw [hone hcanary hw.handed hcanaries, hlog]
    · refine iff_of_true (by simp [hlog]) ?_
      by_cases hok : results.all succeeded = true
      · left
        rw [hothers hok]
        simp
      · exact .inr ⟨results, ⟨w, hcanary, hw.handed⟩, by simpa using hok⟩
  | complete w r results more hcanary hw hok hrest hr hdone hlog hvalid =>
    have hfinished : after.Finished := by
      refine ⟨fun w' hw' => ?_, fun r' hr' _ => ?_⟩
      · obtain rfl : w = w' := Option.some.inj (hcanary.symm.trans hw')
        exact hw.over_.completed
      · obtain rfl : r = r' := Option.some.inj (hrest.symm.trans hr')
        exact hr.over_.completed
    refine ⟨by simp [hlog], fun results' hmem => ⟨hfinished, ?_⟩, fun _ =>
      ⟨results, ⟨w, hcanary, hw.handed⟩, hok⟩, ?_,
        fun _ => iff_of_true (by simp [hlog]) (.inl hvalid)⟩
    · rw [hlog, List.mem_singleton] at hmem
      rw [hmem, List.map_append, hw.hosts, hr.hosts, hall]
    · intro results' hcanaries hbad
      exact absurd ⟨results', hcanaries, hbad⟩ (hgood hcanary hw.handed hok)

/-- Every launch connects, and calls back later. -/
def openNetworks : Networks := ⟨fun _ => .started [] none, fun _ => .started [] none⟩

/-- The first host runs the command and exits with 0, and its connection is retired. -/
def canaryExits : List Input :=
  [.canary (.callback 0 .ready), .canary (.callback 0 (.exit ⟨.Exited, 0⟩)), .canary (.retire 0)]

/-- The same of the two hosts behind it, which end in the other order. -/
def othersExit : List Input :=
  [.rest (.callback 0 .ready), .rest (.callback 1 .ready), .rest (.callback 1 (.exit ⟨.Exited, 0⟩)),
    .rest (.callback 0 (.exit ⟨.Exited, 3⟩)), .rest (.retire 1), .rest (.retire 0)]

/-- A canary and two hosts behind it, which run in a second wave. -/
theorem a_second_wave_completes :
    let begun := start openNetworks {} [⟨"a", 1⟩, ⟨"b", 1⟩, ⟨"c", 1⟩] 1 [[120]] true
    let after := (canaryExits ++ othersExit).foldl (step openNetworks) begun.1
    begun.2 = .ok () ∧ after.rest.map (·.completed) = some true ∧ after.log.length = 1 := by
  intro begun after
  have hstart : begun = (begun.1, .ok ()) := rfl
  have h :=
    a_rollout_completes_iff_its_second_start_is_not_refused hstart (canaryExits ++ othersExit)
  have hcanary : after.canary.map (·.completed) = some true := by decide
  have hrest : after.rest.map (·.completed) = some true := by decide
  have hfinished : after.Finished := by
    refine ⟨fun w hw => ?_, fun r hr _ => ?_⟩
    · rw [hw] at hcanary
      exact Option.some.inj hcanary
    · rw [hr] at hrest
      exact Option.some.inj hrest
  exact ⟨rfl, hrest, (h.2.2.2.2 hfinished).mpr (.inl (by decide))⟩

/-- The second target has no port. -/
theorem a_refused_second_wave_never_completes :
    let start := start openNetworks {} [⟨"a", 1⟩, ⟨"b", 0⟩] 1 [[120]] true
    let after := canaryExits.foldl (step openNetworks) start.1
    start.2 = .ok () ∧ after.canary.map (·.completed) = some true ∧
      after.rest.map (·.started) = some false ∧ after.log = [] := by
  decide

end CanaryController

end psx.transport
