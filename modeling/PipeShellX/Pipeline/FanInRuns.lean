-- Whole fan-in runs: the two sides end in order, unless the downstream ends before there is a
-- source, and a run that reports success has earned it, unless a failed host left no exit
-- code behind.
import PipeShellX.Pipeline.FanInLaws
import PipeShellX.Pipeline.SegmentedFences
import PipeShellX.Pipeline.SegmentedOutcome
import PipeShellX.Transport.NativeControllerRuns

namespace psx.pipeline

open Trace (Lawful)
open psx.transport (NativeController)
open psx.transport.NativeController (HostResult Target)

/-! ## The sides as they are -/

/-- A controller calls nothing once it has handed over its results. -/
theorem controller_falls_silent (network : Nat → NativeController.Launch)
    (inputs : List NativeController.Input) (input : NativeController.Input)
    {results : List HostResult}
    (h : .complete results ∈ (NativeController.run network inputs).log) :
    (NativeController.run network inputs).step network input =
      NativeController.run network inputs := by
  cases NativeController.phase_run network inputs with
  | unstarted hphase =>
    have := hphase.log _ h
    cases this
  | waiting targets options onComplete hphase =>
    have hnone := List.countP_eq_zero.mp hphase.live.running.told.none_complete _ h
    exact absurd rfl hnone
  | ended targets options onComplete hphase => exact hphase.step network input

namespace FanInPipeline

/-- What a pipeline calls. -/
@[simp] def DownstreamCall.ofPipeline : SegmentedPipeline.Event → Option DownstreamCall
  | .output bytes => some (.output bytes)
  | .complete outcome => some (.done outcome none)
  | _ => none

/-- The start of a fan-in whose downstream is a pipeline of these stages. -/
def pipelineStart (launches : SegmentedPipeline.Launches) (onStderr : Bool)
    (stages : List ResolvedStage) : Start :=
  let (p, started) :=
    SegmentedPipeline.run launches {} { onOutput := true, onStderr } stages true true
  { downstreamCalls := p.log.filterMap DownstreamCall.ofPipeline, downstreamStarted := started }

/-! ## The start -/

section

variable {p : FanInPipeline}

theorem inv_alone (onOutput onStderr : Bool) :
    Inv ({ onOutput, onStderr, onComplete := true } : FanInPipeline) := by
  refine ⟨⟨.nil, ?_, ?_, ?_, ?_, rfl, ?_, ?_, ?_, ?_, ?_, ?_, ?_⟩, ?_, closes_of_none ?_⟩ <;>
    simp [SourceOver, DownstreamOver]

theorem inv_chained (onOutput onStderr : Bool) (stages : List ResolvedStage) :
    Inv (({ onOutput, onStderr, onComplete := true, hasDownstream := true } : FanInPipeline).note
      (.downstreamRun stages)) := by
  refine ⟨⟨Lawful.nil.snoc trivial, ?_, ?_, ?_, ?_, rfl, ?_, ?_, ?_, ?_, ?_, ?_, ?_⟩, ?_,
    closes_of_none ?_⟩ <;> simp [note, SourceOver, DownstreamOver]

theorem keeps_sourceCalls (calls : List SourceCall) : Keeps p (calls.foldl sourceCalled p) :=
  Trace.foldl_induction (P := Keeps p) (.refl p) fun _ call _ _ h =>
    h.trans (keeps_sourceCalled _ call)

theorem keeps_downstreamCalls (calls : List DownstreamCall) :
    Keeps p (calls.foldl downstreamCalled p) :=
  Trace.foldl_induction (P := Keeps p) (.refl p) fun _ call _ _ h =>
    h.trans (keeps_downstreamCalled _ call)

theorem Inv.sourceCalls (h : Inv p) (calls : List SourceCall) :
    Inv (calls.foldl FanInPipeline.sourceCalled p) :=
  Trace.foldl_induction (P := Inv) h fun _ call _ _ h => h.sourceCalled call

theorem Inv.downstreamCalls (h : Inv p) (hchain : p.hasDownstream = true)
    (calls : List DownstreamCall) :
    Inv (calls.foldl FanInPipeline.downstreamCalled p) := by
  refine Trace.foldl_induction (P := Inv) h fun pre call _ _ h => h.downstreamCalled ?_ call
  rw [(keeps_downstreamCalls pre).hasDownstream]
  exact hchain

theorem Inv.startSource (h : Inv p) (start : Start) (argv : List Bytes) (targets : List Target) :
    Inv (p.startSource start argv targets).1 := by
  have hcreated : Inv { p with source := true } := ⟨⟨h.core.lawful, h.core.chain, h.core.sourceOver,
    h.core.downstreamOver, h.core.chained, h.core.handler, h.core.complete, h.core.over_,
    h.core.open_,
    h.core.fresh, h.core.tallied, h.core.awaited, h.core.told⟩, h.settled, h.closes⟩
  unfold FanInPipeline.startSource
  have hnoted : Inv ({ p with source := true }.note .sourceCreated) := hcreated.quiet trivial
  have hstarted : Inv (({ p with source := true }.note .sourceCreated).note
      (.sourceStart targets argv)) :=
    hnoted.quiet trivial
  exact hstarted.sourceCalls start.sourceCalls

/-- The controller is there before its first use, when nothing used it before. -/
theorem created_startSource (h : Lawful Uses p.log) (start : Start) (argv : List Bytes)
    (targets : List Target) : Created (p.startSource start argv targets).1.log := by
  unfold startSource
  refine (keeps_sourceCalls start.sourceCalls).created ⟨by simp [note], ?_⟩
  have hnoted : Lawful Uses (p.log ++ [.sourceCreated]) := h.snoc trivial
  refine hnoted.snoc ?_
  show Event.sourceCreated ∈ _
  simp

theorem unused_downstreamCalls (h : Lawful Uses p.log) (calls : List DownstreamCall)
    (hcalls : ∀ outcome stopped, .done outcome stopped ∉ calls) :
    Lawful Uses (calls.foldl downstreamCalled p).log := by
  refine Trace.foldl_induction (P := fun q : FanInPipeline => Lawful Uses q.log)
    h fun pre call post heq hpre => ?_
  cases call with
  | output bytes =>
    unfold downstreamCalled
    dsimp only
    split_ifs
    · exact hpre
    · exact hpre.snoc trivial
    · exact hpre
  | done outcome stopped => exact absurd (by simp [heq]) (hcalls outcome stopped)

end

/-! ## Whole runs -/

/-- A fan-in as constructed starts a run, and then takes some inputs. -/
def history (start : Start) (onOutput onStderr : Bool) (sourceArgv : List Bytes)
    (sourceTargets : List Target) (downstream : List ResolvedStage) (inputs : List Input) :
    FanInPipeline :=
  (run start { onOutput, onStderr } sourceArgv sourceTargets downstream true).1.steps inputs

/-- The run was accepted. -/
def Accepted (start : Start) (onOutput onStderr : Bool) (sourceArgv : List Bytes)
    (sourceTargets : List Target) (downstream : List ResolvedStage) : Prop :=
  (run start { onOutput, onStderr } sourceArgv sourceTargets downstream true).2 = .ok ()

theorem run_inv (start : Start) (onOutput onStderr : Bool) (sourceArgv : List Bytes)
    (sourceTargets : List Target) (downstream : List ResolvedStage)
    (h : sourceArgv ≠ [] ∧ sourceTargets ≠ []) :
    Inv (run start { onOutput, onStderr } sourceArgv sourceTargets downstream true).1 := by
  unfold run
  rw [if_neg (by simp [h.1, h.2])]
  by_cases hdownstream : downstream = []
  · subst hdownstream
    exact (inv_alone onOutput onStderr).startSource start sourceArgv sourceTargets
  · rw [show decide (downstream ≠ []) = true by simpa using hdownstream]
    have hcalled :=
      (inv_chained onOutput onStderr downstream).downstreamCalls rfl start.downstreamCalls
    unfold runDownstream
    rw [if_pos rfl]
    dsimp only
    cases start.downstreamStarted with
    | error e => exact hcalled
    | ok _ => exact hcalled.startSource start sourceArgv sourceTargets

theorem Inv.steps {p : FanInPipeline} (h : Inv p) (inputs : List Input) : Inv (p.steps inputs) :=
  Trace.foldl_induction (P := Inv) h fun _ input _ _ h => h.step input

theorem keeps_steps (p : FanInPipeline) (inputs : List Input) : Keeps p (p.steps inputs) :=
  Trace.foldl_induction (P := Keeps p) (.refl p) fun _ input _ _ h => h.trans (keeps_step _ input)

theorem Accepted.given {start : Start} {onOutput onStderr : Bool} {sourceArgv : List Bytes}
    {sourceTargets : List Target} {downstream : List ResolvedStage}
    (h : Accepted start onOutput onStderr sourceArgv sourceTargets downstream) :
    sourceArgv ≠ [] ∧ sourceTargets ≠ [] := by
  by_contra hnot
  unfold Accepted run at h
  rw [if_pos (by tauto)] at h
  cases h

theorem Accepted.created {start : Start} {onOutput onStderr : Bool} {sourceArgv : List Bytes}
    {sourceTargets : List Target} {downstream : List ResolvedStage}
    (h : Accepted start onOutput onStderr sourceArgv sourceTargets downstream)
    (hstart : downstream ≠ [] → ∀ outcome stopped, .done outcome stopped ∉ start.downstreamCalls) :
    Created (run start { onOutput, onStderr } sourceArgv sourceTargets downstream true).1.log := by
  have hgiven := h.given
  unfold Accepted at h
  unfold run at h ⊢
  rw [if_neg (by simp [hgiven.1, hgiven.2])] at h ⊢
  by_cases hdownstream : downstream = []
  · subst hdownstream
    exact created_startSource .nil start sourceArgv sourceTargets
  · rw [show decide (downstream ≠ []) = true by simpa using hdownstream] at h ⊢
    have hquiet : Lawful Uses ([] ++ [Event.downstreamRun downstream]) := Lawful.nil.snoc trivial
    unfold runDownstream at h ⊢
    rw [if_pos rfl] at h ⊢
    dsimp only at h ⊢
    cases hstarted : start.downstreamStarted with
    | error e =>
      rw [hstarted] at h
      cases h
    | ok _ =>
      exact created_startSource (unused_downstreamCalls hquiet start.downstreamCalls
        (hstart hdownstream)) start sourceArgv sourceTargets

/-- Unless the downstream completes within its own start, the controller is used only after it
was created, the downstream gets the end of its stdin as soon as the source is over, if it is
not over itself, and the run completes exactly once, when both are. -/
theorem the_sides_end_in_order (start : Start) (onOutput onStderr : Bool) (sourceArgv : List Bytes)
    (sourceTargets : List Target) (downstream : List ResolvedStage) (inputs : List Input)
    (haccepted : Accepted start onOutput onStderr sourceArgv sourceTargets downstream)
    (hstart : downstream ≠ [] → ∀ outcome stopped, .done outcome stopped ∉ start.downstreamCalls) :
    let p := history start onOutput onStderr sourceArgv sourceTargets downstream inputs
    Lawful Uses p.log ∧ Lawful Allowed p.log ∧ Closes p.log ∧
      ((∃ outcome, .complete outcome ∈ p.log) ↔ BothOver p.log) := by
  have hinv : Inv (history start onOutput onStderr sourceArgv sourceTargets downstream inputs) :=
    (run_inv start onOutput onStderr sourceArgv sourceTargets downstream haccepted.given).steps
      inputs
  have hcreated := (keeps_steps _ inputs).created (haccepted.created hstart)
  refine ⟨hcreated.2, hinv.core.lawful, hinv.closes, ?_⟩
  rw [← hinv.core.complete]
  unfold BothOver
  rw [← hinv.core.sourceOver, ← hinv.core.downstreamOver, ← hinv.core.chain]
  exact ⟨hinv.core.over_, fun ⟨hsource, hdownstream⟩ => hinv.settled hsource hdownstream⟩

/-- A host whose command exits, and then the stage downstream. -/
theorem a_calm_fan_in_ends_in_order :
    let stages : List ResolvedStage := [⟨[[104]], "a"⟩]
    let start := pipelineStart SegmentedPipeline.calmLaunches true stages
    let inputs : List Input :=
      [.source (.done [{ host := "b", ok := true, exitCode := 0 }] none),
        .downstream (.done {} none)]
    let p := history start true true [[121]] [⟨"b", 1⟩] stages inputs
    .complete {} ∈ p.log ∧ Lawful Uses p.log ∧ Lawful Allowed p.log ∧ Closes p.log ∧
      ((∃ outcome, .complete outcome ∈ p.log) ↔ BothOver p.log) := by
  refine ⟨by decide, the_sides_end_in_order _ true true _ _ _ _ (by unfold Accepted; decide)
    fun _ outcome stopped hmem => ?_⟩
  have hnone : (pipelineStart SegmentedPipeline.calmLaunches true [⟨[[104]],
      "a"⟩]).downstreamCalls =
      [] := by decide
  rw [hnone] at hmem
  cases hmem

/-- The only stage downstream is on a host that does not resolve: the run is accepted, and the
source is cancelled before there is one. -/
theorem a_downstream_that_fails_at_once_cancels_no_source :
    let stages : List ResolvedStage := [⟨[[104]], "a"⟩]
    let launches : SegmentedPipeline.Launches :=
      { SegmentedPipeline.calmLaunches with remotes := fun _ _ => .connectFailed "no such host" }
    Accepted (pipelineStart launches true stages) true true [[121]] [⟨"b", 1⟩] stages ∧
      ¬ Lawful Uses
        (history (pipelineStart launches true stages) true true [[121]] [⟨"b", 1⟩] stages
          []).log := by
  refine ⟨by unfold Accepted; decide, fun hlawful => ?_⟩
  have hlog : (history (pipelineStart { SegmentedPipeline.calmLaunches with
      remotes := fun _ _ => .connectFailed "no such host" } true [⟨[[104]], "a"⟩]) true true [[121]]
      [⟨"b", 1⟩] [⟨[[104]], "a"⟩] []).log =
      [.downstreamRun [⟨[[104]], "a"⟩],
        .downstreamOver { error := "stage 0: connect: no such host", exitCode := 1 }] ++
      .cancel "downstream completed" :: [.sourceCreated, .sourceStart [⟨"b", 1⟩] [[121]]] := by
    decide
  have hcancel := hlawful _ _ _ hlog
  unfold Uses at hcancel
  simp at hcancel

/-! ## The outcome of a run -/

/-- Exit code 0 stands for success on every host and downstream, and an error never comes
with it. -/
def Promised (results : List HostResult) (downstream : Option Outcome) (outcome : Outcome) : Prop :=
  (outcome.exitCode = 0 → (∀ result ∈ results, result.failed = false) ∧
    ∀ last ∈ downstream, last.exitCode = 0 ∧ last.error = "") ∧
  (outcome.error ≠ "" → outcome.exitCode ≠ 0)

/-- The result gives the source an exit code of its own: a host that was cut off, or one whose
command ran to a nonzero exit. -/
def Exits (cancelled : Bool) (result : HostResult) : Prop :=
  cancelled = true ∧ result.ok = false ∧ result.error = "downstream completed" ∨
    result.ok = true ∧ result.error = "" ∧ result.exitCode ≠ 0

/-- The downstream exits with a nonzero code, a host gives the source one, or nothing failed. -/
def Evident (cancelled : Bool) (results : List HostResult) (downstream : Option Outcome) : Prop :=
  (∃ last ∈ downstream, last.exitCode ≠ 0) ∨ (∃ result ∈ results, Exits cancelled result) ∨
    (∀ result ∈ results, result.failed = false) ∧ ∀ last ∈ downstream, last.error = ""

section

variable {cancelled : Bool} {results : List HostResult}

theorem tally_exits (source : Int × String) {result : HostResult} (h : Exits cancelled result) :
    (tally cancelled source result).1 ≠ 0 := by
  unfold tally
  rcases h with ⟨hcancelled, hok, herror⟩ | ⟨hok, herror, hexit⟩
  · rw [if_pos ⟨hcancelled, by simp [hok], herror⟩]
    show (137 : Int) ≠ 0
    decide
  · rw [if_neg (by simp [hok]), if_neg (by simp [hok, herror]), if_pos hexit]
    exact hexit

theorem tally_keeps (source : Int × String) {result : HostResult} (h : ¬ Exits cancelled result) :
    (tally cancelled source result).1 = source.1 := by
  have hcut : ¬ (cancelled = true ∧ ¬ result.ok = true ∧ result.error = "downstream completed") :=
    fun hcut => h (.inl ⟨hcut.1, by simpa using hcut.2.1, hcut.2.2⟩)
  unfold tally
  rw [if_neg hcut]
  by_cases hfailed : ¬ result.ok = true ∨ result.error ≠ ""
  · rw [if_pos hfailed]
  · rw [if_neg hfailed]
    rw [not_or, not_not, not_not] at hfailed
    rw [if_neg fun hexit => h (.inr ⟨hfailed.1, hfailed.2, hexit⟩)]

theorem tally_succeeded (source : Int × String) {result : HostResult} (h : result.failed = false) :
    tally cancelled source result = source := by
  obtain ⟨hok, hexit, herror⟩ : result.ok = true ∧ result.exitCode = 0 ∧ result.error = "" := by
    simpa [HostResult.failed, and_assoc] using h
  unfold tally
  rw [if_neg (by simp [hok]), if_neg (by simp [hok, herror]), if_neg (by simp [hexit])]

/-- The source has an exit code of its own exactly when a host gives it one. -/
theorem tallied_exit_iff :
    (results.foldl (tally cancelled) (0, "")).1 ≠ 0 ↔
      ∃ result ∈ results, Exits cancelled result := by
  induction results using List.reverseRecOn with
  | nil => simp
  | append_singleton results result ih =>
    rw [List.foldl_append, List.foldl_cons, List.foldl_nil]
    by_cases hexits : Exits cancelled result
    · exact ⟨fun _ => ⟨result, by simp, hexits⟩, fun _ => tally_exits _ hexits⟩
    · rw [tally_keeps _ hexits, ih]
      constructor
      · rintro ⟨earlier, hmem, hearlier⟩
        exact ⟨earlier, List.mem_append_left _ hmem, hearlier⟩
      · rintro ⟨earlier, hmem, hearlier⟩
        rcases List.mem_append.mp hmem with hmem | hmem
        · exact ⟨earlier, hmem, hearlier⟩
        · exact absurd (List.mem_singleton.mp hmem ▸ hearlier) hexits

theorem tallied_succeeded (h : ∀ result ∈ results, result.failed = false) :
    results.foldl (tally cancelled) (0, "") = (0, "") := by
  induction results using List.reverseRecOn with
  | nil => rfl
  | append_singleton results result ih =>
    rw [List.foldl_append, ih fun earlier hmem => h earlier (List.mem_append_left _ hmem)]
    exact tally_succeeded _ (h result (by simp))

theorem verdict_exit_iff (downstream : Option Outcome) :
    (verdict cancelled results downstream).exitCode = 0 ↔
      (results.foldl (tally cancelled) (0, "")).1 = 0 ∧ ∀ last ∈ downstream, last.exitCode = 0 := by
  unfold verdict
  cases downstream with
  | none => simp
  | some last =>
    unfold merged
    dsimp only
    split_ifs with hlast
    · simp [hlast]
    · by_cases hexit : last.exitCode = 0
      · simpa [hexit] using hlast
      · simp [hexit]

theorem verdict_error_iff (downstream : Option Outcome) :
    (verdict cancelled results downstream).error = "" ↔
      (results.foldl (tally cancelled) (0, "")).2 = "" ∧ ∀ last ∈ downstream, last.error = "" := by
  unfold verdict
  cases downstream with
  | none => simp
  | some last =>
    unfold merged
    dsimp only
    split_ifs with hlast
    · simp [hlast]
    · by_cases herror : last.error = ""
      · simpa [herror] using hlast
      · simp [herror]

/-- The verdict keeps the promise exactly when failure or success is evident. -/
theorem verdict_promised_iff (downstream : Option Outcome) :
    Promised results downstream (verdict cancelled results downstream) ↔
      Evident cancelled results downstream := by
  have hexits : (results.foldl (tally cancelled) (0, "")).1 ≠ 0 ↔
      ∃ result ∈ results, Exits cancelled result := tallied_exit_iff
  unfold Promised Evident
  rw [verdict_exit_iff, Ne, verdict_error_iff, Ne, verdict_exit_iff, ← hexits]
  constructor
  · rintro ⟨hsuccess, herror⟩
    by_cases hsource : (results.foldl (tally cancelled) (0, "")).1 = 0
    · by_cases hlast : ∀ last ∈ downstream, last.exitCode = 0
      · obtain ⟨hall, hdownstream⟩ := hsuccess ⟨hsource, hlast⟩
        exact .inr (.inr ⟨hall, fun last hmem => (hdownstream last hmem).2⟩)
      · left
        by_contra hnone
        exact hlast fun last hmem => by_contra fun hexit => hnone ⟨last, hmem, hexit⟩
    · exact .inr (.inl hsource)
  · rintro (⟨last, hmem, hexit⟩ | hsource | ⟨hall, hdownstream⟩)
    · exact ⟨fun h => absurd (h.2 last hmem) hexit, fun _ h => hexit (h.2 last hmem)⟩
    · exact ⟨fun h => absurd h.1 hsource, fun _ h => hsource h.1⟩
    · have hnone : results.foldl (tally cancelled) (0, "") = (0, "") := tallied_succeeded hall
      refine ⟨fun h => ⟨hall, fun last hmem => ⟨h.2 last hmem, hdownstream last hmem⟩⟩,
        fun herror => ?_⟩
      exact absurd ⟨by rw [hnone], hdownstream⟩ herror

end

/-- Nothing happens to a run that was given no command or no hosts. -/
theorem history_refused (start : Start) (onOutput onStderr : Bool) {sourceArgv : List Bytes}
    {sourceTargets : List Target} (downstream : List ResolvedStage) (inputs : List Input)
    (h : ¬ (sourceArgv ≠ [] ∧ sourceTargets ≠ [])) :
    history start onOutput onStderr sourceArgv sourceTargets downstream inputs =
      { onOutput, onStderr } := by
  unfold history run
  rw [if_pos (by tauto)]
  refine Trace.foldl_induction (P := fun p => p = ({ onOutput, onStderr } : FanInPipeline)) rfl ?_
  rintro pre input post - hpre
  rw [hpre]
  cases input with
  | source call => rfl
  | downstream call => rfl

/-- A run that has completed reported exit code 0 only for success, and no error with it,
exactly when the downstream exits with a nonzero code, a host gives the source one, or
nothing failed. -/
theorem success_is_earned_iff (start : Start) (onOutput onStderr : Bool) (sourceArgv : List Bytes)
    (sourceTargets : List Target) (stages : List ResolvedStage) (inputs : List Input)
    {results : List HostResult} {downstream : Option Outcome} {outcome : Outcome} :
    let p := history start onOutput onStderr sourceArgv sourceTargets stages inputs
    .sourceOver results ∈ p.log → (∀ last, downstream = some last ↔ .downstreamOver last ∈ p.log) →
      .complete outcome ∈ p.log →
      (Promised results downstream outcome ↔
        Evident p.sourceCancellationRequested results downstream) := by
  intro p hresults hdownstream houtcome
  have hinv : Inv p := by
    by_cases hgiven : sourceArgv ≠ [] ∧ sourceTargets ≠ []
    · exact (run_inv start onOutput onStderr sourceArgv sourceTargets stages hgiven).steps inputs
    · have hnone : p = { onOutput, onStderr } :=
        history_refused start onOutput onStderr stages inputs hgiven
      rw [hnone] at houtcome
      cases houtcome
  obtain ⟨halone, hchained⟩ := hinv.core.told outcome houtcome results hresults
  have hverdict : outcome = verdict p.sourceCancellationRequested results downstream := by
    cases downstream with
    | some last => exact hchained last ((hdownstream last).mp rfl)
    | none =>
      apply halone
      by_contra hchain
      have hover :=
        (hinv.core.over_ (hinv.core.complete.mpr ⟨outcome, houtcome⟩)).2 (by simpa using hchain)
      obtain ⟨last, hlast⟩ := hinv.core.downstreamOver.mp hover
      cases (hdownstream last).mpr hlast
  rw [hverdict]
  exact verdict_promised_iff downstream

/-- A host that fails, while the stage downstream exits with 7. -/
theorem a_failed_stage_downstream_is_reported :
    let results : List HostResult := [{ host := "b", error := "connect: refused" }]
    let last : Outcome := { exitCode := 7, stageExitCodes := [7] }
    let outcome : Outcome := { last with error := "source host b: connect: refused" }
    let p := history {} true true [[121]] [⟨"b", 1⟩] [⟨[[104]], "a"⟩]
      [.source (.done results none), .downstream (.done last none)]
    (.sourceOver results ∈ p.log ∧ (∀ last', some last = some last' ↔
      .downstreamOver last' ∈ p.log) ∧
      .complete outcome ∈ p.log) ∧ Promised results (some last) outcome := by
  have hlog : (history {} true true [[121]] [⟨"b", 1⟩] [⟨[[104]], "a"⟩]
      [.source (.done [{ host := "b", error := "connect: refused" }] none),
        .downstream (.done { exitCode := 7, stageExitCodes := [7] } none)]).log =
      [.downstreamRun [⟨[[104]], "a"⟩], .sourceCreated, .sourceStart [⟨"b", 1⟩] [[121]],
        .sourceOver [{ host := "b", error := "connect: refused" }], .closeStdin,
        .downstreamOver { exitCode := 7, stageExitCodes := [7] },
        .complete
          { exitCode := 7, stageExitCodes := [7],
            error := "source host b: connect: refused" }] := by
    decide
  intro results last outcome p
  have hreported : .sourceOver results ∈ p.log ∧
      (∀ last', some last = some last' ↔ .downstreamOver last' ∈ p.log) ∧
      .complete outcome ∈ p.log := by
    refine ⟨?_, fun last' => ?_, ?_⟩
    · rw [hlog]
      simp [results]
    · rw [hlog]
      simp [last, eq_comm]
    · rw [hlog]
      simp [outcome, last]
  refine ⟨hreported, ?_⟩
  apply (success_is_earned_iff {} true true [[121]] [⟨"b", 1⟩] [⟨[[104]], "a"⟩] _ hreported.1
    hreported.2.1
    hreported.2.2).mpr
  exact .inl ⟨last, rfl, by decide⟩

/-- One host exits with 0 and the other one is out of reach; the stage downstream exits with
0. The run reports exit code 0, next to an error. -/
theorem an_unreachable_host_leaves_exit_0 :
    let results : List HostResult :=
      [{ host := "a", ok := true, exitCode := 0 }, { host := "b", error := "connect: refused" }]
    let outcome : Outcome := { stageExitCodes := [0], error := "source host b: connect: refused" }
    let p := history {} true true [[121]] [⟨"a", 1⟩, ⟨"b", 1⟩] [⟨[[104]], "c"⟩]
      [.source (.done results none), .downstream (.done { stageExitCodes := [0] } none)]
    .sourceOver results ∈ p.log ∧ .downstreamOver { stageExitCodes := [0] } ∈ p.log ∧
      .complete outcome ∈ p.log ∧ ¬ Promised results (some { stageExitCodes := [0] }) outcome := by
  refine ⟨by decide, by decide, by decide, fun hpromised => ?_⟩
  exact hpromised.2 (by decide) rfl

end FanInPipeline

end psx.pipeline
