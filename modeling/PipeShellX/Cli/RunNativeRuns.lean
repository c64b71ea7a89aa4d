-- Every run of `run --transport native`: which state it can be in, what the sink was told by then,
-- and how it ends. A run that has not ended waits for a connection; one that has gave every client
-- one result.
import PipeShellX.Cli.RunNative

namespace psx.cli.RunNative

open psx.audit (AuditLog)
open psx.sink (Call)
open psx.ssh (quoteRemoteCommand)
open psx.transport (NativeController)
open psx.transport.NativeController (CancelKind Event HandsOver HoldsBack HostResult Labelled
  Move Over Target
  Waiting)

variable {s : Setup} {past : List Input} {r : RunNative}

/-! ## What was heard -/

/-- What the sink was told of some events. -/
def listen (streamLive : Bool) (t : Told) (events : List Event) : Told :=
  events.foldl (Told.hear streamLive) t

theorem listen_append (live : Bool) (t : Told) (events more : List Event) :
    listen live t (events ++ more) = listen live (listen live t events) more :=
  List.foldl_append

/-- Results that are handed over are not output. -/
theorem listen_complete (live : Bool) (t : Told) (results : List HostResult) :
    listen live t [.complete results] = t := rfl

theorem foldl_hear (onComplete : RunNative → List HostResult → RunNative) {events : List Event}
    (hquiet : ∀ results, .complete results ∉ events) (r : RunNative) :
    events.foldl (hear s onComplete) r = { r with told := listen s.streamLive r.told events } := by
  induction events generalizing r with
  | nil => rfl
  | cons e events ih =>
    rw [List.foldl_cons, ih fun results hin => hquiet results (List.mem_cons_of_mem _ hin)]
    cases e with
    | complete results => exact absurd List.mem_cons_self (hquiet results)
    | _ => rfl

/-- The events of the two controllers. -/
def heard (r : RunNative) : List Event :=
  (r.firstController.map (·.log)).getD [] ++ (r.restController.map (·.log)).getD []

/-- What the sink is told before anything runs. -/
def begun (s : Setup) : Told where
  calls := s.targets.map fun target => .stageStarted (bytes target.host)

/-- The entry of the audit log that begins the run. -/
def opened (s : Setup) : List AuditLog.Entry :=
  if s.invocation.audit then
    [.runStarted s.runId (quoteRemoteCommand s.invocation.command .Posix) s.clients.length]
  else []

/-- What the audit log has of a run that ends with these results. -/
def recorded (s : Setup) (cancelled : Bool) (results : List HostResult) : List AuditLog.Entry :=
  if s.invocation.audit then
    results.zipIdx.map (fun p => .stageFinished s.runId (stageRecord p.1 p.2)) ++
      [.runFinished s.runId (runRecord cancelled results)]
  else []

/-! ## The states of a run -/

/-- What results may be marked for, after what happened so far. -/
def Allowed (s : Setup) (past : List Input) (cause : StopCause) : CancelKind → Prop
  | .Timeout => .timeout ∈ past ∧ 0 < s.invocation.timeoutSec
  | .Interrupt => cause = .Interrupt
  | .FailFast => s.invocation.failFast = true ∨ s.invocation.canary ≠ []
  | .Other => True

/-- What was heard is output of the targets. -/
def Heard (s : Setup) (events : List Event) : Prop :=
  ∀ host data channel, .output host data channel ∈ events → host ∈ s.targets.map (·.host)

theorem Heard.append {events more : List Event} (h : Heard s events) (hmore : Heard s more) :
    Heard s (events ++ more) := by
  intro host data channel hin
  rcases List.mem_append.mp hin with hin | hin
  · exact h host data channel hin
  · exact hmore host data channel hin

/-- A run whose results are not there. -/
structure Going (s : Setup) (past : List Input) (r : RunNative) : Prop where
  finalized : r.finalized = false
  stopped : r.stopped = false
  audited : r.audited = opened s
  told : r.told = listen s.streamLive (begun s) r.heard
  outputs : Heard s r.heard
  timeout : r.stopCause = .Timeout → Allowed s past r.stopCause .Timeout

/-- A run that gave its results. -/
structure Ended (s : Setup) (past : List Input) (r : RunNative) (results : List HostResult) :
    Prop where
  finalized : r.finalized = true
  stopped : r.stopped = true
  hosts : results.map (·.host) = s.targets.map (·.host)
  marks : ∀ res ∈ results, res.MarkedBy (Allowed s past r.stopCause)
  told : r.told.calls = (results.foldl (Told.finishStage s.streamLive)
    (listen s.streamLive (begun s) r.heard)).calls ++
    [.runFinished (summary (r.anyCancelled results) results)]
  exitCode : r.exitCode = verdict (r.anyCancelled results) results
  audited : r.audited = opened s ++ recorded s (r.anyCancelled results) results
  outputs : Heard s r.heard

theorem Going.finish (h : Going s past r) {results : List HostResult}
    (hosts : results.map (·.host) = s.targets.map (·.host))
    (hmarks : ∀ res ∈ results, res.MarkedBy (Allowed s past r.stopCause)) :
    Ended s past (r.finishResults s results) results := by
  unfold finishResults
  rw [if_neg (by simp [h.finalized])]
  refine ⟨rfl, rfl, hosts, hmarks, ?_, rfl, ?_, h.outputs⟩
  · dsimp only
    rw [h.told]
    rfl
  · dsimp only
    rw [h.audited]
    rfl

/-- Nothing that its transports and timers do changes a controller. -/
def Still (network : Nat → NativeController.Launch) (c : NativeController) : Prop :=
  ∀ report : Report, c.step network report.move.input = c

theorem still_over {network : Nat → NativeController.Launch} {targets : List Target}
    {options : NativeController.Options} {c : NativeController} (h : Over targets options true c) :
    Still network c := fun report => h.step network report.move.input

theorem still_new (network : Nat → NativeController.Launch) : Still network {} := by
  intro report
  cases report with
  | called index call =>
    simp [Report.move, Move.input, NativeController.step, NativeController.conn]
  | retired index => simp [Report.move, Move.input, NativeController.step]

theorem targets_split (s : Setup) : s.firstTargets ++ s.restTargets = s.targets := by
  unfold Setup.firstTargets Setup.restTargets
  split_ifs
  · exact List.append_nil _
  · exact List.take_append_drop _ _

/-- The results of a controller. -/
def results (c : NativeController) : List HostResult := c.conns.map (·.result)

/-- Why a controller was not started, if it was not. -/
def refusal (s : Setup) (attempts : Nat → NativeController.Attempt) (targets : List Target) :
    String :=
  match (({} : NativeController).start (fun i => (attempts i).launch) targets
    s.invocation.command true
    s.options).2 with
  | .ok _ => ""
  | .error e => e.message ""

/-- What there is to report: the results of the controllers, and the other targets as they were not
run. -/
def reported (s : Setup) (r : RunNative) : List HostResult :=
  match r.firstController with
  | none => []
  | some w =>
    if w.started then
      results w ++
        match r.restController with
        | none => s.restTargets.map (r.cancellationResult (skipMessage r.stopCause) true)
        | some v =>
          if v.started then results v
          else s.restTargets.map (r.cancellationResult (refusal s s.rest s.restTargets) false)
    else s.targets.map (r.cancellationResult (refusal s s.first s.firstTargets) false)

theorem reported_finish (r : RunNative) (results : List HostResult) :
    reported s (r.finishResults s results) = reported s r := by
  unfold finishResults
  split
  · rfl
  · rfl

theorem heard_first {allowed : CancelKind → Prop} {w : NativeController}
    (h : Labelled allowed (s.firstTargets.map (·.host)) w) : Heard s w.log := by
  intro host data channel hin
  rw [← targets_split s, List.map_append]
  exact List.mem_append_left _ (h.outputs host data channel hin)

theorem heard_rest {allowed : CancelKind → Prop} {v : NativeController}
    (h : Labelled allowed (s.restTargets.map (·.host)) v) : Heard s v.log := by
  intro host data channel hin
  rw [← targets_split s, List.map_append]
  exact List.mem_append_right _ (h.outputs host data channel hin)

theorem hosts_results {hosts : List String} {allowed : CancelKind → Prop} {c : NativeController}
    (h : Labelled allowed hosts c) : (results c).map (·.host) = hosts := by
  rw [← h.named]
  simp [results]

theorem marks_results {hosts : List String} {allowed : CancelKind → Prop} {c : NativeController}
    (h : Labelled allowed hosts c) : ∀ res ∈ results c, res.MarkedBy allowed := by
  intro res hin
  obtain ⟨conn, hconn, rfl⟩ := List.mem_map.mp hin
  exact h.marks conn hconn

/-- The first controller is done, and all of its hosts did well. -/
structure Good (s : Setup) (w : NativeController) : Prop where
  done : Over s.firstTargets s.options true w
  hosts : (results w).map (·.host) = s.firstTargets.map (·.host)
  fine : (results w).all ok = true

/-- Where a run is. -/
inductive Phase (s : Setup) (past : List Input) (r : RunNative) : Prop
  /-- The first controller runs. -/
  | first (w : NativeController) (h : Going s past r) (hfirst : r.firstController = some w)
      (hrest : r.restController = none) (hw : Waiting s.firstTargets s.options true w)
      (hlabel : Labelled (Allowed s past r.stopCause) (s.firstTargets.map (·.host)) w)
      (hstop : r.stopCause ≠ .None → w.cancelling = true)
  /-- The canaries did well, and the others run. -/
  | rest (w v : NativeController) (h : Going s past r) (hfirst : r.firstController = some w)
      (hgood : Good s w)
      (hcombined : r.combined = results w) (hrest : r.restController = some v)
      (hv : Waiting s.restTargets s.options true v)
      (hlabel : Labelled (Allowed s past r.stopCause) (s.restTargets.map (·.host)) v)
      (hstop : r.stopCause ≠ .None → v.cancelling = true)
  | ended (results : List HostResult) (h : Ended s past r results)
      (hfirst : ∀ w, r.firstController = some w → Still (fun i => (s.first i).launch) w)
      (hrest : ∀ v, r.restController = some v → Still (fun i => (s.rest i).launch) v ∧
        ∃ w, r.firstController = some w ∧ Good s w)
      (hreported : results = reported s r)

/-! ## The results of a controller -/

/-- A target that is not run is marked for what the run was stopped for. -/
theorem marks_cancellation (htimeout : r.stopCause = .Timeout → Allowed s past r.stopCause .Timeout)
    (message : String) {aborted : Bool} (haborted : aborted = true → s.invocation.canary ≠ [])
    (target : Target) :
    (r.cancellationResult message aborted target).MarkedBy (Allowed s past r.stopCause) := by
  refine ⟨fun h => ?_, fun h => ?_, fun h => ?_⟩
  · exact htimeout (by simpa [cancellationResult] using h)
  · simpa [cancellationResult, Allowed] using h
  · simp only [cancellationResult, Bool.and_eq_true] at h
    exact .inr (haborted h.1)

/-- A host that did well has no mark. -/
theorem marks_ok {res : HostResult} (h : ok res = true) (allowed : CancelKind → Prop) :
    res.MarkedBy allowed := by
  simp only [ok, Bool.and_eq_true, Bool.not_eq_true', decide_eq_true_eq] at h
  obtain ⟨⟨⟨-, htimed⟩, hcancelled⟩, haborted⟩ := h
  exact ⟨by simp [htimed], by simp [hcancelled], by simp [haborted]⟩

theorem canary_of_rest (h : s.restTargets ≠ []) : s.invocation.canary ≠ [] := by
  intro hnone
  simp [Setup.restTargets, hnone] at h

/-- The run ends with the results of the first controller, and the others as they were not run. -/
theorem Going.skip (h : Going s past r) {w : NativeController} (hfirst : r.firstController = some w)
    (hrest : r.restController = none) (hover : Over s.firstTargets s.options true w)
    (hlabel : Labelled (Allowed s past r.stopCause) (s.firstTargets.map (·.host)) w) :
    Phase s past (r.finishResults s
      (results w ++ s.restTargets.map (r.cancellationResult (skipMessage r.stopCause) true))) := by
  generalize hall : results w ++ s.restTargets.map
    (r.cancellationResult (skipMessage r.stopCause) true) = all
  have hcontrollers : (r.finishResults s all).firstController = some w ∧
      (r.finishResults s all).restController = none := by
    unfold finishResults
    rw [if_neg (by simp [h.finalized])]
    exact ⟨hfirst, hrest⟩
  refine .ended all (h.finish ?_ ?_) ?_ ?_ ?_
  · rw [← hall, List.map_append, hosts_results hlabel, ← targets_split s, List.map_append,
      List.map_map]
    rfl
  · intro res hin
    rw [← hall] at hin
    rcases List.mem_append.mp hin with hin | hin
    · exact marks_results hlabel res hin
    · obtain ⟨target, htarget, rfl⟩ := List.mem_map.mp hin
      have hcanary := canary_of_rest (List.ne_nil_of_mem htarget)
      exact marks_cancellation h.timeout _ (fun _ => hcanary) target
  · intro w' hw'
    obtain rfl := Option.some.inj (hcontrollers.1.symm.trans hw')
    exact still_over hover
  · intro v hv
    rw [hcontrollers.2] at hv
    cases hv
  · rw [reported_finish, ← hall]
    simp [reported, hfirst, hrest, hover.started]

/-- The run ends with the results of the two controllers, or of the first and of others that were
not run. -/
theorem Going.join (h : Going s past r) {w v : NativeController}
    (hfirst : r.firstController = some w) (hgood : Good s w) (hrest : r.restController = some v)
    (hstill : Still (fun i => (s.rest i).launch) v) {more : List HostResult}
    (hmore : more = if v.started then results v
      else s.restTargets.map (r.cancellationResult (refusal s s.rest s.restTargets) false))
    (hhosts : more.map (·.host) = s.restTargets.map (·.host))
    (hmarks : ∀ res ∈ more, res.MarkedBy (Allowed s past r.stopCause)) :
    Phase s past (r.finishResults s (results w ++ more)) := by
  have hcontrollers : (r.finishResults s (results w ++ more)).firstController = some w ∧
      (r.finishResults s (results w ++ more)).restController = some v := by
    unfold finishResults
    rw [if_neg (by simp [h.finalized])]
    exact ⟨hfirst, hrest⟩
  refine .ended _ (h.finish ?_ ?_) ?_ ?_ ?_
  · rw [List.map_append, hgood.hosts, hhosts, ← List.map_append, targets_split]
  · intro res hin
    rcases List.mem_append.mp hin with hin | hin
    · exact marks_ok (List.all_eq_true.mp hgood.fine res hin) _
    · exact hmarks res hin
  · intro w' hw'
    obtain rfl := Option.some.inj (hcontrollers.1.symm.trans hw')
    exact still_over hgood.done
  · intro v' hv'
    obtain rfl := Option.some.inj (hcontrollers.2.symm.trans hv')
    exact ⟨hstill, w, hcontrollers.1, hgood⟩
  · rw [reported_finish, hmore]
    simp [reported, hfirst, hrest, hgood.done.started]

/-! ## What a controller did -/

/-- What a controller does in one go: it goes on, or is done. -/
def Does (targets : List Target) (options : NativeController.Options)
    (before next : NativeController) : Prop :=
  Waiting targets options true next ∧ HoldsBack before next ∨
    Over targets options true next ∧ HandsOver targets before next

/-- What is heard of a controller that goes on or is done: its output, and then its results. -/
theorem foldl_does {targets : List Target} {options : NativeController.Options}
    {before next : NativeController} (onComplete : RunNative → List HostResult → RunNative)
    (h : Does targets options before next) (r : RunNative) {earlier : List Event}
    (htold : r.told = listen s.streamLive (begun s) (earlier ++ before.log)) :
    let told := { r with told := listen s.streamLive (begun s) (earlier ++ next.log) }
    (Waiting targets options true next ∧
      (next.log.drop before.log.length).foldl (hear s onComplete) r = told) ∨
    (Over targets options true next ∧
      (next.log.drop before.log.length).foldl (hear s onComplete) r =
        onComplete told (results next)) := by
  intro told
  rcases h with ⟨hwait, ⟨more, hmore⟩, hquiet⟩ | ⟨hover, ⟨more, hmore, hquiet⟩, -⟩
  · refine .inl ⟨hwait, ?_⟩
    have hnone : ∀ results, .complete results ∉ more := fun results hin =>
      hquiet results (by rw [hmore]; exact List.mem_append_right _ hin)
    rw [hmore, List.drop_left, foldl_hear onComplete hnone, htold, ← listen_append,
      List.append_assoc,
      ← hmore]
  · refine .inr ⟨hover, ?_⟩
    have hnone : ∀ results, .complete results ∉ more := fun results hin =>
      hquiet results (List.mem_append_right _ hin)
    have hdrop : next.log.drop before.log.length = more ++ [.complete (results next)] := by
      rw [hmore, List.append_assoc, List.drop_left]
      rfl
    have hlisten : listen s.streamLive (begun s) (earlier ++ next.log) =
        listen s.streamLive r.told more := by
      rw [hmore, htold, ← List.append_assoc, listen_append, listen_complete, ← List.append_assoc,
        listen_append]
    rw [hdrop, List.foldl_append, foldl_hear onComplete hnone, List.foldl_cons, List.foldl_nil]
    dsimp only [hear, told]
    rw [hlisten]

/-- The second controller did something. -/
theorem Going.hear_rest {w before next : NativeController} (h : Going s past r)
    (hfirst : r.firstController = some w) (hgood : Good s w) (hcombined : r.combined = results w)
    (hrest : r.restController = some before)
    (hlabel : Labelled (Allowed s past r.stopCause) (s.restTargets.map (·.host)) next)
    (hstop : r.stopCause ≠ .None → next.cancelling = true)
    (hdoes : Does s.restTargets s.options before next) :
    Phase s past ((next.log.drop before.log.length).foldl (hear s (onRestDone s))
      { r with restController := some next }) := by
  have htold : r.told = listen s.streamLive (begun s) (w.log ++ before.log) := by
    rw [h.told]
    simp [heard, hfirst, hrest]
  have hgoing : Going s past { r with
      restController := some next, told := listen s.streamLive (begun s) (w.log ++ next.log) } := by
    have hheard : Heard s (w.log ++ before.log) := by
      simpa [heard, hfirst, hrest] using h.outputs
    refine ⟨h.finalized, h.stopped, h.audited, ?_, ?_, h.timeout⟩
    · simp [heard, hfirst]
    · have hold : Heard s w.log := fun host data channel hin =>
        hheard host data channel (List.mem_append_left _ hin)
      simpa [heard, hfirst] using hold.append (heard_rest hlabel)
  rcases foldl_does (onRestDone s) hdoes { r with restController := some next } htold with
    ⟨hwait, heq⟩ | ⟨hover, heq⟩
  · rw [heq]
    exact .rest w next hgoing hfirst hgood hcombined rfl hwait hlabel hstop
  · rw [heq]
    have hjoined := hgoing.join hfirst hgood rfl (still_over hover) (if_pos hover.started).symm
      (hosts_results hlabel) (marks_results hlabel)
    rw [← hcombined] at hjoined
    exact hjoined

/-- What a start makes of a controller, when it is not refused. -/
theorem does_start {targets : List Target} {command : List Bytes}
    {options : NativeController.Options}
    {allowed : CancelKind → Prop} (attempts : Nat → NativeController.Attempt)
    (hfast : options.failFast = true → allowed .FailFast) {c : NativeController}
    {started : Result Unit}
    (hstart : ({} : NativeController).start (fun i => (attempts i).launch) targets command
      true options =
      (c, started)) :
    (c = {} ∧ ∃ e, started = .error e) ∨
      (started = .ok () ∧ Does targets options {} c ∧
        Labelled allowed (targets.map (·.host)) c) := by
  rcases NativeController.start_cases _ targets command options hstart with hrefused |
    ⟨hok, hwait⟩ | ⟨hok, hover⟩
  · exact .inl hrefused
  · exact .inr ⟨hok, .inl hwait,
      NativeController.labelled_start attempts targets command hfast hstart hok⟩
  · exact .inr ⟨hok, .inr hover,
      NativeController.labelled_start attempts targets command hfast hstart hok⟩

theorem allowed_failFast (past : List Input) (cause : StopCause) (h : s.options.failFast = true) :
    Allowed s past cause .FailFast :=
  .inl h

/-- The first controller is done, with canaries. -/
theorem Going.onCanaryDone (h : Going s past r) {w : NativeController}
    (hfirst : r.firstController = some w)
    (hrest : r.restController = none) (hover : Over s.firstTargets s.options true w)
    (hlabel : Labelled (Allowed s past r.stopCause) (s.firstTargets.map (·.host)) w) :
    Phase s past (r.onCanaryDone s (results w)) := by
  unfold RunNative.onCanaryDone
  split_ifs with hskip
  · exact h.skip hfirst hrest hover hlabel
  · simp only [not_or, not_not] at hskip
    obtain ⟨hfine, -, hcause⟩ := hskip
    have hgood : Good s w := ⟨hover, hosts_results hlabel, hfine⟩
    have htold : r.told = listen s.streamLive (begun s) w.log := by
      rw [h.told]
      simp [heard, hfirst, hrest]
    rcases hstart : ({} : NativeController).start (fun i => (s.rest i).launch) s.restTargets
      s.invocation.command true s.options with ⟨v, restStarted⟩
    have hbefore : Going s past { r with restController := some {}, combined := results w } :=
      ⟨h.finalized, h.stopped, h.audited, by simp [heard, hfirst, htold], by
        simpa [heard, hfirst] using heard_first hlabel, h.timeout⟩
    rcases does_start s.rest (allowed_failFast past r.stopCause) hstart with ⟨rfl, e, rfl⟩ |
      ⟨rfl, hdoes, hlabel⟩
    · apply hbefore.join hfirst hgood rfl (still_new _)
      · simp [refusal, hstart]
      · rw [List.map_map]
        rfl
      · intro res hin
        obtain ⟨target, -, rfl⟩ := List.mem_map.mp hin
        exact marks_cancellation h.timeout _ (by simp) target
    · exact hbefore.hear_rest hfirst hgood rfl rfl hlabel (fun hstop => absurd hcause hstop) hdoes

/-- The first controller did something. -/
theorem Going.hear_first {before next : NativeController} (h : Going s past r)
    (hfirst : r.firstController = some before) (hrest : r.restController = none)
    (hlabel : Labelled (Allowed s past r.stopCause) (s.firstTargets.map (·.host)) next)
    (hstop : r.stopCause ≠ .None → next.cancelling = true)
    (hdoes : Does s.firstTargets s.options before next) :
    Phase s past ((next.log.drop before.log.length).foldl (hear s (onFirstDone s))
      { r with firstController := some next }) := by
  have htold : r.told = listen s.streamLive (begun s) ([] ++ before.log) := by
    rw [h.told]
    simp [heard, hfirst, hrest]
  have hgoing : Going s past { r with
      firstController := some next, told := listen s.streamLive (begun s) ([] ++ next.log) } := by
    refine ⟨h.finalized, h.stopped, h.audited, ?_, ?_, h.timeout⟩
    · simp [heard, hrest]
    · simpa [heard, hrest] using heard_first hlabel
  rcases foldl_does (onFirstDone s) hdoes { r with firstController := some next } htold with
    ⟨hwait, heq⟩ | ⟨hover, heq⟩
  · rw [heq]
    exact .first next hgoing rfl hrest hwait hlabel hstop
  · rw [heq]
    unfold onFirstDone
    split_ifs with hcanary
    · have hnone : s.restTargets = [] := by simp [Setup.restTargets, hcanary]
      have hdone := hgoing.skip rfl hrest hover hlabel
      rw [hnone, List.map_nil, List.append_nil] at hdone
      exact hdone
    · exact hgoing.onCanaryDone rfl hrest hover hlabel

/-! ## Steps -/

theorem start_phase (s : Setup) : Phase s [] (start s) := by
  unfold RunNative.start
  rcases hstart : ({} : NativeController).start (fun i => (s.first i).launch) s.firstTargets
    s.invocation.command true s.options with ⟨w, started⟩
  have hbefore : Going s [] {
      told := begun s, audited := opened s, firstController := some ({} : NativeController) } :=
    ⟨rfl, rfl, rfl, rfl, by simp [Heard, heard], fun htimeout => by cases htimeout⟩
  rcases does_start s.first (allowed_failFast [] StopCause.None) hstart with ⟨rfl, e, rfl⟩ |
    ⟨rfl, hdoes, hlabel⟩
  · refine .ended _ (hbefore.finish ?_ ?_) ?_ ?_ ?_
    · rw [List.map_map]
      rfl
    · intro res hin
      obtain ⟨target, -, rfl⟩ := List.mem_map.mp hin
      exact marks_cancellation (fun htimeout => by cases htimeout) _ (by simp) target
    · intro w hw
      obtain rfl := Option.some.inj hw
      exact still_new _
    · intro v hv
      cases hv
    · rw [reported_finish]
      simp [reported, refusal, hstart]
  · exact hbefore.hear_first rfl rfl hlabel (fun hstop => absurd rfl hstop) hdoes

/-- The first controller moves while it runs. -/
theorem Going.moveFirst {w : NativeController} (h : Going s past r)
    (hfirst : r.firstController = some w)
    (hrest : r.restController = none) (hw : Waiting s.firstTargets s.options true w)
    (hlabel : Labelled (Allowed s past r.stopCause) (s.firstTargets.map (·.host)) w) {move : Move}
    (hmove : ∀ reason kind, move = .cancel reason kind →
      NativeController.kindOf reason kind ≠ .Other →
      Allowed s past r.stopCause (NativeController.kindOf reason kind))
    (hstop : r.stopCause ≠ .None →
      (w.step (fun i => (s.first i).launch) move.input).cancelling = true) :
    Phase s past (r.moveFirst s move) := by
  unfold RunNative.moveFirst
  rw [hfirst]
  exact h.hear_first hfirst hrest (hlabel.moves s.first hmove) hstop (hw.moves _ move)

theorem Going.moveRest {w v : NativeController} (h : Going s past r)
    (hfirst : r.firstController = some w)
    (hgood : Good s w) (hcombined : r.combined = results w) (hrest : r.restController = some v)
    (hv : Waiting s.restTargets s.options true v)
    (hlabel : Labelled (Allowed s past r.stopCause) (s.restTargets.map (·.host)) v) {move : Move}
    (hmove : ∀ reason kind, move = .cancel reason kind →
      NativeController.kindOf reason kind ≠ .Other →
      Allowed s past r.stopCause (NativeController.kindOf reason kind))
    (hstop : r.stopCause ≠ .None →
      (v.step (fun i => (s.rest i).launch) move.input).cancelling = true) :
    Phase s past (r.moveRest s move) := by
  unfold RunNative.moveRest
  rw [hrest]
  exact h.hear_rest hfirst hgood hcombined hrest (hlabel.moves s.rest hmove) hstop (hv.moves _ move)

theorem report_no_cancel (report : Report) : ∀ reason kind, report.move ≠ .cancel reason kind := by
  intro reason kind
  cases report <;> simp [Report.move]

theorem Phase.report_first (h : Phase s past r) (report : Report) :
    Phase s past (r.moveFirst s report.move) := by
  have hmove : ∀ reason kind, report.move = .cancel reason kind →
      NativeController.kindOf reason kind ≠ .Other →
        Allowed s past r.stopCause (NativeController.kindOf reason kind) :=
    fun reason kind heq => absurd heq (report_no_cancel report reason kind)
  have hstill : ∀ w, r.firstController = some w → Still (fun i => (s.first i).launch) w →
      r.moveFirst s report.move = r := by
    intro w hfirst hw
    unfold RunNative.moveFirst
    rw [hfirst]
    dsimp only
    rw [hw report, List.drop_length, List.foldl_nil, ← hfirst]
  cases h with
  | first w h hfirst hrest hw hlabel hstop =>
    apply h.moveFirst hfirst hrest hw hlabel hmove
    exact fun hcause => hw.stays_cancelled _ (hstop hcause) _
  | rest w v h hfirst hgood hcombined hrest hv hlabel hstop =>
    rw [hstill w hfirst (still_over hgood.done)]
    exact .rest w v h hfirst hgood hcombined hrest hv hlabel hstop
  | ended results h hfirst hrest hreported =>
    cases hw : r.firstController with
    | none =>
      have hsame : r.moveFirst s report.move = r := by
        unfold RunNative.moveFirst
        rw [hw]
      rw [hsame]
      exact .ended results h hfirst hrest hreported
    | some w =>
      rw [hstill w hw (hfirst w hw)]
      exact .ended results h hfirst hrest hreported

theorem Phase.report_rest (h : Phase s past r) (report : Report) :
    Phase s past (r.moveRest s report.move) := by
  have hnone : r.restController = none → r.moveRest s report.move = r := by
    intro hrest
    unfold RunNative.moveRest
    rw [hrest]
  cases h with
  | first w h hfirst hrest hw hlabel hstop =>
    rw [hnone hrest]
    exact .first w h hfirst hrest hw hlabel hstop
  | rest w v h hfirst hgood hcombined hrest hv hlabel hstop =>
    apply h.moveRest hfirst hgood hcombined hrest hv hlabel
    · exact fun reason kind heq => absurd heq (report_no_cancel report reason kind)
    · exact fun hcause => hv.stays_cancelled _ (hstop hcause) _
  | ended results h hfirst hrest hreported =>
    cases hv : r.restController with
    | none =>
      rw [hnone hv]
      exact .ended results h hfirst hrest hreported
    | some v =>
      have hsame : r.moveRest s report.move = r := by
        unfold RunNative.moveRest
        rw [hv]
        dsimp only
        rw [(hrest v hv).1 report, List.drop_length, List.foldl_nil, ← hv]
      rw [hsame]
      exact .ended results h hfirst hrest hreported

/-- What runs is stopped for a new cause. -/
theorem Phase.stops (h : Phase s past r) (hgo : r.finalized = false) {cause : StopCause}
    (hmono : ∀ kind, Allowed s past r.stopCause kind → Allowed s past cause kind) (reason : String)
    {kind : CancelKind} (hkind : Allowed s past cause (NativeController.kindOf reason kind))
    (htimeout : cause = .Timeout → Allowed s past cause .Timeout) :
    Phase s past (cancel s { r with stopCause := cause } reason kind) := by
  have hmove : ∀ reason' kind', Move.cancel reason kind = .cancel reason' kind' →
      NativeController.kindOf reason' kind' ≠ .Other →
        Allowed s past cause (NativeController.kindOf reason' kind') := by
    intro reason' kind' heq _
    obtain ⟨rfl, rfl⟩ := Move.cancel.inj heq
    exact hkind
  unfold RunNative.cancel
  cases h with
  | first w h hfirst hrest hw hlabel hstop =>
    have hgoing : Going s past { r with stopCause := cause } :=
      ⟨h.finalized, h.stopped, h.audited, h.told, h.outputs, htimeout⟩
    rw [if_neg (by simp [hrest])]
    apply hgoing.moveFirst hfirst hrest hw (hlabel.mono hmono) hmove
    exact fun _ => hw.cancelled _ reason kind
  | rest w v h hfirst hgood hcombined hrest hv hlabel hstop =>
    have hgoing : Going s past { r with stopCause := cause } :=
      ⟨h.finalized, h.stopped, h.audited, h.told, h.outputs, htimeout⟩
    rw [if_pos (by simp [hrest])]
    apply hgoing.moveRest hfirst hgood hcombined hrest hv (hlabel.mono hmono) hmove
    exact fun _ => hv.cancelled _ reason kind
  | ended results h hfirst hrest hreported => simp [h.finalized] at hgo

theorem Phase.onSignal (h : Phase s past r) : Phase s past (r.onSignal s) := by
  unfold RunNative.onSignal
  split_ifs with hdone
  · exact h
  · rw [not_or] at hdone
    refine h.stops (by simpa using hdone.1) ?_ "cancelled" rfl fun hcause => by cases hcause
    intro kind hallowed
    cases kind with
    | Interrupt => rfl
    | Timeout | FailFast => exact hallowed
    | Other => trivial

theorem Phase.onTimeout (h : Phase s past r)
    (htimeout : .timeout ∈ past ∧ 0 < s.invocation.timeoutSec) :
    Phase s past (r.onTimeout s) := by
  unfold RunNative.onTimeout
  split_ifs with hdone
  · exact h
  · rw [not_or, not_not] at hdone
    refine h.stops (by simpa using hdone.1) ?_ "timed out" htimeout fun _ => htimeout
    intro kind hallowed
    cases kind with
    | Interrupt => simp [Allowed, hdone.2] at hallowed
    | Timeout | FailFast => exact hallowed
    | Other => trivial

theorem Allowed.later {cause : StopCause} {kind : CancelKind} (h : Allowed s past cause kind)
    (more : List Input) : Allowed s (past ++ more) cause kind := by
  cases kind with
  | Timeout => exact ⟨List.mem_append_left _ h.1, h.2⟩
  | Interrupt | FailFast | Other => exact h

theorem Phase.later (h : Phase s past r) (more : List Input) : Phase s (past ++ more) r := by
  cases h with
  | first w h hfirst hrest hw hlabel hstop =>
    have hgoing : Going s (past ++ more) r :=
      ⟨h.finalized, h.stopped, h.audited, h.told, h.outputs,
        fun hcause => (h.timeout hcause).later more⟩
    exact .first w hgoing hfirst hrest hw (hlabel.mono fun _ hallowed => hallowed.later more) hstop
  | rest w v h hfirst hgood hcombined hrest hv hlabel hstop =>
    have hgoing : Going s (past ++ more) r :=
      ⟨h.finalized, h.stopped, h.audited, h.told, h.outputs,
        fun hcause => (h.timeout hcause).later more⟩
    exact .rest w v hgoing hfirst hgood hcombined hrest hv
      (hlabel.mono fun _ hallowed => hallowed.later more)
      hstop
  | ended results h hfirst hrest hreported =>
    refine .ended results ⟨h.finalized, h.stopped, h.hosts, fun res hin => ?_, h.told,
      h.exitCode, h.audited,
      h.outputs⟩ hfirst hrest hreported
    have hmarks := h.marks res hin
    exact ⟨fun h => (hmarks.timedOut h).later more, fun h => (hmarks.cancelled h).later more,
      fun h => (hmarks.aborted h).later more⟩

/-- What the command returns is not read while it runs. -/
theorem Phase.returned (h : Phase s past r) (code : Option Int) :
    Phase s past { r with returned := code } := by
  cases h with
  | first w h hfirst hrest hw hlabel hstop =>
    exact .first w ⟨h.finalized, h.stopped, h.audited, h.told, h.outputs, h.timeout⟩
      hfirst hrest hw hlabel hstop
  | rest w v h hfirst hgood hcombined hrest hv hlabel hstop =>
    exact .rest w v ⟨h.finalized, h.stopped, h.audited, h.told, h.outputs, h.timeout⟩
      hfirst hgood hcombined hrest hv hlabel hstop
  | ended results h hfirst hrest hreported =>
    exact .ended results
      ⟨h.finalized, h.stopped, h.hosts, h.marks, h.told, h.exitCode, h.audited,
        h.outputs⟩ hfirst hrest hreported

theorem Phase.step (h : Phase s past r) (input : Input) :
    Phase s (past ++ [input]) (r.step s input) := by
  have hnow := h.later [input]
  unfold RunNative.step
  by_cases hreturned : r.returned.isSome
  · rw [if_pos hreturned]
    exact hnow
  · rw [if_neg hreturned]
    cases input with
    | first report => exact hnow.report_first report
    | rest report => exact hnow.report_rest report
    | signal => exact hnow.onSignal
    | timeout =>
      dsimp only
      split
      · rename_i hset
        exact hnow.onTimeout ⟨List.mem_append_right _ (List.mem_singleton_self _), hset⟩
      · exact hnow
    | turn =>
      dsimp only
      split
      · exact hnow.returned _
      · exact hnow
    | failed => exact hnow.returned _

theorem run_phase (s : Setup) (inputs : List Input) : Phase s inputs (run s inputs) := by
  unfold run
  induction inputs using List.reverseRecOn with
  | nil => exact start_phase s
  | append_singleton inputs input ih =>
    rw [List.foldl_append]
    exact ih.step input

end psx.cli.RunNative
