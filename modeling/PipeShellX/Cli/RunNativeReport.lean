-- What comes out of `run --transport native`: one result for each client in their order, every line
-- of every host, and an exit code that says how it went.
import PipeShellX.Cli.RunNativeRuns

namespace psx.cli.RunNative

open psx.sink (Call RunSummary sent)
open psx.stream (LineFramer)
open psx.transport (NativeController)
open psx.transport.NativeController (CancelKind Event HostResult Over Waiting)

variable {s : Setup} {past : List Input} {r : RunNative}

theorem bytes_inj {a b : String} : bytes a = bytes b ↔ a = b := by
  constructor
  · intro h
    have hdata : a.toUTF8.data = b.toUTF8.data := Array.toList_inj.mp h
    exact String.toByteArray_inj.mp (ByteArray.ext hdata)
  · exact congrArg bytes

/-! ## One result for each client -/

/-- The call tells a line of the host. -/
def IsLine (host : String) (call : Call) : Prop :=
  ∃ channel text, call = .line (bytes host) channel text

/-- The results come one by one, each behind the last lines of its host. -/
inductive Finishes : List HostResult → List Call → Prop
  | nil : Finishes [] []
  | cons {res : HostResult} {results : List HostResult} {lines calls : List Call}
      (hlines : ∀ call ∈ lines, IsLine res.host call) (h : Finishes results calls) :
      Finishes (res :: results) (lines ++ .stageFinished (bytes res.host)
        (Told.stageResult res) :: calls)

theorem emit_isLine (host : String) (channel : transport.Channel) (lines : List stream.Line) :
    ∀ call ∈ Told.emit host channel lines, IsLine host call := by
  intro call hin
  obtain ⟨line, -, rfl⟩ := List.mem_map.mp hin
  exact ⟨_, _, rfl⟩

/-- What is told of one result. -/
theorem finishStage_calls (live : Bool) (t : Told) (res : HostResult) :
    ∃ lines, (t.finishStage live res).calls =
        t.calls ++ lines ++ [.stageFinished (bytes res.host) (Told.stageResult res)] ∧
      ∀ call ∈ lines, IsLine res.host call := by
  unfold Told.finishStage
  cases live with
  | true =>
    refine ⟨_ ++ _, by simp only [Told.flush, if_true, ← List.append_assoc]; rfl,
      fun call hin => ?_⟩
    rcases List.mem_append.mp hin with hin | hin
    · exact emit_isLine _ _ _ call hin
    · exact emit_isLine _ _ _ call hin
  | false =>
    refine ⟨_ ++ _,
      by simp only [Told.replay, Bool.false_eq_true, if_false, ← List.append_assoc]; rfl,
      fun call hin => ?_⟩
    rcases List.mem_append.mp hin with hin | hin
    · exact emit_isLine _ _ _ call hin
    · exact emit_isLine _ _ _ call hin

theorem finishes (live : Bool) (results : List HostResult) (t : Told) :
    ∃ ending, (results.foldl (Told.finishStage live) t).calls = t.calls ++ ending ∧
      Finishes results ending := by
  induction results generalizing t with
  | nil => exact ⟨[], by simp, .nil⟩
  | cons res results ih =>
    obtain ⟨lines, hlines, hall⟩ := finishStage_calls live t res
    obtain ⟨ending, hending, hfinishes⟩ := ih (t.finishStage live res)
    refine ⟨_, ?_, .cons hall hfinishes⟩
    rw [List.foldl_cons, hending, hlines]
    simp

/-- The results that a sink was told. -/
def finished (calls : List Call) : List (Bytes × sink.StageResult) :=
  calls.filterMap fun
    | .stageFinished stage result => some (stage, result)
    | _ => none

theorem finished_append (calls more : List Call) :
    finished (calls ++ more) = finished calls ++ finished more :=
  List.filterMap_append

theorem finished_lines {lines : List Call} (h : ∀ call ∈ lines, ∃ host, IsLine host call) :
    finished lines = [] := by
  unfold finished
  rw [List.filterMap_eq_nil_iff]
  intro call hin
  obtain ⟨host, channel, text, rfl⟩ := h call hin
  rfl

theorem Finishes.finished {results : List HostResult} {calls : List Call}
    (h : Finishes results calls) :
    finished calls = results.map fun res => (bytes res.host, Told.stageResult res) := by
  induction h with
  | nil => rfl
  | cons hlines h ih =>
    rw [finished_append, finished_lines fun call hin => ⟨_, hlines call hin⟩, List.nil_append,
      List.map_cons, ← ih]
    rfl

theorem finished_begun (s : Setup) : finished (begun s).calls = [] := by
  simp [finished, begun]

/-- While the run goes on the sink is told lines of the hosts that are heard. -/
theorem listen_calls (live : Bool) (t : Told) (events : List Event) :
    ∃ lines, (listen live t events).calls = t.calls ++ lines ∧
      ∀ call ∈ lines, ∃ host data channel, .output host data channel ∈ events ∧
        IsLine host call := by
  induction events generalizing t with
  | nil => exact ⟨[], by simp [listen], by simp⟩
  | cons e events ih =>
    obtain ⟨lines, hlines, hall⟩ := ih (t.hear live e)
    obtain ⟨now, hnow, hmine⟩ : ∃ now, (t.hear live e).calls = t.calls ++ now ∧
        ∀ call ∈ now, ∃ host data channel, e = .output host data channel ∧ IsLine host call := by
      cases e with
      | output host data channel =>
        cases live with
        | true =>
          cases channel with
          | Stdout =>
            exact ⟨_, rfl, fun call hin => ⟨host, data, _, rfl, emit_isLine _ _ _ call hin⟩⟩
          | Stderr =>
            exact ⟨_, rfl, fun call hin => ⟨host, data, _, rfl, emit_isLine _ _ _ call hin⟩⟩
        | false => exact ⟨[], by simp [Told.hear], by simp⟩
      | _ => exact ⟨[], by simp [Told.hear], by simp⟩
    refine ⟨now ++ lines, ?_, fun call hin => ?_⟩
    · change (listen live (t.hear live e) events).calls = _
      rw [hlines, hnow, List.append_assoc]
    · rcases List.mem_append.mp hin with hin | hin
      · obtain ⟨host, data, channel, rfl, hline⟩ := hmine call hin
        exact ⟨host, data, channel, List.mem_cons_self, hline⟩
      · obtain ⟨host, data, channel, hout, hline⟩ := hall call hin
        exact ⟨host, data, channel, List.mem_cons_of_mem _ hout, hline⟩

/-- A run that goes on has a connection; once it is stopped each of them only waits for its
timer. -/
def Awaits (r : RunNative) : Prop :=
  ∃ c, (r.firstController = some c ∨ r.restController = some c) ∧ (∃ i, (c.conn i).active = true) ∧
    (r.stopCause ≠ .None → ∀ i, (c.conn i).active = true → i ∈ c.retireTimers)

theorem Phase.awaits (h : Phase s past r) (hgo : r.finalized = false) : Awaits r := by
  cases h with
  | first w h hfirst hrest hw hlabel hstop =>
    obtain ⟨hactive, htimers⟩ := hw.waits
    exact ⟨w, .inl hfirst, hactive, fun hcause => htimers (hstop hcause)⟩
  | rest w v h hfirst hgood hcombined hrest hv hlabel hstop =>
    obtain ⟨hactive, htimers⟩ := hv.waits
    exact ⟨v, .inr hrest, hactive, fun hcause => htimers (hstop hcause)⟩
  | ended results h hfirst hrest hreported => simp [h.finalized] at hgo

theorem Phase.told (h : Phase s past r) (hgo : r.finalized = false) :
    r.told = listen s.streamLive (begun s) r.heard := by
  cases h with
  | first w h hfirst hrest hw hlabel hstop => exact h.told
  | rest w v h hfirst hgood hcombined hrest hv hlabel hstop => exact h.told
  | ended results h hfirst hrest hreported => simp [h.finalized] at hgo

theorem Phase.outputs (h : Phase s past r) : Heard s r.heard := by
  cases h with
  | first w h hfirst hrest hw hlabel hstop => exact h.outputs
  | rest w v h hfirst hgood hcombined hrest hv hlabel hstop => exact h.outputs
  | ended results h hfirst hrest hreported => exact h.outputs

theorem Phase.results (h : Phase s past r) (hdone : r.finalized = true) :
    Ended s past r (reported s r) := by
  cases h with
  | first w h hfirst hrest hw hlabel hstop => simp [h.finalized] at hdone
  | rest w v h hfirst hgood hcombined hrest hv hlabel hstop => simp [h.finalized] at hdone
  | ended results h hfirst hrest hreported => exact hreported ▸ h

theorem hosts_targets (s : Setup) : s.targets.map (·.host) = s.clients.map (·.host) := by
  unfold Setup.targets
  rw [List.map_map]
  rfl

theorem begun_calls (s : Setup) :
    (begun s).calls = s.clients.map fun client => .stageStarted (bytes client.host) := by
  unfold begun Setup.targets
  rw [List.map_map]
  rfl

/-- A result is cancelled only if the run was. -/
theorem Ended.anyCancelled {results : List HostResult} (h : Ended s past r results) :
    r.anyCancelled results = decide (r.stopCause = .Interrupt) := by
  unfold RunNative.anyCancelled
  rw [Bool.or_eq_left_iff_imp]
  intro hany
  obtain ⟨res, hin, hcancelled⟩ := List.any_eq_true.mp hany
  exact decide_eq_true ((h.marks res hin).cancelled hcancelled)

/-- The sink was told the results, and the summary of them last. -/
theorem Ended.finished {results : List HostResult} (h : Ended s past r results) :
    RunNative.finished r.told.calls =
        results.map (fun res => (bytes res.host, Told.stageResult res)) ∧
      r.told.calls.getLast? = some (.runFinished (summary (r.stopCause = .Interrupt) results)) := by
  rw [h.told, h.anyCancelled]
  refine ⟨?_, ?_⟩
  · obtain ⟨live, hlive, hlines⟩ := listen_calls s.streamLive (begun s) r.heard
    obtain ⟨ending, hending, hfinishes⟩ :=
      finishes s.streamLive results (listen s.streamLive (begun s) r.heard)
    have hquiet : RunNative.finished live = [] := by
      apply finished_lines
      intro call hin
      obtain ⟨host, _, _, _, hline⟩ := hlines call hin
      exact ⟨host, hline⟩
    rw [hending, hlive, finished_append, finished_append, finished_append, finished_begun, hquiet,
      hfinishes.finished]
    simp [RunNative.finished]
  · rw [List.getLast?_append]
    rfl

theorem Ended.recorded {results : List HostResult} (h : Ended s past r results) :
    r.audited = opened s ++ RunNative.recorded s (r.stopCause = .Interrupt) results := by
  rw [h.audited, h.anyCancelled]

/-- The sink is told of each client when the run starts, then lines of the clients, and at the end
one result for each client in their order, each behind the last lines of its host, and the summary.
Until then there is a connection to wait for, and once the run is stopped it only waits for
timers. -/
theorem every_client_gets_one_result (s : Setup) (inputs : List Input) :
    let r := run s inputs
    let started := s.clients.map fun client => Call.stageStarted (bytes client.host)
    ∃ live, (∀ call ∈ live, ∃ client ∈ s.clients, IsLine client.host call) ∧
      (r.finalized = false → r.told.calls = started ++ live ∧ Awaits r) ∧
      (r.finalized = true → ∃ results ending, results.map (·.host) = s.clients.map (·.host) ∧
        Finishes results ending ∧ r.told.calls = started ++ live ++ ending ++
          [.runFinished (summary (r.stopCause = .Interrupt) results)]) := by
  intro r started
  have hphase : Phase s inputs r := run_phase s inputs
  obtain ⟨live, hlive, hlines⟩ := listen_calls s.streamLive (begun s) r.heard
  rw [begun_calls] at hlive
  refine ⟨live, fun call hin => ?_, fun hgo => ?_, fun hdone => ?_⟩
  · obtain ⟨host, data, channel, hout, hline⟩ := hlines call hin
    have hhost := hphase.outputs host data channel hout
    rw [hosts_targets] at hhost
    obtain ⟨client, hclient, rfl⟩ := List.mem_map.mp hhost
    exact ⟨client, hclient, hline⟩
  · rw [hphase.told hgo, hlive]
    exact ⟨rfl, hphase.awaits hgo⟩
  · have hended := hphase.results hdone
    obtain ⟨ending, hending, hfinishes⟩ :=
      finishes s.streamLive (reported s r) (listen s.streamLive (begun s) r.heard)
    refine ⟨reported s r, ending, hended.hosts.trans (hosts_targets s), hfinishes, ?_⟩
    rw [hended.told, hending, hlive, hended.anyCancelled]

/-- No host behind the canaries is connected to before every canary did well. If that never comes to
pass the sink is told, and the audit log records, the results of the canaries and then that the
others were skipped, or what the run was stopped for. -/
theorem the_others_wait_for_the_canaries (s : Setup) (inputs : List Input) :
    let r := run s inputs
    let skipped := s.restTargets.map (r.cancellationResult (skipMessage r.stopCause) true)
    (∀ v, r.restController = some v → ∃ w, r.firstController = some w ∧ w.completed = true ∧
      (results w).map (·.host) = s.firstTargets.map (·.host) ∧ (results w).all ok = true) ∧
    (r.finalized = true → r.restController = none →
      ∀ w, r.firstController = some w → w.started = true →
        finished r.told.calls =
            (results w ++ skipped).map (fun res => (bytes res.host, Told.stageResult res)) ∧
          r.told.calls.getLast? =
            some (.runFinished (summary (r.stopCause = .Interrupt) (results w ++ skipped))) ∧
          r.audited = opened s ++ recorded s (r.stopCause = .Interrupt)
            (results w ++ skipped)) := by
  intro r skipped
  have hphase : Phase s inputs r := run_phase s inputs
  refine ⟨fun v hv => ?_, fun hdone hnone w hw hstarted => ?_⟩
  · cases hphase with
    | first w h hfirst hrest hw hlabel hstop =>
      rw [hrest] at hv
      cases hv
    | rest w v h hfirst hgood hcombined hrest hv hlabel hstop =>
      exact ⟨w, hfirst, hgood.done.completed, hgood.hosts, hgood.fine⟩
    | ended results h hfirst hrest hreported =>
      obtain ⟨-, w, hw, hgood⟩ := hrest v hv
      exact ⟨w, hw, hgood.done.completed, hgood.hosts, hgood.fine⟩
  · have hreported : reported s r = results w ++ skipped := by
      simp [reported, hw, hnone, hstarted, skipped]
    have hended := hphase.results hdone
    rw [hreported] at hended
    exact ⟨hended.finished.1, hended.finished.2, hended.recorded⟩

/-! ## How the command ends -/

/-- What no controller changes. -/
def Keeps (r r' : RunNative) : Prop := r'.returned = r.returned ∧ r'.stopCause = r.stopCause

theorem keeps_finish (r : RunNative) (results : List HostResult) :
    Keeps r (r.finishResults s results) := by
  unfold finishResults
  split
  · exact ⟨rfl, rfl⟩
  · exact ⟨rfl, rfl⟩

theorem keeps_hear {onComplete : RunNative → List HostResult → RunNative}
    (h : ∀ r results, Keeps r (onComplete r results)) (events : List Event) (r : RunNative) :
    Keeps r (events.foldl (hear s onComplete) r) := by
  induction events generalizing r with
  | nil => exact ⟨rfl, rfl⟩
  | cons e events ih =>
    have hnow : Keeps r (hear s onComplete r e) := by
      cases e with
      | complete results => exact h r results
      | _ => exact ⟨rfl, rfl⟩
    have hrest := ih (hear s onComplete r e)
    exact ⟨hrest.1.trans hnow.1, hrest.2.trans hnow.2⟩

theorem keeps_onRestDone (r : RunNative) (results : List HostResult) :
    Keeps r (onRestDone s r results) :=
  keeps_finish r _

theorem keeps_onFirstDone (r : RunNative) (results : List HostResult) :
    Keeps r (onFirstDone s r results) := by
  unfold onFirstDone onCanaryDone
  split_ifs
  · exact keeps_finish r _
  · exact keeps_finish r _
  · rcases hstart : ({} : NativeController).start (fun i => (s.rest i).launch) s.restTargets
      s.invocation.command true s.options with ⟨v, restStarted⟩
    have hheard : Keeps r (v.log.foldl (hear s (onRestDone s))
        { r with restController := some v, combined := results }) := keeps_hear keeps_onRestDone _ _
    cases restStarted with
    | ok _ => exact hheard
    | error e =>
      have hend := keeps_finish (s := s) (v.log.foldl (hear s (onRestDone s))
        { r with restController := some v, combined := results })
      exact ⟨(hend _).1.trans hheard.1, (hend _).2.trans hheard.2⟩

theorem keeps_moveFirst (r : RunNative) (move : NativeController.Move) :
    Keeps r (r.moveFirst s move) := by
  unfold RunNative.moveFirst
  cases r.firstController with
  | none => exact ⟨rfl, rfl⟩
  | some w => exact keeps_hear keeps_onFirstDone _ { r with firstController := some _ }

theorem keeps_moveRest (r : RunNative) (move : NativeController.Move) :
    Keeps r (r.moveRest s move) := by
  unfold RunNative.moveRest
  cases r.restController with
  | none => exact ⟨rfl, rfl⟩
  | some v => exact keeps_hear keeps_onRestDone _ { r with restController := some _ }

theorem keeps_cancel (r : RunNative) (reason : String) (kind : CancelKind) :
    Keeps r (cancel s r reason kind) := by
  unfold RunNative.cancel
  split_ifs
  · exact keeps_moveRest r _
  · exact keeps_moveFirst r _

/-- What the command returned, and that it was stopped by a signal only if there was one. -/
structure Returns (past : List Input) (r : RunNative) : Prop where
  code : ∀ code, r.returned = some code → code = if r.finalized then r.exitCode else 2
  signal : r.stopCause = .Interrupt → .signal ∈ past

theorem step_returned (h : r.returned.isSome) (input : Input) : r.step s input = r := by
  unfold RunNative.step
  rw [if_pos h]

theorem step_turn (h : r.returned = none) :
    r.step s .turn = if r.stopped then { r with returned := some r.exitCode } else r := by
  simp [RunNative.step, h]

theorem step_failed (h : r.returned = none) :
    r.step s .failed = { r with returned := some (if r.finalized then r.exitCode else 2) } := by
  simp [RunNative.step, h]

/-- Nothing but the end of a turn, or a failure of the reactor, ends the command. -/
theorem step_open {input : Input} (h : r.returned = none) (hturn : input ≠ .turn)
    (hfailed : input ≠ .failed) : (r.step s input).returned = none := by
  unfold RunNative.step
  rw [if_neg (by simp [h])]
  cases input with
  | first report => exact (keeps_moveFirst r _).1.trans h
  | rest report => exact (keeps_moveRest r _).1.trans h
  | signal =>
    dsimp only
    unfold RunNative.onSignal
    split_ifs
    · exact h
    · exact (keeps_cancel (s := s) { r with stopCause := .Interrupt } _ _).1.trans h
  | timeout =>
    dsimp only
    unfold RunNative.onTimeout
    split_ifs
    · exact h
    · exact (keeps_cancel (s := s) { r with stopCause := .Timeout } _ _).1.trans h
    · exact h
  | turn => exact absurd rfl hturn
  | failed => exact absurd rfl hfailed

/-- Nothing but a signal cancels a run. -/
theorem step_cause {input : Input} (hsignal : input ≠ .signal)
    (hcause : (r.step s input).stopCause = .Interrupt) : r.stopCause = .Interrupt := by
  unfold RunNative.step at hcause
  split at hcause
  · exact hcause
  · cases input with
    | first report => exact (keeps_moveFirst r _).2.symm.trans hcause
    | rest report => exact (keeps_moveRest r _).2.symm.trans hcause
    | signal => exact absurd rfl hsignal
    | timeout =>
      dsimp only at hcause
      unfold RunNative.onTimeout at hcause
      split_ifs at hcause
      · exact hcause
      · rw [(keeps_cancel (s := s) { r with stopCause := .Timeout } _ _).2] at hcause
        cases hcause
      · exact hcause
    | turn =>
      dsimp only at hcause
      split at hcause <;> exact hcause
    | failed => exact hcause

theorem Phase.stopped (h : Phase s past r) (hstopped : r.stopped = true) : r.finalized = true := by
  cases h with
  | first w h hfirst hrest hw hlabel hstop => simp [h.stopped] at hstopped
  | rest w v h hfirst hgood hcombined hrest hv hlabel hstop => simp [h.stopped] at hstopped
  | ended results h hfirst hrest hreported => exact h.finalized

theorem Returns.step (h : Returns past r) (hphase : Phase s past r) (input : Input) :
    Returns (past ++ [input]) (r.step s input) := by
  refine ⟨fun code hcode => ?_, fun hcause => ?_⟩
  · by_cases hreturned : r.returned.isSome
    · rw [step_returned hreturned] at hcode ⊢
      exact h.code code hcode
    · have hnone : r.returned = none := by simpa using hreturned
      by_cases hfailed : input = .failed
      · rw [hfailed, step_failed hnone] at hcode ⊢
        exact (Option.some.inj hcode).symm
      · by_cases hturn : input = .turn
        · rw [hturn, step_turn hnone] at hcode ⊢
          split at hcode
          · rename_i hstopped
            simp only [Option.some.injEq] at hcode
            simp [hstopped, hphase.stopped hstopped, hcode]
          · rw [hnone] at hcode
            cases hcode
        · rw [step_open hnone hturn hfailed] at hcode
          cases hcode
  · by_cases hsignal : input = .signal
    · rw [hsignal]
      exact List.mem_append_right _ (List.mem_singleton_self _)
    · exact List.mem_append_left _ (h.signal (step_cause hsignal hcause))

theorem run_snoc (s : Setup) (inputs : List Input) (input : Input) :
    run s (inputs ++ [input]) = (run s inputs).step s input := by
  simp [run]

end psx.cli.RunNative
