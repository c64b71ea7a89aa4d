-- The output of the hosts of `run --transport native`. A sink that shows output as it arrives is
-- told every line of every host; the JSON sink, which waits, writes one object for each client in
-- their order, with what was captured of it, and last the summary.
import PipeShellX.Cli.RunNativeReport

namespace psx.cli.RunNative

open psx.sink (Call JsonSink joined sent)
open psx.stream (LineFramer)
open psx.stream.LineFramer (canonical kDefaultMaxLineLength lf)
open psx.transport (NativeController)
open psx.transport.NativeController (Event HostResult)

variable {host : String} {channel : transport.Channel}

/-! ## Lines as they arrive -/

/-- The framer of a channel. -/
def framerOf (hf : HostFramers) : transport.Channel → LineFramer
  | .Stdout => hf.out
  | .Stderr => hf.err

/-- What a host sent on a channel, as it was heard. -/
def output (host : String) (channel : transport.Channel) (events : List Event) : Bytes :=
  events.flatMap fun
    | .output host' data channel' => if host' = host ∧ channel' = channel then data else []
    | _ => []

/-- The lines of a host on a channel, as the sink was told. -/
def heardLines (host : String) (channel : transport.Channel) (calls : List Call) : List Bytes :=
  sent (bytes host) (sinkChannel channel) calls

theorem heardLines_append (calls more : List Call) :
    heardLines host channel (calls ++ more) = heardLines host channel calls ++
      heardLines host channel more :=
  List.flatMap_append

theorem sinkChannel_inj {a b : transport.Channel} : sinkChannel a = sinkChannel b ↔ a = b := by
  cases a <;> cases b <;> simp [sinkChannel]

theorem heardLines_emit (host' : String) (channel' : transport.Channel) (lines : List stream.Line) :
    heardLines host channel (Told.emit host' channel' lines) =
      if host' = host ∧ channel' = channel then lines.map (·.bytes) else [] := by
  unfold heardLines sent Told.emit
  rw [List.flatMap_map]
  by_cases h : host' = host ∧ channel' = channel
  · simp [h, List.map_eq_flatMap]
  · simp [bytes_inj, sinkChannel_inj, h]

theorem heardLines_finished (stage : Bytes) (result : sink.StageResult) :
    heardLines host channel [.stageFinished stage result] = [] := rfl

theorem heardLines_begun (s : Setup) : heardLines host channel (begun s).calls = [] := by
  unfold heardLines sent begun
  simp

/-- The framer of a channel, and the lines that it gave, after some output. -/
structure Framed (host : String) (channel : transport.Channel) (stream : Bytes) (t : Told) :
    Prop where
  framer : framerOf (t.framers host) channel =
    ((LineFramer.create kDefaultMaxLineLength).push stream).1
  lines : heardLines host channel t.calls =
    ((LineFramer.create kDefaultMaxLineLength).push stream).2.map (·.bytes)

theorem framed_begun (s : Setup) (host : String) (channel : transport.Channel) :
    Framed host channel [] (begun s) := by
  refine ⟨?_, heardLines_begun s⟩
  cases channel <;> rfl

theorem Framed.onOutput {stream : Bytes} {t : Told} (h : Framed host channel stream t)
    (host' : String) (data : Bytes) (channel' : transport.Channel) :
    Framed host channel (stream ++ if host' = host ∧ channel' = channel then data else [])
      (t.onOutput host' data channel') := by
  have hcalls : (t.onOutput host' data channel').calls =
      t.calls ++ Told.emit host' channel' ((framerOf (t.framers host') channel').push data).2 := by
    cases channel' <;> rfl
  have hframer : framerOf ((t.onOutput host' data channel').framers host) channel =
      if host' = host ∧ channel' = channel then ((framerOf (t.framers host') channel').push data).1
      else framerOf (t.framers host) channel := by
    by_cases hhost : host' = host
    · subst hhost
      cases channel <;> cases channel' <;> simp [Told.onOutput, framerOf]
    · rw [if_neg fun h => hhost h.1]
      cases channel' <;> simp [Told.onOutput, Function.update_of_ne (Ne.symm hhost)]
  refine ⟨?_, ?_⟩
  · rw [hframer]
    split
    · rename_i hmine
      obtain ⟨rfl, rfl⟩ := hmine
      rw [h.framer, LineFramer.push_append]
    · rw [List.append_nil]
      exact h.framer
  · rw [hcalls, heardLines_append, heardLines_emit, h.lines]
    split
    · rename_i hmine
      obtain ⟨rfl, rfl⟩ := hmine
      rw [h.framer, LineFramer.push_append, List.map_append]
    · rw [List.append_nil, List.append_nil]

theorem Framed.listen {stream : Bytes} {t : Told} (h : Framed host channel stream t)
    (events : List Event) :
    Framed host channel (stream ++ output host channel events) (listen true t events) := by
  induction events generalizing stream t with
  | nil => simpa [RunNative.listen, output] using h
  | cons e events ih =>
    have hnow : Framed host channel (stream ++ output host channel [e]) (t.hear true e) := by
      cases e with
      | output host' data channel' => simpa [output, Told.hear] using h.onOutput host' data channel'
      | _ => simpa [output, Told.hear] using h
    have hsplit : output host channel ([e] ++ events) = output host channel [e] ++
        output host channel events :=
      List.flatMap_append
    rw [List.singleton_append] at hsplit
    rw [hsplit, ← List.append_assoc]
    exact ih hnow

theorem flush_flushed (f : LineFramer) : f.flush.1.flush.2 = none := by
  simp [LineFramer.flush]

theorem Framed.finish {t : Told} {stream : LineFramer}
    (h : framerOf (t.framers host) channel = stream) (results : List HostResult) :
    heardLines host channel (results.foldl (Told.finishStage true) t).calls =
      heardLines host channel t.calls ++
        if host ∈ results.map (·.host) then stream.flush.2.toList.map (·.bytes) else [] := by
  induction results generalizing t stream with
  | nil => simp
  | cons res results ih =>
    have hlines : heardLines host channel (t.finishStage true res).calls =
        heardLines host channel t.calls ++
          if res.host = host then stream.flush.2.toList.map (·.bytes) else [] := by
      subst h
      simp only [Told.finishStage, if_true, Told.flush, heardLines_append, heardLines_finished,
        heardLines_emit]
      by_cases hhost : res.host = host
      · subst hhost
        cases channel <;> simp [framerOf]
      · simp [hhost]
    have hframer : framerOf ((t.finishStage true res).framers host) channel =
        if res.host = host then stream.flush.1 else stream := by
      subst h
      simp only [Told.finishStage, if_true, Told.flush]
      by_cases hhost : res.host = host
      · subst hhost
        cases channel <;> simp [framerOf]
      · simp [Function.update_of_ne (Ne.symm hhost), hhost]
    rw [List.foldl_cons, ih hframer, hlines, List.map_cons, List.append_assoc]
    by_cases hhost : res.host = host
    · simp [hhost, flush_flushed]
    · simp [hhost, Ne.symm hhost]

/-- When a run is over, a sink that shows output as it arrives was told all the lines of every
client, on each channel in their order: together they are what was heard of the host, without the CR
of a CR LF and with the last line ended. A line above 1 MiB is told in pieces, as the framer cuts
it. Clients with one host share its lines. -/
theorem every_line_is_told (s : Setup) (hlive : s.streamLive = true) (inputs : List Input)
    (host : String) (channel : transport.Channel) :
    let r := run s inputs
    (r.finalized = false → heardLines host channel r.told.calls =
      ((LineFramer.create kDefaultMaxLineLength).push (output host channel r.heard)).2.map
        (·.bytes)) ∧
    (r.finalized = true → host ∈ s.clients.map (·.host) →
      (heardLines host channel r.told.calls).flatMap (· ++ [lf]) =
        canonical kDefaultMaxLineLength (output host channel r.heard)) := by
  intro r
  have hphase : Phase s inputs r := run_phase s inputs
  have hframed := (framed_begun s host channel).listen r.heard
  rw [List.nil_append] at hframed
  refine ⟨fun hgo => ?_, fun hdone hhost => ?_⟩
  · rw [hphase.told hgo, hlive]
    exact hframed.lines
  · have hended := hphase.results hdone
    have hmem : host ∈ (reported s r).map (·.host) := by
      rw [hended.hosts, hosts_targets]
      exact hhost
    rw [hended.told, heardLines_append, hlive, Framed.finish hframed.framer, if_pos hmem,
      hframed.lines,
      ← List.map_append]
    have hsummary : heardLines host channel
      [.runFinished (summary (r.anyCancelled (reported s r)) (reported s r))] = [] := rfl
    rw [hsummary, List.append_nil, List.flatMap_map,
      ← LineFramer.rejoined_frames (by decide : kDefaultMaxLineLength ≠ 0)]
    unfold LineFramer.frames LineFramer.rejoined
    rw [LineFramer.pushes_eq, List.flatten_singleton]

/-- Two clients, a canary and one behind it, whose connections come up. -/
def twoClients (streamLive : Bool) : Setup where
  invocation := { command := [[120]], canary := [49] }
  clients := [{ host := "a" }, { host := "b" }]
  streamLive := streamLive
  runId := []
  first := fun _ => .started [] none
  rest := fun _ => .started [] none

/-- The canary says "hi" and exits with 0; then the other client says "no" and exits with 3. -/
def theirInputs : List Input :=
  [.first (.called 0 .ready), .first (.called 0 (.data [104, 105] .Stdout {})),
    .first (.called 0 (.exit ⟨.Exited, 0⟩)), .first (.retired 0),
    .rest (.called 0 .ready), .rest (.called 0 (.data [110, 111] .Stderr {})),
    .rest (.called 0 (.exit ⟨.Exited, 3⟩)), .rest (.retired 0), .turn]

/-- The last line is not ended, and told all the same. -/
theorem a_line_is_told :
    (heardLines "b" .Stderr (run (twoClients true) theirInputs).told.calls).flatMap (· ++ [lf]) =
      canonical kDefaultMaxLineLength
        (output "b" .Stderr (run (twoClients true) theirInputs).heard) :=
  (every_line_is_told (twoClients true) rfl theirInputs "b" .Stderr).2 (by decide) (by decide)

/-! ## Objects -/

/-- What the JSON sink writes of a result. -/
def resultObject (res : HostResult) : Json.Value :=
  JsonSink.stageObject (bytes res.host) (Told.stageResult res)
    ⟨joined ((Told.framed res.stdoutData).map (·.bytes)),
      joined ((Told.framed res.stderrData).map (·.bytes))⟩

/-- The sink holds what came of a host, and nothing of any other. -/
structure Holds (host : String) (b : sink.Buffered) (out : Bytes) (sink : JsonSink) : Prop where
  out : sink.out = out
  own : sink.buffered (bytes host) = b
  others : ∀ stage ≠ bytes host, sink.buffers stage = none

theorem Holds.lines {b : sink.Buffered} {out : Bytes} {sink : JsonSink} (h : Holds host b out sink)
    (channel : transport.Channel) (lines : List stream.Line) :
    Holds host (lines.foldl (fun b line => b.line (sinkChannel channel) line.bytes) b) out
      ((Told.emit host channel lines).foldl JsonSink.call sink) := by
  induction lines generalizing b sink with
  | nil => exact h
  | cons line lines ih =>
    apply ih
    refine ⟨h.out, ?_, fun stage hstage => ?_⟩
    · simp [JsonSink.call, JsonSink.line, JsonSink.buffered, ← h.own]
    · simp [JsonSink.call, JsonSink.line, Function.update_of_ne hstage, h.others stage hstage]

theorem buffered_out (b : sink.Buffered) (lines : List stream.Line) :
    lines.foldl (fun b line => b.line (sinkChannel .Stdout) line.bytes) b =
      { b with stdoutText := (lines.map (·.bytes)).foldl sink.appendLine b.stdoutText } := by
  induction lines generalizing b with
  | nil => rfl
  | cons line lines ih =>
    rw [List.foldl_cons, ih]
    rfl

theorem buffered_err (b : sink.Buffered) (lines : List stream.Line) :
    lines.foldl (fun b line => b.line (sinkChannel .Stderr) line.bytes) b =
      { b with stderrText := (lines.map (·.bytes)).foldl sink.appendLine b.stderrText } := by
  induction lines generalizing b with
  | nil => rfl
  | cons line lines ih =>
    rw [List.foldl_cons, ih]
    rfl

/-- A result that is told to a sink that holds nothing is written, and the sink holds nothing
again. -/
theorem json_result {sink : JsonSink} (h : ∀ stage, sink.buffers stage = none) (res : HostResult) :
    let after := (Told.emit res.host .Stdout (Told.framed res.stdoutData) ++
      Told.emit res.host .Stderr (Told.framed res.stderrData) ++
      [Call.stageFinished (bytes res.host) (Told.stageResult res)]).foldl JsonSink.call sink
    after.out = sink.out ++ Json.lines json.quoting [resultObject res] ∧
      ∀ stage, after.buffers stage = none := by
  intro after
  have hempty : Holds res.host {} sink.out sink :=
    ⟨rfl, by simp [JsonSink.buffered, h], fun stage _ => h stage⟩
  have hholds :=
    (hempty.lines .Stdout (Told.framed res.stdoutData)).lines .Stderr (Told.framed res.stderrData)
  rw [buffered_out, buffered_err] at hholds
  generalize heq : (Told.emit res.host .Stderr (Told.framed res.stderrData)).foldl JsonSink.call
    ((Told.emit res.host .Stdout (Told.framed res.stdoutData)).foldl JsonSink.call sink) =
    full at hholds
  have hafter : after = full.stageFinished (bytes res.host) (Told.stageResult res) := by
    simp only [after, List.foldl_append, heq]
    rfl
  rw [hafter]
  refine ⟨?_, fun stage => ?_⟩
  · rw [JsonSink.out_stageFinished, hholds.out, hholds.own]
    simp [Json.lines, resultObject, joined]
  · by_cases hstage : stage = bytes res.host
    · simp [JsonSink.stageFinished, hstage]
    · simp [JsonSink.stageFinished, Function.update_of_ne hstage, hholds.others stage hstage]

theorem json_results {sink : JsonSink} (h : ∀ stage, sink.buffers stage = none)
    (results : List HostResult) {t : Told} (hsink : t.calls.foldl JsonSink.call {} = sink) :
    let after := (results.foldl (Told.finishStage false) t).calls.foldl JsonSink.call {}
    after.out = sink.out ++ Json.lines json.quoting (results.map resultObject) ∧
      ∀ stage, after.buffers stage = none := by
  induction results generalizing sink t with
  | nil => exact ⟨by simp [hsink, Json.lines], by simpa [hsink] using h⟩
  | cons res results ih =>
    obtain ⟨hout, hnone⟩ := json_result h res
    have hone : (t.finishStage false res).calls.foldl JsonSink.call {} =
        (Told.emit res.host .Stdout (Told.framed res.stdoutData) ++
          Told.emit res.host .Stderr (Told.framed res.stderrData) ++
          [Call.stageFinished (bytes res.host) (Told.stageResult res)]).foldl
            JsonSink.call sink := by
      rw [← hsink, ← List.foldl_append]
      congr 1
      simp [Told.finishStage, Told.replay]
    obtain ⟨hrest, hlast⟩ := ih hnone hone
    refine ⟨?_, hlast⟩
    rw [List.foldl_cons, hrest, hout, List.append_assoc, ← Json.lines_append]
    rfl

/-- A sink that waits is told nothing until the run is over. -/
theorem listen_waits (t : Told) (events : List Event) : listen false t events = t := by
  induction events generalizing t with
  | nil => rfl
  | cons e events ih =>
    have hnow : t.hear false e = t := by
      cases e <;> rfl
    change listen false (t.hear false e) events = t
    rw [hnow]
    exact ih t

/-- When a run with `--json` is over, the output reads back line by line as one object for each
client, in their order, with the exit code and the captured lines that its controller has of it, and
last as the summary. -/
theorem the_json_output_reads_back (s : Setup) (hwaits : s.streamLive = false)
    (inputs : List Input) :
    let r := run s inputs
    let results := reported s r
    r.finalized = true → results.map (·.host) = s.clients.map (·.host) ∧
      Json.readLines (r.told.calls.foldl JsonSink.call {}).out =
        ((results.map resultObject) ++
          [JsonSink.summaryObject (summary (r.stopCause = .Interrupt) results)]).map some := by
  intro r results hdone
  have hended : Ended s inputs r results := (run_phase s inputs).results hdone
  have hnew : ∀ (clients : List Client) (sink : JsonSink), (∀ stage, sink.buffers stage = none) →
      (clients.map fun client => Call.stageStarted (bytes client.host)).foldl JsonSink.call sink =
        sink := by
    intro clients
    induction clients with
    | nil => exact fun sink _ => rfl
    | cons client clients ih =>
      intro sink h
      have hsame : sink.call (.stageStarted (bytes client.host)) = sink := by
        have hbuffers : Function.update sink.buffers (bytes client.host) none = sink.buffers := by
          rw [← h (bytes client.host), Function.update_eq_self]
        simp only [JsonSink.call, JsonSink.stageStarted, hbuffers]
      rw [List.map_cons, List.foldl_cons, hsame]
      exact ih sink h
  have hbegun : (begun s).calls.foldl JsonSink.call {} = {} := by
    rw [begun_calls]
    exact hnew s.clients {} fun _ => rfl
  obtain ⟨hout, -⟩ := json_results (fun _ => rfl) results hbegun
  refine ⟨hended.hosts.trans (hosts_targets s), ?_⟩
  rw [hended.told, hwaits, listen_waits, List.foldl_append, hended.anyCancelled]
  change Json.readLines (JsonSink.runFinished _ _).out = _
  rw [JsonSink.out_runFinished, hout]
  rw [List.nil_append, ← Json.readLines_lines json.quoting,
    Json.lines_append]
  simp [Json.lines]

theorem two_clients_are_objects :
    let results : List HostResult :=
      reported (twoClients false) (run (twoClients false) theirInputs)
    results.map (fun res => (res.host, res.exitCode, res.stdoutData, res.stderrData)) =
        [("a", 0, [104, 105], []), ("b", 3, [], [110, 111])] ∧
      Json.readLines ((run (twoClients false) theirInputs).told.calls.foldl JsonSink.call {}).out =
        ((results.map resultObject) ++ [JsonSink.summaryObject (summary false results)]).map
          some := by
  have hrun : (run (twoClients false) theirInputs).finalized = true := by decide
  have hcause : (run (twoClients false) theirInputs).stopCause = .None := by decide
  have hout := (the_json_output_reads_back (twoClients false) rfl theirInputs hrun).2
  rw [hcause] at hout
  exact ⟨by decide, hout⟩

end psx.cli.RunNative
