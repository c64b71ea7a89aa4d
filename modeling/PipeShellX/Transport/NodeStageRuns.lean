-- A node over a whole run: every frame, every edge of a pipe and every exit keeps `Inv`.
-- So the reads of a stage stop only while its stream is full, and its input is accounted for.
import PipeShellX.Transport.NodeStageCallbacks

namespace psx.transport

open psx.os (ExitStatus Interest Waits)

namespace NodeStageRunner

section

variable {watched prompt : Prop} {W : UInt32} {r : NodeStageRunner}

/-! ## Frames -/

theorem ledger_quiet (id : StreamId) (log : List Event) {events : List psx.transport.Event}
    (h : ∀ e ∈ events, Quiet e) : ledger id (log ++ events.map .session) = ledger id log := by
  rw [ledger, List.filter_append, List.foldl_append, List.filter_map, quiet_foldl, ledger]
  intro e he
  exact h e (List.mem_of_mem_filter he)

/-- What the session does for itself. -/
theorem Inv.quiet (h : Inv watched prompt W r) {r' : NodeStageRunner}
    {events : List psx.transport.Event} (hquiet : ∀ e ∈ events, Quiet e)
    (hstages : r'.stages = r.stages) (hlog : r'.log = r.log ++ events.map .session)
    (hreach : Reach .Node W true r'.session (sessionLog r.log ++ events))
    (hstreams : r'.session.streams = r.session.streams)
    (hfailed : r'.session.protocolFailed = r.session.protocolFailed) : Inv watched prompt W r' where
  reach := by
    rw [hlog, sessionLog_append, sessionLog_map]
    exact hreach
  stages := by
    intro id
    rw [hlog, ledger_quiet id r.log hquiet, hstages, hstreams, hfailed]
    exact h.stages id
  fresh := by
    intro id hid
    rw [hlog, ledger_quiet id r.log hquiet]
    exact h.fresh id (mt (opened_grows hlog) hid)
  lawful := by
    rw [hlog]
    refine h.lawful.extend (exits_of_none ?_)
    intro e he id status heq
    obtain ⟨e', -, rfl⟩ := List.mem_map.mp he
    cases heq

theorem Tended.poison {W : Nat} {failed : Bool} {stream : Option Stream} {stage : Option Stage}
    {l : Ledger} (h : Tended watched prompt W failed stream stage l) :
    Tended watched prompt W true stream stage l := by
  cases h with
  | unstarted h => exact .unstarted h
  | running h =>
    refine .running { h with queued := fun hf => (by cases hf), input := ?_ }
    obtain ⟨-, hbuffer, hreceived, hdropped, hcredited, hdry⟩ := h.input
    exact ⟨fun hf => (by cases hf), hbuffer, hreceived, hdropped, hcredited, hdry⟩
  | finished h => exact .finished { h with queued := fun hf => (by cases hf) }

theorem Inv.poison (h : Inv watched prompt W r) :
    Inv watched prompt W { r with session := { r.session with protocolFailed := true } } :=
  ⟨h.reach.poison, fun id => (h.stages id).poison, h.fresh, h.lawful⟩

/-- The callbacks that do nothing here. -/
theorem called_inert (depth : Nat) (answers : Answers) (r : NodeStageRunner)
    {events : List psx.transport.Event}
    (h : ∀ e ∈ events, (∃ frame, e = .wrote frame) ∨ e = .onPong ∨ e = .onGoAway) :
    events.foldl (called depth answers) r = r := by
  induction events with
  | nil => rfl
  | cons e events ih =>
    have hinert : called depth answers r e = r := by
      rcases h e (by simp) with ⟨frame, rfl⟩ | rfl | rfl <;> rfl
    rw [List.foldl_cons, hinert]
    exact ih fun x hx => h x (by simp [hx])

/-- The runner once its session has taken a frame, before the callbacks. -/
def took (r : NodeStageRunner) (frame : Frame) (taken : Session × List psx.transport.Event) :
    NodeStageRunner :=
  ({ r with session := taken.1 } : NodeStageRunner).note
    (.session (.got frame) :: taken.2.map .session)

theorem dispatch_ok (depth : Nat) (answers : Answers) {frame : Frame}
    {taken : Session × List psx.transport.Event} (hs : r.session.protocolFailed = false)
    (hok : r.session.dispatch frame = .ok taken) :
    r.dispatch depth answers frame =
      taken.2.foldl (called depth answers) (r.took frame taken) := by
  unfold NodeStageRunner.dispatch
  rw [hs, hok]
  rfl

theorem reach_took (h : Inv watched prompt W r) (hs : r.session.protocolFailed = false)
    {frame : Frame}
    {taken : Session × List psx.transport.Event} (hok : r.session.dispatch frame = .ok taken) :
    Reach .Node W true taken.1 (sessionLog r.log ++ .got frame :: taken.2) ∧
      taken.1.protocolFailed = r.session.protocolFailed :=
  ⟨h.reach.frame hs hok, (inv_dispatch h.session.1 hs hok).2.protocolFailed⟩

/-- The frames of the connection, and those that cross an EXIT. -/
theorem dispatch_quiet (depth : Nat) (answers : Answers) (h : Inv watched prompt W r)
    (hundone : Undone r) (hs : r.session.protocolFailed = false) {frame : Frame}
    {taken : Session × List psx.transport.Event} (hok : r.session.dispatch frame = .ok taken)
    (hstreams : taken.1.streams = r.session.streams)
    (hevents : ∀ e ∈ taken.2, (∃ frame, e = .wrote frame) ∨ e = .onPong ∨ e = .onGoAway) :
    Inv watched prompt W (r.dispatch depth answers frame) ∧
      Undone (r.dispatch depth answers frame) := by
  obtain ⟨hreach, hfailed⟩ := reach_took h hs hok
  rw [dispatch_ok depth answers hs hok, called_inert _ _ _ hevents]
  have hquiet : ∀ e ∈ psx.transport.Event.got frame :: taken.2, Quiet e := by
    intro e he
    rcases List.mem_cons.mp he with rfl | he
    · exact fun _ => rfl
    · rcases hevents e he with ⟨frame, rfl⟩ | rfl | rfl <;> exact fun _ => rfl
  exact ⟨h.quiet hquiet rfl rfl hreach hstreams hfailed, hundone⟩

/-- A new stream. -/
theorem dispatch_open (depth : Nat) {answers : Answers} (hwatch : watched → answers.launch.Watched)
    (h : Inv watched prompt W r) (hundone : Undone r) (hs : r.session.protocolFailed = false)
    {frame : Frame} (htype : frame.type = .Open)
    {taken : Session × List psx.transport.Event} (hok : r.session.dispatch frame = .ok taken) :
    Inv watched prompt W (r.dispatch depth answers frame) ∧
      Undone (r.dispatch depth answers frame) := by
  obtain ⟨hinv, hrole, hW⟩ := h.session
  obtain ⟨hreach, hfailed⟩ := reach_took h hs hok
  rw [dispatch_ok depth answers hs hok]
  rw [Session.dispatch, htype] at hok
  obtain ⟨hne, -, -, -, hnext, request, -, rfl⟩ := dispatchOpen_ok hok
  have hopens := hinv.opens
  rw [hrole, show r.session.nextOpen = frame.streamId by simp [Session.nextOpen, hrole, hnext]]
    at hopens
  obtain ⟨-, -, hout⟩ := hopens.next_notMem hne
  obtain ⟨hstream, -, -, -⟩ := hinv.unborn (hrole.symm ▸ hout)
  have hledger := h.fresh frame.streamId hout
  have hstage : r.stages frame.streamId = none := by
    cases hstage : r.stages frame.streamId with
    | none => rfl
    | some stage =>
      obtain ⟨stream, hstream', -⟩ := h.running hstage
      rw [hstream] at hstream'
      cases hstream'
  set session : Session := { r.session with
    nextPeerStreamId := frame.streamId + 1 }.tryEmplace frame.streamId with hsession
  have hstreams : session.streams =
      Function.update r.session.streams frame.streamId (some (.new r.session.initialWindow)) := by
    simp only [hsession, Session.tryEmplace, hstream, Session.setStream]
  have hstages : (r.took frame (session, [.onOpen frame.streamId request])).stages =
      Function.update r.stages frame.streamId none := (update_same hstage).symm
  have hevents : ∀ e ∈ [Event.session (.got frame), .session (.onOpen frame.streamId request)],
      e.stage = frame.streamId := by
    simp [Event.stage, psx.transport.Event.streamId]
  have hquiet : ledger frame.streamId (r.took frame (session,
      [.onOpen frame.streamId request])).log = {} := by
    simp only [took, note, List.map_cons, List.map_nil, ledger_here r.log hevents, hledger]
    rfl
  have htook : Inv watched prompt W (r.took frame (session, [.onOpen frame.streamId request])) := by
    refine h.act _ hstages rfl hreach hfailed (fun j hj => ?_) hevents ?_ (.unstarted ?_)
      (exits_of_none (by simp))
    · simp [took, note, hstreams, hj]
    · simp [opened, took, note, sessionLog, Account.opens, htype]
    · rw [hledger]
      rfl
  have hnew : (r.took frame (session, [.onOpen frame.streamId request])).session.streams
      frame.streamId = some (.new r.session.initialWindow) := by
    simp [took, note, hstreams]
  rw [List.foldl_cons, List.foldl_nil]
  exact onOpen_inv (resumeReads_idle answers.reads (depth + 1)) hwatch htook hundone hstage hquiet
    hnew ⟨rfl, rfl, rfl, rfl⟩ request

/-- A stage with more input to write. -/
def Stage.received (stage : Stage) (bytes : Bytes) (endStream : Bool) : Stage :=
  { stage with
    stdinBuffer := stage.stdinBuffer ++ bytes
    stdinEndPending := stage.stdinEndPending || endStream }

theorem Running.received {W : Nat} {failed : Bool} {stream : Stream} {stage : Stage} {l : Ledger}
    (h : Running watched prompt W failed stream stage l) {recvWindow : psx.stream.CreditWindow}
    {bytes : Bytes} (endStream : Bool) (hlate : prompt → stage.stdinOpen = false → bytes = [])
    (hfailed : failed = false)
    (hW : stream.recvWindow.window = W)
    (hwindow : stream.recvWindow.onData bytes.length = some recvWindow) :
    Running watched prompt W failed { stream with recvWindow, peerDataClosed := endStream }
      (stage.received bytes endStream) { l with received := l.received ++ bytes } := by
  obtain ⟨rfl, hfits⟩ := psx.stream.CreditWindow.onData_some hwindow
  have houtstanding := h.input.outstanding hfailed
  have hle := h.input.buffer_le
  refine h.feed ⟨rfl, rfl, rfl⟩ ⟨rfl, rfl, rfl, rfl, rfl, rfl⟩ rfl
    ⟨fun _ => ?_, ?_, ?_, ?_, ?_, fun hprompt hclosed => ?_⟩
  · simp [Stage.received, houtstanding]
  · simp only [Stage.received, List.length_append]
    omega
  · simp [Stage.received, h.input.received]
  · exact h.input.dropped
  · exact h.input.credited
  · simp [Stage.received, h.input.dry hprompt hclosed, hlate hprompt hclosed]

/-- A payload for a stage that the node keeps, but that takes no more input. -/
def Late (r : NodeStageRunner) (frame : Frame) : Prop :=
  frame.type = .Data ∧ frame.payload ≠ [] ∧ r.session.protocolFailed = false ∧
    (∃ taken, r.session.dispatch frame = .ok taken) ∧
    ∃ stage, r.stages frame.streamId = some stage ∧ stage.stdinOpen = false

/-- DATA for a stream of the node. -/
theorem dispatch_data (depth : Nat) (answers : Answers) (h : Inv watched prompt W r)
    (hundone : Undone r)
    (hs : r.session.protocolFailed = false) {frame : Frame} (hlate : prompt → ¬ r.Late frame)
    (htype : frame.type = .Data) {taken : Session × List psx.transport.Event}
    (hok : r.session.dispatch frame = .ok taken) :
    Inv watched prompt W (r.dispatch depth answers frame) ∧
      Undone (r.dispatch depth answers frame) := by
  obtain ⟨hinv, -, hW⟩ := h.session
  obtain ⟨hreach, hfailed⟩ := reach_took h hs hok
  have hdispatch := dispatch_ok depth answers hs hok
  have hok' := hok
  rw [Session.dispatch, htype] at hok'
  rcases dispatchData_ok hok' with ⟨closed, -, -, rfl⟩ |
    ⟨stream, recvWindow, -, hstream, -, hwindow, rfl⟩
  · exact dispatch_quiet depth answers h hundone hs hok rfl (by simp)
  · rw [hdispatch, List.foldl_cons, List.foldl_nil]
    set session := r.session.setStream frame.streamId
      { stream with recvWindow, peerDataClosed := Session.endsStream frame } with hsession
    set e : psx.transport.Event := .onData frame.streamId frame.payload (Session.endsStream frame)
      (channelOf frame.flags)
    have hstreams : ∀ j, j ≠ frame.streamId → session.streams j = r.session.streams j :=
      fun j hj => by simp [hsession, Session.setStream, hj]
    have hnew : session.streams frame.streamId = some
        { stream with recvWindow, peerDataClosed := Session.endsStream frame } := by
      simp [hsession, Session.setStream]
    have hevents : ∀ x ∈ [Event.session (.got frame), .session e], x.stage = frame.streamId := by
      simp [Event.stage, psx.transport.Event.streamId, e]
    have hid : frame.streamId ∈ (r.took frame (session, [e])).opened :=
      opened_grows rfl (h.opened_of_stream hstream)
    change Inv watched prompt W ((r.took frame (session, [e])).onData answers.writes frame.streamId
      frame.payload (Session.endsStream frame)) ∧ Undone ((r.took frame (session, [e])).onData
      answers.writes frame.streamId frame.payload (Session.endsStream frame))
    unfold NodeStageRunner.onData
    rw [show (r.took frame (session, [e])).stages = r.stages from rfl]
    cases hstage : r.stages frame.streamId with
    | none =>
      refine ⟨h.act _ (update_same hstage).symm rfl hreach hfailed hstreams hevents hid ?_
        (exits_of_none (by simp)), hundone⟩
      have hbefore := h.stages frame.streamId
      rw [hstage, hstream] at hbefore
      change Tended _ _ _ _ (session.streams frame.streamId) _ _
      rw [hnew]
      cases hbefore with
      | unstarted hstarted => exact .unstarted hstarted
      | finished hfinished =>
        refine .finished { hfinished with sendBytes := fun after hafter => ?_ }
        obtain rfl := Option.some.inj hafter
        exact hfinished.sendBytes stream rfl
    | some stage =>
      obtain ⟨stream', hstream', hrun⟩ := h.running hstage
      obtain rfl : stream' = stream := Option.some.inj (hstream'.symm.trans hstream)
      have hlive := hinv.streams frame.streamId
      rw [hstream] at hlive
      have hwindowW := hlive.of_some.2.1.window.1
      rw [hW] at hwindowW
      have hprompt : prompt → stage.stdinOpen = false → frame.payload = [] := by
        intro hp hclosed
        by_contra hne
        exact hlate hp ⟨htype, hne, hs, ⟨_, hok⟩, stage, hstage, hclosed⟩
      have hreceived := hrun.received (Session.endsStream frame) hprompt hs hwindowW hwindow
      have hfilled : Inv watched prompt W ((r.took frame (session, [e])).setStage frame.streamId
          (some (stage.received frame.payload (Session.endsStream frame)))) := by
        refine h.act _ rfl rfl hreach hfailed hstreams hevents hid ?_ (exits_of_none (by simp))
        change Tended _ _ _ _ (session.streams frame.streamId) _ _
        rw [hnew]
        exact .running hreceived
      refine drainStdin_inv answers.writes hfilled (undone_update (r := r) rfl ?_ fun j s _ =>
        hundone j s)
      rintro s hs'
      obtain rfl := Option.some.inj hs'
      exact hundone _ stage hstage

theorem Running.flushed {W : Nat} {failed : Bool} {stream after : Stream} {stage : Stage}
    {l : Ledger} (h : Running watched prompt W failed stream stage l) {credit : Nat}
    (hflushed : Flushed { stream with sendCredit := credit } after)
    (hpaused : stage.paused = true → W ≤ after.sendBytes) :
    Running watched prompt W failed after stage l :=
  { h with
    localDataClosed := hflushed.localDataClosed.trans h.localDataClosed
    exitPending := hflushed.exitPending.trans h.exitPending
    sendBytes := Nat.lt_of_le_of_lt hflushed.sendBytes h.sendBytes
    input := by
      refine ⟨fun hf => ?_, h.input.buffer_le, h.input.received, h.input.dropped, h.input.credited,
        h.input.dry⟩
      rw [hflushed.recvWindow]
      exact h.input.outstanding hf
    paused := hpaused }

/-- What a WINDOW_UPDATE does to the stream of a stage that the node keeps. -/
theorem windowUpdate_stays (h : Inv watched prompt W r) {frame : Frame}
    (htype : frame.type = .WindowUpdate)
    {taken : Session × List psx.transport.Event} (hok : r.session.dispatch frame = .ok taken)
    {stage : Stage} (hstage : r.stages frame.streamId = some stage) :
    ∃ stream after credit events tail,
      Running watched prompt W.toNat r.session.protocolFailed stream stage
        (ledger frame.streamId r.log) ∧
      Flushed { stream with sendCredit := credit } after ∧
      (∀ e ∈ events, ∃ frame, e = .wrote frame) ∧
      (tail = if W.toNat ≤ stream.sendBytes ∧ after.sendBytes < W.toNat then
          [.onStreamWritable frame.streamId] else []) ∧
      taken = (r.session.setStream frame.streamId after, events ++ tail) := by
  obtain ⟨stream, hstream, hrun⟩ := h.running hstage
  rw [Session.dispatch, htype] at hok
  obtain ⟨delta, -, ⟨closed, hnone, -, -⟩ | ⟨stream', hstream', -, rfl⟩⟩ :=
    dispatchWindowUpdate_ok hok
  · rw [hstream] at hnone
    cases hnone
  · obtain rfl : stream' = stream := Option.some.inj (hstream'.symm.trans hstream)
    obtain ⟨after, events, tail, hflushed, hevents, htail, heq⟩ := r.session.flushStream_stays
      frame.streamId { stream' with sendCredit := stream'.sendCredit + delta.toNat }
        hrun.exitPending
    refine ⟨stream', after, _, events, tail, hrun, hflushed, hevents, ?_, heq⟩
    rw [htail, h.session.2.2, reach_streamWritable h.reach]
    simp

/-- Credit that makes the stream of a stopped stage writable lets both readers go on. -/
theorem windowUpdate_resumes (depth : Nat) (answers : Answers) (h : Inv watched prompt W r)
    (hs : r.session.protocolFailed = false) {frame : Frame} (htype : frame.type = .WindowUpdate)
    {taken : Session × List psx.transport.Event} (hok : r.session.dispatch frame = .ok taken)
    {stage : Stage} (hstage : r.stages frame.streamId = some stage) (hpaused : stage.paused = true)
    (hwritable : taken.1.isWritable frame.streamId = true) :
    r.dispatch depth answers frame =
      ((((r.took frame taken).setStage frame.streamId
            (some ({ stage with paused := false }.setReadInterest true))).note
          [.resumed frame.streamId]).onReadable (resumeReads answers.reads depth) answers.reads
            frame.streamId .Stdout).onReadable (resumeReads answers.reads depth) answers.reads
              frame.streamId .Stderr := by
  rw [dispatch_ok depth answers hs hok]
  obtain ⟨stream, after, credit, events, tail, hrun, hflushed, hevents, htail, rfl⟩ :=
    windowUpdate_stays h htype hok hstage
  have hroom : after.sendBytes < W.toNat := by
    have hW := h.session.2.2
    simp only [Session.isWritable, Session.setStream, Function.update_self, hW] at hwritable
    simpa using hwritable
  rw [if_pos ⟨hrun.paused hpaused, hroom⟩] at htail
  rw [htail, List.foldl_append, called_inert depth answers _ fun e he => Or.inl (hevents e he),
    List.foldl_cons, List.foldl_nil]
  simp only [called, resume, resumeReads]
  rw [show (r.took frame (r.session.setStream frame.streamId after, events ++
    [.onStreamWritable frame.streamId])).stages frame.streamId = some stage from hstage]
  simp [hpaused]

/-- The events of a WINDOW_UPDATE: what it makes room for, and the callback. -/
theorem windowUpdate_sends {s : Session} {frame : Frame} (htype : frame.type = .WindowUpdate)
    {taken : Session × List psx.transport.Event} (hok : s.dispatch frame = .ok taken) :
    ∀ e ∈ taken.2, (∃ frame, e = .wrote frame) ∨ e = .onStreamWritable frame.streamId := by
  intro e he
  rw [Session.dispatch, htype] at hok
  obtain ⟨delta, -, ⟨closed, -, -, rfl⟩ | ⟨stream, -, -, rfl⟩⟩ := dispatchWindowUpdate_ok hok
  · cases he
  · rcases flushStream_events he with ⟨answer, rfl, -⟩ | rfl
    · exact Or.inl ⟨answer, rfl⟩
    · exact Or.inr rfl

/-- After a WINDOW_UPDATE, and after `extra` of what the runner does then. -/
theorem Inv.credit (h : Inv watched prompt W r) (hs : r.session.protocolFailed = false)
    {frame : Frame}
    (htype : frame.type = .WindowUpdate) {taken : Session × List psx.transport.Event}
    (hok : r.session.dispatch frame = .ok taken) (hid : frame.streamId ∈ r.opened)
    {r' : NodeStageRunner} {stage : Option Stage} (extra : List Event)
    (hsession : r'.session = taken.1)
    (hstages : r'.stages = Function.update r.stages frame.streamId stage)
    (hlog : r'.log = r.log ++ ((.got frame :: taken.2).map .session ++ extra))
    (hextra : extra = [] ∨ extra = [.resumed frame.streamId])
    (here : Tended watched prompt W.toNat r.session.protocolFailed
      (taken.1.streams frame.streamId) stage
      (ledger frame.streamId r.log)) : Inv watched prompt W r' := by
  obtain ⟨hreach, hfailed⟩ := reach_took h hs hok
  have hinv := h.session.1
  have hquiet : ∀ e ∈ psx.transport.Event.got frame :: taken.2, Quiet e := by
    intro e he
    rcases List.mem_cons.mp he with rfl | he
    · exact fun _ => rfl
    · rcases windowUpdate_sends htype hok e he with ⟨answer, rfl⟩ | rfl <;> exact fun _ => rfl
  rw [Session.dispatch, htype] at hok
  have hlocal := dispatchWindowUpdate_local (hinv.streams _) (hinv.lawful _) hs htype hok
  refine h.act _ hstages hlog ?_ (hsession ▸ hfailed)
    (fun j hj => hsession ▸ (hlocal.others j hj).1) ?_ (opened_grows hlog hid) ?_ (exits_of_none ?_)
  · rw [hsession, sessionLog_append, sessionLog_map]
    rcases hextra with rfl | rfl <;> simpa [sessionLog] using hreach
  · intro e he
    rcases List.mem_append.mp he with he | he
    · obtain ⟨e', he', rfl⟩ := List.mem_map.mp he
      exact (hlocal.events e' he').1
    · rcases hextra with rfl | rfl
      · cases he
      · rw [List.mem_singleton.mp he]
        rfl
  · rw [hsession, List.foldl_append, quiet_foldl hquiet]
    rcases hextra with rfl | rfl <;> exact here
  · intro e he id status heq
    rcases List.mem_append.mp he with he | he
    · obtain ⟨e', -, rfl⟩ := List.mem_map.mp he
      cases heq
    · rcases hextra with rfl | rfl
      · cases he
      · rw [List.mem_singleton.mp he] at heq
        cases heq

/-- Without a stage the callback finds nothing to resume. -/
theorem called_idle (depth : Nat) (answers : Answers) {id : StreamId} (hstage : r.stages id = none)
    {events : List psx.transport.Event}
    (h : ∀ e ∈ events, (∃ frame, e = .wrote frame) ∨ e = .onStreamWritable id) :
    events.foldl (called depth answers) r = r := by
  induction events with
  | nil => rfl
  | cons e events ih =>
    have hinert : called depth answers r e = r := by
      rcases h e (by simp) with ⟨answer, rfl⟩ | rfl
      · rfl
      · refine resumeReads_idle answers.reads (depth + 1) _ _ fun s hs => ?_
        rw [hstage] at hs
        cases hs
    rw [List.foldl_cons, hinert]
    exact ih fun x hx => h x (by simp [hx])

/-- Credit for a stream of the node. -/
theorem dispatch_windowUpdate (depth : Nat) (answers : Answers) (h : Inv watched prompt W r)
    (hundone : Undone r) (hs : r.session.protocolFailed = false) {frame : Frame}
    (htype : frame.type = .WindowUpdate) {taken : Session × List psx.transport.Event}
    (hok : r.session.dispatch frame = .ok taken) :
    Inv watched prompt W (r.dispatch depth answers frame) ∧
      Undone (r.dispatch depth answers frame) := by
  obtain ⟨hinv, -, hW⟩ := h.session
  cases hstage : r.stages frame.streamId with
  | none =>
    have hok' := hok
    rw [Session.dispatch, htype] at hok'
    obtain ⟨delta, -, ⟨closed, -, -, rfl⟩ | ⟨stream, hstream, -, heq⟩⟩ :=
      dispatchWindowUpdate_ok hok'
    · exact dispatch_quiet depth answers h hundone hs hok rfl (by simp)
    · have hnone : (r.took frame taken).stages frame.streamId = none := hstage
      rw [dispatch_ok depth answers hs hok,
        called_idle depth answers hnone (windowUpdate_sends htype hok)]
      refine ⟨h.credit hs htype hok (h.opened_of_stream hstream) [] rfl (update_same hstage).symm
        (by rw [List.append_nil]; rfl) (Or.inl rfl) ?_, hundone⟩
      have hbefore := h.stages frame.streamId
      rw [hstage, hstream] at hbefore
      cases hbefore with
      | unstarted hstarted => exact .unstarted hstarted
      | finished hfinished =>
        refine .finished { hfinished with sendBytes := fun after hafter => ?_ }
        have hless := Session.flushStream_sendBytes r.session frame.streamId (heq ▸ hafter)
        have hbytes := hfinished.sendBytes stream rfl
        dsimp only at hless
        omega
  | some stage =>
    obtain ⟨stream, after, credit, events, tail, hrun, hflushed, hwrote, htail, heq⟩ :=
      windowUpdate_stays h htype hok hstage
    obtain ⟨stream', hstream', -⟩ := h.running hstage
    have hid := h.opened_of_stream hstream'
    have hafter : taken.1.streams frame.streamId = some after := by
      rw [heq]
      simp [Session.setStream]
    by_cases hresume : stage.paused = true ∧ after.sendBytes < W.toNat
    · have hwritable : taken.1.isWritable frame.streamId = true := by
        have hkept := (inv_dispatch hinv hs hok).2.initialWindow
        simp [Session.isWritable, hafter, hkept, hW, hresume.2]
      rw [windowUpdate_resumes depth answers h hs htype hok hstage hresume.1 hwritable]
      have hresumed : Inv watched prompt W (((r.took frame taken).setStage frame.streamId
          (some ({ stage with paused := false }.setReadInterest true))).note
            [.resumed frame.streamId]) := by
        refine h.credit hs htype hok hid [.resumed frame.streamId] rfl rfl ?_ (Or.inr rfl) ?_
        · simp [took, note, NodeStageRunner.setStage]
        · rw [hafter]
          exact .running (hrun.resume.flushed hflushed fun hp => by cases hp)
      have hundone' : Undone (((r.took frame taken).setStage frame.streamId
          (some ({ stage with paused := false }.setReadInterest true))).note
            [.resumed frame.streamId]) := by
        refine undone_update (r := r) rfl ?_ fun j s _ => hundone j s
        rintro s hs'
        obtain rfl := Option.some.inj hs'
        exact hundone _ stage hstage
      have hidle := resumeReads_idle answers.reads depth
      obtain ⟨hout, hundone''⟩ := onReadable_inv hidle answers.reads hresumed hundone' .Stdout
      exact onReadable_inv hidle answers.reads hout hundone'' .Stderr
    · have htook : Inv watched prompt W (r.took frame taken) := by
        refine h.credit hs htype hok hid [] rfl (update_same hstage).symm
          (by rw [List.append_nil]; rfl) (Or.inl rfl) ?_
        rw [hafter]
        refine .running (hrun.flushed hflushed fun hp => ?_)
        by_contra hroom
        exact hresume ⟨hp, by omega⟩
      have hevents : taken.2 = events ++ tail := by rw [heq]
      rw [dispatch_ok depth answers hs hok, hevents, List.foldl_append,
        called_inert depth answers _ fun e he => Or.inl (hwrote e he), htail]
      split_ifs
      · exact resumeReads_inv answers.reads (depth + 1) htook hundone
      · exact ⟨htook, hundone⟩

theorem dispatch_inv (depth : Nat) {answers : Answers} (hwatch : watched → answers.launch.Watched)
    (h : Inv watched prompt W r) (hundone : Undone r) {frame : Frame}
    (hlate : prompt → ¬ r.Late frame) :
    Inv watched prompt W (r.dispatch depth answers frame) ∧
      Undone (r.dispatch depth answers frame) := by
  by_cases hs : r.session.protocolFailed = true
  · unfold NodeStageRunner.dispatch
    rw [if_pos hs]
    exact ⟨h, hundone⟩
  · rw [Bool.not_eq_true] at hs
    cases hok : r.session.dispatch frame with
    | error e =>
      unfold NodeStageRunner.dispatch
      rw [if_neg (by simp [hs]), hok]
      exact ⟨h.poison, hundone⟩
    | ok taken =>
      have hok' := hok
      unfold Session.dispatch at hok'
      split at hok'
      · rename_i htype
        exact dispatch_open depth hwatch h hundone hs htype hok
      · rename_i htype
        exact dispatch_data depth answers h hundone hs hlate htype hok
      · obtain ⟨hrole, -⟩ := dispatchExit_ok hok'
        rw [h.session.2.1] at hrole
        cases hrole
      · obtain rfl := dispatchConnection_ok hok'
        exact dispatch_quiet depth answers h hundone hs hok rfl fun e he =>
          Or.inl ⟨_, send_events he⟩
      · obtain rfl := dispatchConnection_ok hok'
        exact dispatch_quiet depth answers h hundone hs hok rfl (by simp)
      · obtain rfl := dispatchConnection_ok hok'
        exact dispatch_quiet depth answers h hundone hs hok rfl (by simp)
      · rename_i htype
        exact dispatch_windowUpdate depth answers h hundone hs htype hok
      · cases hok'

/-! ## Runs -/

/-- The watches that an input asks for are there. -/
def Input.Watched : Input → Prop
  | .frame _ answers => answers.launch.Watched
  | _ => True

/-- The input is such a payload. -/
def Input.Late (r : NodeStageRunner) : Input → Prop
  | .frame taken _ => r.Late taken
  | _ => False

theorem step_inv (depth : Nat) {input : Input} (hwatch : watched → input.Watched)
    (hlate : prompt → ¬ input.Late r)
    (h : Inv watched prompt W r) (hundone : Undone r) :
    Inv watched prompt W (r.step depth input) ∧ Undone (r.step depth input) := by
  cases input with
  | frame frame answers => exact dispatch_inv depth hwatch h hundone hlate
  | readable id channel answers =>
    exact onReadable_inv (resumeReads_idle answers.reads (depth + 1))
      answers.reads h hundone channel
  | stdinWritable id writes => exact onStdinWritable_inv writes h hundone
  | stageExit id waits => exact onStageExit_inv waits h hundone
  | ping =>
    have hsame : r.session.ping.1 = r.session := by
      unfold Session.ping
      split_ifs <;> rfl
    have hquiet : ∀ e ∈ r.session.ping.2, Quiet e := by
      intro e he
      unfold Session.ping at he
      split_ifs at he
      · cases he
      · rw [send_events he]
        exact fun _ => rfl
    refine ⟨h.quiet hquiet rfl rfl (h.reach.call .ping) ?_ ?_, hundone⟩
    · exact congrArg Session.streams hsame
    · exact congrArg Session.protocolFailed hsame
  | malformed => exact ⟨h.poison, hundone⟩

end

theorem history_inv (watched prompt : Prop) (depth : Nat) (W : UInt32)
    (validator : Option (OpenRequest → Option Bytes)) {inputs : List Input}
    (hwatch : ∀ input ∈ inputs, watched → input.Watched)
    (hlate : ∀ before input after, inputs = before ++ input :: after → prompt →
      ¬ input.Late (history depth W validator before)) :
    Inv watched prompt W (history depth W validator inputs) ∧
      Undone (history depth W validator inputs) := by
  refine Trace.foldl_induction (P := fun r => Inv watched prompt W r ∧ Undone r)
    ⟨?_, fun id stage hs => ?_⟩ ?_
  · exact ⟨.start, fun id => .unstarted rfl, fun id _ => rfl, .nil⟩
  · cases hs
  · intro before input after heq h
    exact step_inv depth (hwatch input (by simp [heq])) (hlate before input after heq) h.1 h.2

/-! ## The laws -/

/-- Over every run of a node: a stage's reads stop only while its stream is full, and credit that
makes room lets both readers go on; what waits unsent stays below the window and one read; what
is read is handed on in order; and a stage that was started gets one EXIT, after its end. -/
theorem reads_stop_only_while_the_stream_is_full (depth : Nat) (W : UInt32)
    (validator : Option (OpenRequest → Option Bytes)) (inputs : List Input)
    (hwatch : ∀ input ∈ inputs, input.Watched) :
    let r := history depth W validator inputs
    (∀ id stage, r.stages id = some stage →
      (stage.paused = true → r.session.isWritable id = false) ∧
      (stage.paused = false → ∀ channel, stage.isOpen channel = true →
        stage.watch channel = some .Readable) ∧
      ∀ frame answers taken, frame.type = .WindowUpdate → frame.streamId = id →
        r.session.protocolFailed = false → r.session.dispatch frame = .ok taken →
        stage.paused = true → taken.1.isWritable id = true →
        r.step depth (.frame frame answers) =
          ((((r.took frame taken).setStage id
                (some ({ stage with paused := false }.setReadInterest true))).note
              [.resumed id]).onReadable (resumeReads answers.reads depth) answers.reads
                id .Stdout).onReadable (resumeReads answers.reads depth) answers.reads id .Stderr) ∧
    (∀ id, (ledger id r.log).started = true →
      (∀ stream, r.session.streams id = some stream →
        stream.sendBytes < W.toNat + kReadBytes) ∧
      (ledger id r.log).read = (ledger id r.log).handed ∧
      (r.session.protocolFailed = false → (ledger id r.log).queued = (ledger id r.log).handed) ∧
      (∀ stage, r.stages id = some stage → (ledger id r.log).exits = [] ∧ stage.done = false) ∧
      (r.stages id = none → ∃ status, (ledger id r.log).exits = [status])) ∧
    Trace.Lawful ExitAllowed r.log := by
  obtain ⟨h, hundone⟩ := history_inv True False depth W validator
    (fun input hmem _ => hwatch input hmem) (fun _ _ _ _ hprompt => hprompt.elim)
  generalize history depth W validator inputs = r at h hundone
  refine ⟨fun id stage hstage => ?_, fun id hstarted => ?_, h.lawful⟩
  · obtain ⟨stream, hstream, hrun⟩ := h.running hstage
    refine ⟨fun hpaused => ?_, hrun.interest trivial, ?_⟩
    · have hfull := hrun.paused hpaused
      simp [Session.isWritable, hstream, h.session.2.2, hfull]
    · rintro frame answers taken htype rfl hs hok hpaused hwritable
      exact windowUpdate_resumes depth answers h hs htype hok hstage hpaused hwritable
  · have hid := h.stages id
    generalize hstage : r.stages id = stage at *
    generalize hstream : r.session.streams id = stream at *
    cases hid with
    | unstarted hnot =>
      rw [hnot] at hstarted
      cases hstarted
    | running hrun =>
      refine ⟨fun after hafter => ?_, hrun.handed, hrun.queued, fun s hs => ?_, by simp⟩
      · obtain rfl := Option.some.inj hafter
        exact hrun.sendBytes
      · exact ⟨hrun.exits, Option.some.inj hs ▸ hundone id _ hstage⟩
    | finished hfinished =>
      exact ⟨hfinished.sendBytes, hfinished.handed, hfinished.queued, by simp,
        fun _ => hfinished.exits⟩

/-- A stage that fills a window of four bytes is stopped, and more credit would let it go on. -/
theorem a_full_stream_stops_the_reads :
    let inputs : List Input := [.frame ⟨.Open, 0, 1, encodeOpen ⟨[[97]], []⟩⟩ {},
      .readable 1 .Stdout { reads := fun _ => [.ok ⟨[1, 2, 3, 4, 5, 6, 7, 8, 9], by decide⟩] }]
    ∃ stage, (history 0 4 none inputs).stages 1 = some stage ∧ stage.paused = true ∧
      (history 0 4 none inputs).session.isWritable 1 = false := by
  intro inputs
  have hpaused : ((history 0 4 none inputs).stages 1).map (·.paused) = some true := by
    decide
  obtain ⟨stage, hstage, hp⟩ := Option.map_eq_some_iff.mp hpaused
  have hwatch : ∀ input ∈ inputs, input.Watched := by
    intro input hmem
    simp only [inputs, List.mem_cons, List.not_mem_nil, or_false] at hmem
    rcases hmem with rfl | rfl
    · exact ⟨rfl, rfl⟩
    · trivial
  have hlaw := reads_stop_only_while_the_stream_is_full 0 4 none inputs hwatch
  exact ⟨stage, hstage, hp, (hlaw.1 1 stage hstage).1 hp⟩

/-- What the input of every kept stage should add up to: the bytes received are written, dropped
or wait, the others were given back, and a closed stdin holds none. -/
def Accounted (r : NodeStageRunner) : Prop :=
  ∀ id stage, r.stages id = some stage →
    (ledger id r.log).received.length = (ledger id r.log).wrote.length +
      stage.stdinBuffer.length + (ledger id r.log).dropped.length ∧
    (ledger id r.log).credited =
      (ledger id r.log).wrote.length + (ledger id r.log).dropped.length ∧
    (stage.stdinOpen = false → stage.stdinBuffer = [])

theorem drainStdin_closed {stage : Stage} (h : stage.stdinOpen = false) (writes : List (Result Nat))
    (r : NodeStageRunner) (id : StreamId) :
    r.drainStdin id writes stage = r.setStage id (some stage.rearmStdin) := by
  cases writes <;> simp [drainStdin, h]

/-- Such a payload stays in the buffer. -/
theorem late_stays {watched prompt : Prop} {W : UInt32} {r : NodeStageRunner}
    (h : Inv watched prompt W r) (depth : Nat) (answers : Answers) {frame : Frame}
    (hlate : r.Late frame) :
    ∃ stage, (r.dispatch depth answers frame).stages frame.streamId = some stage ∧
      stage.stdinOpen = false ∧ stage.stdinBuffer ≠ [] := by
  obtain ⟨htype, hpayload, hs, ⟨taken, hok⟩, stage, hstage, hclosed⟩ := hlate
  obtain ⟨stream, hstream, -⟩ := h.running hstage
  have hlive := h.session.1.streams frame.streamId
  rw [hstream] at hlive
  rw [dispatch_ok depth answers hs hok]
  rw [Session.dispatch, htype] at hok
  rcases dispatchData_ok hok with ⟨closed, hsome, -, -⟩ | ⟨stream', recvWindow, -, -, -, -, rfl⟩
  · rw [hlive.of_some.1] at hsome
    cases hsome
  · have hreceived : (stage.received frame.payload (Session.endsStream frame)).stdinOpen = false :=
      hclosed
    rw [List.foldl_cons, List.foldl_nil]
    refine ⟨(stage.received frame.payload (Session.endsStream frame)).rearmStdin, ?_, ?_, ?_⟩
    · simp only [called, NodeStageRunner.onData]
      rw [show (r.took frame _).stages frame.streamId = some stage from hstage]
      exact (congrArg (fun r => r.stages frame.streamId)
        (drainStdin_closed hreceived answers.writes _ frame.streamId)).trans (setStage_same _ _ _)
    · simp [Stage.rearmStdin, Stage.received, hpayload, hclosed]
    · simp [Stage.rearmStdin, Stage.received, hpayload]

/-- The input of every kept stage adds up, over every run. And a closed stdin holds nothing, in
every state, exactly when no payload comes for a stage whose stdin is closed: what comes later is
kept and its credit never goes back. -/
theorem input_is_accounted_unless_it_comes_late (depth : Nat) (W : UInt32)
    (validator : Option (OpenRequest → Option Bytes)) (inputs : List Input) :
    (∀ id stage, (history depth W validator inputs).stages id = some stage →
      (ledger id (history depth W validator inputs).log).received =
        (ledger id (history depth W validator inputs).log).wrote ++
          (ledger id (history depth W validator inputs).log).dropped ++ stage.stdinBuffer ∧
      (ledger id (history depth W validator inputs).log).credited =
        (ledger id (history depth W validator inputs).log).wrote.length +
          (ledger id (history depth W validator inputs).log).dropped.length) ∧
    ((∀ before, before <+: inputs → Accounted (history depth W validator before)) ↔
      ∀ before input after, inputs = before ++ input :: after →
        ¬ input.Late (history depth W validator before)) := by
  have hinv : ∀ before, Inv False False W (history depth W validator before) := fun before =>
    (history_inv False False depth W validator (fun _ _ hwatched => hwatched.elim)
      (fun _ _ _ _ hprompt => hprompt.elim)).1
  refine ⟨fun id stage hstage => ?_, ⟨fun hall before input after heq hlate => ?_, ?_⟩⟩
  · obtain ⟨stream, -, hrun⟩ := (hinv inputs).running hstage
    exact ⟨hrun.input.received, hrun.input.credited⟩
  · cases input with
    | frame frame answers =>
      obtain ⟨stage, hstage, hclosed, hbuffer⟩ := late_stays (hinv before) depth answers hlate
      have hnext := hall (before ++ [.frame frame answers]) ⟨after, by simp [heq]⟩
        frame.streamId stage (by simpa [history, step] using hstage)
      exact hbuffer (hnext.2.2 hclosed)
    | _ => exact hlate.elim
  · rintro hlate before ⟨rest, rfl⟩ id stage hstage
    obtain ⟨stream, -, hrun⟩ := (history_inv False True depth W validator
      (fun _ _ hwatched => hwatched.elim) fun first input after heq _ => by
        exact hlate first input (after ++ rest) (by simp [heq])).1.running hstage
    refine ⟨?_, hrun.input.credited, hrun.input.dry trivial⟩
    have hlen := congrArg List.length hrun.input.received
    simp only [List.length_append] at hlen
    omega

/-- One stage is started and closes its stdin on the first byte. -/
def closesEarly : List Input :=
  [.frame ⟨.Open, 0, 1, encodeOpen ⟨[[97]], []⟩⟩ {},
    .frame ⟨.Data, 0, 1, [1]⟩ { writes := [.error ⟨.BrokenPipe, 32, "write"⟩] }]

/-- The byte after that is kept, and its credit does not go back. -/
theorem a_late_byte_is_kept :
    let r := history 0 4 none (closesEarly ++ [.frame ⟨.Data, 0, 1, [2, 3]⟩ {}])
    (r.stages 1).map (fun stage => (stage.stdinOpen, stage.stdinBuffer)) = some (false, [2, 3]) ∧
      (ledger 1 r.log).received = [1, 2, 3] ∧ (ledger 1 r.log).credited = 1 ∧ ¬ Accounted r := by
  have hstage : ((history 0 4 none (closesEarly ++ [.frame ⟨.Data, 0, 1, [2, 3]⟩ {}])).stages 1).map
      (fun stage => (stage.stdinOpen, stage.stdinBuffer)) = some (false, [2, 3]) := by
    decide
  refine ⟨hstage, by decide, by decide, fun h => ?_⟩
  obtain ⟨stage, hsome, hpair⟩ := Option.map_eq_some_iff.mp hstage
  obtain ⟨hclosed, hbuffer⟩ := Prod.mk.inj hpair
  rw [(h 1 stage hsome).2.2 hclosed] at hbuffer
  cases hbuffer

end NodeStageRunner

end psx.transport
