-- The laws of the stages of a node. `Inv` ties each stage to the stream that it is run for
-- and to the ledger of what happened to it, and every callback keeps it.
import PipeShellX.Trace
import PipeShellX.Transport.NodeStageRunner
import PipeShellX.Transport.SessionSafety

namespace psx.transport

open psx.os (ExitStatus Interest Waits)

/-! ## What a session does to one stream -/

/-- What sending leaves of a stream: it only takes bytes off the queue. -/
structure Flushed (before after : Stream) : Prop where
  exitPending : after.exitPending = before.exitPending
  localDataClosed : after.localDataClosed = before.localDataClosed
  recvWindow : after.recvWindow = before.recvWindow
  sendBytes : after.sendBytes ≤ before.sendBytes

theorem Flushed.refl (stream : Stream) : Flushed stream stream := ⟨rfl, rfl, rfl, Nat.le_refl _⟩

theorem Flushed.trans {a b c : Stream} (h : Flushed a b) (h' : Flushed b c) : Flushed a c :=
  ⟨h'.exitPending.trans h.exitPending, h'.localDataClosed.trans h.localDataClosed,
    h'.recvWindow.trans h.recvWindow, Nat.le_trans h'.sendBytes h.sendBytes⟩

namespace Session

theorem flushQueue_flushed (s : Session) (id : StreamId) (stream : Stream) :
    Flushed stream (s.flushQueue id stream).1 ∧
      ∀ e ∈ (s.flushQueue id stream).2, ∃ frame, e = .wrote frame := by
  have key := Loop.run_induction (s.flushTurn id)
    (fun after events => Flushed stream after ∧ ∀ e ∈ events, ∃ frame, e = Event.wrote frame)
    (fun after events next more hp hturn => by
      unfold flushTurn at hturn
      split at hturn
      · cases hturn
      · split_ifs at hturn
        obtain ⟨rfl, rfl⟩ := Prod.mk.inj (Option.some.inj hturn)
        refine ⟨hp.1.trans ⟨rfl, rfl, rfl, Nat.sub_le _ _⟩, fun e he => ?_⟩
        rcases List.mem_append.mp he with he | he
        · exact hp.2 e he
        · exact ⟨_, send_events he⟩)
    stream.sendQueue.length stream [] ⟨.refl _, by simp⟩
  simpa [flushQueue] using key

theorem flushEnd_flushed (s : Session) (id : StreamId) (stream : Stream) :
    Flushed stream (s.flushEnd id stream).1 ∧
      ∀ e ∈ (s.flushEnd id stream).2, ∃ frame, e = .wrote frame := by
  unfold flushEnd
  split_ifs
  · exact ⟨⟨rfl, rfl, rfl, Nat.le_refl _⟩, fun e he => ⟨_, send_events he⟩⟩
  · exact ⟨.refl _, by simp⟩

/-- Without a deferred EXIT the stream stays, and the callback comes last. -/
theorem flushStream_stays (s : Session) (id : StreamId) (stream : Stream)
    (h : stream.exitPending = false) :
    ∃ after events tail, Flushed stream after ∧ (∀ e ∈ events, ∃ frame, e = .wrote frame) ∧
      (tail = if stream.sendBytes ≥ s.initialWindow.toNat ∧
          after.sendBytes < s.initialWindow.toNat ∧ s.streamWritable then [.onStreamWritable id]
        else []) ∧
      s.flushStream id stream = (s.setStream id after, events ++ tail) := by
  obtain ⟨hdrained, hdata⟩ := flushQueue_flushed s id stream
  obtain ⟨hended, hend⟩ := flushEnd_flushed s id (s.flushQueue id stream).1
  have hflushed := hdrained.trans hended
  refine ⟨(s.flushEnd id (s.flushQueue id stream).1).1,
    (s.flushQueue id stream).2 ++ (s.flushEnd id (s.flushQueue id stream).1).2, _, hflushed, ?_,
    rfl, ?_⟩
  · intro e he
    rcases List.mem_append.mp he with he | he
    · exact hdata e he
    · exact hend e he
  · unfold flushStream
    dsimp only
    rw [if_neg]
    rw [hflushed.exitPending, h]
    simp

/-- With one, the stream goes or keeps waiting. -/
theorem flushStream_sendBytes (s : Session) (id : StreamId) {stream after : Stream}
    (h : (s.flushStream id stream).1.streams id = some after) :
    after.sendBytes ≤ stream.sendBytes := by
  have hflushed := (flushQueue_flushed s id stream).1.trans
    (flushEnd_flushed s id (s.flushQueue id stream).1).1
  unfold flushStream at h
  dsimp only at h
  split_ifs at h <;> simp only [closeLocally, setStream, Function.update_self] at h
  · cases h
  · obtain rfl := Option.some.inj h
    exact hflushed.sendBytes
  · obtain rfl := Option.some.inj h
    exact hflushed.sendBytes

/-- The bytes that a stage wrote join the queue of its open stream. -/
theorem sendData_stays {s : Session} {id : StreamId} {stream : Stream} (bytes : Bytes)
    (channel : Channel) (hs : s.protocolFailed = false) (hrole : s.role = .Node)
    (hstream : s.streams id = some stream) (hclosed : stream.localDataClosed = false)
    (hexit : stream.exitPending = false) :
    ∃ after events, Flushed { stream with sendBytes := stream.sendBytes + bytes.length } after ∧
      (∀ e ∈ events, (∃ frame, e = .wrote frame) ∨ e = .onStreamWritable id) ∧
      s.sendData id bytes false channel =
        (s.setStream id after, .queued id channel bytes false :: events) := by
  have hqueued : (queueData stream bytes false channel).exitPending = false := by
    rw [queueData_eq]
    exact hexit
  obtain ⟨after, events, tail, hflushed, hevents, htail, heq⟩ := s.flushStream_stays id _ hqueued
  rw [queueData_eq] at hflushed
  refine ⟨after, events ++ tail,
    ⟨hflushed.exitPending, ?_, hflushed.recvWindow, hflushed.sendBytes⟩, ?_, ?_⟩
  · simpa using hflushed.localDataClosed
  · intro e he
    rcases List.mem_append.mp he with he | he
    · exact Or.inl (hevents e he)
    · rw [htail] at he
      split_ifs at he
      · exact Or.inr (List.mem_singleton.mp he)
      · cases he
  · simp only [sendData, hs, hrole, hstream, hclosed, hexit, heq]
    rw [if_neg (by simp), if_neg (by simp)]

theorem sendData_failed {s : Session} (id : StreamId) (bytes : Bytes) (channel : Channel)
    (hs : s.protocolFailed = true) : s.sendData id bytes false channel = (s, []) := by
  simp [sendData, hs]

theorem consume_stays {s : Session} {id : StreamId} {stream : Stream} (n : Nat)
    (hs : s.protocolFailed = false) (hstream : s.streams id = some stream) :
    ∃ events, (∀ e ∈ events, ∃ frame, e = .wrote frame) ∧
      s.consume id n =
        (s.setStream id { stream with recvWindow := (stream.recvWindow.onConsumed n).1 },
          .consumed id (stream.recvWindow.clamp n) :: events) := by
  simp only [consume, hs, hstream]
  rw [if_neg (by simp)]
  refine ⟨_, ?_, rfl⟩
  intro e he
  split_ifs at he
  · exact ⟨_, send_events he⟩
  · cases he

theorem consume_failed {s : Session} (id : StreamId) (n : Nat) (hs : s.protocolFailed = true) :
    s.consume id n = (s, []) := by
  simp [consume, hs]

/-- An EXIT leaves the stream with what it still has to send, or none. -/
theorem sendExit_stays {s : Session} {id : StreamId} {stream : Stream} (status : ExitStatus)
    (hstream : s.streams id = some stream) :
    (∀ after, (s.sendExit id status).1.streams id = some after →
        after.sendBytes = stream.sendBytes) ∧
      (s.protocolFailed = true → (s.sendExit id status).2 = []) ∧
      ∀ e ∈ (s.sendExit id status).2, (∃ frame, e = .wrote frame) ∨ e = .exitAsked id status := by
  unfold sendExit
  rw [hstream]
  dsimp only
  split_ifs with hguard hpending hqueue
  · refine ⟨fun after h => ?_, fun _ => rfl, by simp⟩
    rw [hstream] at h
    rw [← Option.some.inj h]
  · refine ⟨fun after h => ?_, fun _ => rfl, by simp⟩
    rw [hstream] at h
    rw [← Option.some.inj h]
  · refine ⟨fun after h => ?_, fun hfailed => absurd (.inl hfailed) hguard, by simp⟩
    simp only [setStream, Function.update_self] at h
    rw [← Option.some.inj h]
  · refine ⟨fun after h => ?_, fun hfailed => absurd (.inl hfailed) hguard, fun e he => ?_⟩
    · simp [closeLocally] at h
    · rcases List.mem_cons.mp he with rfl | he
      · exact Or.inr rfl
      · exact Or.inl ⟨_, send_events he⟩

end Session

/-! ## The ledger of a stage -/

namespace NodeStageRunner

/-- The stage that an event is about. -/
def Event.stage : Event → StreamId
  | .session e => e.streamId
  | .started id _ | .read id _ _ | .handed id _ _ | .ended id _ | .reaped id _ | .exitSent id _
  | .resumed id | .wrote id _ | .dropped id _ | .credited id _ => id

/-- What the events of one stage add up to: the bytes read from it, handed to `sendData` and
queued by the session, the ends, the EXITs that the runner sent and those that the session took,
and the bytes received for it, written to it and dropped, with the credit given back for them. -/
structure Ledger where
  started : Bool := false
  read : List (Channel × UInt8) := []
  handed : List (Channel × UInt8) := []
  queued : List (Channel × UInt8) := []
  ended : List Channel := []
  reaped : Bool := false
  exits : List ExitStatus := []
  asked : List ExitStatus := []
  received : Bytes := []
  wrote : Bytes := []
  dropped : Bytes := []
  credited : Nat := 0

/-- One more event of a stage. -/
@[simp] def Ledger.note (l : Ledger) : Event → Ledger
  | .session (.queued _ channel bytes _) => { l with queued := l.queued ++ tag channel bytes }
  | .session (.onData _ bytes _ _) => { l with received := l.received ++ bytes }
  | .session (.exitAsked _ status) => { l with asked := l.asked ++ [status] }
  | .session _ => l
  | .started .. => { l with started := true }
  | .read _ channel bytes => { l with read := l.read ++ tag channel bytes }
  | .handed _ channel bytes => { l with handed := l.handed ++ tag channel bytes }
  | .ended _ channel => { l with ended := channel :: l.ended }
  | .reaped .. => { l with reaped := true }
  | .exitSent _ status => { l with exits := l.exits ++ [status] }
  | .resumed _ => l
  | .wrote _ bytes => { l with wrote := l.wrote ++ bytes }
  | .dropped _ bytes => { l with dropped := l.dropped ++ bytes }
  | .credited _ n => { l with credited := l.credited + n.toNat }

/-- The ledger of a stage. -/
def ledger (id : StreamId) (log : List Event) : Ledger :=
  (log.filter fun e => e.stage = id).foldl Ledger.note {}

@[simp] theorem ledger_nil (id : StreamId) : ledger id [] = {} := rfl

theorem ledger_here {id : StreamId} (log : List Event) {events : List Event}
    (h : ∀ e ∈ events, e.stage = id) :
    ledger id (log ++ events) = events.foldl Ledger.note (ledger id log) := by
  have hall : (events.filter fun e => e.stage = id) = events := by
    simpa [List.filter_eq_self] using h
  rw [ledger, List.filter_append, List.foldl_append, hall, ledger]

theorem ledger_elsewhere {id : StreamId} (log : List Event) {events : List Event}
    (h : ∀ e ∈ events, e.stage ≠ id) : ledger id (log ++ events) = ledger id log := by
  have hnone : (events.filter fun e => e.stage = id) = [] := by
    simpa [List.filter_eq_nil_iff] using h
  rw [ledger, List.filter_append, hnone, List.append_nil, ledger]

/-- The events of a session that the ledger leaves out. -/
def Quiet (e : psx.transport.Event) : Prop :=
  ∀ l : Ledger, l.note (.session e) = l

theorem quiet_foldl {events : List psx.transport.Event} (h : ∀ e ∈ events, Quiet e) (l : Ledger) :
    (events.map .session).foldl Ledger.note l = l := by
  induction events with
  | nil => rfl
  | cons e events ih =>
    rw [List.map_cons, List.foldl_cons, h e (by simp) l]
    exact ih fun x hx => h x (by simp [hx])

/-- What the session did for an EXIT counts as no more than that. -/
theorem asked_foldl {events : List psx.transport.Event} {id : StreamId} {status : ExitStatus}
    (h : ∀ e ∈ events, (∃ frame, e = .wrote frame) ∨ e = .exitAsked id status) (l : Ledger) :
    ∃ asked, (events.map .session).foldl Ledger.note l = { l with asked := l.asked ++ asked } ∧
      (events = [] → asked = []) := by
  induction events generalizing l with
  | nil => exact ⟨[], by simp, fun _ => rfl⟩
  | cons e events ih =>
    have hlater := ih fun x hx => h x (List.mem_cons_of_mem _ hx)
    rw [List.map_cons, List.foldl_cons]
    rcases h e List.mem_cons_self with ⟨frame, rfl⟩ | rfl
    · obtain ⟨asked, heq, -⟩ := hlater l
      exact ⟨asked, heq, by simp⟩
    · obtain ⟨asked, heq, -⟩ := hlater { l with asked := l.asked ++ [status] }
      exact ⟨status :: asked, by simp [heq], by simp⟩

/-- The session's own log. -/
def sessionLog (log : List Event) : List psx.transport.Event :=
  log.filterMap fun
    | .session e => some e
    | _ => none

@[simp] theorem sessionLog_append (a b : List Event) :
    sessionLog (a ++ b) = sessionLog a ++ sessionLog b := List.filterMap_append

@[simp] theorem sessionLog_map (events : List psx.transport.Event) :
    sessionLog (events.map .session) = events := by
  induction events with
  | nil => rfl
  | cons e events ih => simp [sessionLog]

/-! ## The invariant -/

/-- The input side of a stage: what was received for it was written, dropped, or waits, and what
does not wait was given back as credit. `prompt` says that nothing came for a closed stdin. -/
structure Fed (prompt : Prop) (W : Nat) (failed : Bool) (stream : Stream) (stage : Stage)
    (l : Ledger) : Prop where
  outstanding : failed = false → stream.recvWindow.outstanding = stage.stdinBuffer.length
  buffer_le : stage.stdinBuffer.length ≤ W
  received : l.received = l.wrote ++ l.dropped ++ stage.stdinBuffer
  dropped : stage.stdinOpen = true → l.dropped = []
  credited : l.credited = l.wrote.length + l.dropped.length
  dry : prompt → stage.stdinOpen = false → stage.stdinBuffer = []

/-- A stage that the node keeps, with its stream and its ledger. `watched` says that every
watch could be had. -/
structure Running (watched prompt : Prop) (W : Nat) (failed : Bool) (stream : Stream)
    (stage : Stage) (l : Ledger) : Prop where
  started : l.started = true
  exits : l.exits = []
  asked : l.asked = []
  reaped : l.reaped = stage.exited
  ended : ∀ channel, channel ∈ l.ended ↔ stage.isOpen channel = false
  handed : l.read = l.handed
  part : l.queued <+: l.handed
  queued : failed = false → l.queued = l.handed
  localDataClosed : stream.localDataClosed = false
  exitPending : stream.exitPending = false
  sendBytes : stream.sendBytes < W + kReadBytes
  input : Fed prompt W failed stream stage l
  paused : stage.paused = true → W ≤ stream.sendBytes
  interest : watched → stage.paused = false → ∀ channel, stage.isOpen channel = true →
    stage.watch channel = some .Readable
  tokens : watched → ∀ channel, stage.isOpen channel = true → stage.watch channel ≠ none

/-- A stage that is over. Its stream may still have bytes to send. A session that failed took no
EXIT. -/
structure Finished (W : Nat) (failed : Bool) (stream : Option Stream) (l : Ledger) : Prop where
  started : l.started = true
  exits : ∃ status, l.exits = [status]
  handed : l.read = l.handed
  part : l.queued <+: l.handed
  queued : failed = false → l.queued = l.handed
  asked : l.asked ≠ [] → l.queued = l.handed
  sendBytes : ∀ after, stream = some after → after.sendBytes < W + kReadBytes

/-- The entries of one id in the maps of the session and of the runner. -/
inductive Tended (watched prompt : Prop) (W : Nat) (failed : Bool) :
    Option Stream → Option Stage → Ledger → Prop
  | unstarted {stream l} (h : l.started = false) : Tended watched prompt W failed stream none l
  | running {stream stage l} (h : Running watched prompt W failed stream stage l) :
    Tended watched prompt W failed (some stream) (some stage) l
  | finished {stream l} (h : Finished W failed stream l) :
    Tended watched prompt W failed stream none l

/-- A stage that was started gets its EXIT once, after its end. -/
def ExitAllowed (pre : List Event) : Event → Prop
  | .exitSent id _ => (ledger id pre).started = true →
      (ledger id pre).reaped = true ∧ (∀ channel, channel ∈ (ledger id pre).ended) ∧
        (ledger id pre).exits = []
  | _ => True

/-- The streams that the node accepted. -/
def opened (r : NodeStageRunner) : List StreamId := (account (sessionLog r.log)).opens .Node

/-- What holds between two steps. -/
structure Inv (watched prompt : Prop) (W : UInt32) (r : NodeStageRunner) : Prop where
  reach : Reach .Node W true r.session (sessionLog r.log)
  stages : ∀ id, Tended watched prompt W.toNat r.session.protocolFailed (r.session.streams id)
    (r.stages id) (ledger id r.log)
  fresh : ∀ id, id ∉ r.opened → ledger id r.log = {}
  lawful : Trace.Lawful ExitAllowed r.log

section

variable {watched prompt : Prop} {W : UInt32} {r : NodeStageRunner} {id : StreamId}

theorem Inv.session (h : Inv watched prompt W r) :
    psx.transport.Inv r.session (sessionLog r.log) ∧ r.session.role = .Node ∧
      r.session.initialWindow = W := inv_reach h.reach

theorem Inv.running (h : Inv watched prompt W r) {stage : Stage}
    (hstage : r.stages id = some stage) :
    ∃ stream, r.session.streams id = some stream ∧
      Running watched prompt W.toNat r.session.protocolFailed stream stage (ledger id r.log) := by
  have hid := h.stages id
  rw [hstage] at hid
  generalize hstream : r.session.streams id = stream at hid
  cases hid with
  | running hrun => exact ⟨_, rfl, hrun⟩

theorem Inv.opened_of_stream (h : Inv watched prompt W r) {stream : Stream}
    (hstream : r.session.streams id = some stream) : id ∈ r.opened := by
  obtain ⟨hinv, hrole, -⟩ := h.session
  have hid := hinv.streams id
  rw [hstream, hrole] at hid
  exact opens_view_ne_nil.mp hid.of_some.2.1.openIn.opened

theorem opened_grows {r' : NodeStageRunner} {events : List Event} (hlog : r'.log = r.log ++ events)
    (h : id ∈ r.opened) : id ∈ r'.opened := by
  obtain ⟨-, -, ⟨more, hmore⟩, -⟩ := account_grows (sessionLog r.log) (sessionLog events)
  simp only [opened, Account.opens] at h ⊢
  rw [hlog, sessionLog_append, ← hmore]
  simp [h]

/-- What a callback about one stage leaves: the others as they were, and this one with its
invariant. -/
theorem Inv.act (h : Inv watched prompt W r) {r' : NodeStageRunner} {stage : Option Stage}
    (events : List Event) (hstages : r'.stages = Function.update r.stages id stage)
    (hlog : r'.log = r.log ++ events)
    (hreach : Reach .Node W true r'.session (sessionLog r.log ++ sessionLog events))
    (hfailed : r'.session.protocolFailed = r.session.protocolFailed)
    (hstreams : ∀ j, j ≠ id → r'.session.streams j = r.session.streams j)
    (hevents : ∀ e ∈ events, e.stage = id) (hid : id ∈ r'.opened)
    (here : Tended watched prompt W.toNat r.session.protocolFailed (r'.session.streams id) stage
      (events.foldl Ledger.note (ledger id r.log)))
    (hexits : ∀ pre e post, events = pre ++ e :: post → ExitAllowed (r.log ++ pre) e) :
    Inv watched prompt W r' where
  reach := by
    rw [hlog, sessionLog_append]
    exact hreach
  stages := by
    intro j
    rw [hstages, hlog, hfailed]
    by_cases hj : j = id
    · subst hj
      rw [Function.update_self, ledger_here r.log hevents]
      exact here
    · rw [Function.update_of_ne hj, hstreams j hj,
        ledger_elsewhere r.log fun e he => (hevents e he).trans_ne (Ne.symm hj)]
      exact h.stages j
  fresh := by
    intro j hj
    have hout : j ∉ r.opened := mt (opened_grows hlog) hj
    have hne : j ≠ id := fun heq => hj (heq ▸ hid)
    rw [hlog, ledger_elsewhere r.log fun e he => (hevents e he).trans_ne (Ne.symm hne)]
    exact h.fresh j hout
  lawful := by
    rw [hlog]
    exact h.lawful.extend hexits

/-- Only an EXIT has to be allowed. -/
theorem exits_of_none {log events : List Event}
    (h : ∀ e ∈ events, ∀ id status, e ≠ .exitSent id status) :
    ∀ pre e post, events = pre ++ e :: post → ExitAllowed (log ++ pre) e := by
  intro pre e post heq
  have hne := h e (by simp [heq])
  cases e with
  | exitSent id status => exact absurd rfl (hne id status)
  | _ => trivial

/-- A callback that only changes the stage. -/
theorem Inv.setStage (h : Inv watched prompt W r) {stream : Stream} {stage : Stage}
    (hstream : r.session.streams id = some stream)
    (hrun : Running watched prompt W.toNat r.session.protocolFailed stream stage
      (ledger id r.log)) :
    Inv watched prompt W (r.setStage id stage) := by
  refine h.act [] rfl (List.append_nil _).symm ?_ rfl (fun _ _ => rfl) (by simp)
    (h.opened_of_stream (r := r) hstream) ?_ (by simp)
  · rw [show sessionLog [] = [] from rfl, List.append_nil]
    exact h.reach
  · rw [show (r.setStage id stage).session.streams id = some stream from hstream]
    exact .running hrun

/-- A callback that calls nothing of the session. -/
theorem Inv.noted (h : Inv watched prompt W r) {stream : Stream} {stage : Stage}
    (events : List Event) (hstream : r.session.streams id = some stream)
    (hevents : ∀ e ∈ events, e.stage = id) (hsession : sessionLog events = [])
    (hexits : ∀ e ∈ events, ∀ id status, e ≠ .exitSent id status)
    (hrun : Running watched prompt W.toNat r.session.protocolFailed stream stage
      (events.foldl Ledger.note (ledger id r.log))) :
    Inv watched prompt W ((r.setStage id stage).note events) := by
  refine h.act events rfl rfl ?_ rfl (fun _ _ => rfl) hevents
    (opened_grows rfl (h.opened_of_stream hstream)) ?_ (exits_of_none hexits)
  · rw [hsession, List.append_nil]
    exact h.reach
  · rw [show ((r.setStage id stage).note events).session.streams id = some stream from hstream]
    exact .running hrun

/-- A callback that makes one call of the session: `events` are its own before the call. -/
theorem Inv.calls (h : Inv watched prompt W r) (c : Session.Call) {r' : NodeStageRunner}
    {stage : Option Stage} {events : List Event} (hid : id ∈ r.opened)
    (hlocal : Local r.session id (view id (sessionLog r.log)) (r.session.call c))
    (hsession : r'.session = (r.session.call c).1)
    (hstages : r'.stages = Function.update r.stages id stage)
    (hlog : r'.log = r.log ++ (events ++ (r.session.call c).2.map .session))
    (hevents : ∀ e ∈ events, e.stage = id) (hown : sessionLog events = [])
    (here : Tended watched prompt W.toNat r.session.protocolFailed
      ((r.session.call c).1.streams id) stage
      (((r.session.call c).2.map .session).foldl Ledger.note
        (events.foldl Ledger.note (ledger id r.log))))
    (hexits : ∀ pre e post, events = pre ++ e :: post → ExitAllowed (r.log ++ pre) e) :
    Inv watched prompt W r' := by
  have hkept := (inv_call h.session.1 c).2
  refine h.act _ hstages hlog ?_ (hsession ▸ hkept.protocolFailed)
    (fun j hj => hsession ▸ (hlocal.others j hj).1) ?_ (opened_grows hlog hid) ?_ ?_
  · rw [hsession, sessionLog_append, hown, sessionLog_map, List.nil_append]
    exact h.reach.call c
  · intro e he
    rcases List.mem_append.mp he with he | he
    · exact hevents e he
    · obtain ⟨e', he', rfl⟩ := List.mem_map.mp he
      exact (hlocal.events e' he').1
  · rw [hsession, List.foldl_append]
    exact here
  · intro pre e post heq
    rcases List.append_eq_append_iff.mp heq with ⟨rest, rfl, hrest⟩ | ⟨rest, hpre, hrest⟩
    · have hmem : e ∈ (r.session.call c).2.map Event.session := by
        rw [hrest]
        simp
      obtain ⟨e', -, rfl⟩ := List.mem_map.mp hmem
      trivial
    · cases rest with
      | nil =>
        have hmem : e ∈ (r.session.call c).2.map Event.session := by
          rw [List.nil_append] at hrest
          rw [← hrest]
          simp
        obtain ⟨e', -, rfl⟩ := List.mem_map.mp hmem
        trivial
      | cons first rest =>
        obtain ⟨rfl, -⟩ := List.cons.inj hrest
        exact hexits pre e rest hpre

end

end NodeStageRunner

end psx.transport
