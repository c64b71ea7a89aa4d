-- What a session holds back: the bytes that wait in the queue of a stream. Sending takes as
-- many of them as it spends credit, and only `sendData` adds to them.
import PipeShellX.Transport.SessionOps
import Mathlib.Algebra.GroupWithZero.Nat

namespace psx.transport

open psx.os (ExitStatus)

/-- The bytes that wait for credit. -/
def Stream.backlog (stream : Stream) : Nat := (stream.sendQueue.map (·.bytes.length)).sum

/-- `sendBytes` counts them. -/
def Stream.Counted (stream : Stream) : Prop := stream.sendBytes = stream.backlog

/-- The stream sent some of its queue: as many bytes as it spent credit. -/
structure Sends (before after : Stream) : Prop where
  counted : before.Counted → after.Counted
  spent : after.backlog + before.sendCredit = before.backlog + after.sendCredit
  credit : after.sendCredit ≤ before.sendCredit
  closed : after.localDataClosed = before.localDataClosed
  exitPending : after.exitPending = before.exitPending

theorem Sends.refl (stream : Stream) : Sends stream stream := ⟨id, rfl, Nat.le_refl _, rfl, rfl⟩

theorem Sends.trans {a b c : Stream} (h : Sends a b) (h' : Sends b c) : Sends a c := by
  refine ⟨fun hc => h'.counted (h.counted hc), ?_, Nat.le_trans h'.credit h.credit,
    h'.closed.trans h.closed, h'.exitPending.trans h.exitPending⟩
  have := h.spent
  have := h'.spent
  omega

theorem Sends.backlog_le {before after : Stream} (h : Sends before after) :
    after.backlog ≤ before.backlog := by
  have := h.spent
  have := h.credit
  omega

namespace Session

/-- The bytes that wait in a stream of the session. -/
def backlog (s : Session) (id : StreamId) : Nat :=
  match s.streams id with
  | none => 0
  | some stream => stream.backlog

def Counted (s : Session) : Prop := ∀ id stream, s.streams id = some stream → stream.Counted

theorem backlog_some {s : Session} {id : StreamId} {stream : Stream}
    (h : s.streams id = some stream) : s.backlog id = stream.backlog := by
  unfold backlog
  rw [h]

theorem backlog_none {s : Session} {id : StreamId} (h : s.streams id = none) :
    s.backlog id = 0 := by
  unfold backlog
  rw [h]

/-- A writable stream has room below the high-water mark. -/
theorem backlog_writable {s : Session} {id : StreamId} (hcounted : s.Counted)
    (h : s.isWritable id = true) : s.backlog id = 0 ∨ s.backlog id < s.initialWindow.toNat := by
  unfold isWritable at h
  cases hstream : s.streams id with
  | none => exact .inl (backlog_none hstream)
  | some stream =>
    rw [hstream] at h
    have hroom : stream.sendBytes < s.initialWindow.toNat := by simpa using h
    right
    rw [backlog_some hstream, ← hcounted id stream hstream]
    exact hroom

/-! ## What sending does to a stream -/

theorem flushTurn_sends {s : Session} {id : StreamId} {stream next : Stream} {events : List Event}
    (h : s.flushTurn id stream = some (next, events)) : Sends stream next := by
  unfold flushTurn at h
  cases hqueue : stream.sendQueue with
  | nil =>
    rw [hqueue] at h
    cases h
  | cons front rest =>
    rw [hqueue] at h
    dsimp only at h
    by_cases hcredit : stream.sendCredit > 0
    · rw [if_pos hcredit] at h
      obtain ⟨hnext, -⟩ := Prod.mk.inj (Option.some.inj h)
      have hbacklog : stream.backlog = front.bytes.length + (rest.map (·.bytes.length)).sum := by
        unfold Stream.backlog
        rw [hqueue, List.map_cons, List.sum_cons]
      have hcount : next.sendBytes = stream.sendBytes -
          min front.bytes.length stream.sendCredit := by
        rw [← hnext]
      have hspent : next.sendCredit =
          stream.sendCredit - min front.bytes.length stream.sendCredit := by
        rw [← hnext]
      have hchunk : next.backlog + min front.bytes.length stream.sendCredit = stream.backlog := by
        rw [hbacklog, ← hnext]
        unfold Stream.backlog
        dsimp only
        split_ifs with hall
        · omega
        · rw [List.map_cons, List.sum_cons, List.length_drop]
          omega
      refine ⟨fun hcounted => ?_, ?_, ?_, by rw [← hnext], by rw [← hnext]⟩
      · unfold Stream.Counted at hcounted ⊢
        omega
      · omega
      · omega
    · rw [if_neg hcredit] at h
      cases h

theorem flushQueue_sends (s : Session) (id : StreamId) (stream : Stream) :
    Sends stream (s.flushQueue id stream).1 :=
  Loop.run_induction (s.flushTurn id) (fun after _ => Sends stream after)
    (fun _ _ _ _ h hturn => h.trans (flushTurn_sends hturn)) _ _ [] (.refl stream)

theorem flushEnd_sends (s : Session) (id : StreamId) (stream : Stream) :
    Sends stream (s.flushEnd id stream).1 := by
  unfold flushEnd
  split_ifs
  · exact ⟨fun h => h, rfl, Nat.le_refl _, rfl, rfl⟩
  · exact .refl stream

/-! ## What an operation does to a session -/

/-- No stream of the session waits with more bytes than before. -/
structure Relieves (s s' : Session) : Prop where
  config : (s'.role, s'.initialWindow) = (s.role, s.initialWindow)
  counted : s.Counted → s'.Counted
  backlog : ∀ id, s'.backlog id ≤ s.backlog id

theorem Relieves.refl (s : Session) : Relieves s s := ⟨rfl, id, fun _ => Nat.le_refl _⟩

/-- One stream changed, and it is gone, or it is new, or it sent something. -/
theorem relieves_update {s s' : Session} {id : StreamId} {after : Option Stream}
    (hconfig : (s'.role, s'.initialWindow) = (s.role, s.initialWindow))
    (hstreams : s'.streams = Function.update s.streams id after)
    (h : ∀ stream, after = some stream → stream.Counted ∧ stream.backlog = 0 ∨
      ∃ before, s.streams id = some before ∧ Sends before stream) : Relieves s s' := by
  refine ⟨hconfig, fun hcounted id' stream hstream => ?_, fun id' => ?_⟩
  · rw [hstreams] at hstream
    by_cases hid : id' = id
    · subst hid
      rw [Function.update_self] at hstream
      rcases h stream hstream with ⟨hnew, -⟩ | ⟨before, hbefore, hsends⟩
      · exact hnew
      · exact hsends.counted (hcounted _ before hbefore)
    · rw [Function.update_of_ne hid] at hstream
      exact hcounted id' stream hstream
  · by_cases hid : id' = id
    · subst hid
      cases after with
      | none =>
        rw [backlog_none (by rw [hstreams, Function.update_self])]
        exact Nat.zero_le _
      | some stream =>
        have hafter : s'.streams id' = some stream := by rw [hstreams, Function.update_self]
        rw [backlog_some hafter]
        rcases h stream rfl with ⟨-, hnew⟩ | ⟨before, hbefore, hsends⟩
        · omega
        · rw [backlog_some hbefore]
          exact hsends.backlog_le
    · unfold Session.backlog
      exact Nat.le_of_eq (by rw [hstreams, Function.update_of_ne hid])

/-- Nothing changed in the streams. -/
theorem relieves_same {s s' : Session}
    (hconfig : (s'.role, s'.initialWindow) = (s.role, s.initialWindow))
    (hstreams : s'.streams = s.streams) : Relieves s s' := by
  refine ⟨hconfig, fun hcounted id stream hstream => hcounted id stream (hstreams ▸ hstream),
    fun id => ?_⟩
  unfold Session.backlog
  exact Nat.le_of_eq (by rw [hstreams])

/-- A flush leaves the stream with less to send, or ends it with a deferred EXIT. -/
theorem flushStream_sends (s : Session) (id : StreamId) (stream : Stream) :
    ∃ after, (∀ next, after = some next → Sends stream next) ∧
      (stream.exitPending = false → ∃ next, after = some next) ∧
      (s.flushStream id stream).1.streams = Function.update s.streams id after ∧
      ((s.flushStream id stream).1.role, (s.flushStream id stream).1.initialWindow) =
        (s.role, s.initialWindow) := by
  have hsends := (flushQueue_sends s id stream).trans (flushEnd_sends s id _)
  unfold flushStream
  dsimp only
  by_cases hexit : (s.flushEnd id (s.flushQueue id stream).1).1.sendQueue = [] ∧
      (!(s.flushEnd id (s.flushQueue id stream).1).1.sendEndPending) = true ∧
      (s.flushEnd id (s.flushQueue id stream).1).1.exitPending = true
  · rw [if_pos hexit]
    refine ⟨none, nofun, fun hnone => ?_, ?_, rfl⟩
    · rw [← hsends.exitPending, hexit.2.2] at hnone
      cases hnone
    · simp [closeLocally, setStream]
  · rw [if_neg hexit]
    refine ⟨some _, fun next hnext => ?_, fun _ => ⟨_, rfl⟩, rfl, rfl⟩
    exact Option.some.inj hnext ▸ hsends

/-- What waits after a flush waits for credit. -/
theorem flushStream_dry (s : Session) {id : StreamId} {stream after : Stream}
    (h : (s.flushStream id stream).1.streams id = some after) (hqueue : after.sendQueue ≠ []) :
    after.sendCredit = 0 := by
  have hended : (s.flushEnd id (s.flushQueue id stream).1).1.sendQueue =
        (s.flushQueue id stream).1.sendQueue ∧
      (s.flushEnd id (s.flushQueue id stream).1).1.sendCredit =
        (s.flushQueue id stream).1.sendCredit := by
    unfold flushEnd
    split_ifs <;> exact ⟨rfl, rfl⟩
  unfold flushStream at h
  dsimp only at h
  split_ifs at h
  · simp [closeLocally, setStream] at h
  all_goals
    simp only [setStream, Function.update_self] at h
    obtain rfl := Option.some.inj h
    rw [hended.1] at hqueue
    rw [hended.2]
    exact flushQueue_stops s id stream hqueue

/-- A stream that is flushed, with so much more in its queue. -/
theorem flushStream_backlog (s : Session) {id : StreamId} {before stream : Stream} {more : Nat}
    (hstream : s.streams id = some before) (hcounted : before.Counted → stream.Counted)
    (hmore : stream.backlog = before.backlog + more) :
    ((s.flushStream id stream).1.role, (s.flushStream id stream).1.initialWindow) =
        (s.role, s.initialWindow) ∧
      (s.Counted → (s.flushStream id stream).1.Counted) ∧
      ∀ id', (s.flushStream id stream).1.backlog id' ≤
        s.backlog id' + if id' = id then more else 0 := by
  obtain ⟨after, hsends, -, hstreams, hconfig⟩ := flushStream_sends s id stream
  refine ⟨hconfig, fun hall id' next hnext => ?_, fun id' => ?_⟩
  · rw [hstreams] at hnext
    by_cases hid : id' = id
    · subst hid
      rw [Function.update_self] at hnext
      exact (hsends next hnext).counted (hcounted (hall _ before hstream))
    · rw [Function.update_of_ne hid] at hnext
      exact hall id' next hnext
  · by_cases hid : id' = id
    · subst hid
      rw [if_pos rfl, backlog_some hstream, ← hmore]
      cases after with
      | none =>
        rw [backlog_none (by rw [hstreams, Function.update_self])]
        exact Nat.zero_le _
      | some next =>
        have hnext : (s.flushStream id' stream).1.streams id' = some next := by
          rw [hstreams, Function.update_self]
        rw [backlog_some hnext]
        exact (hsends next rfl).backlog_le
    · rw [if_neg hid, Nat.add_zero]
      unfold Session.backlog
      exact Nat.le_of_eq (by rw [hstreams, Function.update_of_ne hid])

theorem relieves_open (s : Session) (request : OpenRequest) : Relieves s (s.open_ request).1 := by
  unfold open_
  split_ifs
  · exact .refl s
  · dsimp only
    unfold tryEmplace
    cases hstream : ({ s with nextStreamId := s.nextStreamId + 1 } : Session).streams
      s.nextStreamId with
    | some stream => exact relieves_same rfl rfl
    | none =>
      have hnew : (Stream.new s.initialWindow).Counted ∧ (Stream.new s.initialWindow).backlog = 0 :=
        ⟨rfl, rfl⟩
      exact relieves_update rfl rfl fun stream heq => .inl (Option.some.inj heq ▸ hnew)

theorem relieves_consume (s : Session) (id : StreamId) (n : Nat) :
    Relieves s (s.consume id n).1 := by
  unfold consume
  split_ifs
  · exact .refl s
  · cases hstream : s.streams id with
    | none => exact .refl s
    | some stream =>
      have hkept : Sends stream { stream with recvWindow := (stream.recvWindow.onConsumed n).1 } :=
        ⟨fun h => h, rfl, Nat.le_refl _, rfl, rfl⟩
      exact relieves_update rfl rfl fun after heq =>
        .inr ⟨stream, hstream, Option.some.inj heq ▸ hkept⟩

theorem relieves_ping (s : Session) : Relieves s s.ping.1 := by
  unfold ping
  split_ifs
  · exact .refl s
  · exact .refl s

/-- What is queued waits at most. -/
theorem queueData_backlog (stream : Stream) (bytes : Bytes) (endStream : Bool) (channel : Channel) :
    (queueData stream bytes endStream channel).backlog = stream.backlog + bytes.length ∧
      (stream.Counted → (queueData stream bytes endStream channel).Counted) ∧
      (queueData stream bytes endStream channel).sendCredit = stream.sendCredit ∧
      (queueData stream bytes endStream channel).exitPending = stream.exitPending ∧
      (queueData stream bytes endStream channel).localDataClosed =
        (stream.localDataClosed || endStream) := by
  have hbacklog : (queueData stream bytes endStream channel).backlog =
      stream.backlog + bytes.length := by
    rw [queueData_eq]
    unfold Stream.backlog
    by_cases hbytes : bytes = []
    · simp [hbytes]
    · simp [hbytes, List.map_append]
  refine ⟨hbacklog, fun hcounted => ?_, by rw [queueData_eq], by rw [queueData_eq], ?_⟩
  · unfold Stream.Counted at hcounted ⊢
    rw [hbacklog, queueData_eq]
    dsimp only
    omega
  · rw [queueData_eq]

/-- `sendData` adds no more than its bytes, and to one stream only. -/
theorem sendData_backlog (s : Session) (id : StreamId) (bytes : Bytes) (endStream : Bool)
    (channel : Channel) :
    ((s.sendData id bytes endStream channel).1.role,
        (s.sendData id bytes endStream channel).1.initialWindow) = (s.role, s.initialWindow) ∧
      (s.Counted → (s.sendData id bytes endStream channel).1.Counted) ∧
      ∀ id', (s.sendData id bytes endStream channel).1.backlog id' ≤
        s.backlog id' + if id' = id then bytes.length else 0 := by
  have hsame : (s.role, s.initialWindow) = (s.role, s.initialWindow) ∧ (s.Counted → s.Counted) ∧
      ∀ id', s.backlog id' ≤ s.backlog id' + if id' = id then bytes.length else 0 :=
    ⟨rfl, fun h => h, fun id' => Nat.le_add_right _ _⟩
  unfold sendData
  split_ifs
  · exact hsame
  · cases hstream : s.streams id with
    | none => exact hsame
    | some stream =>
      dsimp only
      split_ifs
      · exact hsame
      · obtain ⟨hbacklog, hcounted, -⟩ := queueData_backlog stream bytes endStream channel
        exact flushStream_backlog s hstream hcounted hbacklog

/-- The end alone adds nothing. -/
theorem relieves_sendEnd (s : Session) (id : StreamId) (endStream : Bool) (channel : Channel) :
    Relieves s (s.sendData id [] endStream channel).1 := by
  obtain ⟨hconfig, hcounted, hbacklog⟩ := s.sendData_backlog id [] endStream channel
  refine ⟨hconfig, hcounted, fun id' => ?_⟩
  have := hbacklog id'
  split_ifs at this
  · exact this
  · exact this

/-! ## Received frames -/

/-- The chunk of output that a frame hands over, or none. -/
theorem dispatch_hands {s : Session} (hrole : s.role = .Controller) {frame : Frame}
    {r : Session × List Event} (h : s.dispatch frame = .ok r) :
    (frame.type = .Data ∧
      r.2 = [.onData frame.streamId frame.payload (endsStream frame) (channelOf frame.flags)]) ∨
    ∀ id bytes endStream channel, .onData id bytes endStream channel ∉ r.2 := by
  have hsame : ∀ accept : Session × List Event, dispatchConnection frame accept = .ok r →
      r = accept := by
    intro accept haccept
    simp only [dispatchConnection, bind_ok, unit_ok, pure_ok] at haccept
    exact haccept.2.symm
  unfold dispatch at h
  cases htype : frame.type with
  | Open =>
    rw [htype] at h
    obtain ⟨-, hnode, -⟩ := dispatchOpen_ok h
    rw [hrole] at hnode
    cases hnode
  | Data =>
    rw [htype] at h
    rcases dispatchData_ok h with ⟨closed, -, -, rfl⟩ | ⟨stream, recvWindow, -, -, -, -, rfl⟩
    · exact .inr (by simp)
    · exact .inl ⟨rfl, rfl⟩
  | Exit =>
    rw [htype] at h
    obtain ⟨-, -, status, -, rfl⟩ := dispatchExit_ok h
    exact .inr (by simp)
  | WindowUpdate =>
    rw [htype] at h
    obtain ⟨delta, -, ⟨closed, -, -, rfl⟩ | ⟨stream, -, -, rfl⟩⟩ := dispatchWindowUpdate_ok h
    · exact .inr (by simp)
    · right
      intro id bytes endStream channel hmem
      rcases flushStream_events hmem with ⟨frame, heq, -⟩ | heq <;> cases heq
  | Ping =>
    rw [htype] at h
    rw [hsame _ h]
    right
    intro id bytes endStream channel hmem
    cases send_events hmem
  | Pong =>
    rw [htype] at h
    rw [hsame _ h]
    exact .inr (by simp)
  | GoAway =>
    rw [htype] at h
    rw [hsame _ h]
    exact .inr (by simp)
  | unknown value hvalue =>
    rw [htype] at h
    cases h

/-- A frame that a controller accepts adds nothing to a queue. -/
theorem dispatch_relieves {s : Session} (hrole : s.role = .Controller) {frame : Frame}
    {r : Session × List Event} (h : s.dispatch frame = .ok r) : Relieves s r.1 := by
  have hsame : ∀ accept : Session × List Event, dispatchConnection frame accept = .ok r →
      r = accept := by
    intro accept haccept
    simp only [dispatchConnection, bind_ok, unit_ok, pure_ok] at haccept
    exact haccept.2.symm
  unfold dispatch at h
  cases htype : frame.type with
  | Open =>
    rw [htype] at h
    obtain ⟨-, hnode, -⟩ := dispatchOpen_ok h
    rw [hrole] at hnode
    cases hnode
  | Data =>
    rw [htype] at h
    rcases dispatchData_ok h with ⟨closed, -, -, rfl⟩ | ⟨stream, recvWindow, -, hstream, -, -, rfl⟩
    · exact relieves_same rfl rfl
    · have hkept : Sends stream { stream with recvWindow, peerDataClosed := endsStream frame } :=
        ⟨fun h => h, rfl, Nat.le_refl _, rfl, rfl⟩
      exact relieves_update rfl rfl fun after heq =>
        .inr ⟨stream, hstream, Option.some.inj heq ▸ hkept⟩
  | Exit =>
    rw [htype] at h
    obtain ⟨-, -, status, -, rfl⟩ := dispatchExit_ok h
    exact relieves_update rfl rfl nofun
  | WindowUpdate =>
    rw [htype] at h
    obtain ⟨delta, -, ⟨closed, -, -, rfl⟩ | ⟨stream, hstream, -, rfl⟩⟩ := dispatchWindowUpdate_ok h
    · exact .refl s
    · have hcounted : stream.Counted →
          ({ stream with sendCredit := stream.sendCredit + delta.toNat } : Stream).Counted :=
            fun h => h
      obtain ⟨hconfig, hall, hbacklog⟩ :=
        flushStream_backlog s hstream hcounted (Nat.add_zero _).symm
      exact ⟨hconfig, hall, fun id => by simpa using hbacklog id⟩
  | Ping =>
    rw [htype] at h
    rw [hsame _ h]
    exact .refl s
  | Pong =>
    rw [htype] at h
    rw [hsame _ h]
    exact .refl s
  | GoAway =>
    rw [htype] at h
    rw [hsame _ h]
    exact relieves_same rfl rfl
  | unknown value hvalue =>
    rw [htype] at h
    cases h

end Session

end psx.transport
