-- What one session does in front of any peer: the callbacks it makes, and the
-- frames that a node writes for a stream.
import PipeShellX.Transport.SessionLaws

namespace psx.transport

open psx.os (ExitStatus)
open Session

/-! ## Reading a log -/

theorem account_wrote (log : List Event) :
    (account log).wrote = log.filterMap fun
      | .wrote frame => some frame
      | _ => none := by
  induction log using List.reverseRecOn with
  | nil => rfl
  | append_singleton log e ih => cases e <;> simp [ih]

theorem account_got (log : List Event) :
    (account log).got = log.filterMap fun
      | .got frame => some frame
      | _ => none := by
  induction log using List.reverseRecOn with
  | nil => rfl
  | append_singleton log e ih => cases e <;> simp [ih]

/-- A frame in the account was written somewhere in the log. -/
theorem split_wrote {log : List Event} {a b : List Frame} {frame : Frame}
    (h : (account log).wrote = a ++ frame :: b) :
    ∃ pre post, log = pre ++ .wrote frame :: post ∧ (account pre).wrote = a := by
  rw [account_wrote] at h
  obtain ⟨pre, e, post, rfl, he, hpre, -⟩ := Trace.split_of_filterMap _ h
  refine ⟨pre, post, ?_, by rw [account_wrote, hpre]⟩
  cases e <;> simp at he
  rw [he]

theorem mem_wrote {log : List Event} {frame : Frame} (h : frame ∈ (account log).wrote) :
    .wrote frame ∈ log := by
  obtain ⟨a, b, hsplit⟩ := List.append_of_mem h
  obtain ⟨pre, post, rfl, -⟩ := split_wrote hsplit
  simp

theorem view_split (id : StreamId) {pre post : List Event} {e : Event} (h : e.streamId = id) :
    view id (pre ++ e :: post) = view id pre ++ e :: view id post := by
  simp [view, h]

theorem mem_view {id : StreamId} {log : List Event} {e : Event} :
    e ∈ view id log ↔ e ∈ log ∧ e.streamId = id := by simp [view]

/-- What a log adds up to only grows. -/
theorem account_grows (log more : List Event) :
    ((account log).deliveredEnd = true → (account (log ++ more)).deliveredEnd = true) ∧
      (account log).wrote <+: (account (log ++ more)).wrote ∧
      (account log).got <+: (account (log ++ more)).got ∧
      (account log).delivered <+: (account (log ++ more)).delivered := by
  induction more using List.reverseRecOn with
  | nil => simp
  | append_singleton more e ih =>
    obtain ⟨h1, h2, h3, h4⟩ := ih
    rw [← List.append_assoc]
    generalize log ++ more = before at *
    have hmore : ∀ {α : Type} {x y : List α} (z : List α), x <+: y → x <+: y ++ z :=
      fun z h => h.trans (List.prefix_append _ z)
    cases e <;> simp_all

/-! ## The callbacks -/

/-- The callbacks that belong to a stream. -/
def Event.OnStream (e : Event) (id : StreamId) : Prop :=
  (∃ bytes endStream channel, e = .onData id bytes endStream channel) ∨
    ∃ status, e = .onExit id status

/-- `open` opens the next stream and writes its OPEN, or does nothing. -/
theorem open_cases (s : Session) (request : OpenRequest) :
    s.open_ request = (s, 0, []) ∨
    (s.protocolFailed = false ∧ s.role = .Controller ∧ s.sentGoAway = false ∧
      s.receivedGoAway = false ∧ s.nextStreamId ≠ 0 ∧ validateOpenRequest request = .ok () ∧
      s.open_ request = ({ s with nextStreamId := s.nextStreamId + 1 }.tryEmplace s.nextStreamId,
        s.nextStreamId, [.wrote ⟨.Open, 0, s.nextStreamId, encodeOpen request⟩])) := by
  unfold open_
  split_ifs with hguard
  · exact Or.inl rfl
  · simp only [not_or, ne_eq, not_not, Bool.not_eq_true] at hguard
    obtain ⟨hs, hrole, hsent, hreceived, hne, hvalid⟩ := hguard
    refine Or.inr ⟨hs, hrole, hsent, hreceived, hne, hvalid, ?_⟩
    have hkept : ({ s with nextStreamId := s.nextStreamId + 1 }.tryEmplace
        s.nextStreamId).protocolFailed = false := by
      unfold tryEmplace
      split
      · exact hs
      · exact hs
    simp only [send, hkept, Bool.false_eq_true, if_false]

theorem goAway_cases (s : Session) : s.goAway = (s, []) ∨
    (s.protocolFailed = false ∧ s.sentGoAway = false ∧
      s.goAway = ({ s with sentGoAway := true }, [.wrote ⟨.GoAway, 0, 0, []⟩])) := by
  unfold goAway
  split_ifs with hguard
  · exact Or.inl rfl
  · simp only [not_or, Bool.not_eq_true] at hguard
    refine Or.inr ⟨hguard.1, hguard.2, ?_⟩
    simp only [send, hguard.1, Bool.false_eq_true, if_false]

/-- What a local call puts into the log: no callback of a stream and no accepted frame; an
OPEN and a GOAWAY only when asked for. -/
def FromCall (c : Call) : Event → Prop
  | .wrote frame => (frame.type = .Open →
      ∃ request, c = .open_ request ∧ frame.payload = encodeOpen request) ∧
      (frame.type = .GoAway → c = .goAway)
  | .onStreamWritable _ | .queued .. | .exitAsked .. | .consumed .. => True
  | _ => False

theorem call_events {s : Session} {c : Call} {e : Event} (h : e ∈ (s.call c).2) :
    FromCall c e := by
  cases c with
  | open_ request =>
    simp only [call, open_] at h
    split_ifs at h
    · cases h
    · rw [send_events h]
      exact ⟨fun _ => ⟨request, rfl, rfl⟩, by simp⟩
  | sendData id' bytes endStream channel =>
    simp only [call, sendData] at h
    split_ifs at h
    · cases h
    · split at h
      · cases h
      · split_ifs at h
        · cases h
        · rcases List.mem_cons.mp h with rfl | h
          · trivial
          · rcases flushStream_events h with ⟨frame, rfl, ht | ht⟩ | rfl
            · simp [FromCall, ht]
            · simp [FromCall, ht]
            · trivial
  | sendExit id' status =>
    simp only [call, sendExit] at h
    split_ifs at h
    · cases h
    · split at h
      · cases h
      · split_ifs at h
        · cases h
        · rw [List.mem_singleton.mp h]
          trivial
        · rcases List.mem_cons.mp h with rfl | h
          · trivial
          · rw [send_events h]
            simp [FromCall]
  | consume id' n =>
    simp only [call, consume] at h
    split_ifs at h
    · cases h
    · split at h
      · cases h
      · rcases List.mem_cons.mp h with rfl | h
        · trivial
        · split_ifs at h
          · rw [send_events h]
            simp [FromCall]
          · cases h
  | ping =>
    simp only [call, ping] at h
    split_ifs at h
    · cases h
    · rw [send_events h]
      simp [FromCall]
  | goAway =>
    simp only [call, goAway] at h
    split_ifs at h
    · cases h
    · rw [send_events h]
      simp [FromCall]

theorem FromCall.not_onStream {c : Call} {e : Event} {id : StreamId} (h : FromCall c e) :
    ¬ e.OnStream id := by
  rintro (⟨_, _, _, rfl⟩ | ⟨_, rfl⟩) <;> exact h

/-- What an accepted frame puts into the log after itself: PONG for a PING, the buffered DATA
and EXIT for a WINDOW_UPDATE, and otherwise one callback of its own stream. -/
def FromFrame (frame : Frame) : Event → Prop
  | .wrote answer => (frame.type = .Ping ∧ answer.type = .Pong) ∨
      (frame.type = .WindowUpdate ∧ (answer.type = .Data ∨ answer.type = .Exit))
  | .onOpen id _ => frame.type = .Open ∧ id = frame.streamId
  | .onData id _ _ _ => frame.type = .Data ∧ id = frame.streamId
  | .onExit id _ => frame.type = .Exit ∧ id = frame.streamId
  | .onStreamWritable _ => frame.type = .WindowUpdate
  | .onGoAway => frame.type = .GoAway
  | .onPong => frame.type = .Pong
  | _ => False

theorem dispatchConnection_ok {frame : Frame} {accept r : Session × List Event}
    (hok : dispatchConnection frame accept = .ok r) : accept = r := by
  simp only [dispatchConnection, bind_ok, unit_ok, pure_ok] at hok
  exact hok.2

theorem dispatch_events {s : Session} {frame : Frame} {r : Session × List Event} {e : Event}
    (hok : s.dispatch frame = .ok r) (he : e ∈ r.2) : FromFrame frame e := by
  unfold dispatch at hok
  split at hok
  · rename_i htype
    obtain ⟨-, -, -, -, -, request, -, rfl⟩ := dispatchOpen_ok hok
    rw [List.mem_singleton.mp he]
    exact ⟨htype, rfl⟩
  · rename_i htype
    rcases dispatchData_ok hok with ⟨closed, -, -, rfl⟩ | ⟨stream, w, -, hstream, -, -, rfl⟩
    · cases he
    · rw [List.mem_singleton.mp he]
      exact ⟨htype, rfl⟩
  · rename_i htype
    obtain ⟨-, -, status, -, rfl⟩ := dispatchExit_ok hok
    rw [List.mem_singleton.mp he]
    exact ⟨htype, rfl⟩
  · rename_i htype
    rw [← dispatchConnection_ok hok] at he
    rw [send_events he]
    exact Or.inl ⟨htype, rfl⟩
  · rename_i htype
    rw [← dispatchConnection_ok hok] at he
    rw [List.mem_singleton.mp he]
    exact htype
  · rename_i htype
    rw [← dispatchConnection_ok hok] at he
    rw [List.mem_singleton.mp he]
    exact htype
  · rename_i htype
    obtain ⟨delta, -, ⟨closed, -, -, rfl⟩ | ⟨stream, -, -, rfl⟩⟩ := dispatchWindowUpdate_ok hok
    · cases he
    · rcases flushStream_events he with ⟨answer, rfl, ht⟩ | rfl
      · exact Or.inr ⟨htype, ht⟩
      · exact htype
  · cases hok

/-- A frame makes a callback of its own stream only, alone, and the stream was open. -/
theorem dispatch_callback {s : Session} {frame : Frame} {r : Session × List Event} {e : Event}
    {id : StreamId} (hok : s.dispatch frame = .ok r) (he : e ∈ r.2) (hid : e.OnStream id) :
    r.2 = [e] ∧ frame.streamId = id ∧ ∃ stream, s.streams id = some stream := by
  unfold dispatch at hok
  split at hok
  · obtain ⟨-, -, -, -, -, request, -, rfl⟩ := dispatchOpen_ok hok
    rw [List.mem_singleton.mp he] at hid
    simp [Event.OnStream] at hid
  · rcases dispatchData_ok hok with ⟨closed, -, -, rfl⟩ | ⟨stream, w, -, hstream, -, -, rfl⟩
    · cases he
    · rw [List.mem_singleton.mp he] at hid ⊢
      have heq : frame.streamId = id := by
        rcases hid with ⟨_, _, _, h⟩ | ⟨_, h⟩
        · exact (Event.onData.inj h).1
        · cases h
      exact ⟨rfl, heq, stream, heq ▸ hstream⟩
  · obtain ⟨-, ⟨stream, hstream⟩, status, -, rfl⟩ := dispatchExit_ok hok
    rw [List.mem_singleton.mp he] at hid ⊢
    have heq : frame.streamId = id := by
      rcases hid with ⟨_, _, _, h⟩ | ⟨_, h⟩
      · cases h
      · exact (Event.onExit.inj h).1
    exact ⟨rfl, heq, stream, heq ▸ hstream⟩
  · rw [← dispatchConnection_ok hok] at he
    rw [send_events he] at hid
    simp [Event.OnStream] at hid
  · rw [← dispatchConnection_ok hok] at he
    rw [List.mem_singleton.mp he] at hid
    simp [Event.OnStream] at hid
  · rw [← dispatchConnection_ok hok] at he
    rw [List.mem_singleton.mp he] at hid
    simp [Event.OnStream] at hid
  · obtain ⟨delta, -, ⟨closed, -, -, rfl⟩ | ⟨stream, -, -, rfl⟩⟩ := dispatchWindowUpdate_ok hok
    · cases he
    · rcases flushStream_events he with ⟨frame, rfl, -⟩ | rfl <;> simp [Event.OnStream] at hid
  · cases hok

/-- Each callback of a stream comes right after the frame that made it, from a state in which
the stream was open. -/
theorem reach_callback {role : Role} {W : UInt32} {streamWritable : Bool} {s : Session}
    {log pre post : List Event} {e : Event} {id : StreamId}
    (h : Reach role W streamWritable s log) (hlog : log = pre ++ e :: post)
    (he : e.OnStream id) :
    ∃ before frame s' stream, pre = before ++ [.got frame] ∧ frame.streamId = id ∧
      Reach role W streamWritable s' before ∧ s'.streams id = some stream := by
  induction h generalizing pre post with
  | start => simp at hlog
  | decoder d _ ih => exact ih hlog
  | poison _ ih => exact ih hlog
  | @call s log c h ih =>
    rcases List.append_eq_append_iff.mp hlog with ⟨mid, rfl, hmid⟩ | ⟨mid, rfl, hmid⟩
    · -- the event is one of the call's
      exact absurd he (call_events (c := c) (by rw [hmid]; simp)).not_onStream
    · cases mid with
      | nil =>
        have hmem : e ∈ (s.call c).2 := by
          rw [← List.nil_append (s.call c).2, ← hmid]
          simp
        exact absurd he (call_events hmem).not_onStream
      | cons x mid =>
        obtain ⟨rfl, -⟩ := List.cons.inj hmid
        exact ih rfl
  | @frame s log frame r h hs hok ih =>
    have hcase : ∀ before, .got frame :: r.2 = before ++ e :: post → pre = log ++ before →
        ∃ before frame s' stream, pre = before ++ [.got frame] ∧ frame.streamId = id ∧
          Reach role W streamWritable s' before ∧ s'.streams id = some stream := by
      intro before hbefore hpre
      cases before with
      | nil =>
        obtain ⟨rfl, -⟩ := List.cons.inj hbefore
        simp [Event.OnStream] at he
      | cons x before =>
        obtain ⟨rfl, hr⟩ := List.cons.inj hbefore
        obtain ⟨hone, hid, stream, hstream⟩ := dispatch_callback hok (by rw [hr]; simp) he
        have hnil : before = [] := by
          have hr : r.2 = before ++ e :: post := hr
          have := congrArg List.length (hone.symm.trans hr)
          simp only [List.length_append, List.length_cons, List.length_nil] at this
          exact List.eq_nil_of_length_eq_zero (by omega)
        exact ⟨log, frame, s, stream, by rw [hpre, hnil], hid, h, hstream⟩
    rcases List.append_eq_append_iff.mp hlog with ⟨mid, rfl, hmid⟩ | ⟨mid, rfl, hmid⟩
    · exact hcase mid hmid rfl
    · cases mid with
      | nil => exact hcase [] (by simpa using hmid.symm) (by simp)
      | cons x mid =>
        obtain ⟨rfl, -⟩ := List.cons.inj hmid
        exact ih rfl

/-- What the log of a session says about its callbacks. -/
structure CallbacksObey (role : Role) (W : UInt32) (streamWritable : Bool) (log : List Event) :
    Prop where
  /-- `onOpen` opens the streams 1, 2, 3, ... -/
  opens : (onOpens log).map UInt32.toNat = List.range' 1 (onOpens log).length
  requests : ∀ id request, .onOpen id request ∈ log → validateOpenRequest request = .ok ()
  /-- The stream was open when the frame of the callback was dispatched. -/
  streams : ∀ pre e post id, log = pre ++ e :: post → e.OnStream id →
    ∃ before frame s stream, pre = before ++ [.got frame] ∧ frame.streamId = id ∧
      Reach role W streamWritable s before ∧ s.streams id = some stream
  ends : ∀ pre bytes channel post id, log = pre ++ .onData id bytes true channel :: post →
    ∀ bytes' endStream channel', .onData id bytes' endStream channel' ∉ post
  window : ∀ pre id, pre <+: log →
    (account (view id pre)).delivered.length ≤ W.toNat + (account (view id pre)).consumed

theorem lawful_window {role : Role} {W : Nat} {v : List Event}
    (h : Trace.Lawful (Allowed role W) v) :
    (account v).delivered.length ≤ W + (account v).consumed := by
  refine h.induction (P := fun v => (account v).delivered.length ≤ W + (account v).consumed)
    (by simp) fun v e _ ih he => ?_
  cases e with
  | onData id bytes endStream channel =>
    have := he.2.2.2.1
    simp
    omega
  | consumed id n =>
    simp
    omega
  | _ => simpa using ih

/-- After a piece with endStream the stream gets no other. -/
theorem no_callback_after_end {s : Session} {log pre post : List Event} {bytes : Bytes}
    {channel : Channel} {id : StreamId} (h : Inv s log)
    (hlog : log = pre ++ .onData id bytes true channel :: post) :
    ∀ bytes' endStream channel', .onData id bytes' endStream channel' ∉ post := by
  intro bytes' endStream channel' hmem
  obtain ⟨p1, p2, rfl⟩ := List.append_of_mem hmem
  have hview : view id log = (view id (pre ++ [.onData id bytes true channel]) ++ view id p1) ++
      .onData id bytes' endStream channel' :: view id p2 := by
    rw [hlog, ← view_append, ← view_split id rfl]
    simp
  have hlater : (account _).deliveredEnd = false := (h.lawful id _ _ _ hview).2.1
  have hends := (account_grows (view id (pre ++ [.onData id bytes true channel]))
    (view id p1)).1 (by rw [view_split id rfl]; simp [view])
  rw [hends] at hlater
  cases hlater

theorem callbacksObey_reach {role : Role} {W : UInt32} {streamWritable : Bool} {s : Session}
    {log : List Event} (h : Reach role W streamWritable s log) :
    CallbacksObey role W streamWritable log := by
  obtain ⟨hinv, rfl, rfl⟩ := inv_reach h
  constructor
  · rw [hinv.on_opens]
    split_ifs
    · exact hinv.opens.1
    · rfl
  · intro id request hmem
    obtain ⟨pre, post, hsplit⟩ := List.append_of_mem (mem_view.mpr ⟨hmem, rfl⟩)
    exact hinv.lawful id pre _ post hsplit
  · exact fun pre e post id hlog he => reach_callback h hlog he
  · exact fun pre bytes channel post id hlog => no_callback_after_end hinv hlog
  · rintro pre id ⟨post, rfl⟩
    have := hinv.lawful id
    rw [view_append] at this
    exact lawful_window this.of_append

theorem silent_calls {s : Session} (hs : s.protocolFailed = true) (c : Call) :
    s.call c = (s, []) := by
  cases c <;> simp [call, open_, sendData, sendExit, consume, ping, goAway, hs]

theorem silent_run {s : Session} (hs : s.protocolFailed = true) (is : List Input) :
    s.run is = (s, []) := by
  induction is with
  | nil => rfl
  | cons i is ih =>
    cases i with
    | call c => simp [run, step, silent_calls hs c, ih]
    | receive bytes replies => simp [run, step, receive, hs, ih]

theorem failed_step {s : Session} {i : Input} (h : (s.step i).2.2 ≠ .ok ()) :
    (s.step i).1.protocolFailed = true := by
  cases i with
  | call c => exact absurd rfl h
  | receive bytes replies =>
    simp only [step, receive] at h ⊢
    split_ifs at h ⊢ with hs
    · exact hs
    · split
      · rfl
      · rfl
      · rename_i hdecoded hdispatched
        simp [hdecoded, hdispatched] at h

/-- Whatever bytes a peer sends, in whatever chunks, between and inside whatever local calls,
the callbacks obey the protocol; and after the first `receive` that fails the session neither
calls back nor writes. -/
theorem any_peer_meets_the_protocol (role : Role) (W : UInt32) (streamWritable : Bool)
    (is : List Input) :
    CallbacksObey role W streamWritable ((new role W streamWritable).run is).2 ∧
      ∀ i later, (((new role W streamWritable).run is).1.step i).2.2 ≠ .ok () →
        ((((new role W streamWritable).run is).1.step i).1.run later).2 = [] := by
  refine ⟨callbacksObey_reach (reach_run .start is), fun i later hfail => ?_⟩
  rw [silent_run (failed_step hfail)]

/-! ## The callback of a session is set once -/

theorem call_streamWritable {s : Session} {log : List Event} (h : Inv s log) (c : Session.Call) :
    (s.call c).1.streamWritable = s.streamWritable := by
  cases c with
  | open_ request =>
    rcases open_cases s request with heq | ⟨-, -, -, -, -, -, heq⟩
    · simp only [Session.call, heq]
    · simp only [Session.call, heq, Session.tryEmplace]
      split <;> rfl
  | sendData id bytes endStream channel =>
    have hlocal := sendData_local (h.streams id) (h.lawful id) bytes endStream channel
    simp only [Session.call]
    rw [hlocal.frame]
  | sendExit id status =>
    have hlocal := sendExit_local (h.streams id) (h.lawful id) status
    simp only [Session.call]
    rw [hlocal.frame]
  | consume id n =>
    have hlocal := consume_local (h.streams id) (h.lawful id) n.toNat
    simp only [Session.call]
    rw [hlocal.frame]
  | ping =>
    simp only [Session.call, Session.ping]
    split_ifs <;> rfl
  | goAway =>
    simp only [Session.call, Session.goAway]
    split_ifs <;> rfl

theorem dispatch_streamWritable {s : Session} {log : List Event} (h : Inv s log)
    (hs : s.protocolFailed = false) {frame : Frame} {r : Session × List Event}
    (hok : s.dispatch frame = .ok r) : r.1.streamWritable = s.streamWritable := by
  unfold Session.dispatch at hok
  split at hok
  · obtain ⟨-, -, -, -, -, request, -, rfl⟩ := dispatchOpen_ok hok
    simp only [Session.tryEmplace]
    split <;> rfl
  · rename_i htype
    rw [(dispatchData_local (h.streams _) (h.lawful _) htype hok).frame]
  · rename_i htype
    rw [(dispatchExit_local (h.streams _) (h.lawful _) htype hok).frame]
  · rw [← dispatchConnection_ok hok]
  · rw [← dispatchConnection_ok hok]
  · rw [← dispatchConnection_ok hok]
  · rename_i htype
    rw [(dispatchWindowUpdate_local (h.streams _) (h.lawful _) hs htype hok).frame]
  · cases hok

theorem reach_streamWritable {role : Role} {W : UInt32} {streamWritable : Bool} {s : Session}
    {log : List Event} (h : Reach role W streamWritable s log) :
    s.streamWritable = streamWritable := by
  induction h with
  | start => rfl
  | call c h ih => exact (call_streamWritable (inv_reach h).1 c).trans ih
  | frame h hs hok ih => exact (dispatch_streamWritable (inv_reach h).1 hs hok).trans ih
  | decoder d h ih => exact ih
  | poison h ih => exact ih

/-! ## The frames that a node writes -/

/-- The frames that a session wrote on one stream. -/
def writtenOn (id : StreamId) (log : List Event) : List Frame := (account (view id log)).wrote

/-- Every frame on a stream had a history that allows it. -/
theorem wrote_allowed {s : Session} {log : List Event} {id : StreamId} {a b : List Frame}
    {frame : Frame} (h : Inv s log) (hsplit : writtenOn id log = a ++ frame :: b) :
    frame.streamId = id ∧ ∃ pre, (account pre).wrote = a ∧ (∃ post, view id log = pre ++ post) ∧
      MayWrite s.role s.initialWindow.toNat pre frame := by
  obtain ⟨pre, post, hview, hpre⟩ := split_wrote hsplit
  refine ⟨?_, pre, hpre, ⟨_, hview⟩, (h.lawful id pre _ post hview).2⟩
  have : Event.wrote frame ∈ view id log := by rw [hview]; simp
  exact (mem_view.mp this).2

theorem endsStream_data {frame : Frame} (h : frame.type = .Data) :
    frame.endsData = endsStream frame := by simp [Frame.endsData, h]

section

variable {s : Session} {log : List Event} {id : StreamId} {a b : List Frame} {frame : Frame}

/-- On the streams of a node the frames are DATA, WINDOW_UPDATE and EXIT. -/
theorem node_types (h : Inv s log) (hrole : s.role = .Node) (hid : id ≠ 0)
    (hmem : frame ∈ writtenOn id log) :
    frame.type = .Data ∨ frame.type = .WindowUpdate ∧ frame.flags = 0 ∨ frame.type = .Exit := by
  obtain ⟨a, b, hsplit⟩ := List.append_of_mem hmem
  obtain ⟨hstream, pre, -, -, hmay⟩ := wrote_allowed h hsplit
  have hconnection : ¬ frame.Connection := fun hc => hid (hstream ▸ hc.2.1)
  cases htype : frame.type with
  | Data => exact Or.inl rfl
  | WindowUpdate =>
    simp only [MayWrite, htype] at hmay
    exact Or.inr (Or.inl ⟨rfl, hmay.2.1⟩)
  | Exit => exact Or.inr (Or.inr rfl)
  | Open =>
    simp only [MayWrite, htype, hrole] at hmay
    cases hmay.1
  | _ =>
    simp only [MayWrite, htype] at hmay
    exact absurd hmay hconnection

theorem nothing_after_exit (h : Inv s log) (hrole : s.role = .Node) (hid : id ≠ 0)
    (hsplit : writtenOn id log = a ++ frame :: b) (hexit : frame.type = .Exit) : b = [] := by
  cases b with
  | nil => rfl
  | cons next b =>
    have hsplit' : writtenOn id log = (a ++ [frame]) ++ next :: b := by simp [hsplit]
    obtain ⟨-, pre, hpre, -, hmay⟩ := wrote_allowed h hsplit'
    have hexited : exited (account pre).wrote = true := by simp [hpre, hexit]
    have hopen : (account pre).OpenIn s.role := by
      rcases node_types h hrole hid (hsplit' ▸ by simp : next ∈ writtenOn id log) with
        ht | ⟨ht, -⟩ | ht <;> simp only [MayWrite, ht] at hmay
      · exact hmay.1
      · exact hmay.1
      · exact hmay.2.1
    rw [hopen.noExitWrote] at hexited
    cases hexited

theorem no_data_after_end (h : Inv s log) (hrole : s.role = .Node) (hid : id ≠ 0)
    (hsplit : writtenOn id log = a ++ frame :: b) (hend : endsStream frame = true) :
    ∀ next ∈ b, next.type ≠ .Data := by
  intro next hmem htype
  rcases node_types h hrole hid (hsplit ▸ by simp : frame ∈ writtenOn id log) with
    ht | ⟨-, hflags⟩ | ht
  · obtain ⟨b1, b2, rfl⟩ := List.append_of_mem hmem
    have hsplit' : writtenOn id log = (a ++ [frame] ++ b1) ++ next :: b2 := by simp [hsplit]
    obtain ⟨-, pre, hpre, -, hmay⟩ := wrote_allowed h hsplit'
    simp only [MayWrite, htype] at hmay
    have hended := hmay.2.1
    rw [hpre, ended_append, ended_append, ended_one, endsStream_data ht, hend] at hended
    simp at hended
  · rw [endsStream, hflags] at hend
    cases hend
  · rw [nothing_after_exit h hrole hid hsplit ht] at hmem
    cases hmem

end

/-- Frames without one after an EXIT: DATA, then at most one EXIT. -/
theorem data_then_exit {frames : List Frame}
    (htypes : ∀ f ∈ frames, f.type = .Data ∨ f.type = .WindowUpdate ∧ f.flags = 0 ∨ f.type = .Exit)
    (hexit : ∀ a f b, frames = a ++ f :: b → f.type = .Exit → b = []) :
    ∃ datas exits, frames.filter (fun f => f.type ≠ .WindowUpdate) = datas ++ exits ∧
      (∀ f ∈ datas, f.type = .Data) ∧ (∀ f ∈ exits, f.type = .Exit) ∧ exits.length ≤ 1 := by
  induction frames with
  | nil => exact ⟨[], [], rfl, by simp, by simp, by simp⟩
  | cons frame frames ih =>
    obtain ⟨datas, exits, hfilter, hdatas, hexits, hlen⟩ :=
      ih (fun f hf => htypes f (by simp [hf])) fun a f b hab =>
        hexit (frame :: a) f b (by simp [hab])
    rcases htypes frame (by simp) with ht | ⟨ht, -⟩ | ht
    · refine ⟨frame :: datas, exits, by simp [ht, ← hfilter], ?_, hexits, hlen⟩
      intro f hf
      rcases List.mem_cons.mp hf with rfl | hf
      · exact ht
      · exact hdatas f hf
    · exact ⟨datas, exits, by simp [ht, ← hfilter], hdatas, hexits, hlen⟩
    · have hnil := hexit [] frame frames rfl ht
      subst hnil
      exact ⟨[], [frame], by simp [ht], by simp, by simpa using ht, by simp⟩

/-- What a node writes on a stream, and what keeps it from writing more. -/
structure NodeWrites (W : UInt32) (s : Session) (log : List Event) (id : StreamId) : Prop where
  data_then_exit : ∃ datas exits,
    (writtenOn id log).filter (fun f => f.type ≠ .WindowUpdate) = datas ++ exits ∧
      (∀ f ∈ datas, f.type = .Data) ∧ (∀ f ∈ exits, f.type = .Exit) ∧ exits.length ≤ 1
  no_data_after_end : ∀ a frame b, writtenOn id log = a ++ frame :: b →
    endsStream frame = true → ∀ next ∈ b, next.type ≠ .Data
  nothing_after_exit : ∀ a frame b, writtenOn id log = a ++ frame :: b →
    frame.type = .Exit → b = []
  /-- Nothing is queued, and no END_STREAM is due, when EXIT is written. -/
  exit_drained : ∀ pre frame post, view id log = pre ++ .wrote frame :: post →
    frame.type = .Exit → dataOf (account pre).wrote = (account pre).taken ∧
      ((account pre).takenEnd = true → ended (account pre).wrote = true)
  /-- The credit held is the window and the credit received, less the bytes sent. -/
  data_in_credit : ∀ pre frame post, view id log = pre ++ .wrote frame :: post →
    frame.type = .Data → (dataOf (account pre).wrote).length + frame.payload.length ≤
      W.toNat + creditOf (account pre).got
  credit : ∀ stream, s.streams id = some stream →
    stream.sendCredit + (dataOf (writtenOn id log)).length =
      W.toNat + creditOf (account (view id log)).got
  exit_waits : ∀ stream, s.streams id = some stream → stream.exitPending = true →
    stream.sendQueue ≠ [] ∧ stream.sendCredit = 0
  /-- Once `sendExit` counted, EXIT is out, or the stream waits for credit. -/
  exit_comes : (account (view id log)).exitsAsked ≠ [] → exited (writtenOn id log) = true ∨
    ∃ stream, s.streams id = some stream ∧ stream.exitPending = true ∧ stream.sendCredit = 0

theorem node_writes_data_then_exit {W : UInt32} {streamWritable : Bool} {s : Session}
    {log : List Event} (h : Reach .Node W streamWritable s log) {id : StreamId} (hid : id ≠ 0) :
    NodeWrites W s log id := by
  obtain ⟨hinv, hrole, rfl⟩ := inv_reach h
  have hstreams := hinv.streams id
  refine ⟨?_, fun a f b => no_data_after_end hinv hrole hid,
    fun a f b => nothing_after_exit hinv hrole hid, ?_, ?_, ?_, ?_, ?_⟩
  · exact data_then_exit (fun f => node_types hinv hrole hid)
      fun a f b => nothing_after_exit hinv hrole hid
  · intro pre frame post hview htype
    have hmay := (hinv.lawful id pre _ post hview).2
    simp only [MayWrite, htype] at hmay
    exact ⟨hmay.2.2.2.1, hmay.2.2.2.2.1⟩
  · intro pre frame post hview htype
    have hmay := (hinv.lawful id pre _ post hview).2
    simp only [MayWrite, htype] at hmay
    exact hmay.2.2.2.2.1
  · intro stream hs
    rw [hs] at hstreams
    exact hstreams.of_some.2.1.credit
  · intro stream hs hpending
    rw [hs] at hstreams
    obtain ⟨-, -, hsettled⟩ := hstreams.of_some
    exact ⟨hsettled.exit_waits hpending, hsettled.queue (hsettled.exit_waits hpending)⟩
  · intro hasked
    generalize hs : s.streams id = stream at *
    generalize hc : s.locallyClosedStreams id = closed at *
    cases hstreams with
    | unborn opened empty => simp [empty hid] at hasked
    | live live settled =>
      rw [live.exit] at hasked
      split_ifs at hasked with hpending
      · exact Or.inr ⟨_, rfl, hpending, settled.queue (settled.exit_waits hpending)⟩
      · exact absurd rfl hasked
    | exitSent node opened exit peer_closed => exact Or.inl exit
    | exitGot controller opened exit =>
      rw [hrole] at controller
      cases controller

/-- A node with a window of 4 that is asked to send 6 bytes and to exit: EXIT waits for credit. -/
theorem a_deferred_exit_waits :
    let r := (new .Node 4 false).run
      [.receive (encodeFrames [⟨.Open, 0, 1, encodeOpen ⟨[[65]], []⟩⟩]) [],
        .call (.sendData 1 [1, 2, 3, 4, 5, 6] false .Stderr), .call (.sendExit 1 {})]
    NodeWrites 4 r.1 r.2 1 :=
  node_writes_data_then_exit (reach_run .start _) (by decide)

end psx.transport
