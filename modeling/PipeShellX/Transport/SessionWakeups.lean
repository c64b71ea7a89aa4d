-- A producer that a full stream stopped hears when there is room again: whatever takes a
-- stream below its mark, and leaves it open, calls `onStreamWritable`.
import PipeShellX.Transport.SessionQueue
import PipeShellX.Transport.SessionSafety

namespace psx.transport

open psx.os (ExitStatus)

namespace Session

/-- What one step can do to the streams: nothing, or it opens the next stream, or closes one,
or changes one, and then it calls back if that crosses the mark. -/
inductive Turns (s : Session) (r : Session × List Event) : Prop
  | same (streams : r.1.streams = s.streams)
  | opened (next : s.nextOpen ≠ 0)
      (streams : r.1.streams = Function.update s.streams s.nextOpen (some (.new s.initialWindow)))
  | closed (id : StreamId) (streams : r.1.streams = Function.update s.streams id none)
  | changed (id : StreamId) (before after : Stream) (there : s.streams id = some before)
      (streams : r.1.streams = Function.update s.streams id (some after))
      (counted : before.Counted → after.Counted)
      (heard : s.initialWindow.toNat ≤ before.sendBytes →
        after.sendBytes < s.initialWindow.toNat → s.streamWritable = true →
        .onStreamWritable id ∈ r.2)

theorem turns_refl (s : Session) (events : List Event) : Turns s (s, events) := .same rfl

/-- The events before the step do not matter. -/
theorem Turns.after {s : Session} {r : Session × List Event} (h : Turns s r) (e : Event) :
    Turns s (r.1, e :: r.2) := by
  cases h with
  | same streams => exact .same streams
  | opened next streams => exact .opened next streams
  | closed id streams => exact .closed id streams
  | changed id before after there streams counted heard =>
    refine .changed id before after there streams counted fun hfull hroom hset => ?_
    exact List.mem_cons_of_mem e (heard hfull hroom hset)

/-! ## Every call and every frame is such a step -/

/-- The entry `stream` that is flushed holds no less than the one in the map. -/
theorem turns_flushStream {s : Session} {id : StreamId} {before stream : Stream}
    (hstream : s.streams id = some before) (hcounted : before.Counted → stream.Counted)
    (hmore : before.sendBytes ≤ stream.sendBytes) : Turns s (s.flushStream id stream) := by
  have hsends := (flushQueue_sends s id stream).trans (flushEnd_sends s id _)
  unfold flushStream
  dsimp only
  by_cases hexit : (s.flushEnd id (s.flushQueue id stream).1).1.sendQueue = [] ∧
      (!(s.flushEnd id (s.flushQueue id stream).1).1.sendEndPending) = true ∧
      (s.flushEnd id (s.flushQueue id stream).1).1.exitPending = true
  · rw [if_pos hexit]
    apply Turns.closed id
    simp [closeLocally, setStream]
  · rw [if_neg hexit]
    apply Turns.changed id before _ hstream rfl
    · exact fun h => hsends.counted (hcounted h)
    · intro hfull hroom hset
      rw [if_pos ⟨Nat.le_trans hfull hmore, hroom, hset⟩]
      exact List.mem_append_right _ (List.mem_singleton_self _)

/-- What does not touch the queue. -/
theorem turns_setStream {s : Session} {id : StreamId} {before after : Stream}
    (hstream : s.streams id = some before) (hsame : (after.sendQueue, after.sendBytes) =
      (before.sendQueue, before.sendBytes)) (events : List Event) :
    Turns s (s.setStream id after, events) := by
  obtain ⟨hqueue, hbytes⟩ := Prod.mk.inj hsame
  apply Turns.changed id before after hstream rfl
  · intro hcounted
    unfold Stream.Counted Stream.backlog at hcounted ⊢
    rw [hbytes, hqueue]
    exact hcounted
  · intro hfull hroom
    omega

theorem turns_tryEmplace {s s' : Session} (hstreams : s'.streams = s.streams)
    (hwindow : s'.initialWindow = s.initialWindow) {id : StreamId} (hid : id = s.nextOpen)
    (hne : id ≠ 0) (events : List Event) : Turns s (s'.tryEmplace id, events) := by
  subst hid
  unfold tryEmplace
  cases s'.streams s.nextOpen with
  | some stream => exact .same hstreams
  | none =>
    apply Turns.opened hne
    unfold setStream
    rw [hstreams, hwindow]

theorem call_turns (s : Session) (c : Call) : Turns s (s.call c) := by
  cases c with
  | open_ request =>
    unfold call
    dsimp only
    rcases open_cases s request with heq | ⟨-, hrole, -, -, hnext, -, heq⟩
    · rw [heq]
      exact turns_refl s []
    · rw [heq]
      have hid : s.nextStreamId = s.nextOpen := by
        unfold nextOpen
        rw [hrole]
      apply turns_tryEmplace _ _ hid hnext
      · rfl
      · rfl
  | sendData id bytes endStream channel =>
    dsimp only [call, sendData]
    split_ifs
    · exact turns_refl s []
    · cases hstream : s.streams id with
      | none => exact turns_refl s []
      | some stream =>
        dsimp only
        split_ifs
        · exact turns_refl s []
        · have hcounted := (queueData_backlog stream bytes endStream channel).2.1
          apply Turns.after (turns_flushStream hstream hcounted ?_)
          rw [queueData_eq]
          exact Nat.le_add_right _ _
  | sendExit id status =>
    dsimp only [call, sendExit]
    split_ifs
    · exact turns_refl s []
    · cases hstream : s.streams id with
      | none => exact turns_refl s []
      | some stream =>
        dsimp only
        split_ifs
        · exact turns_refl s []
        · exact turns_setStream hstream (by rfl) _
        · apply Turns.closed id
          simp [closeLocally, setStream]
  | consume id n =>
    dsimp only [call, consume]
    split_ifs
    · exact turns_refl s []
    · cases hstream : s.streams id with
      | none => exact turns_refl s []
      | some stream => exact turns_setStream hstream (by rfl) _
  | ping =>
    dsimp only [call, ping]
    split_ifs
    · exact turns_refl s []
    · exact turns_refl s _
  | goAway =>
    dsimp only [call, goAway]
    split_ifs
    · exact turns_refl s []
    · exact .same rfl

theorem dispatch_turns {s : Session} {frame : Frame} {r : Session × List Event}
    (hok : s.dispatch frame = .ok r) : Turns s r := by
  unfold dispatch at hok
  cases htype : frame.type with
  | Open =>
    rw [htype] at hok
    obtain ⟨hid, hrole, -, -, hnext, request, -, rfl⟩ := dispatchOpen_ok hok
    have hopen : frame.streamId = s.nextOpen := by
      unfold nextOpen
      rw [hrole, hnext]
    apply turns_tryEmplace _ _ hopen hid
    · rfl
    · rfl
  | Data =>
    rw [htype] at hok
    rcases dispatchData_ok hok with ⟨closed, -, -, rfl⟩ |
      ⟨stream, recvWindow, -, hstream, -, -, rfl⟩
    · exact .same rfl
    · exact turns_setStream hstream (by rfl) _
  | Exit =>
    rw [htype] at hok
    obtain ⟨-, -, status, -, rfl⟩ := dispatchExit_ok hok
    exact .closed frame.streamId rfl
  | WindowUpdate =>
    rw [htype] at hok
    obtain ⟨delta, -, ⟨closed, -, -, rfl⟩ | ⟨stream, hstream, -, rfl⟩⟩ :=
      dispatchWindowUpdate_ok hok
    · exact turns_refl s []
    · exact turns_flushStream hstream (fun h => h) (Nat.le_refl _)
  | Ping =>
    rw [htype] at hok
    rw [← dispatchConnection_ok hok]
    exact turns_refl s _
  | Pong =>
    rw [htype] at hok
    rw [← dispatchConnection_ok hok]
    exact turns_refl s _
  | GoAway =>
    rw [htype] at hok
    rw [← dispatchConnection_ok hok]
    exact .same rfl
  | unknown value hvalue =>
    rw [htype] at hok
    cases hok

/-! ## What a step keeps -/

theorem Turns.counted {s : Session} {r : Session × List Event} (h : Turns s r) (hs : s.Counted) :
    r.1.Counted := by
  intro id stream hstream
  cases h with
  | same streams =>
    rw [streams] at hstream
    exact hs id stream hstream
  | opened next streams =>
    rw [streams, Function.update_apply] at hstream
    split_ifs at hstream
    · rw [← Option.some.inj hstream]
      rfl
    · exact hs id stream hstream
  | closed id' streams =>
    rw [streams, Function.update_apply] at hstream
    split_ifs at hstream
    exact hs id stream hstream
  | changed id' before after there streams counted heard =>
    rw [streams, Function.update_apply] at hstream
    split_ifs at hstream with hid
    · rw [← Option.some.inj hstream]
      exact counted (hs id' before there)
    · exact hs id stream hstream

/-- The stream is closed, or it is full, or its owner heard that it is not. -/
def Heard (s : Session) (id : StreamId) (events : List Event) : Prop :=
  ∀ stream, s.streams id = some stream →
    s.initialWindow.toNat ≤ stream.sendBytes ∨ .onStreamWritable id ∈ events

/-- An id that was opened is not opened again, so the stream that it names stays the same. -/
theorem Turns.heard {s : Session} {r : Session × List Event} (h : Turns s r)
    (hwindow : r.1.initialWindow = s.initialWindow) (hset : s.streamWritable = true)
    {id : StreamId} (hborn : s.nextOpen ≠ 0 → id ≠ s.nextOpen) {events : List Event}
    (hs : s.Heard id events) : r.1.Heard id (events ++ r.2) := by
  have hkept : ∀ stream, s.streams id = some stream →
      s.initialWindow.toNat ≤ stream.sendBytes ∨ .onStreamWritable id ∈ events ++ r.2 :=
    fun stream hstream => (hs stream hstream).imp_right (List.mem_append_left _)
  intro stream hstream
  rw [hwindow]
  cases h with
  | same streams =>
    rw [streams] at hstream
    exact hkept stream hstream
  | opened next streams =>
    rw [streams, Function.update_of_ne (hborn next)] at hstream
    exact hkept stream hstream
  | closed id' streams =>
    rw [streams, Function.update_apply] at hstream
    split_ifs at hstream
    exact hkept stream hstream
  | changed id' before after there streams counted heard =>
    rw [streams, Function.update_apply] at hstream
    split_ifs at hstream with hid
    · subst hid
      obtain rfl := Option.some.inj hstream
      rcases hkept before there with hfull | hheard
      · by_cases hroom : after.sendBytes < s.initialWindow.toNat
        · exact .inr (List.mem_append_right _ (heard hfull hroom hset))
        · exact .inl (Nat.le_of_not_lt hroom)
      · exact .inr hheard
    · exact hkept stream hstream

/-! ## Runs -/

theorem lasting_counted (role : Role) (W : UInt32) (streamWritable : Bool) :
    Lasting role W streamWritable fun s log => Reach role W streamWritable s log ∧ s.Counted where
  reach := And.left
  call c h := ⟨h.1.call c, (call_turns _ c).counted h.2⟩
  frame h hs hok := ⟨h.1.frame hs hok, (dispatch_turns hok).counted h.2⟩
  decoder d h := ⟨h.1.decoder d, h.2⟩
  poison h := ⟨h.1.poison, h.2⟩

theorem opens_grows {log : List Event} {role : Role} {id : StreamId} (more : List Event)
    (h : id ∈ (account log).opens role) : id ∈ (account (log ++ more)).opens role := by
  obtain ⟨-, hwrote, hgot, -⟩ := account_grows log more
  cases role with
  | Controller => exact (hwrote.filter _).map _ |>.subset h
  | Node => exact (hgot.filter _).map _ |>.subset h

/-- The session went on from the log `before`, and `id`, opened by then, was heard of since. -/
structure Since (role : Role) (W : UInt32) (before : List Event) (id : StreamId) (s : Session)
    (log : List Event) : Prop where
  reach : Reach role W true s log
  born : id ∈ (account log).opens role
  heard : ∃ later, log = before ++ later ∧ s.Heard id later

/-- One step from such a state, with its events. -/
theorem Since.turn {role : Role} {W : UInt32} {before : List Event} {id : StreamId} {s : Session}
    {log : List Event} (h : Since role W before id s log) {r : Session × List Event}
    (hturns : Turns s r) (hreach : Reach role W true r.1 (log ++ r.2)) :
    Since role W before id r.1 (log ++ r.2) := by
  obtain ⟨hinv, hrole, hwindow⟩ := inv_reach h.reach
  obtain ⟨later, hlog, hheard⟩ := h.heard
  have hborn : s.nextOpen ≠ 0 → id ≠ s.nextOpen := by
    rintro hnext rfl
    apply (hinv.opens.next_notMem hnext).2.2
    rw [hrole]
    exact h.born
  refine ⟨hreach, opens_grows _ h.born, later ++ r.2, by rw [hlog, List.append_assoc], ?_⟩
  exact hturns.heard ((inv_reach hreach).2.2.trans hwindow.symm) (reach_streamWritable h.reach)
    hborn hheard

theorem lasting_since (role : Role) (W : UInt32) (before : List Event) (id : StreamId) :
    Lasting role W true (Since role W before id) where
  reach := Since.reach
  call c h := h.turn (call_turns _ c) (h.reach.call c)
  frame h hs hok := h.turn ((dispatch_turns hok).after (.got _)) (h.reach.frame hs hok)
  decoder d h := ⟨h.reach.decoder d, h.born, h.heard⟩
  poison h := ⟨h.reach.poison, h.born, h.heard⟩

theorem isWritable_false {s : Session} {id : StreamId} :
    s.isWritable id = false ↔
      ∃ stream, s.streams id = some stream ∧ s.initialWindow.toNat ≤ stream.sendBytes := by
  unfold isWritable
  cases s.streams id with
  | none => simp
  | some stream => simp

/-- A stream that was full before and has room after, and is still open, was called back in
between. -/
def Wakes (s s' : Session) (events : List Event) : Prop :=
  ∀ id, s.isWritable id = false → s'.isWritable id = true → s'.streams id ≠ none →
    .onStreamWritable id ∈ events

theorem wakes_since {role : Role} {W : UInt32} {s s' : Session} {log later : List Event}
    (hreach : Reach role W true s log)
    (hlater : ∀ {P : Session → List Event → Prop}, Lasting role W true P → P s log →
      P s' (log ++ later)) : Wakes s s' later := by
  intro id hfull hroom hopen
  obtain ⟨hinv, hrole, -⟩ := inv_reach hreach
  obtain ⟨full, hthere, hbytes⟩ := isWritable_false.mp hfull
  have hborn : id ∈ (account log).opens role := by
    by_contra hnot
    rw [← hrole] at hnot
    rw [(hinv.unborn hnot).1] at hthere
    cases hthere
  have hstart : s.Heard id [] := by
    intro stream hstream
    rw [hthere] at hstream
    exact .inl (Option.some.inj hstream ▸ hbytes)
  have hsince : Since role W log id s' (log ++ later) :=
    hlater (lasting_since role W log id) ⟨hreach, hborn, [], (List.append_nil log).symm, hstart⟩
  obtain ⟨events, hlog, hheard⟩ := hsince.heard
  obtain rfl := List.append_cancel_left hlog
  obtain ⟨now, hnow⟩ := Option.ne_none_iff_exists'.mp hopen
  rcases hheard now hnow with hstill | hheard
  · rw [isWritable_false.mpr ⟨now, hnow, hstill⟩] at hroom
    cases hroom
  · exact hheard

/-- Whatever a session did before: it knows how much waits in each queue, and a producer that
it stopped is called in the very call, or received bytes, that makes room. -/
theorem no_lost_wake_up (role : Role) (W : UInt32) (inputs : List Input) :
    ((new role W true).run inputs).1.Counted ∧
      (∀ i, Wakes ((new role W true).run inputs).1
        (((new role W true).run inputs).1.step i).1 (((new role W true).run inputs).1.step i).2.1) ∧
      ∀ later, Wakes ((new role W true).run inputs).1
        (((new role W true).run inputs).1.run later).1
        (((new role W true).run inputs).1.run later).2 := by
  have hstart : Reach role W true (new role W true) [] := .start
  have hreach := reach_run hstart inputs
  refine ⟨?_, fun i => ?_, fun later => ?_⟩
  · exact ((lasting_counted role W true).run ⟨hstart, nofun⟩ inputs).2
  · exact wakes_since hreach fun hP h => hP.step h i
  · exact wakes_since hreach fun hP h => hP.run h later

/-- A controller with a window of four bytes that sends ten to `cat`: six of them wait. -/
def stopped : List Input :=
  [.call (.open_ ⟨[[99, 97, 116]], []⟩),
    .call (.sendData 1 [1, 2, 3, 4, 5, 6, 7, 8, 9, 10] false .Stdout)]

/-- The node grants four more. -/
def granted : Input := .receive (encodeFrame ⟨.WindowUpdate, 0, 1, encodeWindowUpdate 4⟩) []

theorem a_stopped_producer_is_called :
    ((new .Controller 4 true).run stopped).1.isWritable 1 = false ∧
      Event.onStreamWritable 1 ∈ (((new .Controller 4 true).run stopped).1.step granted).2.1 :=
  ⟨by decide, (no_lost_wake_up .Controller 4 stopped).2.1 granted 1 (by decide)
    (by decide) (by decide)⟩

end Session

end psx.transport
