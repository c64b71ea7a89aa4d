-- Each operation of a session on one of its streams keeps the invariant of that
-- stream and leaves the others alone. An accepted frame is such an operation.
import PipeShellX.Transport.SessionStream

namespace psx.transport

open psx.os (ExitStatus)
open psx.stream (CreditWindow)
open Session

/-! ## Operations on one stream -/

/-- What an operation on the stream `id`, with history `v`, must leave: the other streams as
they were, and this one with its invariant. -/
structure Local (s : Session) (id : StreamId) (v : List Event) (r : Session × List Event) :
    Prop where
  frame : r.1 = { s with
    streams := r.1.streams, locallyClosedStreams := r.1.locallyClosedStreams }
  others : ∀ j, j ≠ id → r.1.streams j = s.streams j ∧
    r.1.locallyClosedStreams j = s.locallyClosedStreams j
  here : StreamInv s.role s.initialWindow.toNat id (r.1.streams id)
    (r.1.locallyClosedStreams id) (account (v ++ r.2))
  lawful : Trace.Lawful (Allowed s.role s.initialWindow.toNat) (v ++ r.2)
  events : ∀ e ∈ r.2, e.streamId = id ∧ e.Plain

theorem Local.cons {s s' : Session} {id : StreamId} {v events : List Event} {e : Event}
    (h : Local s id (v ++ [e]) (s', events)) (he : e.streamId = id ∧ e.Plain) :
    Local s id v (s', e :: events) where
  frame := h.frame
  others := h.others
  here := by simpa using h.here
  lawful := by simpa using h.lawful
  events := by
    intro x hx
    rcases List.mem_cons.mp hx with rfl | hx
    · exact he
    · exact h.events x hx

/-- An operation that ends with the stream still open. -/
theorem Local.open {s : Session} {id : StreamId} {v events : List Event} {stream : Stream}
    (hclosed : s.locallyClosedStreams id = none)
    (hlive : Live s.role s.initialWindow.toNat stream (account (v ++ events)))
    (hsettled : Settled stream)
    (hl : Trace.Lawful (Allowed s.role s.initialWindow.toNat) (v ++ events))
    (hevents : ∀ e ∈ events, e.streamId = id ∧ e.Plain) :
    Local s id v (s.setStream id stream, events) where
  frame := rfl
  others := fun j hj => ⟨Function.update_of_ne hj _ _, rfl⟩
  here := by
    simp only [setStream, Function.update_self, hclosed]
    exact .live hlive hsettled
  lawful := hl
  events := hevents

/-- An operation that ends with the stream closed here. -/
theorem Local.close {s : Session} {id : StreamId} {v events : List Event} {stream : Stream}
    {closed : Bool}
    (here : StreamInv s.role s.initialWindow.toNat id none (some ⟨closed⟩)
      (account (v ++ events)))
    (hl : Trace.Lawful (Allowed s.role s.initialWindow.toNat) (v ++ events))
    (hevents : ∀ e ∈ events, e.streamId = id ∧ e.Plain) :
    Local s id v ((s.setStream id stream).closeLocally id closed, events) where
  frame := rfl
  others := fun j hj => by simp [closeLocally, setStream, hj]
  here := by simpa [closeLocally] using here
  lawful := hl
  events := hevents

section

variable {s : Session} {id : StreamId} {v : List Event} {stream : Stream}

theorem flushStream_local (hs : s.protocolFailed = false)
    (hclosed : s.locallyClosedStreams id = none)
    (h : Live s.role s.initialWindow.toNat stream (account v))
    (hl : Trace.Lawful (Allowed s.role s.initialWindow.toNat) v) :
    Local s id v (s.flushStream id stream) := by
  obtain ⟨hdrained, hdl⟩ := live_flushQueue id hs h hl
  have hstops := flushQueue_stops s id stream
  have hdata := flushQueue_events s id stream
  obtain ⟨hended, hel⟩ := live_flushEnd id hs hdrained hdl
  obtain ⟨hqueue, hcredit, hend, hendEvents⟩ :=
    flushEnd_spec s id (s.flushQueue id stream).1
  generalize hq : s.flushQueue id stream = q at *
  obtain ⟨drained, data⟩ := q
  generalize he : s.flushEnd id drained = e at *
  obtain ⟨ended', endFrame⟩ := e
  have hevents : ∀ e ∈ data ++ endFrame, e.streamId = id ∧ e.Plain := by
    intro e hmem
    rcases List.mem_append.mp hmem with hmem | hmem
    · exact hdata e hmem
    · exact hendEvents e hmem
  rw [List.append_assoc] at hended hel
  simp only [flushStream, hq, he]
  split_ifs with hexit hwritable
  · -- the deferred EXIT rides out
    obtain ⟨hempty, hnotEnd, hpending⟩ := hexit
    simp only [Bool.not_eq_true'] at hnotEnd
    have hasked := hended.exit
    rw [if_pos hpending] at hasked
    have hdrain := hended.queue
    rw [hempty] at hdrain
    have htakenEnd := hended.taken_end
    rw [hnotEnd, Bool.false_or] at htakenEnd
    obtain ⟨hclosedInv, hcl⟩ := exitSent_wrote id ended'.exitStatus ⟨ended'.peerDataClosed⟩
      (hended.exit_closes hpending).1 hended.openIn (by simpa [bufferedIn] using hdrain)
      (fun ht => htakenEnd ▸ ht) hasked hended.peer_closed hel _ rfl
    simp only [send, hs, Bool.false_eq_true, if_false]
    apply Local.close
    · simpa using hclosedInv
    · simpa using hcl
    · intro e hmem
      rcases List.mem_append.mp hmem with hmem | hmem
      · exact hevents e hmem
      · rw [List.mem_singleton.mp hmem]
        exact ⟨rfl, by simp [Event.Plain]⟩
  all_goals
    have hsettled : Settled ended' := by
      refine ⟨fun hq' => ?_, fun hp => hqueue ▸ hend hp, fun hp hq' => ?_⟩
      · rw [hcredit]
        exact hstops (hqueue ▸ hq')
      · refine hexit ⟨hq', ?_, hp⟩
        cases hp' : ended'.sendEndPending with
        | false => rfl
        | true => exact absurd (hqueue ▸ hq') (hend hp')
  · refine Local.open hclosed ?_ hsettled ?_ ?_
    · simpa using hended
    · rw [← List.append_assoc]
      exact hel.snoc trivial
    · intro e hmem
      rcases List.mem_append.mp hmem with hmem | hmem
      · exact hevents e hmem
      · rw [List.mem_singleton.mp hmem]
        exact ⟨rfl, trivial⟩
  · simpa using Local.open hclosed hended hsettled hel hevents

theorem bufferedIn_snoc (queue : List Segment) (segment : Segment) :
    bufferedIn (queue ++ [segment]) = bufferedIn queue ++ tag segment.channel segment.bytes := by
  simp [bufferedIn]

theorem queueData_eq (stream : Stream) (bytes : Bytes) (endStream : Bool) (channel : Channel) :
    queueData stream bytes endStream channel =
      { stream with
        sendQueue := stream.sendQueue ++ if bytes = [] then [] else [⟨channel, bytes⟩]
        sendBytes := stream.sendBytes + bytes.length
        localDataClosed := stream.localDataClosed || endStream
        sendEndPending := stream.sendEndPending || endStream } := by
  unfold queueData
  by_cases hbytes : bytes = [] <;> cases endStream <;> simp [hbytes]

/-- `sendData` on an open stream: the bytes go behind those that wait. -/
theorem live_queueData {role : Role} {W : Nat} {channel : Channel} (id : StreamId) (bytes : Bytes)
    (endStream : Bool) (h : Live role W stream (account v))
    (hl : Trace.Lawful (Allowed role W) v) (hopen : stream.localDataClosed = false)
    (hexit : stream.exitPending = false) (hrole : role = .Controller → channel = .Stdout) :
    Live role W (queueData stream bytes endStream channel)
        (account (v ++ [.queued id channel bytes endStream])) ∧
      Trace.Lawful (Allowed role W) (v ++ [.queued id channel bytes endStream]) := by
  have hnoEnd : (account v).takenEnd = false := by
    rw [← Bool.not_eq_true]
    intro ht
    rw [h.end_closes ht] at hopen
    cases hopen
  have hasked : (account v).exitsAsked = [] := by simpa [hexit] using h.exit
  have hends := h.taken_end
  rw [hnoEnd, eq_comm, Bool.or_eq_false_iff] at hends
  have hqueue : bufferedIn (stream.sendQueue ++ if bytes = [] then [] else [⟨channel, bytes⟩]) =
      bufferedIn stream.sendQueue ++ tag channel bytes := by
    by_cases hbytes : bytes = [] <;> simp [hbytes, bufferedIn_snoc]
  refine ⟨?_, hl.snoc ⟨h.openIn, hnoEnd, hasked⟩⟩
  rw [queueData_eq]
  exact {
    openIn := h.openIn.congr (by simp) (by simp)
    credit := by simpa using h.credit
    credit_fits := h.credit_fits
    queue := by
      rw [hqueue, ← List.append_assoc]
      simp [h.queue]
    bytes := by
      dsimp only
      rw [hqueue, List.length_append, tag_length, h.bytes]
    segments := by
      intro segment hmem
      rcases List.mem_append.mp hmem with hmem | hmem
      · exact h.segments segment hmem
      · split_ifs at hmem with hbytes
        · cases hmem
        · rw [List.mem_singleton.mp hmem]
          exact ⟨hbytes, hrole⟩
    taken_end := by simp [hnoEnd, hends.1, hends.2]
    end_once := by
      intro hx
      simp [hends.2] at hx
    end_closes := by
      intro hx
      have : endStream = true := by simpa [hnoEnd] using hx
      simp [this]
    exit := by simp [hasked, hexit]
    exit_closes := by simp [hexit]
    window := h.window
    outstanding := by simpa using h.outstanding
    outstanding_le := h.outstanding_le
    arrived := by simpa using h.arrived
    peer_closed := by simpa using h.peer_closed
    delivered_end := by simpa using h.delivered_end
    pending := fun hW => by simpa using h.pending hW
    pending_small := h.pending_small }

theorem delta_of_decode {frame : Frame} {delta : UInt32} (htype : frame.type = .WindowUpdate)
    (h : decodeWindowUpdate frame.payload = .ok delta) : frame.delta = delta.toNat := by
  simp only [Frame.delta, htype, if_true, h]

/-- `consume` on an open stream. The frames it writes carry the advertised increment. -/
theorem live_consumed {role : Role} {W : Nat} {a : Account} (frames : List Frame) (n : Nat)
    (h : Live role W stream a) (hdata : dataOf frames = []) (hend : ended frames = false)
    (hcredit : creditOf frames = (stream.recvWindow.onConsumed n).2)
    (hopen : Account.OpenIn role { a with
      wrote := a.wrote ++ frames, consumed := a.consumed + stream.recvWindow.clamp n }) :
    Live role W { stream with recvWindow := (stream.recvWindow.onConsumed n).1 }
      { a with
        wrote := a.wrote ++ frames
        consumed := a.consumed + stream.recvWindow.clamp n } := by
  obtain ⟨hwindow, hthreshold, houtstanding⟩ := stream.recvWindow.onConsumed_window n
  have hclamp := stream.recvWindow.clamp_le n
  have hout := h.outstanding
  exact {
    openIn := hopen
    credit := by simpa [hdata] using h.credit
    credit_fits := h.credit_fits
    queue := by simpa [hdata] using h.queue
    bytes := h.bytes
    segments := h.segments
    taken_end := by simpa [hend] using h.taken_end
    end_once := by simpa [hend] using h.end_once
    end_closes := h.end_closes
    exit := h.exit
    exit_closes := h.exit_closes
    window := ⟨hwindow.trans h.window.1, hthreshold.trans h.window.2⟩
    outstanding := by
      dsimp only
      omega
    outstanding_le := by
      have := h.outstanding_le
      dsimp only
      omega
    arrived := h.arrived
    peer_closed := h.peer_closed
    delivered_end := h.delivered_end
    pending := by
      intro hW
      have hle := h.outstanding_le
      have hsmall := h.pending_small
      have hpending := h.pending hW
      rw [kMaxStreamWindow] at hW
      have hword : stream.recvWindow.pendingUpdate + stream.recvWindow.clamp n < UInt32.size := by
        rw [UInt32.size]
        omega
      have haccount := stream.recvWindow.onConsumed_account hword
      simp only [creditOf_append, hcredit]
      omega
    pending_small := by
      rw [← h.window.2]
      exact stream.recvWindow.onConsumed_pending n }

theorem StreamInv.of_some {role : Role} {W : Nat} {closed : Option LocallyClosedStream}
    {a : Account} (h : StreamInv role W id (some stream) closed a) :
    closed = none ∧ Live role W stream a ∧ Settled stream := by
  cases h with
  | live live settled => exact ⟨rfl, live, settled⟩

theorem Local.same (h : StreamInv s.role s.initialWindow.toNat id (s.streams id)
      (s.locallyClosedStreams id) (account v))
    (hl : Trace.Lawful (Allowed s.role s.initialWindow.toNat) v) : Local s id v (s, []) where
  frame := rfl
  others := fun _ _ => ⟨rfl, rfl⟩
  here := by simpa using h
  lawful := by simpa using hl
  events := by simp

variable (h : StreamInv s.role s.initialWindow.toNat id (s.streams id)
    (s.locallyClosedStreams id) (account v))
  (hl : Trace.Lawful (Allowed s.role s.initialWindow.toNat) v)

include h hl

theorem sendData_local (bytes : Bytes) (endStream : Bool) (channel : Channel) :
    Local s id v (s.sendData id bytes endStream channel) := by
  unfold sendData
  split_ifs with hguard
  · exact .same h hl
  · simp only [not_or, not_and, not_not, Bool.not_eq_true] at hguard
    obtain ⟨hs, hchannel⟩ := hguard
    cases hstream : s.streams id with
    | none => exact .same h hl
    | some stream =>
      dsimp only
      split_ifs with hbusy
      · exact .same h hl
      · simp only [not_or, Bool.not_eq_true] at hbusy
        rw [hstream] at h
        obtain ⟨hclosed, hlive, -⟩ := h.of_some
        obtain ⟨hqueued, hql⟩ :=
          live_queueData id bytes endStream hlive hl hbusy.1 hbusy.2 hchannel
        exact (flushStream_local hs hclosed hqueued hql).cons ⟨rfl, trivial⟩

theorem consume_local (n : Nat) : Local s id v (s.consume id n) := by
  unfold consume
  split_ifs with hs
  · exact .same h hl
  · rw [Bool.not_eq_true] at hs
    cases hstream : s.streams id with
    | none => exact .same h hl
    | some stream =>
      rw [hstream] at h
      obtain ⟨hclosed, hlive, hsettled⟩ := h.of_some
      have hlt := stream.recvWindow.onConsumed_lt n
      have hconsumed : Trace.Lawful (Allowed s.role s.initialWindow.toNat)
          (v ++ [.consumed id (stream.recvWindow.clamp n)]) := by
        refine hl.snoc ?_
        have := hlive.outstanding
        have := stream.recvWindow.clamp_le n
        simp only [Allowed]
        omega
      have hsettled' : Settled { stream with recvWindow := (stream.recvWindow.onConsumed n).1 } :=
        ⟨hsettled.queue, hsettled.end_waits, hsettled.exit_waits⟩
      dsimp only
      split_ifs with hdelta
      · set delta := UInt32.ofNat (stream.recvWindow.onConsumed n).2 with hdef
        have htoNat : delta.toNat = (stream.recvWindow.onConsumed n).2 := by
          rw [hdef, UInt32.toNat_ofNat']
          exact Nat.mod_eq_of_lt hlt
        have hne : delta ≠ 0 := by
          intro h0
          rw [h0] at htoNat
          simp at htoNat
          omega
        have hcarries : Frame.delta ⟨.WindowUpdate, 0, id, encodeWindowUpdate delta⟩ =
          delta.toNat := delta_of_decode rfl (decodeWindowUpdate_encode hne)
        have key := live_consumed [⟨.WindowUpdate, 0, id, encodeWindowUpdate delta⟩] n hlive
          (by simp [Frame.data]) (by simp [Frame.endsData])
          (by rw [creditOf_one, hcarries, htoNat])
          ((hlive.openIn.wrote _ (by simp)).congr rfl rfl)
        simp only [send, hs, Bool.false_eq_true, if_false]
        refine Local.open hclosed (by simpa using key) hsettled' ?_ ?_
        · rw [List.append_cons]
          refine hconsumed.snoc ⟨?_, ?_⟩
          · simp [Frame.Fits, encodeWindowUpdate, UInt32.size]
          · refine ⟨hlive.openIn.congr (by simp) (by simp), rfl, delta, hne, rfl, fun hW => ?_⟩
            have := key.pending hW
            simp only [creditOf_append, creditOf_one, hcarries] at this
            simp only [account_append, List.foldl_cons, List.foldl_nil, Account.note]
            omega
        · simp [Event.streamId, Event.Plain]
      · have key := live_consumed [] n hlive rfl rfl
          (by rw [creditOf]; omega) (hlive.openIn.congr (by simp) rfl)
        refine Local.open hclosed (by simpa using key) hsettled' hconsumed ?_
        simp [Event.streamId, Event.Plain]

theorem sendExit_local (status : ExitStatus) : Local s id v (s.sendExit id status) := by
  unfold sendExit
  split_ifs with hguard
  · exact .same h hl
  · simp only [not_or, Bool.not_eq_true, ne_eq, not_not] at hguard
    obtain ⟨hs, hnode⟩ := hguard
    cases hstream : s.streams id with
    | none => exact .same h hl
    | some stream =>
      rw [hstream] at h
      obtain ⟨hclosed, hlive, hsettled⟩ := h.of_some
      dsimp only
      split_ifs with hpending hwaits
      · exact .same (by rw [hstream]; exact h) hl
      all_goals
        rw [Bool.not_eq_true] at hpending
        have hnone : (account v).exitsAsked = [] := by simpa [hpending] using hlive.exit
        have hasked : Trace.Lawful (Allowed s.role s.initialWindow.toNat)
            (v ++ [.exitAsked id status]) := hl.snoc ⟨hnode, hlive.openIn, hnone⟩
      · refine Local.open hclosed ?_ ?_ hasked (by simp [Event.streamId, Event.Plain])
        · exact {
            hlive with
            openIn := hlive.openIn.congr (by simp) (by simp)
            credit := by simpa using hlive.credit
            queue := by simpa using hlive.queue
            taken_end := by simpa using hlive.taken_end
            end_once := by simpa using hlive.end_once
            end_closes := fun _ => rfl
            exit := by simp [hnone]
            exit_closes := fun _ => ⟨hnode, rfl⟩
            outstanding := by simpa using hlive.outstanding
            arrived := by simpa using hlive.arrived
            peer_closed := by simpa using hlive.peer_closed
            delivered_end := by simpa using hlive.delivered_end
            pending := fun hW => by simpa using hlive.pending hW }
        · refine ⟨hsettled.queue, hsettled.end_waits, fun _ => ?_⟩
          rcases hwaits with hq | he
          · exact hq
          · exact hsettled.end_waits he
      · simp only [not_or, not_not, Bool.not_eq_true] at hwaits
        obtain ⟨hqueue, hend⟩ := hwaits
        have hdrain := hlive.queue
        rw [hqueue] at hdrain
        have htakenEnd := hlive.taken_end
        rw [hend, Bool.false_or] at htakenEnd
        obtain ⟨hinv, hwl⟩ := exitSent_wrote id status ⟨stream.peerDataClosed⟩ hnode
          (hlive.openIn.congr (by simp) (by simp)) (by simpa [bufferedIn] using hdrain)
          (by simp [htakenEnd]) (by simp [hnone]) (by simpa using hlive.peer_closed) hasked _ rfl
        simp only [send, hs, Bool.false_eq_true, if_false]
        refine Local.close (by simpa using hinv) (by simpa using hwl) ?_
        simp [Event.streamId, Event.Plain]

end

/-! ## Accepted frames -/

theorem refuse_ok {bad : Prop} [Decidable bad] {what : String} :
    refuse bad what = .ok () ↔ ¬ bad := by
  unfold refuse
  split_ifs <;> simp [*]

theorem validateStreamFrame_ok {frame : Frame} {allowed : UInt8} :
    validateStreamFrame frame allowed = .ok () ↔
      frame.streamId ≠ 0 ∧ hasOnlyFlags frame allowed = true := by
  unfold validateStreamFrame
  split_ifs <;> simp_all

theorem dispatchOpen_ok {s : Session} {frame : Frame} {r : Session × List Event}
    (h : s.dispatchOpen frame = .ok r) :
    frame.streamId ≠ 0 ∧ s.role = .Node ∧ s.sentGoAway = false ∧ s.receivedGoAway = false ∧
      frame.streamId = s.nextPeerStreamId ∧
      ∃ request, decodeOpen frame.payload = .ok request ∧
        r = ({ s with nextPeerStreamId := frame.streamId + 1 }.tryEmplace frame.streamId,
          [.onOpen frame.streamId request]) := by
  simp only [dispatchOpen, bind_ok, unit_ok, pure_ok, refuse_ok, validateStreamFrame_ok,
    not_not, ne_eq, not_or, Bool.not_eq_true] at h
  obtain ⟨⟨h1, -⟩, h2, ⟨h3, h4⟩, h5, request, h6, h7⟩ := h
  exact ⟨h1, h2, h3, h4, h5, request, h6, h7.symm⟩

/-- DATA is accepted for a stream that this end closed, and dropped, or for an open one. -/
theorem dispatchData_ok {s : Session} {frame : Frame} {r : Session × List Event}
    (h : s.dispatchData frame = .ok r) :
    (∃ closed, s.locallyClosedStreams frame.streamId = some closed ∧
      closed.peerDataClosed = false ∧
      r = ({ s with
        locallyClosedStreams := Function.update s.locallyClosedStreams frame.streamId
          (some ⟨endsStream frame⟩) }, [])) ∨
    ∃ stream recvWindow, s.locallyClosedStreams frame.streamId = none ∧
      s.streams frame.streamId = some stream ∧ stream.peerDataClosed = false ∧
      stream.recvWindow.onData frame.payload.length = some recvWindow ∧
      r = (s.setStream frame.streamId
          { stream with recvWindow, peerDataClosed := endsStream frame },
        [.onData frame.streamId frame.payload (endsStream frame) (channelOf frame.flags)]) := by
  simp only [dispatchData, bind_ok, unit_ok, refuse_ok, validateStreamFrame_ok] at h
  obtain ⟨-, -, h⟩ := h
  cases hclosed : s.locallyClosedStreams frame.streamId with
  | some closed =>
    simp only [hclosed, bind_ok, unit_ok, pure_ok, refuse_ok, Bool.not_eq_true] at h
    obtain ⟨hpeer, rfl⟩ := h
    refine Or.inl ⟨closed, rfl, hpeer, ?_⟩
    obtain ⟨peer⟩ := closed
    cases hpeer
    cases hend : endsStream frame <;> rfl
  | none =>
    cases hstream : s.streams frame.streamId with
    | none => simp only [hclosed, hstream, throw_ok] at h
    | some stream =>
      simp only [hclosed, hstream, bind_ok, unit_ok, refuse_ok, Bool.not_eq_true] at h
      obtain ⟨hpeer, h⟩ := h
      cases hwindow : stream.recvWindow.onData frame.payload.length with
      | none => simp only [hwindow, throw_ok] at h
      | some recvWindow =>
        simp only [hwindow, pure_ok] at h
        refine Or.inr ⟨stream, recvWindow, rfl, rfl, hpeer, hwindow, ?_⟩
        rw [← h]
        cases hend : endsStream frame <;> simp [hpeer, channelOf]

theorem dispatchExit_ok {s : Session} {frame : Frame} {r : Session × List Event}
    (h : s.dispatchExit frame = .ok r) :
    s.role = .Controller ∧ (∃ stream, s.streams frame.streamId = some stream) ∧
      ∃ status, decodeExit frame.payload = .ok status ∧
        r = (s.eraseStream frame.streamId, [.onExit frame.streamId status]) := by
  simp only [dispatchExit, bind_ok, unit_ok, pure_ok, refuse_ok, validateStreamFrame_ok,
    not_not, ne_eq] at h
  obtain ⟨-, hrole, status, hstatus, hstream, rfl⟩ := h
  exact ⟨hrole, Option.ne_none_iff_exists'.mp hstream, status, hstatus, rfl⟩

theorem dispatchWindowUpdate_ok {s : Session} {frame : Frame} {r : Session × List Event}
    (h : s.dispatchWindowUpdate frame = .ok r) :
    ∃ delta, decodeWindowUpdate frame.payload = .ok delta ∧
      ((∃ closed, s.streams frame.streamId = none ∧
          s.locallyClosedStreams frame.streamId = some closed ∧ r = (s, [])) ∨
        ∃ stream, s.streams frame.streamId = some stream ∧
          stream.sendCredit + delta.toNat ≤ kMaxStreamWindow ∧
          r = s.flushStream frame.streamId
            { stream with sendCredit := stream.sendCredit + delta.toNat }) := by
  simp only [dispatchWindowUpdate, bind_ok, unit_ok, validateStreamFrame_ok] at h
  obtain ⟨-, delta, hdelta, h⟩ := h
  refine ⟨delta, hdelta, ?_⟩
  cases hstream : s.streams frame.streamId with
  | none =>
    simp only [hstream, bind_ok, unit_ok, pure_ok, refuse_ok] at h
    obtain ⟨hclosed, rfl⟩ := h
    obtain ⟨closed, hclosed⟩ := Option.ne_none_iff_exists'.mp hclosed
    exact Or.inl ⟨closed, rfl, hclosed, rfl⟩
  | some stream =>
    simp only [hstream, bind_ok, unit_ok, pure_ok, refuse_ok, Nat.not_lt] at h
    exact Or.inr ⟨stream, rfl, h.1, h.2.symm⟩

section

variable {s : Session} {frame : Frame} {v : List Event} {r : Session × List Event}
  (h : StreamInv s.role s.initialWindow.toNat frame.streamId
    (s.streams frame.streamId) (s.locallyClosedStreams frame.streamId) (account v))
  (hl : Trace.Lawful (Allowed s.role s.initialWindow.toNat) v)

include h hl

theorem dispatchData_local (htype : frame.type = .Data) (hok : s.dispatchData frame = .ok r) :
    Local s frame.streamId v (r.1, .got frame :: r.2) := by
  have hdata : frame.data = tag (channelOf frame.flags) frame.payload := by
    rw [Frame.data, if_pos htype]
  have hend : frame.endsData = endsStream frame := by simp [Frame.endsData, htype]
  have hdelta : frame.delta = 0 := by simp [Frame.delta, htype]
  have hplain : (Event.got frame).streamId = frame.streamId ∧ (Event.got frame).Plain :=
    ⟨rfl, by simp [Event.Plain, htype]⟩
  have hgot : Trace.Lawful (Allowed s.role s.initialWindow.toNat) (v ++ [.got frame]) :=
    hl.snoc trivial
  rcases dispatchData_ok hok with
    ⟨closed, hclosed, hpeer, rfl⟩ | ⟨stream, recvWindow, hclosed, hstream, hpeer, hwindow, rfl⟩
  · -- the stream is closed here: the bytes are dropped
    rw [hclosed] at h
    cases hs : s.streams frame.streamId with
    | some stream =>
      rw [hs] at h
      cases h
    | none =>
      rw [hs] at h
      cases h with
      | exitSent node opened exit peer_closed =>
        refine Local.cons ⟨rfl, fun j hj => ⟨rfl, ?_⟩, ?_, by simpa using hgot, by simp⟩ hplain
        · exact Function.update_of_ne hj _ _
        · simp only [hs, Function.update_self]
          refine .exitSent node ?_ (by simpa using exit) ?_
          · rw [node] at opened ⊢
            simpa [Account.opens, htype] using opened
          · rw [hpeer] at peer_closed
            simp [← peer_closed, hend]
  · rw [hstream] at h
    obtain ⟨-, hlive, hsettled⟩ := h.of_some
    obtain ⟨rfl, hfits⟩ := CreditWindow.onData_some hwindow
    rw [hlive.window.1] at hfits
    have hle := hlive.outstanding_le
    have hout := hlive.outstanding
    have hnotEnded : ended (account v).got = false := by rw [← hlive.peer_closed, hpeer]
    have hopen := hlive.openIn.got frame (by simp [htype])
    refine Local.cons (Local.open hclosed ?_ ?_ ?_ ?_) hplain
    · exact {
        hlive with
        openIn := hopen.congr (by simp) (by simp)
        credit := by simpa [hdelta] using hlive.credit
        queue := by simpa using hlive.queue
        taken_end := by simpa using hlive.taken_end
        end_once := by simpa using hlive.end_once
        end_closes := by simpa using hlive.end_closes
        exit := by simpa using hlive.exit
        outstanding := by
          simp
          omega
        outstanding_le := by
          dsimp only
          omega
        arrived := by simp [hlive.arrived, hdata]
        peer_closed := by simp [hnotEnded, hend]
        delivered_end := by simp [hlive.delivered_end, hend]
        pending := fun hW => by simpa using hlive.pending hW
        pending_small := by
          have := hlive.pending_small
          dsimp only
          omega }
    · exact ⟨hsettled.queue, hsettled.end_waits, hsettled.exit_waits⟩
    · refine hgot.snoc ⟨hopen.congr (by simp) (by simp), ?_, ?_, ?_, ?_⟩
      · simp [hlive.delivered_end, hnotEnded]
      · simp [hlive.arrived, hdata]
      · simp
        omega
      · simp [hend, hnotEnded]
    · simp [Event.streamId, Event.Plain]

theorem dispatchExit_local (htype : frame.type = .Exit) (hok : s.dispatchExit frame = .ok r) :
    Local s frame.streamId v (r.1, .got frame :: r.2) := by
  obtain ⟨hrole, ⟨stream, hstream⟩, status, hstatus, rfl⟩ := dispatchExit_ok hok
  rw [hstream] at h
  obtain ⟨hclosed, hlive, -⟩ := h.of_some
  have hdata : frame.data = [] := by simp [Frame.data, htype]
  refine ⟨rfl, fun j hj => ⟨Function.update_of_ne hj _ _, rfl⟩, ?_, ?_, ?_⟩
  · simp only [eraseStream, Function.update_self, hclosed]
    refine .exitGot hrole ?_ (by simp [htype])
    have := hlive.openIn.opened
    rw [hrole] at this ⊢
    simpa [Account.opens] using this
  · have hgot : Trace.Lawful (Allowed s.role s.initialWindow.toNat) (v ++ [.got frame]) :=
      hl.snoc trivial
    rw [List.append_cons]
    refine hgot.snoc ⟨?_, v, frame, rfl, htype, hlive.openIn, hstatus⟩
    simp [hlive.arrived, hdata]
  · simp [Event.streamId, Event.Plain, htype]

theorem dispatchWindowUpdate_local (hs : s.protocolFailed = false)
    (htype : frame.type = .WindowUpdate) (hok : s.dispatchWindowUpdate frame = .ok r) :
    Local s frame.streamId v (r.1, .got frame :: r.2) := by
  obtain ⟨delta, hdelta, hcase⟩ := dispatchWindowUpdate_ok hok
  have hcarries := delta_of_decode htype hdelta
  have hdata : frame.data = [] := by simp [Frame.data, htype]
  have hend : frame.endsData = false := by simp [Frame.endsData, htype]
  have hplain : (Event.got frame).streamId = frame.streamId ∧ (Event.got frame).Plain :=
    ⟨rfl, by simp [Event.Plain, htype]⟩
  have hgot : Trace.Lawful (Allowed s.role s.initialWindow.toNat) (v ++ [.got frame]) :=
    hl.snoc trivial
  rcases hcase with ⟨closed, hnone, hclosed, rfl⟩ | ⟨stream, hstream, hmax, rfl⟩
  · rw [hnone, hclosed] at h
    cases h with
    | exitSent node opened exit peer_closed =>
      refine Local.cons (Local.same ?_ hgot) hplain
      rw [hnone, hclosed]
      refine .exitSent node ?_ (by simpa using exit) (by simp [peer_closed, hend])
      rw [node] at opened ⊢
      simpa [Account.opens, htype] using opened
  · rw [hstream] at h
    obtain ⟨hclosed, hlive, -⟩ := h.of_some
    refine Local.cons (flushStream_local hs hclosed ?_ hgot) hplain
    exact {
      hlive with
      openIn := (hlive.openIn.got frame (by simp [htype])).congr (by simp) (by simp)
      credit := by
        have := hlive.credit
        simp [hcarries]
        omega
      credit_fits := by
        rw [kMaxStreamWindow] at hmax
        rw [UInt32.size]
        dsimp only
        omega
      queue := by simpa using hlive.queue
      taken_end := by simpa using hlive.taken_end
      end_once := by simpa using hlive.end_once
      end_closes := by simpa using hlive.end_closes
      exit := by simpa using hlive.exit
      outstanding := by simpa using hlive.outstanding
      arrived := by simpa [hdata] using hlive.arrived
      peer_closed := by simpa [hend] using hlive.peer_closed
      delivered_end := by simpa [hend] using hlive.delivered_end
      pending := fun hW => by simpa using hlive.pending hW }

end

end psx.transport
