-- The laws of one stream of a session. `Live` ties the state of an open stream
-- to the account of its history; every operation on the stream keeps it, and the
-- monitor allows each event on the way.
import PipeShellX.Transport.SessionLog

namespace psx.transport

open psx.os (ExitStatus)
open psx.stream (CreditWindow)
open Session

/-! ## The invariant of a stream -/

/-- The bytes that `sendData` accepted and that no frame carries yet. -/
def bufferedIn (queue : List Segment) : List (Channel × UInt8) :=
  queue.flatMap fun segment => tag segment.channel segment.bytes

/-- An open stream and the account of its history. -/
structure Live (role : Role) (W : Nat) (stream : Stream) (a : Account) : Prop where
  openIn : a.OpenIn role
  credit : stream.sendCredit + (dataOf a.wrote).length = W + creditOf a.got
  credit_fits : stream.sendCredit < UInt32.size
  queue : dataOf a.wrote ++ bufferedIn stream.sendQueue = a.taken
  bytes : stream.sendBytes = (bufferedIn stream.sendQueue).length
  segments : ∀ segment ∈ stream.sendQueue,
    segment.bytes ≠ [] ∧ (role = .Controller → segment.channel = .Stdout)
  taken_end : a.takenEnd = (stream.sendEndPending || ended a.wrote)
  end_once : ended a.wrote = true → stream.sendEndPending = false ∧ stream.sendQueue = []
  end_closes : a.takenEnd = true → stream.localDataClosed = true
  exit : a.exitsAsked = if stream.exitPending then [stream.exitStatus] else []
  exit_closes : stream.exitPending = true → role = .Node ∧ stream.localDataClosed = true
  window : stream.recvWindow.window = W ∧ stream.recvWindow.threshold = W / 2
  outstanding : stream.recvWindow.outstanding + a.consumed = a.delivered.length
  outstanding_le : stream.recvWindow.outstanding ≤ W
  arrived : a.delivered = dataOf a.got
  peer_closed : stream.peerDataClosed = ended a.got
  delivered_end : a.deliveredEnd = ended a.got
  pending : W ≤ kMaxStreamWindow →
    stream.recvWindow.pendingUpdate + creditOf a.wrote = a.consumed
  pending_small : stream.recvWindow.pendingUpdate = 0 ∨
    stream.recvWindow.pendingUpdate < W / 2 ∧ stream.recvWindow.outstanding ≠ 0

/-- What holds of a stream between two operations: what waits, waits for credit. -/
structure Settled (stream : Stream) : Prop where
  queue : stream.sendQueue ≠ [] → stream.sendCredit = 0
  end_waits : stream.sendEndPending = true → stream.sendQueue ≠ []
  exit_waits : stream.exitPending = true → stream.sendQueue ≠ []

/-- The two maps at one id, with the account of that id. -/
inductive StreamInv (role : Role) (W : Nat) (id : StreamId) :
    Option Stream → Option LocallyClosedStream → Account → Prop
  | unborn {a} (opened : a.opens role = []) (empty : id ≠ 0 → a = {}) :
      StreamInv role W id none none a
  | live {stream a} (live : Live role W stream a) (settled : Settled stream) :
      StreamInv role W id (some stream) none a
  | exitSent {closed a} (node : role = .Node) (opened : a.opens role ≠ [])
      (exit : exited a.wrote = true) (peer_closed : closed.peerDataClosed = ended a.got) :
      StreamInv role W id none (some closed) a
  | exitGot {a} (controller : role = .Controller) (opened : a.opens role ≠ [])
      (exit : exited a.got = true) : StreamInv role W id none none a

theorem Account.OpenIn.congr {role : Role} {a b : Account} (h : a.OpenIn role)
    (hwrote : b.wrote = a.wrote) (hgot : b.got = a.got) : b.OpenIn role := by
  refine ⟨?_, hwrote ▸ h.noExitWrote, hgot ▸ h.noExitGot⟩
  have := h.opened
  cases role <;> simpa [Account.opens, hwrote, hgot] using this

theorem Account.OpenIn.wrote {role : Role} {a : Account} (h : a.OpenIn role) (frame : Frame)
    (hexit : frame.type ≠ .Exit) : Account.OpenIn role { a with wrote := a.wrote ++ [frame] } := by
  refine ⟨?_, by simp [h.noExitWrote, hexit], h.noExitGot⟩
  have := h.opened
  cases role <;> simp_all [Account.opens]

theorem Account.OpenIn.got {role : Role} {a : Account} (h : a.OpenIn role) (frame : Frame)
    (hexit : frame.type ≠ .Exit) : Account.OpenIn role { a with got := a.got ++ [frame] } := by
  refine ⟨?_, h.noExitWrote, by simp [h.noExitGot, hexit]⟩
  have := h.opened
  cases role <;> simp_all [Account.opens]

/-! ## Sending -/

theorem dataFlags_spec (channel : Channel) (last : Bool) :
    let flags := if last then channelFlag channel ||| kFlagEndStream else channelFlag channel
    channelOf flags = channel ∧ (flags &&& kFlagEndStream ≠ 0 ↔ last = true) ∧
      flags &&& ~~~(kFlagEndStream ||| kFlagStderr) = 0 ∧
      (channel = .Stdout → flags &&& kFlagStderr = 0) := by
  cases channel <;> cases last <;> decide

theorem send_events {s : Session} {frame : Frame} {e : Event} (h : e ∈ s.send frame) :
    e = .wrote frame := by
  unfold send at h
  split_ifs at h
  · cases h
  · exact List.mem_singleton.mp h

section

variable {role : Role} {W : Nat} {stream : Stream} {v : List Event}

/-- A DATA frame that takes `bytes` off the front of the queue and leaves `rest` on it. -/
theorem live_wroteData (id : StreamId) (channel : Channel) (bytes : Bytes) (last : Bool)
    (rest : List Segment) (h : Live role W stream (account v))
    (hl : Trace.Lawful (Allowed role W) v) (hrole : role = .Controller → channel = .Stdout)
    (hbusy : stream.sendEndPending = true ∨ stream.sendQueue ≠ [])
    (hsplit : bufferedIn stream.sendQueue = tag channel bytes ++ bufferedIn rest)
    (hcredit : bytes.length ≤ stream.sendCredit)
    (hlast : last = true → stream.sendEndPending = true ∧ rest = [])
    (hrest : ∀ segment ∈ rest,
      segment.bytes ≠ [] ∧ (role = .Controller → segment.channel = .Stdout))
    (frame : Frame) (hframe : frame =
      ⟨.Data, if last then channelFlag channel ||| kFlagEndStream else channelFlag channel,
        id, bytes⟩) :
    Live role W
        { stream with
          sendCredit := stream.sendCredit - bytes.length
          sendBytes := stream.sendBytes - bytes.length
          sendQueue := rest
          sendEndPending := if last then false else stream.sendEndPending }
        (account (v ++ [.wrote frame])) ∧
      Trace.Lawful (Allowed role W) (v ++ [.wrote frame]) := by
  obtain ⟨hchannel, hend, honly, hstdout⟩ := dataFlags_spec channel last
  rw [show (if last then channelFlag channel ||| kFlagEndStream else channelFlag channel) =
    frame.flags by rw [hframe]] at hchannel hend honly hstdout
  have htype : frame.type = .Data := by rw [hframe]
  have hpayload : frame.payload = bytes := by rw [hframe]
  have hdata : frame.data = tag channel bytes := by
    rw [Frame.data, if_pos htype, hchannel, hpayload]
  have hends : frame.endsData = last := by
    rw [Bool.eq_iff_iff, ← hend]
    simp [Frame.endsData, htype, endsStream]
  have hdelta : frame.delta = 0 := by simp [Frame.delta, htype]
  have hnot : ended (account v).wrote = false := by
    rw [← Bool.not_eq_true]
    intro hcase
    obtain ⟨h1, h2⟩ := h.end_once hcase
    rcases hbusy with h3 | h3
    · simp [h1] at h3
    · exact absurd h2 h3
  have htaken : dataOf (account v).wrote ++ frame.data ++ bufferedIn rest = (account v).taken := by
    rw [hdata, List.append_assoc, ← hsplit, h.queue]
  have hlen := congrArg List.length hsplit
  rw [List.length_append, tag_length] at hlen
  refine ⟨?_, hl.snoc ⟨?_, ?_⟩⟩
  · exact {
      openIn := by simpa using h.openIn.wrote frame (by simp [htype])
      credit := by
        have := h.credit
        simp only [account_append, List.foldl_cons, List.foldl_nil, Account.note, dataOf_append,
          dataOf_one, hdata, List.length_append, tag_length]
        omega
      credit_fits := Nat.lt_of_le_of_lt (Nat.sub_le _ _) h.credit_fits
      queue := by simpa using htaken
      bytes := by
        have := h.bytes
        dsimp only
        omega
      segments := hrest
      taken_end := by
        have := h.taken_end
        cases last with
        | false => simpa [hends] using this
        | true => simpa [hends, (hlast rfl).1] using this
      end_once := by
        intro hx
        cases last with
        | false => simp [hends, hnot] at hx
        | true => exact ⟨rfl, (hlast rfl).2⟩
      end_closes := by simpa using h.end_closes
      exit := by simpa using h.exit
      exit_closes := h.exit_closes
      window := h.window
      outstanding := by simpa using h.outstanding
      outstanding_le := h.outstanding_le
      arrived := by simpa using h.arrived
      peer_closed := by simpa using h.peer_closed
      delivered_end := by simpa using h.delivered_end
      pending := fun hW => by simpa [hdelta] using h.pending hW
      pending_small := h.pending_small }
  · rw [Frame.Fits, hpayload]
    exact Nat.lt_of_le_of_lt hcredit h.credit_fits
  · simp only [MayWrite, htype]
    refine ⟨h.openIn, hnot, by simpa [hasOnlyFlags] using honly,
      fun hr => hstdout (hrole hr), ?_, ⟨_, htaken⟩, ?_⟩
    · have := h.credit
      rw [hpayload]
      omega
    · intro hx
      rw [hends] at hx
      obtain ⟨h1, h2⟩ := hlast hx
      refine ⟨by rw [h.taken_end, h1]; rfl, ?_⟩
      simpa [h2, bufferedIn] using htaken

theorem bufferedIn_cons (segment : Segment) (queue : List Segment) :
    bufferedIn (segment :: queue) = tag segment.channel segment.bytes ++ bufferedIn queue := by
  simp [bufferedIn]

theorem live_flushTurn {s : Session} {id : StreamId} {next : Stream} {events : List Event}
    (hs : s.protocolFailed = false) (h : Live role W stream (account v))
    (hl : Trace.Lawful (Allowed role W) v) (hturn : s.flushTurn id stream = some (next, events)) :
    Live role W next (account (v ++ events)) ∧ Trace.Lawful (Allowed role W) (v ++ events) := by
  unfold flushTurn at hturn
  split at hturn
  · cases hturn
  · rename_i front rest hqueue
    obtain ⟨hfront, hstdout⟩ := h.segments front (by simp [hqueue])
    split_ifs at hturn with hcredit
    simp only [send, hs, Bool.false_eq_true, if_false] at hturn
    obtain ⟨rfl, rfl⟩ := Prod.mk.inj (Option.some.inj hturn)
    have hchunk : (front.bytes.take (min front.bytes.length stream.sendCredit)).length =
        min front.bytes.length stream.sendCredit := by
      rw [List.length_take]
      omega
    have key := live_wroteData id front.channel
      (front.bytes.take (min front.bytes.length stream.sendCredit))
      (decide (min front.bytes.length stream.sendCredit = front.bytes.length ∧ rest = []) &&
        stream.sendEndPending)
      (if min front.bytes.length stream.sendCredit = front.bytes.length then rest
        else { front with bytes := front.bytes.drop (min front.bytes.length stream.sendCredit) } ::
          rest)
      h hl hstdout (Or.inr (by simp [hqueue])) ?_ ?_ ?_ ?_ _ rfl
    · rw [hchunk] at key
      exact key
    · rw [hqueue, bufferedIn_cons]
      split_ifs with hall
      · rw [hall, List.take_length]
      · rw [bufferedIn_cons, ← List.append_assoc, ← tag_append, List.take_append_drop]
    · rw [hchunk]
      omega
    · intro hlast
      simp only [Bool.and_eq_true, decide_eq_true_eq] at hlast
      exact ⟨hlast.2, by rw [if_pos hlast.1.1, hlast.1.2]⟩
    · intro segment hmem
      split_ifs at hmem with hall
      · exact h.segments segment (by simp [hqueue, hmem])
      · rcases List.mem_cons.mp hmem with rfl | hmem
        · refine ⟨fun hnil => hall ?_, hstdout⟩
          have := congrArg List.length hnil
          simp only [List.length_drop, List.length_nil] at this
          omega
        · exact h.segments segment (by simp [hqueue, hmem])

theorem live_flushQueue {s : Session} (id : StreamId) (hs : s.protocolFailed = false)
    (h : Live role W stream (account v)) (hl : Trace.Lawful (Allowed role W) v) :
    Live role W (s.flushQueue id stream).1 (account (v ++ (s.flushQueue id stream).2)) ∧
      Trace.Lawful (Allowed role W) (v ++ (s.flushQueue id stream).2) :=
  Loop.run_induction (s.flushTurn id)
    (fun stream v => Live role W stream (account v) ∧ Trace.Lawful (Allowed role W) v)
    (fun _ _ _ _ hp hturn => live_flushTurn hs hp.1 hp.2 hturn) _ _ _ ⟨h, hl⟩

/-- The turns that the flush loop can still take. -/
def turnsLeft (stream : Stream) : Nat :=
  if stream.sendCredit = 0 then 0 else stream.sendQueue.length

theorem flushTurn_lowers {s : Session} {id : StreamId} {stream next : Stream} {events : List Event}
    (hturn : s.flushTurn id stream = some (next, events)) : turnsLeft next < turnsLeft stream := by
  unfold flushTurn at hturn
  split at hturn
  · cases hturn
  · rename_i front rest hqueue
    split_ifs at hturn with hcredit
    obtain ⟨rfl, -⟩ := Prod.mk.inj (Option.some.inj hturn)
    have hstream : turnsLeft stream = rest.length + 1 := by
      rw [turnsLeft, if_neg (by omega), hqueue, List.length_cons]
    rw [hstream, turnsLeft]
    by_cases hall : min front.bytes.length stream.sendCredit = front.bytes.length
    · simp only [hall, if_true]
      split_ifs <;> omega
    · have : min front.bytes.length stream.sendCredit = stream.sendCredit := by omega
      simp [this]

/-- The loop ends with an empty queue or no credit. -/
theorem flushQueue_stops (s : Session) (id : StreamId) (stream : Stream) :
    (s.flushQueue id stream).1.sendQueue ≠ [] → (s.flushQueue id stream).1.sendCredit = 0 := by
  have hsize : turnsLeft stream ≤ stream.sendQueue.length := by
    unfold turnsLeft
    split_ifs <;> omega
  have hstop : s.flushTurn id (s.flushQueue id stream).1 = none :=
    Loop.run_stops turnsLeft (fun _ _ _ hturn => flushTurn_lowers hturn) _ hsize
  intro hqueue
  unfold flushTurn at hstop
  split at hstop
  · rename_i hnil
    exact absurd hnil hqueue
  · split_ifs at hstop
    omega

theorem flushQueue_events (s : Session) (id : StreamId) (stream : Stream) :
    ∀ e ∈ (s.flushQueue id stream).2, e.streamId = id ∧ e.Plain := by
  have key := Loop.run_induction (s.flushTurn id)
    (fun _ events => ∀ e ∈ events, e.streamId = id ∧ e.Plain)
    (fun stream events next more hp hturn => by
      unfold flushTurn at hturn
      split at hturn
      · cases hturn
      · split_ifs at hturn
        obtain ⟨-, rfl⟩ := Prod.mk.inj (Option.some.inj hturn)
        intro e he
        rcases List.mem_append.mp he with he | he
        · exact hp e he
        · rw [send_events he]
          exact ⟨rfl, by simp [Event.Plain]⟩)
    stream.sendQueue.length stream [] (by simp)
  simpa [flushQueue] using key

theorem live_flushEnd {s : Session} (id : StreamId) (hs : s.protocolFailed = false)
    (h : Live role W stream (account v)) (hl : Trace.Lawful (Allowed role W) v) :
    Live role W (s.flushEnd id stream).1 (account (v ++ (s.flushEnd id stream).2)) ∧
      Trace.Lawful (Allowed role W) (v ++ (s.flushEnd id stream).2) := by
  unfold flushEnd
  split_ifs with hend
  · obtain ⟨hqueue, hpending⟩ := hend
    have key :=
      live_wroteData id .Stdout [] true [] h hl (fun _ => rfl) (Or.inl hpending) (by simp [hqueue])
      (Nat.zero_le _) (fun _ => ⟨hpending, rfl⟩) (by simp) _ rfl
    simpa [send, hs, hqueue, channelFlag] using key
  · simpa using ⟨h, hl⟩

theorem flushEnd_spec (s : Session) (id : StreamId) (stream : Stream) :
    (s.flushEnd id stream).1.sendQueue = stream.sendQueue ∧
      (s.flushEnd id stream).1.sendCredit = stream.sendCredit ∧
      ((s.flushEnd id stream).1.sendEndPending = true → stream.sendQueue ≠ []) ∧
      ∀ e ∈ (s.flushEnd id stream).2, e.streamId = id ∧ e.Plain := by
  unfold flushEnd
  split_ifs with hend
  · refine ⟨rfl, rfl, by simp, fun e he => ?_⟩
    rw [send_events he]
    exact ⟨rfl, by simp [Event.Plain]⟩
  · exact ⟨rfl, rfl, fun h hq => hend ⟨hq, h⟩, by simp⟩

/-- The EXIT frame of a drained stream. -/
theorem exitSent_wrote (id : StreamId) (status : ExitStatus) (closed : LocallyClosedStream)
    (hnode : role = .Node) (hopen : (account v).OpenIn role)
    (hdrained : dataOf (account v).wrote = (account v).taken)
    (hend : (account v).takenEnd = true → ended (account v).wrote = true)
    (hasked : (account v).exitsAsked = [status])
    (hpeer : closed.peerDataClosed = ended (account v).got)
    (hl : Trace.Lawful (Allowed role W) v) (frame : Frame)
    (hframe : frame = ⟨.Exit, kFlagEndStream, id, encodeExit status⟩) :
    StreamInv role W id none (some closed) (account (v ++ [.wrote frame])) ∧
      Trace.Lawful (Allowed role W) (v ++ [.wrote frame]) := by
  have htype : frame.type = .Exit := by rw [hframe]
  refine ⟨.exitSent hnode ?_ (by simp [htype]) (by simpa using hpeer), hl.snoc ⟨?_, ?_⟩⟩
  · have := hopen.opened
    rw [hnode] at this ⊢
    simpa [Account.opens] using this
  · rw [hframe]
    simp [Frame.Fits, UInt32.size]
  · simp only [MayWrite, htype]
    exact ⟨hnode, hopen, by rw [hframe], hdrained, hend, status, hasked, by rw [hframe]⟩

end

/-! ## What a flush calls -/

theorem flushStream_events {s : Session} {id : StreamId} {stream : Stream} {e : Event}
    (h : e ∈ (s.flushStream id stream).2) :
    (∃ frame, e = .wrote frame ∧ (frame.type = .Data ∨ frame.type = .Exit)) ∨
      e = .onStreamWritable id := by
  have hqueue : ∀ e ∈ (s.flushQueue id stream).2,
      ∃ frame, e = .wrote frame ∧ (frame.type = .Data ∨ frame.type = .Exit) := by
    have key := Loop.run_induction (s.flushTurn id)
      (fun _ events => ∀ e ∈ events,
        ∃ frame, e = Event.wrote frame ∧ (frame.type = .Data ∨ frame.type = .Exit))
      (fun stream events next more hp hturn => by
        unfold flushTurn at hturn
        split at hturn
        · cases hturn
        · split_ifs at hturn
          obtain ⟨-, rfl⟩ := Prod.mk.inj (Option.some.inj hturn)
          intro e he
          rcases List.mem_append.mp he with he | he
          · exact hp e he
          · exact ⟨_, send_events he, Or.inl rfl⟩)
      stream.sendQueue.length stream [] (by simp)
    simpa [flushQueue] using key
  have hend : ∀ stream, ∀ e ∈ (s.flushEnd id stream).2,
      ∃ frame, e = .wrote frame ∧ (frame.type = .Data ∨ frame.type = .Exit) := by
    intro stream e he
    unfold flushEnd at he
    split_ifs at he
    · exact ⟨_, send_events he, Or.inl rfl⟩
    · cases he
  unfold flushStream at h
  dsimp only at h
  split_ifs at h <;> simp only [List.mem_append] at h
  · rcases h with (h | h) | h
    · exact Or.inl (hqueue e h)
    · exact Or.inl (hend _ e h)
    · exact Or.inl ⟨_, send_events h, Or.inr rfl⟩
  · rcases h with (h | h) | h
    · exact Or.inl (hqueue e h)
    · exact Or.inl (hend _ e h)
    · exact Or.inr (List.mem_singleton.mp h)
  · rcases h with (h | h) | h
    · exact Or.inl (hqueue e h)
    · exact Or.inl (hend _ e h)
    · cases h

end psx.transport
