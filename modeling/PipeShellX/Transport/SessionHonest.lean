-- What two honest ends see of each other. A frame in flight had a history at the
-- end that wrote it; with the FIFO order that history is what the other end has
-- accepted, so it can tell what the frame may be.
import PipeShellX.Transport.SessionPair

namespace psx.transport

open psx.os (ExitStatus)
open psx.stream (CreditWindow)
open Session

/-! ## What a lawful history adds up to -/

/-- The inequalities between the sums of an account. -/
structure Accounted (W : Nat) (a : Account) : Prop where
  sent : dataOf a.wrote <+: a.taken
  delivered : a.delivered <+: dataOf a.got
  consumed : a.consumed ≤ a.delivered.length
  credit : W ≤ kMaxStreamWindow → creditOf a.wrote ≤ a.consumed

theorem data_of_other {frame : Frame} (h : frame.type ≠ .Data) : frame.data = [] := by
  simp [Frame.data, h]

theorem delta_of_other {frame : Frame} (h : frame.type ≠ .WindowUpdate) : frame.delta = 0 := by
  simp [Frame.delta, h]

theorem delta_wrote {role : Role} {W : Nat} {v : List Event} {frame : Frame}
    (h : MayWrite role W v frame) (hW : W ≤ kMaxStreamWindow) (htype : frame.type = .WindowUpdate) :
    creditOf (account v).wrote + frame.delta ≤ (account v).consumed := by
  simp only [MayWrite, htype] at h
  obtain ⟨-, -, delta, hne, hpayload, hle⟩ := h
  rw [delta_of_decode htype (by rw [hpayload]; exact decodeWindowUpdate_encode hne)]
  exact hle hW

theorem lawful_accounted {role : Role} {W : Nat} {v : List Event}
    (h : Trace.Lawful (Allowed role W) v) : Accounted W (account v) := by
  refine h.induction (P := fun v => Accounted W (account v))
    ⟨List.prefix_append [] _, List.prefix_append [] _, Nat.le_refl _,
      fun _ => Nat.le_refl _⟩ fun v e _ ih he => ?_
  cases e with
  | wrote frame =>
    refine ⟨?_, by simpa using ih.delivered, by simpa using ih.consumed, fun hW => ?_⟩
    · by_cases htype : frame.type = .Data
      · have hmay := he.2
        simp only [MayWrite, htype] at hmay
        simpa using hmay.2.2.2.2.2.1
      · simpa [data_of_other htype] using ih.sent
    · by_cases htype : frame.type = .WindowUpdate
      · simpa using delta_wrote he.2 hW htype
      · simpa [delta_of_other htype] using ih.credit hW
  | got frame =>
    refine ⟨by simpa using ih.sent, ?_, by simpa using ih.consumed,
      fun hW => by simpa using ih.credit hW⟩
    simpa using ih.delivered.trans (List.prefix_append _ _)
  | queued id channel bytes endStream =>
    refine ⟨?_, by simpa using ih.delivered, by simpa using ih.consumed,
      fun hW => by simpa using ih.credit hW⟩
    simpa using ih.sent.trans (List.prefix_append _ _)
  | onData id bytes endStream channel =>
    refine ⟨by simpa using ih.sent, ?_, ?_, fun hW => by simpa using ih.credit hW⟩
    · have := he.2.2.1
      simp [this]
    · have := ih.consumed
      simp
      omega
  | consumed id n =>
    have he : (account v).consumed + n ≤ (account v).delivered.length := he
    refine ⟨by simpa using ih.sent, by simpa using ih.delivered, by simpa using he,
      fun hW => ?_⟩
    have := ih.credit hW
    simp
    omega
  | _ => exact ⟨by simpa using ih.sent, by simpa using ih.delivered, by simpa using ih.consumed,
      fun hW => by simpa using ih.credit hW⟩

/-- After the end of the data, or after `sendExit`, nothing more is taken. -/
theorem taken_closed {role : Role} {W : Nat} {v : List Event} (more : List Event)
    (h : Trace.Lawful (Allowed role W) (v ++ more))
    (hclosed : (account v).takenEnd = true ∨ (account v).exitsAsked ≠ []) :
    (account (v ++ more)).taken = (account v).taken ∧
      ((account v).takenEnd = true → (account (v ++ more)).takenEnd = true) ∧
      ((account v).exitsAsked ≠ [] →
        (account (v ++ more)).exitsAsked = (account v).exitsAsked) := by
  induction more using List.reverseRecOn with
  | nil => simp
  | append_singleton more e ih =>
    rw [← List.append_assoc] at h ⊢
    obtain ⟨ih1, ih2, ih3⟩ := ih h.of_append
    have he := h.last
    generalize v ++ more = before at *
    cases e with
    | queued id channel bytes endStream =>
      obtain ⟨-, hend, hasked⟩ := he
      rcases hclosed with hc | hc
      · rw [ih2 hc] at hend
        cases hend
      · rw [← ih3 hc] at hc
        exact absurd hasked hc
    | exitAsked id status =>
      refine ⟨by simpa using ih1, by simpa using ih2, fun hc => ?_⟩
      rw [← ih3 hc] at hc
      exact absurd he.2.2 hc
    | _ => exact ⟨by simpa using ih1, by simpa using ih2, by simpa using ih3⟩

/-! ## The history of a frame in flight -/

theorem filter_streams_mono {a b : List Frame} (id : StreamId) (h : a <+: b) :
    a.filter (fun f => f.streamId = id) <+: b.filter (fun f => f.streamId = id) := by
  obtain ⟨c, rfl⟩ := h
  rw [List.filter_append]
  exact List.prefix_append _ _

theorem creditOf_mono {a b : List Frame} (h : a <+: b) : creditOf a ≤ creditOf b := by
  obtain ⟨c, rfl⟩ := h
  rw [creditOf_append]
  omega

theorem dataOf_mono {a b : List Frame} (h : a <+: b) : dataOf a <+: dataOf b := by
  obtain ⟨c, rfl⟩ := h
  rw [dataOf_append]
  exact List.prefix_append _ _

/-- The sender `t` wrote `frame` after the frames `a`, and accepted no more than `log` wrote. -/
theorem in_flight {t : Session} {log tlog : List Event} {a b : List Frame} {frame : Frame}
    (ht : Inv t tlog) (hsplit : (account tlog).wrote = a ++ frame :: b)
    (hback : (account tlog).got <+: (account log).wrote) :
    ∃ v post, view frame.streamId tlog = v ++ .wrote frame :: post ∧
      MayWrite t.role t.initialWindow.toNat v frame ∧
      (account v).wrote = a.filter (fun f => f.streamId = frame.streamId) ∧
      (account v).got <+: (account (view frame.streamId log)).wrote := by
  obtain ⟨pre, post, rfl, hpre⟩ := split_wrote hsplit
  have hview : view frame.streamId (pre ++ .wrote frame :: post) =
      view frame.streamId pre ++ .wrote frame :: view frame.streamId post := view_split _ rfl
  refine ⟨_, _, hview, (ht.lawful _ _ _ _ hview).2, ?_, ?_⟩
  · rw [(account_view _ pre).1, hpre]
  · rw [(account_view _ log).1, (account_view _ pre).2]
    exact filter_streams_mono _ ((account_grows pre (.wrote frame :: post)).2.2.1.trans hback)

section

variable {s t : Session} {log tlog : List Event} {frame : Frame} {more : List Frame}
  (hs : Inv s log) (ht : Inv t tlog) (hrole : t.role = s.role.other)
  (hwindow : t.initialWindow = s.initialWindow)
  (hnext : (account tlog).wrote = (account log).got ++ frame :: more)
  (hback : (account tlog).got <+: (account log).wrote)

include hs hrole in
/-- A stream that the sender has open is open here, or closed by this end alone. -/
theorem stream_there {v : List Event} (hopen : (account v).OpenIn t.role)
    (hwrote : (account v).wrote = (account (view frame.streamId log)).got)
    (hgot : (account v).got <+: (account (view frame.streamId log)).wrote) :
    frame.streamId ≠ 0 ∧
      ((∃ stream, s.streams frame.streamId = some stream ∧
          s.locallyClosedStreams frame.streamId = none ∧
          Live s.role s.initialWindow.toNat stream (account (view frame.streamId log))) ∨
        ∃ closed, s.streams frame.streamId = none ∧
          s.locallyClosedStreams frame.streamId = some closed ∧ s.role = .Node ∧
          closed.peerDataClosed = ended (account (view frame.streamId log)).got) := by
  have hopens : (account (view frame.streamId log)).opens s.role ≠ [] := by
    have h1 := hopen.opened
    rw [hrole] at h1
    cases hr : s.role with
    | Node =>
      rw [hr] at h1
      simpa [Account.opens, Role.other, hwrote] using h1
    | Controller =>
      rw [hr] at h1
      simp only [Account.opens, Role.other] at h1 ⊢
      obtain ⟨rest, hrest⟩ := hgot
      rw [← hrest, opensOf_append]
      simp [h1]
  have hexit : exited (account (view frame.streamId log)).got = false := by
    rw [← hwrote]
    exact hopen.noExitWrote
  refine ⟨fun hzero => hs.opens.zero_notMem (hzero ▸ opens_view_ne_nil.mp hopens), ?_⟩
  have hinv := hs.streams frame.streamId
  generalize s.streams frame.streamId = stream at *
  generalize s.locallyClosedStreams frame.streamId = closed at *
  cases hinv with
  | unborn opened empty => exact absurd opened hopens
  | live live settled => exact Or.inl ⟨_, rfl, rfl, live⟩
  | exitSent node opened exit peer_closed => exact Or.inr ⟨_, rfl, rfl, node, peer_closed⟩
  | exitGot controller opened exit =>
    rw [hexit] at exit
    cases exit

include hs ht hrole hwindow hnext hback

theorem accept_data (htype : frame.type = .Data) (hW : s.initialWindow.toNat ≤ kMaxStreamWindow) :
    ∃ r, s.dispatch frame = .ok r := by
  obtain ⟨v, post, -, hmay, hwrote, hgot⟩ := in_flight ht hnext hback
  rw [← (account_view _ log).2] at hwrote
  simp only [MayWrite, htype] at hmay
  obtain ⟨hopen, hnotEnded, hflags, hstdout, hcredit, -, -⟩ := hmay
  obtain ⟨hid, hthere⟩ := stream_there hs hrole hopen hwrote hgot
  have hvalid : validateStreamFrame frame (kFlagEndStream ||| kFlagStderr) = .ok () :=
    validateStreamFrame_ok.mpr ⟨hid, hflags⟩
  have hchannel : ¬ (s.role = .Node ∧ ¬ frame.flags &&& kFlagStderr = 0) := by
    rintro ⟨hnode, hne⟩
    exact hne (hstdout (by rw [hrole, hnode]; rfl))
  rw [hwrote] at hnotEnded hcredit
  rcases hthere with ⟨stream, hstream, hclosed, hlive⟩ | ⟨closed, hstream, hclosed, -, hpeer⟩
  · have hpeer : stream.peerDataClosed = false := hlive.peer_closed.trans hnotEnded
    have hfits : ¬ frame.payload.length > stream.recvWindow.sendable := by
      have h1 := hlive.outstanding
      have h2 := hlive.arrived
      have h3 := hlive.pending hW
      have h4 := creditOf_mono hgot
      have h5 := hlive.window.1
      rw [← h2, hwindow] at hcredit
      simp only [CreditWindow.sendable]
      omega
    simp [dispatch, htype, dispatchData, hvalid, hchannel, hclosed, hstream, hpeer, refuse,
      CreditWindow.onData, hfits, bind, Except.bind, pure, Except.pure]
  · have hpeer : closed.peerDataClosed = false := hpeer.trans hnotEnded
    simp [dispatch, htype, dispatchData, hvalid, hchannel, hclosed, hpeer, refuse, bind,
      Except.bind, pure, Except.pure]

theorem accept_windowUpdate (htype : frame.type = .WindowUpdate)
    (hW : s.initialWindow.toNat ≤ kMaxStreamWindow) : ∃ r, s.dispatch frame = .ok r := by
  obtain ⟨v, post, hview, hmay, hwrote, hgot⟩ := in_flight ht hnext hback
  rw [← (account_view _ log).2] at hwrote
  have hlawful : Trace.Lawful (Allowed t.role t.initialWindow.toNat) v :=
    (hview ▸ ht.lawful frame.streamId).of_append
  have hdelta := delta_wrote hmay (by rw [hwindow]; exact hW) htype
  simp only [MayWrite, htype] at hmay
  obtain ⟨hopen, hflags, delta, hne, hpayload, -⟩ := hmay
  obtain ⟨hid, hthere⟩ := stream_there hs hrole hopen hwrote hgot
  have hvalid : validateStreamFrame frame 0 = .ok () :=
    validateStreamFrame_ok.mpr ⟨hid, by simp [hasOnlyFlags, hflags]⟩
  have hdecode : decodeWindowUpdate frame.payload = .ok delta := by
    rw [hpayload]
    exact decodeWindowUpdate_encode hne
  rw [delta_of_decode htype hdecode] at hdelta
  rcases hthere with ⟨stream, hstream, hclosed, hlive⟩ | ⟨closed, hstream, hclosed, -, -⟩
  · have hfits : ¬ stream.sendCredit + delta.toNat > kMaxStreamWindow := by
      have h1 := hlive.credit
      have h2 := (lawful_accounted hlawful).consumed
      have h3 := (lawful_accounted hlawful).delivered.length_le
      have h4 := (dataOf_mono hgot).length_le
      rw [hwrote] at hdelta
      omega
    simp [dispatch, htype, dispatchWindowUpdate, hvalid, hdecode, hstream, hfits, refuse, bind,
      Except.bind, pure, Except.pure]
  · simp [dispatch, htype, dispatchWindowUpdate, hvalid, hdecode, hstream, hclosed, refuse, bind,
      Except.bind, pure, Except.pure]

omit hwindow in
theorem accept_exit (htype : frame.type = .Exit) : ∃ r, s.dispatch frame = .ok r := by
  obtain ⟨v, post, -, hmay, hwrote, hgot⟩ := in_flight ht hnext hback
  rw [← (account_view _ log).2] at hwrote
  simp only [MayWrite, htype] at hmay
  obtain ⟨hnode, hopen, hflags, -, -, status, -, hpayload⟩ := hmay
  have hcontroller : s.role = .Controller := by
    rw [hrole] at hnode
    cases hr : s.role <;> simp [hr, Role.other] at hnode ⊢
  obtain ⟨hid, hthere⟩ := stream_there hs hrole hopen hwrote hgot
  have hvalid : validateStreamFrame frame kFlagEndStream = .ok () :=
    validateStreamFrame_ok.mpr ⟨hid, by rw [hasOnlyFlags, hflags]; decide⟩
  have hdecode : decodeExit frame.payload = .ok status := by
    rw [hpayload]
    exact decodeExit_encode status
  rcases hthere with ⟨stream, hstream, -, -⟩ | ⟨closed, -, -, hnode', -⟩
  · simp [dispatch, htype, dispatchExit, hvalid, hdecode, hstream, hcontroller, refuse, bind,
      Except.bind, pure, Except.pure]
  · rw [hcontroller] at hnode'
    cases hnode'

omit hwindow in
/-- The only frame that an honest end may find refused: an OPEN that crossed a GOAWAY. -/
theorem open_refused {err : Error} (htype : frame.type = .Open)
    (herror : s.dispatch frame = .error err) :
    (s.sentGoAway = true ∨ s.receivedGoAway = true) ∧
      err = protocolError "OPEN received after GOAWAY" := by
  obtain ⟨v, post, -, hmay, -, -⟩ := in_flight ht hnext hback
  simp only [MayWrite, htype] at hmay
  obtain ⟨hcontroller, -, hflags, request, hrequest, hpayload⟩ := hmay
  have hnode : s.role = .Node := by
    rw [hrole] at hcontroller
    cases hr : s.role <;> simp [hr, Role.other] at hcontroller ⊢
  -- both ends count the same streams
  have hmine := hs.opens
  have htheirs := ht.opens
  rw [hnode] at hmine
  rw [hcontroller] at htheirs
  simp only [Account.opens, hnext, opensOf_append] at hmine htheirs
  have hone : opensOf (frame :: more) = frame.streamId :: opensOf more := by
    rw [← List.singleton_append, opensOf_append, opensOf_one, if_pos htype]
    rfl
  rw [hone] at htheirs
  have hid : frame.streamId.toNat = (opensOf (account log).got).length + 1 := by
    have h1 := congrArg (fun l => l[(opensOf (account log).got).length]?) htheirs.1
    simp at h1
    omega
  have hnextId : frame.streamId = s.nextPeerStreamId := by
    have h1 := hmine.2.2
    simp only [nextOpen, hnode] at h1
    rw [h1, ← hid, UInt32.ofNat_toNat]
  have hne : frame.streamId ≠ 0 := by
    intro hzero
    rw [hzero] at hid
    simp at hid
  have hvalid : validateStreamFrame frame 0 = .ok () :=
    validateStreamFrame_ok.mpr ⟨hne, by simp [hasOnlyFlags, hflags]⟩
  have hdecode : decodeOpen frame.payload = .ok request := by
    rw [hpayload]
    exact decodeOpen_encode hrequest
  by_cases hgoAway : s.sentGoAway = true ∨ s.receivedGoAway = true
  · refine ⟨hgoAway, ?_⟩
    simp [dispatch, htype, dispatchOpen, hvalid, hnode, refuse, hgoAway, bind, Except.bind]
      at herror
    exact herror.symm
  · simp [dispatch, htype, dispatchOpen, hvalid, hdecode, hnode, refuse, hgoAway, ← hnextId,
      bind, Except.bind, pure, Except.pure] at herror

omit hs hrole hwindow in
theorem accept_connection (hopen : frame.type ≠ .Open) (hdata : frame.type ≠ .Data)
    (hupdate : frame.type ≠ .WindowUpdate) (hexit : frame.type ≠ .Exit) :
    ∃ r, s.dispatch frame = .ok r := by
  obtain ⟨v, post, -, hmay, -, -⟩ := in_flight ht hnext hback
  have hconnection : frame.Connection := by
    unfold MayWrite at hmay
    split at hmay <;> first | contradiction | exact hmay
  obtain ⟨ht, hid, hflags, hpayload⟩ := hconnection
  have hvalid : validateConnectionFrame frame = .ok () := by
    simp [validateConnectionFrame, hid, hflags, hpayload]
  rcases ht with ht | ht | ht <;>
    simp [dispatch, ht, dispatchConnection, hvalid, bind, Except.bind, pure, Except.pure]

theorem honest_refused {err : Error} (hW : s.initialWindow.toNat ≤ kMaxStreamWindow)
    (herror : s.dispatch frame = .error err) :
    (s.sentGoAway = true ∨ s.receivedGoAway = true) ∧
      err = protocolError "OPEN received after GOAWAY" := by
  have hnot : ¬ ∃ r, s.dispatch frame = .ok r := by
    rintro ⟨r, hok⟩
    rw [hok] at herror
    cases herror
  by_cases hopen : frame.type = .Open
  · exact open_refused hs ht hrole hnext hback hopen herror
  · refine absurd ?_ hnot
    by_cases hdata : frame.type = .Data
    · exact accept_data hs ht hrole hwindow hnext hback hdata hW
    · by_cases hupdate : frame.type = .WindowUpdate
      · exact accept_windowUpdate hs ht hrole hwindow hnext hback hupdate hW
      · by_cases hexit : frame.type = .Exit
        · exact accept_exit hs ht hrole hnext hback hexit
        · exact accept_connection ht hnext hback hopen hdata hupdate hexit

end

/-- No frame in flight carries more than a window, an OPEN apart. -/
theorem in_flight_length {s t : Session} {log tlog : List Event} {a b : List Frame}
    {frame : Frame} (hs : Inv s log) (ht : Inv t tlog) (hwindow : t.initialWindow = s.initialWindow)
    (hsplit : (account tlog).wrote = a ++ frame :: b) (hgot : (account log).got <+: a)
    (hback : (account tlog).got <+: (account log).wrote)
    (hW : s.initialWindow.toNat ≤ kMaxStreamWindow) (hopen : frame.type ≠ .Open) :
    frame.payload.length ≤ max s.initialWindow.toNat 5 := by
  obtain ⟨v, post, hview, hmay, hwrote, hback'⟩ := in_flight ht hsplit hback
  by_cases hdata : frame.type = .Data
  · simp only [MayWrite, hdata] at hmay
    have hcredit := hmay.2.2.2.2.1
    have hmine := lawful_accounted (hs.lawful frame.streamId)
    have h1 := creditOf_mono hback'
    have h2 := hmine.credit hW
    have h3 := hmine.consumed
    have h4 := hmine.delivered.length_le
    have h5 := (dataOf_mono (filter_streams_mono frame.streamId hgot)).length_le
    rw [← hwrote, ← (account_view _ log).2] at h5
    rw [hwindow] at hcredit
    omega
  · by_cases hupdate : frame.type = .WindowUpdate
    · simp only [MayWrite, hupdate] at hmay
      obtain ⟨-, -, delta, -, hpayload, -⟩ := hmay
      rw [hpayload, encodeWindowUpdate, writeU32BE_length]
      omega
    · by_cases hexit : frame.type = .Exit
      · simp only [MayWrite, hexit] at hmay
        obtain ⟨-, -, -, -, -, status, -, hpayload⟩ := hmay
        rw [hpayload, encodeExit_length]
        omega
      · have hconnection : frame.Connection := by
          unfold MayWrite at hmay
          split at hmay <;> first | contradiction | exact hmay
        rw [hconnection.2.2.2]
        simp

end psx.transport
