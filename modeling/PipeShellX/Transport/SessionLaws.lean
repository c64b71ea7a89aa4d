-- The laws of one session, whatever the peer sends. `Inv` ties the whole session
-- to its log; every local call and every accepted frame keeps it, so it holds in
-- every state that a session reaches.
import PipeShellX.Transport.SessionOps

namespace psx.transport

open psx.os (ExitStatus)
open psx.stream (CreditWindow)
open Session

/-! ## The account of a stream, cut out of the whole account -/

theorem account_view (id : StreamId) (log : List Event) :
    (account (view id log)).wrote = (account log).wrote.filter (fun f => f.streamId = id) ∧
      (account (view id log)).got = (account log).got.filter (fun f => f.streamId = id) := by
  induction log using List.reverseRecOn with
  | nil => exact ⟨rfl, rfl⟩
  | append_singleton log e ih =>
    obtain ⟨ih1, ih2⟩ := ih
    by_cases he : e.streamId = id
    · rw [view_append, view_all (by simpa using he : ∀ x ∈ [e], x.streamId = id)]
      cases e <;> simp_all [Event.streamId]
    · rw [view_append, view_none (by simpa using he : ∀ x ∈ [e], x.streamId ≠ id),
        List.append_nil, ih1, ih2]
      cases e <;> simp_all [Event.streamId]

theorem opens_view (role : Role) (id : StreamId) (log : List Event) :
    (account (view id log)).opens role = ((account log).opens role).filter (fun i => i = id) := by
  have key : ∀ frames : List Frame, opensOf (frames.filter fun f => f.streamId = id) =
      (opensOf frames).filter (fun i => i = id) := by
    intro frames
    simp only [opensOf, List.filter_map, List.filter_filter]
    congr 2
    funext frame
    simp [Bool.and_comm]
  obtain ⟨hwrote, hgot⟩ := account_view id log
  cases role
  · simp only [Account.opens, hwrote, key]
  · simp only [Account.opens, hgot, key]

theorem opens_view_ne_nil {role : Role} {id : StreamId} {log : List Event} :
    (account (view id log)).opens role ≠ [] ↔ id ∈ (account log).opens role := by
  rw [opens_view, ne_eq, List.filter_eq_nil_iff]
  simp

/-! ## The invariant of a session -/

/-- The id of the next stream: of the controller's next OPEN, or of the only OPEN that the
node accepts. -/
def Session.nextOpen (s : Session) : StreamId :=
  match s.role with
  | .Controller => s.nextStreamId
  | .Node => s.nextPeerStreamId

/-- The ids handed to `onOpen`. -/
def onOpens (log : List Event) : List StreamId :=
  log.filterMap fun
    | .onOpen id _ => some id
    | _ => none

def saysGoAway (frames : List Frame) : Bool := frames.any fun frame => frame.type = .GoAway

@[simp] theorem saysGoAway_append (a b : List Frame) :
    saysGoAway (a ++ b) = (saysGoAway a || saysGoAway b) := by simp [saysGoAway]

/-- The streams opened so far are 1, 2, ..., and `next` is the one after them, or 0 after the
last id. -/
def Sequential (ids : List StreamId) (next : StreamId) : Prop :=
  ids.map UInt32.toNat = List.range' 1 ids.length ∧ ids.length < UInt32.size ∧
    next = UInt32.ofNat (ids.length + 1)

/-- What holds between two steps. -/
structure Inv (s : Session) (log : List Event) : Prop where
  streams : ∀ id, StreamInv s.role s.initialWindow.toNat id (s.streams id)
    (s.locallyClosedStreams id) (account (view id log))
  lawful : ∀ id, Trace.Lawful (Allowed s.role s.initialWindow.toNat) (view id log)
  opens : Sequential ((account log).opens s.role) s.nextOpen
  on_opens : onOpens log = if s.role = .Node then (account log).opens s.role else []
  sent_goAway : s.sentGoAway = saysGoAway (account log).wrote
  received_goAway : s.receivedGoAway = saysGoAway (account log).got

theorem Sequential.zero_notMem {ids : List StreamId} {next : StreamId} (h : Sequential ids next) :
    0 ∉ ids := by
  intro hmem
  have : (0 : StreamId).toNat ∈ ids.map UInt32.toNat := List.mem_map_of_mem hmem
  rw [h.1] at this
  simp at this

theorem Sequential.next_notMem {ids : List StreamId} {next : StreamId} (h : Sequential ids next)
    (hne : next ≠ 0) : ids.length + 1 < UInt32.size ∧ next.toNat = ids.length + 1 ∧ next ∉ ids := by
  obtain ⟨hids, hlt, hnext⟩ := h
  have hfits : ids.length + 1 < UInt32.size := by
    by_contra hge
    have : ids.length + 1 = UInt32.size := by omega
    rw [this] at hnext
    exact hne hnext
  have htoNat : next.toNat = ids.length + 1 := by
    rw [hnext, UInt32.toNat_ofNat']
    exact Nat.mod_eq_of_lt hfits
  refine ⟨hfits, htoNat, fun hmem => ?_⟩
  have : next.toNat ∈ ids.map UInt32.toNat := List.mem_map_of_mem hmem
  rw [hids, htoNat, List.mem_range'_1] at this
  omega

theorem Sequential.snoc {ids : List StreamId} {next : StreamId} (h : Sequential ids next)
    (hne : next ≠ 0) : Sequential (ids ++ [next]) (next + 1) := by
  obtain ⟨hfits, htoNat, -⟩ := h.next_notMem hne
  refine ⟨?_, by simpa using hfits, ?_⟩
  · simp only [List.map_append, List.map_cons, List.map_nil, h.1, htoNat, List.length_append,
      List.length_cons, List.length_nil, List.range'_1_concat]
    rw [Nat.add_comm 1]
  · rw [h.2.2]
    simp

/-! ## What keeps it -/

/-- What no operation touches: the events below never change the connection's own fields. -/
structure Kept (s s' : Session) : Prop where
  role : s'.role = s.role
  initialWindow : s'.initialWindow = s.initialWindow
  decoder : s'.decoder = s.decoder
  protocolFailed : s'.protocolFailed = s.protocolFailed

theorem Kept.refl (s : Session) : Kept s s := ⟨rfl, rfl, rfl, rfl⟩

theorem Kept.trans {s s' s'' : Session} (h : Kept s s') (h' : Kept s' s'') : Kept s s'' :=
  ⟨h'.role.trans h.role, h'.initialWindow.trans h.initialWindow, h'.decoder.trans h.decoder,
    h'.protocolFailed.trans h.protocolFailed⟩

theorem inv_new (role : Role) (W : UInt32) (streamWritable : Bool) :
    Inv (.new role W streamWritable) [] where
  streams := fun id => .unborn (by cases role <;> rfl) (fun _ => rfl)
  lawful := fun _ => .nil
  opens := by cases role <;> exact ⟨rfl, Nat.two_pow_pos 32, rfl⟩
  on_opens := by cases role <;> rfl
  sent_goAway := rfl
  received_goAway := rfl

/-- Events on one stream: the rest of the invariant is about the connection. -/
theorem Inv.extend {s s' : Session} {log events : List Event} (h : Inv s log) (id : StreamId)
    (hkept : Kept s s') (hevents : ∀ e ∈ events, e.streamId = id)
    (hothers : ∀ j, j ≠ id → s'.streams j = s.streams j ∧
      s'.locallyClosedStreams j = s.locallyClosedStreams j)
    (here : StreamInv s.role s.initialWindow.toNat id (s'.streams id) (s'.locallyClosedStreams id)
      (account (view id log ++ events)))
    (hlawful : Trace.Lawful (Allowed s.role s.initialWindow.toNat) (view id log ++ events))
    (hopens : Sequential ((account (log ++ events)).opens s.role) s'.nextOpen)
    (hon : onOpens (log ++ events) =
      if s.role = .Node then (account (log ++ events)).opens s.role else [])
    (hsent : s'.sentGoAway = saysGoAway (account (log ++ events)).wrote)
    (hreceived : s'.receivedGoAway = saysGoAway (account (log ++ events)).got) :
    Inv s' (log ++ events) := by
  have hviews : ∀ j, view j (log ++ events) =
      if j = id then view id log ++ events else view j log := by
    intro j
    split_ifs with hj
    · rw [hj, view_append, view_all hevents]
    · rw [view_append, view_none fun e he hx => hj (hx.symm.trans (hevents e he)),
        List.append_nil]
  constructor
  · intro j
    rw [hkept.role, hkept.initialWindow, hviews]
    split_ifs with hj
    · rw [hj]
      exact here
    · rw [(hothers j hj).1, (hothers j hj).2]
      exact h.streams j
  · intro j
    rw [hkept.role, hkept.initialWindow, hviews]
    split_ifs with hj
    · exact hlawful
    · exact h.lawful j
  · rw [hkept.role]
    exact hopens
  · rw [hkept.role]
    exact hon
  · exact hsent
  · exact hreceived

/-- One plain event opens nothing and says no farewell. -/
theorem Event.Plain.note {e : Event} (h : e.Plain) (role : Role) (a : Account) :
    (a.note e).opens role = a.opens role ∧ saysGoAway (a.note e).wrote = saysGoAway a.wrote ∧
      saysGoAway (a.note e).got = saysGoAway a.got := by
  cases e with
  | wrote frame =>
    obtain ⟨hopen, hgoAway⟩ := h
    refine ⟨?_, by simp [saysGoAway, hgoAway], rfl⟩
    cases role <;> simp [Account.opens, hopen]
  | got frame =>
    obtain ⟨hopen, hgoAway⟩ := h
    refine ⟨?_, rfl, by simp [saysGoAway, hgoAway]⟩
    cases role <;> simp [Account.opens, hopen]
  | onOpen => exact h.elim
  | _ => exact ⟨by cases role <;> rfl, rfl, rfl⟩

/-- Plain events open nothing and say no farewell. -/
theorem plain_events {events : List Event} (h : ∀ e ∈ events, e.Plain) (role : Role)
    (log : List Event) :
    (account (log ++ events)).opens role = (account log).opens role ∧
      onOpens (log ++ events) = onOpens log ∧
      saysGoAway (account (log ++ events)).wrote = saysGoAway (account log).wrote ∧
      saysGoAway (account (log ++ events)).got = saysGoAway (account log).got := by
  induction events using List.reverseRecOn with
  | nil => simp only [List.append_nil, and_self]
  | append_singleton events e ih =>
    obtain ⟨ih1, ih2, ih3, ih4⟩ := ih fun x hx => h x (by simp [hx])
    have he : e.Plain := h e (by simp)
    have hon : onOpens ((log ++ events) ++ [e]) = onOpens (log ++ events) := by
      cases e with
      | onOpen => exact he.elim
      | _ => simp [onOpens]
    obtain ⟨hopens, hwrote, hgot⟩ := he.note role (account (log ++ events))
    rw [← List.append_assoc, account_append (log ++ events) [e]]
    exact ⟨hopens.trans ih1, hon.trans ih2, hwrote.trans ih3, hgot.trans ih4⟩

theorem Inv.local {s : Session} {log : List Event} {id : StreamId} {r : Session × List Event}
    (h : Inv s log) (hr : Local s id (view id log) r) :
    Inv r.1 (log ++ r.2) ∧ Kept s r.1 := by
  have hframe := hr.frame
  have hkept : Kept s r.1 := by
    rw [hframe]
    exact ⟨rfl, rfl, rfl, rfl⟩
  obtain ⟨hopens, hon, hsent, hgot⟩ :=
    plain_events (fun e he => (hr.events e he).2) s.role log
  refine ⟨h.extend id hkept (fun e he => (hr.events e he).1) hr.others hr.here hr.lawful
    ?_ ?_ ?_ ?_, hkept⟩
  · rw [hopens, show r.1.nextOpen = s.nextOpen by rw [hframe]; rfl]
    exact h.opens
  · rw [hon, hopens]
    exact h.on_opens
  · rw [hsent, hframe]
    exact h.sent_goAway
  · rw [hgot, hframe]
    exact h.received_goAway

/-- A stream that is not open yet has no state and no history. -/
theorem Inv.unborn {s : Session} {log : List Event} {id : StreamId} (h : Inv s log)
    (hid : id ∉ (account log).opens s.role) :
    s.streams id = none ∧ s.locallyClosedStreams id = none ∧
      (account (view id log)).opens s.role = [] ∧ (id ≠ 0 → account (view id log) = {}) := by
  have hopens : (account (view id log)).opens s.role = [] :=
    not_ne_iff.mp (mt opens_view_ne_nil.mp hid)
  have hinv := h.streams id
  generalize hs : s.streams id = stream at *
  generalize hc : s.locallyClosedStreams id = closed at *
  cases hinv with
  | unborn opened empty => exact ⟨rfl, rfl, hopens, empty⟩
  | live live settled => exact absurd hopens live.openIn.opened
  | exitSent node opened exit peer_closed => exact absurd hopens opened
  | exitGot controller opened exit => exact absurd hopens opened

/-- A stream that was just opened: the account of its history is the one OPEN. -/
theorem live_new {role : Role} {W : UInt32} {a : Account} (frame : Frame) (id : StreamId)
    (htype : frame.type = .Open) (hopens : a.opens role ≠ [])
    (ha : a = { wrote := [frame] } ∨ a = { got := [frame] }) :
    StreamInv role W.toNat id (some (.new W)) none a := by
  have h1 : frame.data = [] := by simp [Frame.data, htype]
  have h2 : frame.delta = 0 := by simp [Frame.delta, htype]
  have h3 : frame.endsData = false := by simp [Frame.endsData, htype]
  have hnil : dataOf [] = [] ∧ creditOf [] = 0 ∧ ended [] = false ∧ exited [] = false :=
    ⟨rfl, rfl, rfl, rfl⟩
  refine .live ?_ ⟨fun hq => absurd rfl hq, by simp [Stream.new], by simp [Stream.new]⟩
  rcases ha with rfl | rfl
  all_goals exact {
    openIn := ⟨hopens, by simp [htype, hnil], by simp [htype, hnil]⟩
    credit := by simp [Stream.new, h1, h2, hnil]
    credit_fits := W.toNat_lt
    queue := by simp [Stream.new, bufferedIn, h1, hnil]
    bytes := rfl
    segments := by simp [Stream.new]
    taken_end := by simp [Stream.new, h3, hnil]
    end_once := by simp [h3, hnil]
    end_closes := by simp
    exit := rfl
    exit_closes := by simp [Stream.new]
    window := ⟨rfl, by simp [Stream.new, CreditWindow.new]⟩
    outstanding := rfl
    outstanding_le := Nat.zero_le _
    arrived := by simp [h1, hnil]
    peer_closed := by simp [Stream.new, h3, hnil]
    delivered_end := by simp [h3, hnil]
    pending := fun _ => by simp [Stream.new, CreditWindow.new, h2, hnil]
    pending_small := Or.inl rfl }

/-- A controller that opens a stream. -/
theorem inv_open {s : Session} {log : List Event} (h : Inv s log) (request : OpenRequest) :
    Inv (s.open_ request).1 (log ++ (s.open_ request).2.2) ∧ Kept s (s.open_ request).1 := by
  unfold open_
  split_ifs with hguard
  · simpa using ⟨h, Kept.refl s⟩
  · simp only [not_or, ne_eq, not_not, Bool.not_eq_true] at hguard
    obtain ⟨hs, hrole, hsent, hreceived, hne, hvalid⟩ := hguard
    have hnext : s.nextOpen = s.nextStreamId := by simp [nextOpen, hrole]
    have hopens := h.opens
    rw [hnext] at hopens
    obtain ⟨-, -, hfresh⟩ := hopens.next_notMem hne
    obtain ⟨hstream, hclosed, hunopened, hempty⟩ := h.unborn hfresh
    have hempty := hempty hne
    simp only [tryEmplace, hstream, send, hs, setStream, Bool.false_eq_true, if_false]
    set frame : Frame := ⟨.Open, 0, s.nextStreamId, encodeOpen request⟩ with hframe
    have htype : frame.type = .Open := rfl
    refine ⟨h.extend s.nextStreamId ⟨rfl, rfl, rfl, hs.symm⟩ (by simp [Event.streamId, hframe])
      ?_ ?_ ?_ ?_ ?_ ?_ ?_, ⟨rfl, rfl, rfl, hs.symm⟩⟩
    · exact fun j hj => ⟨Function.update_of_ne hj _ _, rfl⟩
    · simp only [Function.update_self, hclosed]
      refine live_new frame _ htype ?_ ?_ <;>
        simp [hempty, hrole, Account.opens, htype]
    · refine (h.lawful _).snoc ⟨?_, ?_⟩
      · exact encodeOpen_fits hvalid
      · exact ⟨hrole, hempty, rfl, request, hvalid, rfl⟩
    · rw [hrole] at hopens ⊢
      have := hopens.snoc hne
      simpa [Account.opens, nextOpen, hrole, htype] using this
    · have := h.on_opens
      rw [hrole] at this ⊢
      simpa [onOpens] using this
    · simpa [htype, saysGoAway] using h.sent_goAway
    · simpa using h.received_goAway

/-- A node that accepts an OPEN. -/
theorem inv_dispatchOpen {s : Session} {log : List Event} {frame : Frame}
    {r : Session × List Event} (h : Inv s log) (htype : frame.type = .Open)
    (hok : s.dispatchOpen frame = .ok r) : Inv r.1 (log ++ .got frame :: r.2) ∧ Kept s r.1 := by
  obtain ⟨hne, hrole, hsent, hreceived, hid, request, hrequest, rfl⟩ := dispatchOpen_ok hok
  have hnext : s.nextOpen = frame.streamId := by simp [nextOpen, hrole, hid]
  have hopens := h.opens
  rw [hnext] at hopens
  obtain ⟨-, -, hfresh⟩ := hopens.next_notMem hne
  obtain ⟨hstream, hclosed, hunopened, hempty⟩ := h.unborn hfresh
  have hempty := hempty hne
  simp only [tryEmplace, hstream, setStream]
  refine ⟨h.extend frame.streamId ⟨rfl, rfl, rfl, rfl⟩ (by simp [Event.streamId])
    ?_ ?_ ?_ ?_ ?_ ?_ ?_, ⟨rfl, rfl, rfl, rfl⟩⟩
  · exact fun j hj => ⟨Function.update_of_ne hj _ _, rfl⟩
  · simp only [Function.update_self, hclosed]
    refine live_new frame _ htype ?_ ?_ <;> simp [hempty, hrole, Account.opens, htype]
  · have hgot : Trace.Lawful (Allowed s.role s.initialWindow.toNat)
        (view frame.streamId log ++ [.got frame]) := (h.lawful _).snoc trivial
    rw [List.append_cons]
    exact hgot.snoc (decodeOpen_valid hrequest)
  · rw [hrole] at hopens ⊢
    have := hopens.snoc hne
    simpa [Account.opens, nextOpen, hrole, htype] using this
  · have := h.on_opens
    rw [hrole] at this ⊢
    simpa [onOpens, Account.opens, htype] using this
  · simpa using h.sent_goAway
  · simpa [htype, saysGoAway] using h.received_goAway

/-- An event of the connection itself. -/
def OfConnection : Event → Prop
  | .wrote frame => frame.Connection
  | .got frame => frame.type = .Ping ∨ frame.type = .Pong ∨ frame.type = .GoAway
  | .onGoAway | .onPong => True
  | _ => False

/-- The frames of the connection leave every stream alone. -/
theorem inv_connection {s s' : Session} {log events : List Event} (h : Inv s log)
    (hs' : s' = { s with sentGoAway := s'.sentGoAway, receivedGoAway := s'.receivedGoAway })
    (hevents : ∀ e ∈ events, e.streamId = 0 ∧ OfConnection e)
    (hsent : s'.sentGoAway = saysGoAway (account (log ++ events)).wrote)
    (hreceived : s'.receivedGoAway = saysGoAway (account (log ++ events)).got) :
    Inv s' (log ++ events) ∧ Kept s s' := by
  have hkept : Kept s s' := by
    rw [hs']
    exact ⟨rfl, rfl, rfl, rfl⟩
  have hopens : ∀ before, (account (before ++ events)).opens s.role =
      (account before).opens s.role ∧ onOpens (before ++ events) = onOpens before := by
    clear hsent hreceived
    intro before
    induction events using List.reverseRecOn with
    | nil => simp
    | append_singleton events e ih =>
      obtain ⟨ih1, ih2⟩ := ih fun x hx => hevents x (by simp [hx])
      have he := (hevents e (by simp)).2
      rw [← List.append_assoc, ← ih1, ← ih2]
      generalize before ++ events = before
      cases e with
      | wrote frame =>
        obtain ⟨ht, -⟩ := he
        cases s.role <;> rcases ht with ht | ht | ht <;> simp [Account.opens, onOpens, ht]
      | got frame =>
        cases s.role <;> rcases he with ht | ht | ht <;> simp [Account.opens, onOpens, ht]
      | onGoAway | onPong => exact ⟨by simp, by simp [onOpens]⟩
      | _ => exact absurd he id
  obtain ⟨hstream, hclosed, hunopened, -⟩ := h.unborn h.opens.zero_notMem
  refine ⟨h.extend 0 hkept (fun e he => (hevents e he).1)
    (fun j _ => by rw [hs']; exact ⟨rfl, rfl⟩) ?_ ?_ ?_ ?_ hsent hreceived, hkept⟩
  · rw [hs']
    simp only [hstream, hclosed]
    exact .unborn ((hopens _).1.trans hunopened) (fun hne => absurd rfl hne)
  · have hl := h.lawful 0
    clear hsent hreceived hopens
    induction events using List.reverseRecOn with
    | nil => simpa using hl
    | append_singleton events e ih =>
      have he := (hevents e (by simp)).2
      rw [← List.append_assoc]
      refine (ih fun x hx => hevents x (by simp [hx])).snoc ?_
      cases e with
      | wrote frame =>
        refine ⟨by simp [Frame.Fits, he.2.2.2], ?_⟩
        have he : frame.Connection := he
        rcases he.1 with ht | ht | ht <;> simpa only [MayWrite, ht] using he
      | got frame | onGoAway | onPong => trivial
      | _ => exact absurd he id
  · rw [(hopens _).1, show s'.nextOpen = s.nextOpen by rw [hs']; rfl]
    exact h.opens
  · rw [(hopens _).1, (hopens _).2]
    exact h.on_opens

/-- Every local call keeps the invariant. -/
theorem inv_call {s : Session} {log : List Event} (h : Inv s log) (c : Call) :
    Inv (s.call c).1 (log ++ (s.call c).2) ∧ Kept s (s.call c).1 := by
  cases c with
  | open_ request => exact inv_open h request
  | sendData id bytes endStream channel =>
    exact h.local (sendData_local (h.streams id) (h.lawful id) bytes endStream channel)
  | sendExit id status => exact h.local (sendExit_local (h.streams id) (h.lawful id) status)
  | consume id n => exact h.local (consume_local (h.streams id) (h.lawful id) n.toNat)
  | ping =>
    simp only [call, ping, send]
    split_ifs with hs
    · simpa using ⟨h, Kept.refl s⟩
    · refine inv_connection h rfl ?_ ?_ ?_
      · simp [Event.streamId, OfConnection, Frame.Connection]
      · simpa [saysGoAway] using h.sent_goAway
      · simpa using h.received_goAway
  | goAway =>
    simp only [call, goAway, send]
    split_ifs with hguard hs
    · simpa using ⟨h, Kept.refl s⟩
    · exact absurd (Or.inl hs) hguard
    · refine inv_connection h rfl ?_ ?_ ?_
      · simp [Event.streamId, OfConnection, Frame.Connection]
      · simp [saysGoAway]
      · simpa using h.received_goAway

/-- Every accepted frame keeps the invariant. -/
theorem inv_dispatch {s : Session} {log : List Event} {frame : Frame} {r : Session × List Event}
    (h : Inv s log) (hs : s.protocolFailed = false) (hok : s.dispatch frame = .ok r) :
    Inv r.1 (log ++ .got frame :: r.2) ∧ Kept s r.1 := by
  have hinv := h.streams frame.streamId
  have hl := h.lawful frame.streamId
  have hconnection : ∀ accept : Session × List Event, dispatchConnection frame accept = .ok r →
      frame.streamId = 0 ∧ accept = r := by
    intro accept haccept
    simp only [dispatchConnection, validateConnectionFrame, bind_ok, unit_ok, pure_ok] at haccept
    split_ifs at haccept with hguard
    · cases haccept.1
    · simp only [not_or, ne_eq, not_not] at hguard
      exact ⟨hguard.1, haccept.2⟩
  unfold dispatch at hok
  split at hok
  · rename_i htype
    exact inv_dispatchOpen h htype hok
  · rename_i htype
    exact h.local (dispatchData_local hinv hl htype hok)
  · rename_i htype
    exact h.local (dispatchExit_local hinv hl htype hok)
  · rename_i htype
    obtain ⟨hid, rfl⟩ := hconnection _ hok
    simp only [send, hs, Bool.false_eq_true, if_false]
    refine inv_connection h rfl ?_ ?_ ?_
    · simp [Event.streamId, OfConnection, Frame.Connection, hid, htype]
    · simpa [saysGoAway] using h.sent_goAway
    · simpa [saysGoAway, htype] using h.received_goAway
  · rename_i htype
    obtain ⟨hid, rfl⟩ := hconnection _ hok
    refine inv_connection h rfl ?_ ?_ ?_
    · simp [Event.streamId, OfConnection, hid, htype]
    · simpa using h.sent_goAway
    · simpa [saysGoAway, htype] using h.received_goAway
  · rename_i htype
    obtain ⟨hid, rfl⟩ := hconnection _ hok
    refine inv_connection h rfl ?_ ?_ ?_
    · simp [Event.streamId, OfConnection, hid, htype]
    · simpa using h.sent_goAway
    · simp [saysGoAway, htype]
  · rename_i htype
    exact h.local (dispatchWindowUpdate_local hinv hl hs htype hok)
  · cases hok

theorem inv_calls {s : Session} {log : List Event} (h : Inv s log) (cs : List Call) :
    Inv (s.calls cs).1 (log ++ (s.calls cs).2) ∧ Kept s (s.calls cs).1 := by
  induction cs generalizing s log with
  | nil => simpa [calls] using ⟨h, Kept.refl s⟩
  | cons c cs ih =>
    obtain ⟨hcall, hkept⟩ := inv_call h c
    obtain ⟨hcalls, hkept'⟩ := ih hcall
    exact ⟨by simpa [calls] using hcalls, hkept.trans hkept'⟩

/-! ## Runs -/

/-- The states of a session and their logs, between any two things that happen to it: a local
call, an accepted frame, new bytes in the decoder, the end of a connection that failed. -/
inductive Reach (role : Role) (W : UInt32) (streamWritable : Bool) : Session → List Event → Prop
  | start : Reach role W streamWritable (.new role W streamWritable) []
  | call {s log} (c : Call) (h : Reach role W streamWritable s log) :
      Reach role W streamWritable (s.call c).1 (log ++ (s.call c).2)
  | frame {s log frame r} (h : Reach role W streamWritable s log) (hs : s.protocolFailed = false)
      (hok : s.dispatch frame = .ok r) :
      Reach role W streamWritable r.1 (log ++ .got frame :: r.2)
  | decoder {s log} (d : FrameDecoder) (h : Reach role W streamWritable s log) :
      Reach role W streamWritable { s with decoder := d } log
  | poison {s log} (h : Reach role W streamWritable s log) :
      Reach role W streamWritable { s with protocolFailed := true } log

section

variable {role : Role} {W : UInt32} {streamWritable : Bool} {s : Session} {log : List Event}

theorem Inv.decoder (h : Inv s log) (d : FrameDecoder) : Inv { s with decoder := d } log :=
  ⟨h.streams, h.lawful, h.opens, h.on_opens, h.sent_goAway, h.received_goAway⟩

theorem Inv.poison (h : Inv s log) : Inv { s with protocolFailed := true } log :=
  ⟨h.streams, h.lawful, h.opens, h.on_opens, h.sent_goAway, h.received_goAway⟩

theorem inv_reach (h : Reach role W streamWritable s log) :
    Inv s log ∧ s.role = role ∧ s.initialWindow = W := by
  induction h with
  | start => exact ⟨inv_new .., rfl, rfl⟩
  | call c _ ih =>
    obtain ⟨hinv, hrole, hW⟩ := ih
    obtain ⟨hnext, hkept⟩ := inv_call hinv c
    exact ⟨hnext, hkept.role.trans hrole, hkept.initialWindow.trans hW⟩
  | frame _ hs hok ih =>
    obtain ⟨hinv, hrole, hW⟩ := ih
    obtain ⟨hnext, hkept⟩ := inv_dispatch hinv hs hok
    exact ⟨hnext, hkept.role.trans hrole, hkept.initialWindow.trans hW⟩
  | decoder d _ ih => exact ⟨ih.1.decoder d, ih.2⟩
  | poison _ ih => exact ⟨ih.1.poison, ih.2⟩

/-- A property of a session and its log that nothing which happens to the session ends. -/
structure Lasting (role : Role) (W : UInt32) (streamWritable : Bool)
    (P : Session → List Event → Prop) : Prop where
  reach : ∀ {s log}, P s log → Reach role W streamWritable s log
  call : ∀ {s log} (c : Call), P s log → P (s.call c).1 (log ++ (s.call c).2)
  frame : ∀ {s log frame r}, P s log → s.protocolFailed = false → s.dispatch frame = .ok r →
    P r.1 (log ++ .got frame :: r.2)
  decoder : ∀ {s log} (d : FrameDecoder), P s log → P { s with decoder := d } log
  poison : ∀ {s log}, P s log → P { s with protocolFailed := true } log

section

variable {P : Session → List Event → Prop}

theorem Lasting.calls (hP : Lasting role W streamWritable P) (h : P s log) (cs : List Call) :
    P (s.calls cs).1 (log ++ (s.calls cs).2) := by
  induction cs generalizing s log with
  | nil => simpa [Session.calls] using h
  | cons c cs ih => simpa [Session.calls] using ih (hP.call c h)

theorem Lasting.dispatchAll (hP : Lasting role W streamWritable P) (h : P s log)
    (hs : s.protocolFailed = false) (frames : List Frame) (replies : List (List Call)) :
    P (s.dispatchAll frames replies).1 (log ++ (s.dispatchAll frames replies).2.1) := by
  induction frames generalizing s log replies with
  | nil => simpa [Session.dispatchAll] using h
  | cons frame frames ih =>
    unfold Session.dispatchAll
    cases hok : s.dispatch frame with
    | error e => simpa using h
    | ok r =>
      have hframe := hP.frame h hs hok
      have hkept := (inv_dispatch (inv_reach (hP.reach h)).1 hs hok).2
      have hkept' := (inv_calls (inv_reach (hP.reach hframe)).1 (replies.headD [])).2
      have hnext := ih (hP.calls hframe (replies.headD []))
        (by rw [hkept'.protocolFailed, hkept.protocolFailed, hs]) replies.tail
      simpa [List.append_assoc] using hnext

theorem Lasting.receive (hP : Lasting role W streamWritable P) (h : P s log) (bytes : Bytes)
    (replies : List (List Call)) :
    P (s.receive bytes replies).1 (log ++ (s.receive bytes replies).2.1) := by
  unfold Session.receive
  split_ifs with hs
  · simpa using h
  · rw [Bool.not_eq_true] at hs
    have key := hP.dispatchAll (hP.decoder (s.decoder.push bytes).1 h) hs
      (s.decoder.push bytes).2.1 replies
    dsimp only
    split
    · exact hP.poison key
    · exact hP.poison key
    · exact key

theorem Lasting.step (hP : Lasting role W streamWritable P) (h : P s log) (i : Input) :
    P (s.step i).1 (log ++ (s.step i).2.1) := by
  cases i with
  | call c => exact hP.call c h
  | receive bytes replies => exact hP.receive h bytes replies

theorem Lasting.run (hP : Lasting role W streamWritable P) (h : P s log) (is : List Input) :
    P (s.run is).1 (log ++ (s.run is).2) := by
  induction is generalizing s log with
  | nil => simpa [Session.run] using h
  | cons i is ih => simpa [Session.run, List.append_assoc] using ih (hP.step h i)

end

theorem lasting_reach : Lasting role W streamWritable (Reach role W streamWritable) :=
  ⟨id, .call, .frame, .decoder, .poison⟩

theorem reach_receive (h : Reach role W streamWritable s log) (bytes : Bytes)
    (replies : List (List Call)) :
    Reach role W streamWritable (s.receive bytes replies).1
      (log ++ (s.receive bytes replies).2.1) :=
  lasting_reach.receive h bytes replies

theorem reach_run (h : Reach role W streamWritable s log) (is : List Input) :
    Reach role W streamWritable (s.run is).1 (log ++ (s.run is).2) :=
  lasting_reach.run h is

end

end psx.transport
