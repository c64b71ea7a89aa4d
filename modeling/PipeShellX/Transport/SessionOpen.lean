-- The OPEN that a controller writes, at the node. `validateOpenRequest` bounds the
-- number of arguments and the bytes of each, the frame decoder bounds the payload,
-- and nothing relates the two. The law here says which OPEN the node takes.
import PipeShellX.Transport.SessionHonest

namespace psx.transport

open Session

/-! ## The log of an end grows -/

theorem Pair.log_step (p : Pair) (m : Pair.Move) (r : Role) :
    (p.ends r).log <+: ((p.step m).ends r).log := by
  have hact : ∀ side events inbox, (p.ends r).log <+: ((p.act side events inbox).ends r).log := by
    intro side events inbox
    have hother := side.other_ne
    rcases side.eq_or_other r with rfl | rfl
    · simp [Pair.act]
    · simp [Pair.act, hother]
  cases m with
  | call side c => exact hact ..
  | deliver side n replies =>
    simp only [Pair.step]
    split
    · exact hact ..
    · exact hact ..

theorem Pair.log_run (p : Pair) (moves : List Pair.Move) (r : Role) :
    (p.ends r).log <+: ((p.run moves).ends r).log := by
  induction moves generalizing p with
  | nil => exact List.prefix_refl _
  | cons m moves ih => exact (p.log_step m r).trans (ih _)

/-! ## An OPEN whose turn has come -/

/-- The frame that `open` writes for the request. -/
def openFrame (s : Session) (request : OpenRequest) : Frame :=
  ⟨.Open, 0, (s.open_ request).2.1, encodeOpen request⟩

/-- In `p` the controller opened a stream. In the later state `q` the node has accepted what was
written before that, and the next `n` bytes complete the OPEN. -/
structure NextAtNode (p q : Pair) (request : OpenRequest) (n : Nat) : Prop where
  opened : ((p.ends .Controller).session.open_ request).2.1 ≠ 0
  alive : (q.ends .Node).session.protocolFailed = false
  turn : (account (q.ends .Node).log).got = (account (p.ends .Controller).log).wrote
  arrived : encodeFrame (openFrame (p.ends .Controller).session request) <+:
    (q.ends .Node).session.decoder.buffer ++ (q.ends .Node).inbox.take n

/-- The OPEN stands in what the controller wrote, right after what the node accepted. -/
theorem NextAtNode.next {p : Pair} {request : OpenRequest} {later : List Pair.Move} {n : Nat}
    (h : NextAtNode p ((p.step (.call .Controller (.open_ request))).run later) request n) :
    ∃ more, (account
        (((p.step (.call .Controller (.open_ request))).run later).ends .Controller).log).wrote =
      (account (((p.step (.call .Controller (.open_ request))).run later).ends .Node).log).got ++
        openFrame (p.ends .Controller).session request :: more := by
  obtain ⟨-, -, -, -, -, -, hsome⟩ := (open_cases _ request).resolve_left fun hnone =>
    h.opened (by rw [hnone])
  obtain ⟨rest, hrest⟩ := (p.step (.call .Controller (.open_ request))).log_run later .Controller
  have hlog : ((p.step (.call .Controller (.open_ request))).ends .Controller).log =
      (p.ends .Controller).log ++ [.wrote (openFrame (p.ends .Controller).session request)] := by
    simp [Pair.step, Pair.act, call, hsome, openFrame]
  refine ⟨(account rest).wrote, ?_⟩
  rw [← hrest, hlog, account_wrote_append, account_wrote_append, h.turn, List.append_assoc]
  rfl

/-- What the node does with the bytes that complete an OPEN. -/
theorem receive_open {s t : Session} {log tlog : List Event} {more : List Frame} {frame : Frame}
    {request : OpenRequest} {data : Bytes} (hs : Inv s log) (ht : Inv t tlog)
    (hrole : t.role = s.role.other)
    (hnext : (account tlog).wrote = (account log).got ++ frame :: more)
    (hback : (account tlog).got <+: (account log).wrote) (htype : frame.type = .Open)
    (hvalid : validateOpenRequest request = .ok ()) (hpayload : frame.payload = encodeOpen request)
    (halive : s.protocolFailed = false) (hd : s.decoder.failed = false)
    (hreceived : s.receivedGoAway = false)
    (hhead : encodeFrame frame <+: s.decoder.buffer ++ data) (replies : List (List Call)) :
    ((∃ post, (s.receive data replies).2.1 =
        .got frame :: .onOpen frame.streamId request :: post) ↔
      frame.payload.length ≤ s.decoder.maxPayload ∧ s.sentGoAway = false) ∧
    (s.decoder.maxPayload < frame.payload.length → (s.receive data replies).2 =
      ([], .error (protocolError "frame payload length exceeds the maximum"))) := by
  have hfit : frame.Fits := by
    rw [Frame.Fits, hpayload]
    exact encodeOpen_fits hvalid
  cases hpush : s.decoder.push data with
  | mk decoder rest =>
  obtain ⟨frames, decoded⟩ := rest
  rcases push_first hd hpush hfit hhead with ⟨hle, later, rfl⟩ | ⟨hlong, rfl, rfl⟩
  · refine ⟨?_, fun hlong => absurd hle (Nat.not_le_of_lt hlong)⟩
    have hinv : Inv { s with decoder } log := hs.decoder decoder
    rw [receive_events halive, hpush]
    unfold dispatchAll
    dsimp only
    cases hok : Session.dispatch { s with decoder } frame with
    | error err =>
      obtain ⟨hgoAway, -⟩ := open_refused hinv ht hrole hnext hback htype hok
      have hsent : s.sentGoAway = true := by simpa [hreceived] using hgoAway
      simp [hsent]
    | ok r =>
      simp only [dispatch, htype] at hok
      obtain ⟨-, -, hsent, -, -, request', hrequest, rfl⟩ := dispatchOpen_ok hok
      rw [hpayload, decodeOpen_encode hvalid] at hrequest
      obtain rfl := Except.ok.inj hrequest
      exact ⟨fun _ => ⟨hle, hsent⟩, fun _ => ⟨_, rfl⟩⟩
  · have hreceive : (s.receive data replies).2 =
        ([], .error (protocolError "frame payload length exceeds the maximum")) := by
      unfold receive
      simp only [halive, hpush, dispatchAll, Bool.false_eq_true, if_false]
      rfl
    refine ⟨?_, fun _ => hreceive⟩
    rw [hreceive]
    refine ⟨?_, fun h => absurd h.1 (Nat.not_le_of_lt hlong)⟩
    rintro ⟨post, hpost⟩
    cases hpost

/-- A decoder takes the encoding of one frame when the payload is not too long. -/
theorem push_encode {frame : Frame} (hfit : frame.Fits) :
    (({} : FrameDecoder).push (encodeFrame frame)).2 = ([frame], .ok ()) ↔
      frame.payload.length ≤ kDefaultMaxFramePayload := by
  cases hpush : ({} : FrameDecoder).push (encodeFrame frame) with
  | mk decoder rest =>
  obtain ⟨frames, decoded⟩ := rest
  obtain ⟨-, hframes, left, hcut, hstop⟩ := push_spec rfl hpush
  rcases push_first rfl hpush hfit (List.prefix_refl _) with ⟨hle, later, rfl⟩ | ⟨hlong, rfl, rfl⟩
  · refine ⟨fun _ => hle, fun _ => ?_⟩
    -- nothing is left after the one frame
    have hnil : encodeFrames later ++ left = [] := by
      have hcut : encodeFrame frame = encodeFrame frame ++ (encodeFrames later ++ left) := by
        simpa [encodeFrames, frameCode] using hcut
      simpa using hcut
    obtain ⟨hlater, rfl⟩ := List.append_eq_nil_iff.mp hnil
    cases later with
    | nil =>
      rcases hstop with ⟨rfl, -⟩ | ⟨-, -, hstop⟩
      · rfl
      · cases hstop
    | cons next later => simp [encodeFrames, frameCode, encodeFrame] at hlater
  · refine ⟨?_, fun hle => absurd hle (Nat.not_le_of_lt hlong)⟩
    rintro ⟨⟩

theorem open_delivery {W : Role → UInt32} {p q : Pair} (hp : PairInv W p) (hq : PairInv W q)
    {request : OpenRequest} {n : Nat} {more : List Frame} (h : NextAtNode p q request n)
    (hnext : (account (q.ends .Controller).log).wrote = (account (q.ends .Node).log).got ++
      openFrame (p.ends .Controller).session request :: more) (replies : List (List Call)) :
    let node := (q.ends .Node).session
    let frame := openFrame (p.ends .Controller).session request
    let received := node.receive ((q.ends .Node).inbox.take n) replies
    ((∃ post, received.2.1 = .got frame :: .onOpen frame.streamId request :: post) ↔
      frame.payload.length ≤ kDefaultMaxFramePayload ∧ node.sentGoAway = false) ∧
    (kDefaultMaxFramePayload < frame.payload.length → received.2 =
      ([], .error (protocolError "frame payload length exceeds the maximum"))) := by
  intro node frame received
  obtain ⟨-, -, hsent, -, -, hvalid, -⟩ := (open_cases _ request).resolve_left fun hnone =>
    h.opened (by rw [hnone])
  obtain ⟨hd, hmax, -⟩ := (hq.fifo .Node).bytes h.alive
  -- the controller had said no GOAWAY, so the node has heard none
  have hreceived : node.receivedGoAway = false := by
    rw [(hq.inv .Node).received_goAway, h.turn, ← (hp.inv .Controller).sent_goAway]
    exact hsent
  have hback := hq.back .Node []
  rw [List.append_nil] at hback
  have := receive_open (hq.inv .Node) (hq.inv .Controller) (by rw [hq.role, hq.role]; rfl) hnext
    hback rfl hvalid rfl h.alive hd hreceived h.arrived replies
  rwa [hmax] at this

/-- An OPEN of a valid request, in every state of a pair in which its turn at the node has come:
a decoder takes the frame and the node hands exactly this request to `onOpen` if and only if
the payload is no longer than 16 MiB and the node has said no GOAWAY. A longer one fails the
node's `receive`. -/
theorem an_open_is_delivered_iff_it_fits (W : Role → UInt32) (streamWritable : Role → Bool)
    (moves later : List Pair.Move) (request : OpenRequest) (n : Nat)
    (h : NextAtNode ((Pair.new W streamWritable).run moves)
      ((((Pair.new W streamWritable).run moves).step (.call .Controller (.open_ request))).run
        later)
      request n) (replies : List (List Call)) :
    let p := (Pair.new W streamWritable).run moves
    let node := ((p.step (.call .Controller (.open_ request))).run later).ends .Node
    let frame := openFrame (p.ends .Controller).session request
    let received := node.session.receive (node.inbox.take n) replies
    ((p.ends .Controller).session.open_ request).2.2 = [.wrote frame] ∧
      ((((({} : FrameDecoder).push (encodeFrame frame)).2 = ([frame], .ok ()) ∧
          ∃ post, received.2.1 = .got frame :: .onOpen frame.streamId request :: post) ↔
        (encodeOpen request).length ≤ 16 * 1024 * 1024 ∧ node.session.sentGoAway = false) ∧
      (16 * 1024 * 1024 < (encodeOpen request).length →
        received.2.2 = .error (protocolError "frame payload length exceeds the maximum"))) := by
  intro p node frame received
  have hp : PairInv W p := pairInv_run (pairInv_new W streamWritable) moves
  have hq := pairInv_run (pairInv_step hp (.call .Controller (.open_ request))) later
  obtain ⟨more, hnext⟩ := h.next
  obtain ⟨haccept, hrefuse⟩ := open_delivery hp hq h hnext replies
  obtain ⟨-, -, -, -, -, hvalid, hsome⟩ := (open_cases _ request).resolve_left fun hnone =>
    h.opened (by rw [hnone])
  have hfit : frame.Fits := encodeOpen_fits hvalid
  refine ⟨?_, ?_, fun hlong => congrArg Prod.snd (hrefuse hlong)⟩
  · simp only [p, frame, openFrame, hsome]
  · rw [push_encode hfit, haccept]
    exact ⟨fun h => h.2, fun h => ⟨h.1, h⟩⟩

theorem a_small_open_is_written :
    (((Pair.new (fun _ => 8) fun _ => false).ends .Controller).session.open_ ⟨[[65]], []⟩).2.2 =
      [.wrote ⟨.Open, 0, 1, encodeOpen ⟨[[65]], []⟩⟩] :=
  (an_open_is_delivered_iff_it_fits (fun _ => 8) (fun _ => false) [] [] ⟨[[65]], []⟩ 100
    ⟨by decide, by decide, by decide, ⟨[], by decide⟩⟩ []).1

/-- `count` arguments of `length` bytes each. -/
def filledRequest (count length : Nat) : OpenRequest :=
  ⟨List.replicate count (List.replicate length 65), []⟩

theorem filledRequest_valid {count length : Nat} (hcount : 0 < count) (hle : count ≤ kMaxOpenArgc)
    (hlength : 0 < length) (hle' : length ≤ kMaxOpenArgumentBytes) :
    validateOpenRequest (filledRequest count length) = .ok () := by
  rw [validateOpenRequest_iff]
  obtain ⟨rest, rfl⟩ := Nat.exists_eq_add_of_lt hcount
  rw [Nat.zero_add] at hle ⊢
  refine ⟨by simpa [filledRequest] using hle, ?_, ⟨_, _, List.replicate_succ, ?_⟩, ?_, ?_⟩
  · intro argument hargument
    rw [List.eq_of_mem_replicate hargument]
    refine ⟨by simpa using hle', fun hzero => ?_⟩
    exact absurd (List.eq_of_mem_replicate hzero) (by decide)
  · simp only [ne_eq, List.replicate_eq_nil_iff]
    omega
  · simp [filledRequest]
  · simp [filledRequest]

theorem filledRequest_length (count length : Nat) :
    (encodeOpen (filledRequest count length)).length = 9 + count * (4 + length) := by
  have hargs : ∀ n argument, ((List.replicate n argument).flatMap writeString).length =
      n * (4 + argument.length) := by
    intro n argument
    induction n with
    | zero => simp
    | succ n ih =>
      simp only [List.replicate_succ, List.flatMap_cons, List.length_append, ih, writeString,
        writeU32BE_length]
      rw [Nat.succ_mul, Nat.add_comm]
  simp only [encodeOpen, filledRequest, List.length_cons, List.length_append, writeU32BE_length,
    writeString, hargs, List.length_replicate, List.length_nil]
  omega

/-- An OPEN that is too long fails the node that gets it, when nothing else was on its way. -/
theorem long_open_fails {W : Role → UInt32} {p : Pair} (hp : PairInv W p) {request : OpenRequest}
    {n : Nat} (hopened : ((p.ends .Controller).session.open_ request).2.1 ≠ 0)
    (halive : (p.ends .Node).session.protocolFailed = false)
    (hturn : (account (p.ends .Node).log).got = (account (p.ends .Controller).log).wrote)
    (hempty : (p.ends .Node).session.decoder.buffer = [] ∧ (p.ends .Node).inbox = [])
    (hlong : kDefaultMaxFramePayload < (encodeOpen request).length)
    (hn : kFrameHeaderSize + (encodeOpen request).length ≤ n) :
    (p.run [.call .Controller (.open_ request), .deliver .Node n []]).errors =
      p.errors ++ [protocolError "frame payload length exceeds the maximum"] := by
  obtain ⟨-, -, -, -, -, -, hsome⟩ := (open_cases _ request).resolve_left fun hnone =>
    hopened (by rw [hnone])
  have hq := pairInv_step hp (.call .Controller (.open_ request))
  have hnode : (p.step (.call .Controller (.open_ request))).ends .Node = { p.ends .Node with
      inbox := encodeFrame (openFrame (p.ends .Controller).session request) } := by
    have hwire : ∀ frame, Pair.wire [.wrote frame] = encodeFrame frame := fun frame =>
      List.append_nil _
    simp [Pair.step, Pair.act, call, hsome, hwire, openFrame, Role.other, hempty]
  have hcontroller : ((p.step (.call .Controller (.open_ request))).ends .Controller).log =
      (p.ends .Controller).log ++ [.wrote (openFrame (p.ends .Controller).session request)] := by
    simp [Pair.step, Pair.act, call, hsome, openFrame]
  have herrors : (p.step (.call .Controller (.open_ request))).errors = p.errors := rfl
  have hframe : (encodeFrame (openFrame (p.ends .Controller).session request)).length ≤ n := by
    rwa [encodeFrame_length]
  have hnext : NextAtNode p (p.step (.call .Controller (.open_ request))) request n := by
    refine ⟨hopened, by rw [hnode]; exact halive, by rw [hnode]; exact hturn, ?_⟩
    rw [hnode]
    dsimp only
    rw [hempty.1, List.nil_append]
    exact (List.take_of_length_le hframe).symm ▸ List.prefix_refl _
  have hwrote :
      (account ((p.step (.call .Controller (.open_ request))).ends .Controller).log).wrote =
      (account ((p.step (.call .Controller (.open_ request))).ends .Node).log).got ++
        openFrame (p.ends .Controller).session request :: [] := by
    rw [hnode, hcontroller, account_wrote_append, hturn]
    rfl
  have hreceive := (open_delivery hp hq hnext hwrote []).2 hlong
  rw [Pair.run, List.foldl_cons, List.foldl_cons, List.foldl_nil]
  generalize p.step (.call .Controller (.open_ request)) = q at *
  cases hresult : (q.ends .Node).session.receive ((q.ends .Node).inbox.take n) [] with
  | mk s' rest =>
  rw [hresult] at hreceive
  obtain rfl : rest = _ := hreceive
  simp [Pair.step, hresult, Pair.act, herrors]

/-- The request passes the validator and is opened as stream 1, and its OPEN fails the node. -/
theorem a_huge_open_kills_the_connection :
    validateOpenRequest (filledRequest 128 (128 * 1024)) = .ok () ∧
      (((Pair.new (fun _ => kDefaultStreamWindow) fun _ => true).ends .Controller).session.open_
        (filledRequest 128 (128 * 1024))).2.1 = 1 ∧
      ((Pair.new (fun _ => kDefaultStreamWindow) fun _ => true).run
        [.call .Controller (.open_ (filledRequest 128 (128 * 1024))),
          .deliver .Node 16777747 []]).errors =
        [protocolError "frame payload length exceeds the maximum"] := by
  have hvalid : validateOpenRequest (filledRequest 128 (128 * 1024)) = .ok () :=
    filledRequest_valid (by decide) (by decide) (by decide) (by decide)
  have hlength := filledRequest_length 128 (128 * 1024)
  generalize filledRequest 128 (128 * 1024) = request at *
  have hid : (((Pair.new (fun _ => kDefaultStreamWindow) fun _ => true).ends
      .Controller).session.open_ request).2.1 = 1 := by
    simp [Pair.new, Session.new, open_, hvalid]
  refine ⟨hvalid, hid, ?_⟩
  refine long_open_fails (pairInv_new _ _) (by rw [hid]; decide) rfl rfl ⟨rfl, rfl⟩ ?_ ?_
  · rw [hlength]
    decide
  · rw [hlength]
    decide

end psx.transport
