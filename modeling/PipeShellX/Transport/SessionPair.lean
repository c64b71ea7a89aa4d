-- Two sessions joined by two reliable FIFO byte channels. The bytes of a channel
-- come in any chunks, and each end is called in any order. The laws here: each
-- end keeps its own invariant, and the frames it accepted are the first frames
-- that the other one wrote.
import PipeShellX.Transport.SessionSafety

namespace psx.transport

open psx.os (ExitStatus)
open Session

/-! ## The pair -/

def Role.other : Role → Role
  | .Controller => .Node
  | .Node => .Controller

@[simp] theorem Role.other_other (r : Role) : r.other.other = r := by cases r <;> rfl

theorem Role.other_ne (r : Role) : r.other ≠ r := by cases r <;> decide

theorem Role.eq_or_other (side r : Role) : r = side ∨ r = side.other := by
  cases side <;> cases r <;> simp [Role.other]

/-- One end: its session, the log of it, and the bytes on their way to it. -/
structure End where
  session : Session
  log : List Event := []
  inbox : Bytes := []

/-- Both ends, and what the calls of `receive` returned that was not ok. -/
structure Pair where
  ends : Role → End
  errors : List Error := []

namespace Pair

/-- Two ends that have not spoken yet. -/
def new (W : Role → UInt32) (streamWritable : Role → Bool) : Pair :=
  { ends := fun r => { session := .new r (W r) (streamWritable r) } }

/-- The bytes that a session handed to `write_`. -/
def wire (events : List Event) : Bytes := encodeFrames (account events).wrote

/-- One end did something: what it wrote goes behind the bytes that travel to the other. -/
def act (p : Pair) (side : Role) (r : Session × List Event) (inbox : Bytes) : Pair :=
  let mine : End := { session := r.1, log := (p.ends side).log ++ r.2, inbox }
  let peer := p.ends side.other
  let theirs := { peer with inbox := peer.inbox ++ wire r.2 }
  { p with ends := fun x => if x = side then mine else theirs }

/-- A local call at one end, or the next `n` bytes of its channel delivered in one chunk,
with the calls its handlers make. -/
inductive Move
  | call (side : Role) (c : Call)
  | deliver (side : Role) (n : Nat) (replies : List (List Call))

/-- One move of either end. -/
def step (p : Pair) : Move → Pair
  | .call side c => p.act side ((p.ends side).session.call c) (p.ends side).inbox
  | .deliver side n replies =>
    let me := p.ends side
    let (session, events, result) := me.session.receive (me.inbox.take n) replies
    let p := p.act side (session, events) (me.inbox.drop n)
    match result with
    | .ok () => p
    | .error e => { p with errors := p.errors ++ [e] }

def run (p : Pair) (moves : List Move) : Pair := moves.foldl step p

end Pair

/-! ## Dispatching in order -/

theorem account_wrote_append (a b : List Event) :
    (account (a ++ b)).wrote = (account a).wrote ++ (account b).wrote := by
  simp only [account_wrote, List.filterMap_append]

theorem account_got_append (a b : List Event) :
    (account (a ++ b)).got = (account a).got ++ (account b).got := by
  simp only [account_got, List.filterMap_append]

theorem call_got (s : Session) (c : Call) : (account (s.call c).2).got = [] := by
  rw [account_got, List.filterMap_eq_nil_iff]
  intro e he
  have hfrom := call_events he
  cases e with
  | got frame => exact hfrom.elim
  | _ => rfl

theorem calls_got (s : Session) (cs : List Call) : (account (s.calls cs).2).got = [] := by
  induction cs generalizing s with
  | nil => rfl
  | cons c cs ih => rw [calls, account_got_append, call_got, ih, List.append_nil]

theorem dispatch_got {s : Session} {frame : Frame} {r : Session × List Event}
    (hok : s.dispatch frame = .ok r) : (account r.2).got = [] := by
  rw [account_got, List.filterMap_eq_nil_iff]
  intro e he
  have hfrom := dispatch_events hok he
  cases e with
  | got frame => exact hfrom.elim
  | _ => rfl

section

variable {P : Frame → Prop}

theorem calls_wrote {s : Session} {cs : List Call}
    (hcs : ∀ c ∈ cs, ∀ s : Session, ∀ f ∈ (account (s.call c).2).wrote, P f) :
    ∀ f ∈ (account (s.calls cs).2).wrote, P f := by
  induction cs generalizing s with
  | nil => simp [calls]
  | cons c cs ih =>
    rw [calls, account_wrote_append]
    intro f hf
    rcases List.mem_append.mp hf with hf | hf
    · exact hcs c (by simp) s f hf
    · exact ih (fun c hc => hcs c (by simp [hc])) f hf

theorem dispatch_wrote {s : Session} {frame : Frame} {r : Session × List Event}
    (hok : s.dispatch frame = .ok r) (hanswer : ∀ f, FromFrame frame (.wrote f) → P f) :
    ∀ f ∈ (account r.2).wrote, P f := by
  exact fun f hf => hanswer f (dispatch_events hok (mem_wrote hf))

theorem dispatchAll_wrote {s : Session} {frames : List Frame} {replies : List (List Call)}
    (hcalls : ∀ cs ∈ replies, ∀ c ∈ cs, ∀ s : Session, ∀ f ∈ (account (s.call c).2).wrote, P f)
    (hanswers : ∀ frame ∈ frames, ∀ f, FromFrame frame (.wrote f) → P f) :
    ∀ f ∈ (account (s.dispatchAll frames replies).2.1).wrote, P f := by
  induction frames generalizing s replies with
  | nil => simp [dispatchAll]
  | cons frame frames ih =>
    unfold dispatchAll
    cases hok : s.dispatch frame with
    | error e => simp
    | ok r =>
      have hhead : ∀ c ∈ replies.headD [], ∀ s : Session, ∀ f ∈ (account (s.call c).2).wrote,
          P f := by
        cases replies with
        | nil => simp
        | cons cs replies => exact hcalls cs (by simp)
      have hcons : (account (.got frame :: r.2)).wrote = (account r.2).wrote := by
        rw [← List.singleton_append, account_wrote_append]
        rfl
      intro f hf
      rw [account_wrote_append, account_wrote_append, hcons] at hf
      rcases List.mem_append.mp hf with hf | hf
      · rcases List.mem_append.mp hf with hf | hf
        · exact dispatch_wrote hok (hanswers frame (by simp)) f hf
        · exact calls_wrote hhead f hf
      · exact ih (fun cs hcs => hcalls cs (List.mem_of_mem_tail hcs))
          (fun frame hframe => hanswers frame (by simp [hframe])) f hf

/-- `receive` writes the answers to the frames of the chunk, and what the handlers' calls
write. -/
theorem receive_wrote {s : Session} {bytes : Bytes} {replies : List (List Call)}
    (hcalls : ∀ cs ∈ replies, ∀ c ∈ cs, ∀ s : Session, ∀ f ∈ (account (s.call c).2).wrote, P f)
    (hanswers : ∀ frame ∈ (s.decoder.push bytes).2.1, ∀ f, FromFrame frame (.wrote f) → P f) :
    ∀ f ∈ (account (s.receive bytes replies).2.1).wrote, P f := by
  unfold receive
  split_ifs
  · simp
  · dsimp only
    split <;> exact dispatchAll_wrote hcalls hanswers

end

theorem receive_events {s : Session} (hs : s.protocolFailed = false) (bytes : Bytes)
    (replies : List (List Call)) : (s.receive bytes replies).2.1 =
      ({ s with decoder := (s.decoder.push bytes).1 }.dispatchAll (s.decoder.push bytes).2.1
        replies).2.1 := by
  unfold receive
  rw [if_neg (by simp [hs])]
  dsimp only
  split <;> rfl

/-- The frames of one chunk are accepted in order, up to the first that is refused. -/
theorem dispatchAll_spec {s : Session} {log : List Event} (h : Inv s log)
    (hs : s.protocolFailed = false) (frames : List Frame) (replies : List (List Call)) :
    ∃ s' events result done left, s.dispatchAll frames replies = (s', events, result) ∧
      Inv s' (log ++ events) ∧ Kept s s' ∧ frames = done ++ left ∧
      (account (log ++ events)).got = (account log).got ++ done ∧
      ((result = .ok () ∧ left = []) ∨
        ∃ e frame rest, result = .error e ∧ left = frame :: rest ∧
          s'.dispatch frame = .error e) := by
  induction frames generalizing s log replies with
  | nil =>
    exact ⟨s, [], .ok (), [], [], rfl, by simpa using h, .refl s, rfl, by simp, Or.inl ⟨rfl, rfl⟩⟩
  | cons frame frames ih =>
    unfold dispatchAll
    cases hok : s.dispatch frame with
    | error e =>
      exact ⟨s, [], .error e, [], frame :: frames, rfl, by simpa using h, .refl s, rfl, by simp,
        Or.inr ⟨e, frame, frames, rfl, rfl, hok⟩⟩
    | ok r =>
      obtain ⟨hinv, hkept⟩ := inv_dispatch h hs hok
      obtain ⟨hanswers, hkept'⟩ := inv_calls hinv (replies.headD [])
      obtain ⟨s', more, result, done, left, hall, hinv', hkept'', hframes, hgot, hresult⟩ :=
        ih hanswers (by rw [hkept'.protocolFailed, hkept.protocolFailed, hs]) replies.tail
      refine ⟨s', .got frame :: r.2 ++ (r.1.calls (replies.headD [])).2 ++ more, result,
        frame :: done, left, by simp only [hall], by simpa using hinv',
        (hkept.trans hkept').trans hkept'', by simp [hframes], ?_, hresult⟩
      have hone : (account (log ++ .got frame :: r.2 ++ (r.1.calls (replies.headD [])).2)).got =
          (account log).got ++ [frame] := by
        rw [account_got_append, calls_got, List.append_nil, ← List.singleton_append,
          ← List.append_assoc, account_got_append, dispatch_got hok, List.append_nil]
        simp
      rw [hone] at hgot
      simpa using hgot

/-! ## First in, first out -/

/-- The channel to an end: what the other end wrote, and what this one did with it. -/
structure Fifo (sent : List Frame) (e : End) : Prop where
  accepted : (account e.log).got <+: sent
  bytes : e.session.protocolFailed = false → e.session.decoder.failed = false ∧
    e.session.decoder.maxPayload = kDefaultMaxFramePayload ∧
    encodeFrames (account e.log).got ++ e.session.decoder.buffer ++ e.inbox = encodeFrames sent

/-- How a `receive` can end, when the channel carries the frames `sent`. -/
inductive Outcome (sent : List Frame) (e : End) (s' : Session) (log' : List Event) :
    Result Unit → Prop
  | ok (h : s'.protocolFailed = false) : Outcome sent e s' log' (.ok ())
  | poisoned (h : e.session.protocolFailed = true) : Outcome sent e s' log'
      (.error (protocolError "session poisoned by an earlier protocol error"))
  | tooLong {a frame b} (split : sent = a ++ frame :: b) (got : (account log').got <+: a)
      (long : kDefaultMaxFramePayload < frame.payload.length) : Outcome sent e s' log'
      (.error ⟨.Other, 0, "frame payload length exceeds the maximum"⟩)
  | refused {s frame more err} (inv : Inv s log') (kept : s.role = e.session.role)
      (window : s.initialWindow = e.session.initialWindow)
      (next : sent = (account log').got ++ frame :: more) (error : s.dispatch frame = .error err) :
      Outcome sent e s' log' (.error err)

/-- A chunk that is too long for the decoder starts with the frame that is. -/
theorem tooLong_frame {rest more : Bytes} {frames : List Frame} (hfits : ∀ f ∈ frames, f.Fits)
    (h : nextFrame kDefaultMaxFramePayload rest = .tooLong)
    (hrest : rest ++ more = encodeFrames frames) :
    ∃ frame later, frames = frame :: later ∧ kDefaultMaxFramePayload < frame.payload.length := by
  have hlong := nextFrame_tooLong h more
  rw [hrest] at hlong
  cases frames with
  | nil => cases hlong
  | cons frame later =>
    refine ⟨frame, later, rfl, ?_⟩
    by_contra hle
    have := nextFrame_encode (Nat.le_of_not_lt hle) (hfits frame (by simp)) (encodeFrames later)
    rw [show encodeFrames (frame :: later) = encodeFrame frame ++ encodeFrames later from rfl,
      this] at hlong
    cases hlong

/-- The frames that a chunk completes are the next ones that the other end wrote. -/
theorem pushed_frames {e : End} {sent : List Frame} (hfifo : Fifo sent e)
    (hfits : ∀ f ∈ sent, f.Fits) (hs : e.session.protocolFailed = false) {n : Nat}
    {decoder : FrameDecoder} {frames : List Frame} {decoded : Result Unit}
    (hpush : e.session.decoder.push (e.inbox.take n) = (decoder, frames, decoded)) :
    ∃ rest later, sent = (account e.log).got ++ frames ++ later ∧
      rest ++ e.inbox.drop n = encodeFrames later ∧
      e.session.decoder.buffer ++ e.inbox.take n = encodeFrames frames ++ rest ∧
      ((decoded = .ok () ∧ decoder.buffer = rest ∧ decoder.failed = false ∧
          decoder.maxPayload = kDefaultMaxFramePayload ∧
          nextFrame kDefaultMaxFramePayload rest = .incomplete) ∨
        (decoded = .error ⟨.Other, 0, "frame payload length exceeds the maximum"⟩ ∧
          nextFrame kDefaultMaxFramePayload rest = .tooLong)) := by
  obtain ⟨hd, hmax, hbytes⟩ := hfifo.bytes hs
  obtain ⟨hmax', hframes, rest, hcut, hdecoded⟩ := push_spec hd hpush
  rw [hmax] at hmax' hframes hdecoded
  have hstream : encodeFrames ((account e.log).got ++ frames) ++ (rest ++ e.inbox.drop n) =
      encodeFrames sent := by
    calc encodeFrames ((account e.log).got ++ frames) ++ (rest ++ e.inbox.drop n)
        = encodeFrames (account e.log).got ++ (encodeFrames frames ++ rest) ++
            e.inbox.drop n := by simp [encodeFrames]
      _ = encodeFrames (account e.log).got ++ e.session.decoder.buffer ++
            (e.inbox.take n ++ e.inbox.drop n) := by rw [← hcut]; simp only [List.append_assoc]
      _ = encodeFrames sent := by rw [List.take_append_drop, hbytes]
  have hgotFits : ∀ f ∈ (account e.log).got ++ frames, f.Fits := by
    intro f hf
    rcases List.mem_append.mp hf with hf | hf
    · exact hfits f (hfifo.accepted.subset hf)
    · exact (hframes f hf).2
  obtain ⟨later, hsent, hrest⟩ := frameCode.encAll_cut hgotFits hfits hstream
  refine ⟨rest, later, hsent, hrest, hcut, ?_⟩
  rcases hdecoded with ⟨rfl, hbuffer, hnotFailed, hpart⟩ | ⟨rfl, -, hlong⟩
  · exact Or.inl ⟨rfl, hbuffer, hnotFailed, hmax', hpart⟩
  · exact Or.inr ⟨rfl, hlong⟩

theorem receive_fifo {e : End} {sent : List Frame} (hinv : Inv e.session e.log)
    (hfifo : Fifo sent e) (hfits : ∀ f ∈ sent, f.Fits) (n : Nat) (replies : List (List Call)) :
    ∃ s' events result, e.session.receive (e.inbox.take n) replies = (s', events, result) ∧
      Inv s' (e.log ++ events) ∧ s'.role = e.session.role ∧
      s'.initialWindow = e.session.initialWindow ∧
      Fifo sent ⟨s', e.log ++ events, e.inbox.drop n⟩ ∧
      Outcome sent e s' (e.log ++ events) result := by
  unfold receive
  by_cases hs : e.session.protocolFailed = true
  · rw [if_pos hs]
    refine ⟨_, _, _, rfl, by simpa using hinv, rfl, rfl, ⟨by simpa using hfifo.accepted, ?_⟩,
      .poisoned hs⟩
    intro hnot
    rw [hs] at hnot
    cases hnot
  · rw [if_neg hs]
    rw [Bool.not_eq_true] at hs
    cases hpush : e.session.decoder.push (e.inbox.take n) with
    | mk decoder more =>
    obtain ⟨frames, decoded⟩ := more
    obtain ⟨rest, later, hsent, hrest, -, hdecoded⟩ := pushed_frames hfifo hfits hs hpush
    obtain ⟨s', events, result, done, left, hall, hinv', hkept, hsplit, hgot, hresult⟩ :=
      dispatchAll_spec (hinv.decoder decoder) hs frames replies
    dsimp only
    rw [hall]
    have hinit : (account (e.log ++ events)).got <+: sent := by
      rw [hgot, hsent, hsplit]
      exact ⟨left ++ later, by simp⟩
    rcases hdecoded with ⟨rfl, hbuffer, hnotFailed, hmax', -⟩ | ⟨rfl, hlong⟩
    · rcases hresult with ⟨rfl, rfl⟩ | ⟨err, frame, after, rfl, rfl, hrefused⟩
      · refine ⟨_, _, _, rfl, hinv', hkept.role, hkept.initialWindow, ⟨hinit, ?_⟩, .ok ?_⟩
        · intro _
          dsimp only
          rw [hkept.decoder, hgot]
          refine ⟨hnotFailed, hmax', ?_⟩
          rw [List.append_nil] at hsplit
          rw [hbuffer, List.append_assoc, hrest, hsent, hsplit]
          simp [encodeFrames]
        · rw [hkept.protocolFailed]
          exact hs
      · have hnext : sent = (account (e.log ++ events)).got ++ frame :: (after ++ later) := by
          rw [hsent, hgot, hsplit]
          simp
        exact ⟨_, _, _, rfl, hinv'.poison, hkept.role, hkept.initialWindow,
          ⟨hinit, fun hnot => by cases hnot⟩,
          .refused hinv' hkept.role hkept.initialWindow hnext hrefused⟩
    · have hlater : ∀ f ∈ later, f.Fits := fun f hf => hfits f (by rw [hsent]; simp [hf])
      obtain ⟨frame, after, rfl, hlen⟩ := tooLong_frame hlater hlong hrest
      refine ⟨_, _, _, rfl, hinv'.poison, hkept.role, hkept.initialWindow,
        ⟨hinit, fun hnot => by cases hnot⟩, .tooLong (a := (account e.log).got ++ frames) hsent
          ?_ hlen⟩
      rw [hgot, hsplit]
      exact ⟨left, by simp⟩

/-- What holds between two moves. -/
structure PairInv (W : Role → UInt32) (p : Pair) : Prop where
  role : ∀ r, (p.ends r).session.role = r
  window : ∀ r, (p.ends r).session.initialWindow = W r
  inv : ∀ r, Inv (p.ends r).session (p.ends r).log
  fifo : ∀ r, Fifo (account (p.ends r.other).log).wrote (p.ends r)

/-- What the other end accepted is what this one wrote so far. -/
theorem PairInv.back {W : Role → UInt32} {p : Pair} (h : PairInv W p) (side : Role)
    (events : List Event) : (account (p.ends side.other).log).got <+:
      (account ((p.ends side).log ++ events)).wrote := by
  have := (h.fifo side.other).accepted
  rw [Role.other_other] at this
  rw [account_wrote_append]
  exact this.trans (List.prefix_append _ _)

/-- Every frame that was written fits its length field. -/
theorem wrote_fits {s : Session} {log : List Event} (h : Inv s log) :
    ∀ f ∈ (account log).wrote, f.Fits := by
  intro f hf
  obtain ⟨a, b, hsplit⟩ := List.append_of_mem hf
  obtain ⟨pre, post, rfl, -⟩ := split_wrote hsplit
  exact (h.lawful f.streamId _ _ _ (view_split _ rfl)).1

theorem pairInv_new (W : Role → UInt32) (streamWritable : Role → Bool) :
    PairInv W (.new W streamWritable) where
  role := fun _ => rfl
  window := fun _ => rfl
  inv := fun _ => inv_new ..
  fifo := fun _ => ⟨List.prefix_append [] _, fun _ => ⟨rfl, rfl, rfl⟩⟩

/-- What an end does keeps the pair, whatever it is. -/
theorem PairInv.act {W : Role → UInt32} {p : Pair} (h : PairInv W p) (side : Role)
    {r : Session × List Event} {inbox : Bytes} (hinv : Inv r.1 ((p.ends side).log ++ r.2))
    (hrole : r.1.role = side) (hwindow : r.1.initialWindow = W side)
    (hfifo : Fifo (account (p.ends side.other).log).wrote ⟨r.1, (p.ends side).log ++ r.2, inbox⟩) :
    PairInv W (p.act side r inbox) := by
  have hother := side.other_ne
  have hmine : (p.act side r inbox).ends side = ⟨r.1, (p.ends side).log ++ r.2, inbox⟩ := by
    simp [Pair.act]
  have htheirs : (p.act side r inbox).ends side.other = { p.ends side.other with
      inbox := (p.ends side.other).inbox ++ Pair.wire r.2 } := by
    simp [Pair.act, hother]
  constructor
  · intro x
    rcases side.eq_or_other x with rfl | rfl
    · rw [hmine]
      exact hrole
    · rw [htheirs]
      exact h.role _
  · intro x
    rcases side.eq_or_other x with rfl | rfl
    · rw [hmine]
      exact hwindow
    · rw [htheirs]
      exact h.window _
  · intro x
    rcases side.eq_or_other x with rfl | rfl
    · rw [hmine]
      exact hinv
    · rw [htheirs]
      exact h.inv _
  · intro x
    rcases side.eq_or_other x with rfl | rfl
    · rw [hmine, htheirs]
      exact hfifo
    · rw [Role.other_other, hmine, htheirs]
      have hold := h.fifo side.other
      rw [Role.other_other] at hold
      refine ⟨?_, fun hs => ?_⟩
      · dsimp only
        rw [account_wrote_append]
        exact hold.accepted.trans (List.prefix_append _ _)
      · obtain ⟨h1, h2, h3⟩ := hold.bytes hs
        refine ⟨h1, h2, ?_⟩
        dsimp only
        rw [account_wrote_append, Pair.wire, ← List.append_assoc, h3]
        simp [encodeFrames]

theorem pairInv_step {W : Role → UInt32} {p : Pair} (h : PairInv W p) (m : Pair.Move) :
    PairInv W (p.step m) := by
  cases m with
  | call side c =>
    obtain ⟨hinv, hkept⟩ := inv_call (h.inv side) c
    refine h.act side hinv (hkept.role.trans (h.role side))
      (hkept.initialWindow.trans (h.window side)) ?_
    have hold := h.fifo side
    have hgot : (account ((p.ends side).log ++ ((p.ends side).session.call c).2)).got =
        (account (p.ends side).log).got := by
      rw [account_got_append, call_got, List.append_nil]
    refine ⟨by rw [hgot]; exact hold.accepted, fun hs => ?_⟩
    dsimp only at hs ⊢
    rw [hkept.protocolFailed] at hs
    rw [hgot, hkept.decoder]
    exact hold.bytes hs
  | deliver side n replies =>
    obtain ⟨s', events, result, hreceive, hinv, hrole, hwindow, hfifo, -⟩ :=
      receive_fifo (h.inv side) (h.fifo side) (wrote_fits (h.inv side.other)) n replies
    have hact := h.act side (r := (s', events)) hinv (hrole.trans (h.role side))
      (hwindow.trans (h.window side)) hfifo
    simp only [Pair.step, hreceive]
    cases result with
    | ok _ => exact hact
    | error e => exact ⟨hact.role, hact.window, hact.inv, hact.fifo⟩

theorem pairInv_run {W : Role → UInt32} {p : Pair} (h : PairInv W p) (moves : List Pair.Move) :
    PairInv W (p.run moves) := by
  induction moves generalizing p with
  | nil => exact h
  | cons m moves ih => exact ih (pairInv_step h m)

end psx.transport
