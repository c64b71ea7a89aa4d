-- The laws of two honest ends, for every interleaving of their calls and of the
-- chunks of both channels: no end is ever blamed, nothing is lost or reordered,
-- and the credit of a stream is conserved.
import PipeShellX.Transport.SessionHonest

namespace psx.transport

open psx.os (ExitStatus)
open Session

/-! ## No end is blamed -/

/-- A call that says no GOAWAY and opens nothing that the decoder would refuse. -/
def Modest : Call → Prop
  | .goAway => False
  | .open_ request => (encodeOpen request).length ≤ kDefaultMaxFramePayload
  | _ => True

def Pair.Move.Modest : Pair.Move → Prop
  | .call _ c => transport.Modest c
  | .deliver _ _ replies => ∀ cs ∈ replies, ∀ c ∈ cs, transport.Modest c

instance : DecidablePred Modest := fun
  | .goAway => inferInstanceAs (Decidable False)
  | .open_ request =>
    inferInstanceAs (Decidable ((encodeOpen request).length ≤ kDefaultMaxFramePayload))
  | .sendData .. | .sendExit .. | .consume .. | .ping => inferInstanceAs (Decidable True)

instance : DecidablePred Pair.Move.Modest := fun
  | .call _ c => inferInstanceAs (Decidable (transport.Modest c))
  | .deliver _ _ replies =>
    inferInstanceAs (Decidable (∀ cs ∈ replies, ∀ c ∈ cs, transport.Modest c))

/-- A frame that modest calls write. -/
def ModestFrame (frame : Frame) : Prop :=
  frame.type ≠ .GoAway ∧ (frame.type = .Open → frame.payload.length ≤ kDefaultMaxFramePayload)

theorem call_modest {s : Session} {c : Call} (hc : Modest c) :
    ∀ frame ∈ (account (s.call c).2).wrote, ModestFrame frame := by
  intro frame hframe
  obtain ⟨hopen, hgoAway⟩ := call_events (mem_wrote hframe)
  refine ⟨fun ht => ?_, fun ht => ?_⟩
  · rw [hgoAway ht] at hc
    exact hc
  · obtain ⟨request, rfl, hpayload⟩ := hopen ht
    rw [hpayload]
    exact hc

theorem receive_modest (s : Session) (bytes : Bytes) {replies : List (List Call)}
    (hreplies : ∀ cs ∈ replies, ∀ c ∈ cs, Modest c) :
    ∀ f ∈ (account (s.receive bytes replies).2.1).wrote, ModestFrame f := by
  refine receive_wrote (fun cs hcs c hc s => call_modest (hreplies cs hcs c hc)) ?_
  rintro frame - f (⟨-, ht⟩ | ⟨-, ht | ht⟩) <;> simp [ModestFrame, ht]

/-- Neither end failed, and both wrote modest frames only. -/
structure Blameless (W : UInt32) (p : Pair) : Prop where
  pair : PairInv (fun _ => W) p
  alive : ∀ r, (p.ends r).session.protocolFailed = false
  modest : ∀ r, ∀ f ∈ (account (p.ends r).log).wrote, ModestFrame f
  errors : p.errors = []

theorem not_saysGoAway {frames : List Frame} (h : ∀ f ∈ frames, ModestFrame f) :
    saysGoAway frames = false := by
  simp only [saysGoAway, List.any_eq_false, decide_eq_true_eq]
  exact fun f hf => (h f hf).1

/-- The end that acted keeps its own promise, and the other's log is as it was. -/
theorem Blameless.act {W : UInt32} {p : Pair} (h : Blameless W p) {side : Role}
    {r : Session × List Event} {inbox : Bytes} (hpair : PairInv (fun _ => W) (p.act side r inbox))
    (halive : r.1.protocolFailed = false) (hmodest : ∀ f ∈ (account r.2).wrote, ModestFrame f) :
    Blameless W (p.act side r inbox) := by
  have hother := side.other_ne
  refine ⟨hpair, fun x => ?_, fun x => ?_, h.errors⟩
  · rcases side.eq_or_other x with rfl | rfl
    · simpa [Pair.act] using halive
    · simpa [Pair.act, hother] using h.alive side.other
  · rcases side.eq_or_other x with rfl | rfl
    · simp only [Pair.act, if_true, account_wrote_append]
      intro f hf
      rcases List.mem_append.mp hf with hf | hf
      · exact h.modest _ f hf
      · exact hmodest f hf
    · simpa [Pair.act, hother] using h.modest side.other

theorem blameless_step {W : UInt32} {p : Pair} (hW : W.toNat ≤ kDefaultMaxFramePayload)
    (h : Blameless W p) {m : Pair.Move} (hm : m.Modest) : Blameless W (p.step m) := by
  have hmax : W.toNat ≤ kMaxStreamWindow := Nat.le_trans hW (by decide)
  have hpair := pairInv_step h.pair m
  cases m with
  | call side c =>
    have hkept := (inv_call (h.pair.inv side) c).2
    exact h.act hpair (hkept.protocolFailed.trans (h.alive side)) (call_modest hm)
  | deliver side n replies =>
    obtain ⟨s', events, result, hreceive, hinv, hrole, hwindow, -, houtcome⟩ :=
      receive_fifo (h.pair.inv side) (h.pair.fifo side) (wrote_fits (h.pair.inv side.other)) n
        replies
    have hmodest := receive_modest (p.ends side).session ((p.ends side).inbox.take n) hm
    rw [hreceive] at hmodest
    simp only [Pair.step, hreceive] at hpair ⊢
    have hback := h.pair.back side events
    have hsame : (p.ends side.other).session.initialWindow = s'.initialWindow := by
      rw [hwindow, h.pair.window, h.pair.window]
    have hs'W : s'.initialWindow = W := by rw [hwindow, h.pair.window]
    cases houtcome with
    | ok halive => exact h.act hpair halive hmodest
    | poisoned hfailed =>
      rw [h.alive side] at hfailed
      cases hfailed
    | @tooLong a frame b hsplit hgot hlong =>
      have hframe := h.modest side.other frame (by rw [hsplit]; simp)
      have hopen : frame.type ≠ .Open := fun ht =>
        absurd (hframe.2 ht) (Nat.not_le_of_lt hlong)
      have hle := in_flight_length hinv (h.pair.inv side.other) hsame hsplit hgot hback
        (by rw [hs'W]; exact hmax) hopen
      rw [hs'W] at hle
      simp only [kDefaultMaxFramePayload] at hle hlong hW
      omega
    | @refused s frame more err hs hkept hkeptW hnext herror =>
      have hsrole : (p.ends side.other).session.role = s.role.other := by
        rw [hkept, h.pair.role, h.pair.role]
      have hsW : s.initialWindow = W := by rw [hkeptW, h.pair.window]
      obtain ⟨hgoAway, -⟩ := honest_refused hs (h.pair.inv side.other) hsrole
        (by rw [hsW, h.pair.window]) hnext hback (by rw [hsW]; exact hmax) herror
      rw [hs.sent_goAway, hs.received_goAway] at hgoAway
      have hsent : saysGoAway (account ((p.ends side).log ++ events)).wrote = false := by
        refine not_saysGoAway fun f hf => ?_
        rw [account_wrote_append] at hf
        rcases List.mem_append.mp hf with hf | hf
        · exact h.modest _ f hf
        · exact hmodest f hf
      have hreceived : saysGoAway (account ((p.ends side).log ++ events)).got = false := by
        refine not_saysGoAway fun f hf => h.modest side.other f ?_
        rw [hnext]
        exact List.mem_append_left _ hf
      rw [hsent, hreceived] at hgoAway
      simp at hgoAway

/-- Two ends with one initial window up to 16 MiB, whatever their owners call and however the
channels cut the bytes: no `receive` returns an error. -/
theorem honest_ends_never_fail (W : UInt32) (hW : W.toNat ≤ 16 * 1024 * 1024)
    (streamWritable : Role → Bool) (moves : List Pair.Move) (hmoves : ∀ m ∈ moves, m.Modest) :
    ((Pair.new (fun _ => W) streamWritable).run moves).errors = [] := by
  have hrun : ∀ p, Blameless W p → Blameless W (p.run moves) := by
    induction moves with
    | nil => exact fun p hp => hp
    | cons m moves ih =>
      intro p hp
      exact ih (fun m hm => hmoves m (by simp [hm])) _
        (blameless_step hW hp (hmoves m (by simp)))
  refine (hrun _ ⟨pairInv_new _ _, fun _ => rfl, fun r => ?_, rfl⟩).errors
  simp [Pair.new]

theorem no_end_fails_on_one_byte :
    ((Pair.new (fun _ => 4) fun _ => true).run
      [.call .Controller (.open_ ⟨[[65]], []⟩), .deliver .Node 7 [], .deliver .Node 100 [],
        .call .Controller (.sendData 1 [7] true .Stdout), .deliver .Node 100 [[.consume 1 1]],
        .call .Node (.sendExit 1 {}), .deliver .Controller 100 []]).errors = [] :=
  honest_ends_never_fail 4 (by decide) _ _ (by decide)

/-! ## Nothing is lost, doubled or reordered -/

/-- A frame that an end accepted, with the history that it had at the end that wrote it. -/
theorem accepted_history {W : Role → UInt32} {p : Pair} (h : PairInv W p) (r : Role)
    {id : StreamId} {pre : List Event} {a b : List Frame} {frame : Frame}
    (hpre : pre <+: view id (p.ends r).log) (hsplit : (account pre).got = a ++ frame :: b) :
    ∃ v post, view id (p.ends r.other).log = v ++ .wrote frame :: post ∧
      MayWrite r.other (W r.other).toNat v frame ∧ (account v).wrote = a ∧
      (account pre).got <+: (account (view id (p.ends r.other).log)).wrote := by
  have hinit : (account pre).got <+: (account (view id (p.ends r.other).log)).wrote := by
    obtain ⟨rest, hrest⟩ := hpre
    have h1 := (account_grows pre rest).2.2.1
    rw [hrest, (account_view _ _).2] at h1
    rw [(account_view _ _).1]
    exact h1.trans (filter_streams_mono id (h.fifo r).accepted)
  obtain ⟨more, hmore⟩ := hinit
  rw [hsplit] at hmore
  have hwrote : (account (view id (p.ends r.other).log)).wrote = a ++ frame :: (b ++ more) := by
    rw [← hmore]
    simp
  obtain ⟨v, post, hview, hv⟩ := split_wrote hwrote
  have hmay := ((h.inv r.other).lawful id v _ post hview).2
  rw [h.role, h.window] at hmay
  exact ⟨v, post, hview, hmay, hv, by rw [hsplit]; exact ⟨more, hmore⟩⟩

/-- What `onData` handed over so far was taken by `sendData` at the other end. -/
theorem delivered_taken {W : Role → UInt32} {p : Pair} (h : PairInv W p) (r : Role)
    (id : StreamId) : (account (view id (p.ends r).log)).delivered <+:
      (account (view id (p.ends r.other).log)).taken := by
  have h1 := (lawful_accounted ((h.inv r).lawful id)).delivered
  have h2 := (lawful_accounted ((h.inv r.other).lawful id)).sent
  refine (h1.trans (dataOf_mono ?_)).trans h2
  rw [(account_view _ _).1, (account_view _ _).2]
  exact filter_streams_mono id (h.fifo r).accepted

/-- The last piece comes after every byte that the other end took. -/
theorem end_delivered {W : Role → UInt32} {p : Pair} (h : PairInv W p) (r : Role)
    {id : StreamId} {v post : List Event} {bytes : Bytes} {channel : Channel}
    (hview : view id (p.ends r).log = v ++ .onData id bytes true channel :: post) :
    (account v).delivered ++ tag channel bytes =
        (account (view id (p.ends r.other).log)).taken ∧
      (account (view id (p.ends r.other).log)).takenEnd = true := by
  obtain ⟨-, -, hdata, -, hend⟩ := (h.inv r).lawful id v _ post hview
  obtain ⟨frame, hframe, hlast⟩ := List.any_eq_true.mp (hend rfl)
  obtain ⟨a, b, hsplit⟩ := List.append_of_mem hframe
  obtain ⟨u, rest, hpeer, hmay, hwrote, hinit⟩ :=
    accepted_history h r (hview ▸ List.prefix_append v _) hsplit
  have htype : frame.type = .Data := by
    simp only [Frame.endsData, Bool.and_eq_true, decide_eq_true_eq] at hlast
    exact hlast.1
  simp only [MayWrite, htype] at hmay
  obtain ⟨htakenEnd, hall⟩ := hmay.2.2.2.2.2.2 hlast
  have hlawful := (h.inv r.other).lawful id
  rw [hpeer] at hlawful
  obtain ⟨hclosed, hends, -⟩ := taken_closed _ hlawful (Or.inl htakenEnd)
  rw [← hpeer] at hclosed hends
  refine ⟨?_, hends htakenEnd⟩
  -- the pieces up to the last one are the whole of what was taken
  have hle := (dataOf_mono hinit).trans
    (lawful_accounted ((h.inv r.other).lawful id)).sent
  have hge : (account (view id (p.ends r.other).log)).taken <+: dataOf (account v).got := by
    rw [hclosed, ← hall, hwrote, hsplit, ← List.singleton_append, dataOf_append, dataOf_append,
      dataOf_one, ← List.append_assoc]
    exact List.prefix_append _ _
  rw [hdata]
  exact hle.eq_of_length (Nat.le_antisymm hle.length_le hge.length_le)

/-- EXIT comes after every byte, with the status of the one `sendExit` that counted. -/
theorem exit_delivered {W : Role → UInt32} {p : Pair} (h : PairInv W p) (r : Role)
    {id : StreamId} {v post : List Event} {status : ExitStatus}
    (hview : view id (p.ends r).log = v ++ .onExit id status :: post) :
    (account v).delivered = (account (view id (p.ends r.other).log)).taken ∧
      (account (view id (p.ends r.other).log)).exitsAsked = [status] := by
  obtain ⟨hdata, before, frame, rfl, htype, -, hstatus⟩ := (h.inv r).lawful id v _ post hview
  have hsplit : (account (before ++ [.got frame])).got = (account before).got ++ frame :: [] := by
    simp
  obtain ⟨u, rest, hpeer, hmay, hwrote, -⟩ :=
    accepted_history h r (hview ▸ List.prefix_append _ _) hsplit
  simp only [MayWrite, htype] at hmay
  obtain ⟨-, -, -, hdrained, -, asked, hasked, hpayload⟩ := hmay
  have hsame : asked = status := by
    rw [hpayload, decodeExit_encode] at hstatus
    exact Except.ok.inj hstatus
  have hlawful := (h.inv r.other).lawful id
  rw [hpeer] at hlawful
  obtain ⟨hclosed, -, hexits⟩ := taken_closed _ hlawful (Or.inr (by simp [hasked]))
  rw [← hpeer] at hclosed hexits
  refine ⟨?_, ?_⟩
  · rw [hdata, hclosed, ← hdrained, hwrote, hsplit, dataOf_append, dataOf_one,
      data_of_other (by simp [htype]), List.append_nil]
  · rw [hexits (by simp [hasked]), hasked, hsame]

/-- For every stream and direction: what `onData` handed over at one end is a prefix of what
`sendData` took at the other, byte by byte and channel by channel; endStream comes once, after
all of it; and `onExit` comes after all of it too, with the status that `sendExit` was given.
The windows of the two ends are any. -/
theorem nothing_is_lost_or_reordered (W : Role → UInt32) (streamWritable : Role → Bool)
    (moves : List Pair.Move) (r : Role) (id : StreamId) :
    let p := (Pair.new W streamWritable).run moves
    let taken := account (view id (p.ends r.other).log)
    (account (view id (p.ends r).log)).delivered <+: taken.taken ∧
    (∀ pre bytes channel post, (p.ends r).log = pre ++ .onData id bytes true channel :: post →
      (account (view id pre)).delivered ++ tag channel bytes = taken.taken ∧
        taken.takenEnd = true ∧
        ∀ bytes' endStream channel', .onData id bytes' endStream channel' ∉ post) ∧
    ∀ pre status post, (p.ends r).log = pre ++ .onExit id status :: post →
      (account (view id pre)).delivered = taken.taken ∧ taken.exitsAsked = [status] := by
  intro p taken
  have h : PairInv W p := pairInv_run (pairInv_new W streamWritable) moves
  refine ⟨delivered_taken h r id, fun pre bytes channel post hlog => ?_,
    fun pre status post hlog => exit_delivered h r (by rw [hlog]; exact view_split id rfl)⟩
  have hview : view id (p.ends r).log = view id pre ++
      .onData id bytes true channel :: view id post := by rw [hlog]; exact view_split id rfl
  obtain ⟨hall, hend⟩ := end_delivered h r hview
  exact ⟨hall, hend, no_callback_after_end (h.inv r) hlog⟩

/-! ## Credit is conserved -/

/-- The frames of one stream. -/
def onStream (id : StreamId) (frames : List Frame) : List Frame :=
  frames.filter fun f => f.streamId = id

/-- What travels to an end that has not failed: the frames that its decoder's buffer and its
channel hold, the last ones that the other end wrote. -/
theorem frames_in_flight {W : Role → UInt32} {p : Pair} (h : PairInv W p) (r : Role)
    (halive : (p.ends r).session.protocolFailed = false) :
    ∃ frames, encodeFrames frames =
        (p.ends r).session.decoder.buffer ++ (p.ends r).inbox ∧
      (account (p.ends r.other).log).wrote = (account (p.ends r).log).got ++ frames := by
  obtain ⟨-, -, hbytes⟩ := (h.fifo r).bytes halive
  rw [List.append_assoc] at hbytes
  have hfits := wrote_fits (h.inv r.other)
  obtain ⟨frames, hwrote, hrest⟩ := frameCode.encAll_cut
    (fun f hf => hfits f ((h.fifo r).accepted.subset hf)) hfits hbytes
  exact ⟨frames, hrest.symm, hwrote⟩

/-- The balance of one direction of a stream that is open at both ends. -/
theorem credit_balance {W : UInt32} {p : Pair} (h : PairInv (fun _ => W) p)
    (hW : W.toNat ≤ kMaxStreamWindow) (r : Role) {id : StreamId} {mine theirs : Stream}
    {toPeer toMe : List Frame}
    (hmine : (p.ends r).session.streams id = some mine)
    (htheirs : (p.ends r.other).session.streams id = some theirs)
    (hpeer : (account (p.ends r).log).wrote = (account (p.ends r.other).log).got ++ toPeer)
    (hme : (account (p.ends r.other).log).wrote = (account (p.ends r).log).got ++ toMe) :
    mine.sendCredit + (dataOf (onStream id toPeer)).length + theirs.recvWindow.outstanding +
      theirs.recvWindow.pendingUpdate + creditOf (onStream id toMe) = W.toNat := by
  have hlive := (hmine ▸ (h.inv r).streams id).of_some.2.1
  have hlive' := (htheirs ▸ (h.inv r.other).streams id).of_some.2.1
  rw [h.window] at hlive hlive'
  have hcredit := hlive.credit
  have houtstanding := hlive'.outstanding
  have hpending := hlive'.pending hW
  rw [hlive'.arrived] at houtstanding
  rw [(account_view _ _).1, (account_view _ _).2, hpeer, List.filter_append, dataOf_append,
    List.length_append] at hcredit
  rw [(account_view _ _).2] at houtstanding
  rw [(account_view _ _).1, hme, List.filter_append, creditOf_append] at hpending
  simp only [onStream]
  omega

theorem errors_step {W : UInt32} {p : Pair} (hW : W.toNat ≤ kMaxStreamWindow)
    (h : PairInv (fun _ => W) p) (m : Pair.Move) : ∀ e ∈ (p.step m).errors, e ∈ p.errors ∨
      e = protocolError "session poisoned by an earlier protocol error" ∨
      e = protocolError "frame payload length exceeds the maximum" ∨
      e = protocolError "OPEN received after GOAWAY" := by
  cases m with
  | call side c => exact fun e he => Or.inl he
  | deliver side n replies =>
    obtain ⟨s', events, result, hreceive, hinv, hrole, hwindow, -, houtcome⟩ :=
      receive_fifo (h.inv side) (h.fifo side) (wrote_fits (h.inv side.other)) n replies
    simp only [Pair.step, hreceive]
    cases houtcome with
    | ok _ => exact fun e he => Or.inl he
    | poisoned _ =>
      intro e he
      rcases List.mem_append.mp he with he | he
      · exact Or.inl he
      · exact Or.inr (Or.inl (List.mem_singleton.mp he))
    | tooLong _ _ _ =>
      intro e he
      rcases List.mem_append.mp he with he | he
      · exact Or.inl he
      · exact Or.inr (Or.inr (Or.inl (List.mem_singleton.mp he)))
    | @refused s frame more err hs hkept hkeptW hnext herror =>
      intro e he
      rcases List.mem_append.mp he with he | he
      · exact Or.inl he
      · have hback := h.back side events
        have hsW : s.initialWindow = W := by rw [hkeptW, h.window]
        obtain ⟨-, herr⟩ := honest_refused hs (h.inv side.other)
          (by rw [hkept, h.role, h.role]) (by rw [hsW, h.window]) hnext hback
          (by rw [hsW]; exact hW) herror
        rw [List.mem_singleton.mp he]
        exact Or.inr (Or.inr (Or.inr herr))

/-- Two ends with one initial window that the wire allows. No more than a window is ever
unconsumed, and no WINDOW_UPDATE overflows. While neither end has failed, the credit of every
stream that both have open adds up to the window; so once all was consumed and nothing is in
flight, the sender holds it all again. -/
theorem credit_is_conserved (W : UInt32) (hW : W.toNat ≤ 0x7FFFFFFF)
    (streamWritable : Role → Bool) (moves : List Pair.Move) :
    let p := (Pair.new (fun _ => W) streamWritable).run moves
    (∀ r id, (account (view id (p.ends r).log)).delivered.length ≤
      W.toNat + (account (view id (p.ends r).log)).consumed) ∧
    protocolError "WINDOW_UPDATE overflows the stream flow-control window" ∉ p.errors ∧
    ((∀ r, (p.ends r).session.protocolFailed = false) → ∃ toEnd : Role → List Frame,
      (∀ r, encodeFrames (toEnd r) =
        (p.ends r).session.decoder.buffer ++ (p.ends r).inbox) ∧
      ∀ r id mine theirs, (p.ends r).session.streams id = some mine →
        (p.ends r.other).session.streams id = some theirs →
        mine.sendCredit + (dataOf (onStream id (toEnd r.other))).length +
            theirs.recvWindow.outstanding + theirs.recvWindow.pendingUpdate +
            creditOf (onStream id (toEnd r)) = W.toNat ∧
          (theirs.recvWindow.outstanding = 0 → dataOf (onStream id (toEnd r.other)) = [] →
            creditOf (onStream id (toEnd r)) = 0 → mine.sendCredit = W.toNat)) := by
  intro p
  have h : PairInv (fun _ => W) p := pairInv_run (pairInv_new _ streamWritable) moves
  refine ⟨fun r id => ?_, ?_, fun halive => ?_⟩
  · have := lawful_window ((h.inv r).lawful id)
    rwa [h.window] at this
  · have hrun : ∀ (moves : List Pair.Move) q, PairInv (fun _ => W) q →
        protocolError "WINDOW_UPDATE overflows the stream flow-control window" ∉ q.errors →
        protocolError "WINDOW_UPDATE overflows the stream flow-control window" ∉
          (q.run moves).errors := by
      intro moves
      induction moves with
      | nil => exact fun q _ hq => hq
      | cons m moves ih =>
        intro q hinv hq
        refine ih _ (pairInv_step hinv m) fun hmem => ?_
        rcases errors_step hW hinv m _ hmem with hmem | hmem | hmem | hmem
        · exact hq hmem
        · exact absurd hmem (by decide)
        · exact absurd hmem (by decide)
        · exact absurd hmem (by decide)
    exact hrun moves _ (pairInv_new _ _) (by simp [Pair.new])
  · have hflight := fun r => frames_in_flight h r (halive r)
    choose toEnd hbytes hwrote using hflight
    refine ⟨toEnd, hbytes, fun r id mine theirs hmine htheirs => ?_⟩
    have hpeer := hwrote r.other
    rw [Role.other_other] at hpeer
    have hbalance := credit_balance h hW r hmine htheirs hpeer (hwrote r)
    refine ⟨hbalance, fun hout hdata hcredit => ?_⟩
    have hsmall := (htheirs ▸ (h.inv r.other).streams id).of_some.2.1.pending_small
    rw [hout, hdata, hcredit, List.length_nil] at hbalance
    omega

/-- Why the window is bounded, and why a failed end is left out. With a window over the limit
of a WINDOW_UPDATE the first credit that comes back overflows it. And a node that said GOAWAY
before it saw the second OPEN fails on it: the DATA behind that OPEN is gone from the channel,
and neither end counts its byte. -/
theorem credit_is_not_always_conserved :
    ((Pair.new (fun _ => 0x80000000) fun _ => false).run
      [.call .Controller (.open_ ⟨[[65]], []⟩), .deliver .Node 100 [],
        .call .Controller (.sendData 1 [7] false .Stdout), .deliver .Node 100 [],
        .call .Node (.consume 1 1), .deliver .Controller 100 []]).errors =
      [protocolError "WINDOW_UPDATE overflows the stream flow-control window"] ∧
    let p := (Pair.new (fun _ => 8) fun _ => false).run
      [.call .Controller (.open_ ⟨[[65]], []⟩), .deliver .Node 100 [],
        .call .Controller (.open_ ⟨[[65]], []⟩),
        .call .Controller (.sendData 1 [7] false .Stdout), .call .Node .goAway,
        .deliver .Node 100 []]
    ((p.ends .Controller).session.streams 1).map (·.sendCredit) = some 7 ∧
      ((p.ends .Node).session.streams 1).map (·.recvWindow) = some (.new 8 0) ∧
      (p.ends .Node).session.decoder.buffer ++ (p.ends .Node).inbox = [] ∧
      (p.ends .Controller).session.decoder.buffer ++ (p.ends .Controller).inbox =
        encodeFrames [⟨.GoAway, 0, 0, []⟩] := by
  decide

/-- Two bytes and their way back: half a window is consumed, so its credit is advertised. -/
theorem credit_is_conserved_for_two_bytes :
    let p := (Pair.new (fun _ => 4) fun _ => false).run
      [.call .Controller (.open_ ⟨[[65]], []⟩), .deliver .Node 100 [],
        .call .Controller (.sendData 1 [7, 8, 9] false .Stdout), .deliver .Node 100 [],
        .call .Node (.consume 1 2)]
    protocolError "WINDOW_UPDATE overflows the stream flow-control window" ∉ p.errors :=
  (credit_is_conserved 4 (by decide) _ _).2.1

end psx.transport
