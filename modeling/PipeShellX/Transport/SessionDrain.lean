-- Connection drain. A GOAWAY and an OPEN travel in opposite directions, so they can
-- cross: the node that said GOAWAY refuses the OPEN that was on its way, and fails with
-- every stream it still carries. The laws here say when a run has no such crossing,
-- and that a drain without one never makes `receive` fail.
import PipeShellX.Transport.SessionExchange

namespace psx.transport

open Session

/-! ## What is in flight -/

/-- The frames that the other end wrote and this one has not accepted. -/
def inFlight (theirs mine : List Event) : List Frame :=
  (account theirs).wrote.drop (account mine).got.length

def noneInFlight (type : FrameType) (theirs mine : List Event) : Bool :=
  (inFlight theirs mine).all fun frame => frame.type ≠ type

/-- The call starts no crossing: a node says GOAWAY when no OPEN is on its way to it, and a
controller opens a stream when no GOAWAY is on its way to it. -/
def Session.uncrossed (s : Session) (mine theirs : List Event) : Call → Bool
  | .goAway => s.role = .Controller || s.protocolFailed || noneInFlight .Open theirs mine
  | .open_ request => (s.open_ request).2.1 = 0 || noneInFlight .GoAway theirs mine
  | _ => true

def Session.uncrossedCalls (s : Session) (mine theirs : List Event) : List Call → Bool
  | [] => true
  | c :: cs =>
    s.uncrossed mine theirs c && (s.call c).1.uncrossedCalls (mine ++ (s.call c).2) theirs cs

/-- The calls of the handlers, each in the state in which `dispatchAll` makes it. -/
def Session.uncrossedAll (s : Session) (mine theirs : List Event) :
    List Frame → List (List Call) → Bool
  | [], _ => true
  | frame :: frames, replies =>
    match s.dispatch frame with
    | .error _ => true
    | .ok (s, events) =>
      let mine := mine ++ .got frame :: events
      let answers := s.calls (replies.headD [])
      s.uncrossedCalls mine theirs (replies.headD []) &&
        answers.1.uncrossedAll (mine ++ answers.2) theirs frames replies.tail

namespace Pair

def Move.uncrossed (p : Pair) : Move → Bool
  | .call side c => (p.ends side).session.uncrossed (p.ends side).log (p.ends side.other).log c
  | .deliver side n replies =>
    let me := p.ends side
    let pushed := me.session.decoder.push (me.inbox.take n)
    me.session.protocolFailed ||
      { me.session with decoder := pushed.1 }.uncrossedAll me.log (p.ends side.other).log
        pushed.2.1 replies

def uncrossed (p : Pair) : List Move → Bool
  | [] => true
  | m :: moves => m.uncrossed p && (p.step m).uncrossed moves

end Pair

/-! ## The order of OPEN and GOAWAY -/

/-- The logs of a controller and of a node without a crossing: when the node has said GOAWAY
it has accepted every OPEN, and the controller wrote its own GOAWAY after every OPEN. -/
structure Uncrossed (controller node : List Event) : Prop where
  accepted : saysGoAway (account node).wrote = true →
    opensOf (account controller).wrote = opensOf (account node).got
  before : ∀ a frame b, (account controller).wrote = a ++ frame :: b → frame.type = .Open →
    saysGoAway a = false

theorem opensOf_mono {a b : List Frame} (h : a <+: b) : opensOf a <+: opensOf b := by
  obtain ⟨c, rfl⟩ := h
  rw [opensOf_append]
  exact List.prefix_append _ _

theorem opensOf_none {frames : List Frame} (h : ∀ f ∈ frames, f.type ≠ .Open) :
    opensOf frames = [] := by
  simp only [opensOf, List.map_eq_nil_iff, List.filter_eq_nil_iff, decide_eq_true_eq]
  exact h

theorem saysGoAway_none {frames : List Frame} (h : ∀ f ∈ frames, f.type ≠ .GoAway) :
    saysGoAway frames = false := by
  simpa [saysGoAway] using h

theorem noneInFlight_iff {type : FrameType} {theirs mine : List Event} :
    noneInFlight type theirs mine = true ↔ ∀ f ∈ inFlight theirs mine, f.type ≠ type := by
  simp [noneInFlight]

theorem wrote_eq_got {theirs mine : List Event}
    (h : (account mine).got <+: (account theirs).wrote) :
    (account theirs).wrote = (account mine).got ++ inFlight theirs mine := by
  obtain ⟨rest, hrest⟩ := h
  simp [inFlight, ← hrest]

/-- The node goes on. -/
theorem Uncrossed.node {controller node events : List Event} (h : Uncrossed controller node)
    (hgot : (account (node ++ events)).got <+: (account controller).wrote)
    (hsaid : saysGoAway (account events).wrote = true →
      opensOf (account controller).wrote = opensOf (account node).got) :
    Uncrossed controller (node ++ events) := by
  refine ⟨fun hnow => ?_, h.before⟩
  rw [account_wrote_append, saysGoAway_append, Bool.or_eq_true] at hnow
  have hall := hnow.elim h.accepted hsaid
  have hgrows := opensOf_mono (account_grows node events).2.2.1
  rw [← hall] at hgrows
  exact hgrows.eq_of_length (Nat.le_antisymm hgrows.length_le (opensOf_mono hgot).length_le)

/-- The controller goes on. -/
theorem Uncrossed.controller {controller node events : List Event}
    (h : Uncrossed controller node)
    (hopen : ∀ a frame b, (account events).wrote = a ++ frame :: b → frame.type = .Open →
      saysGoAway ((account controller).wrote ++ a) = false ∧
        saysGoAway (account node).wrote = false) :
    Uncrossed (controller ++ events) node := by
  constructor
  · intro hsaid
    have hnone : opensOf (account events).wrote = [] := by
      apply opensOf_none
      intro f hf ht
      obtain ⟨a, b, hsplit⟩ := List.append_of_mem hf
      rw [(hopen a f b hsplit ht).2] at hsaid
      cases hsaid
    rw [account_wrote_append, opensOf_append, hnone, List.append_nil, h.accepted hsaid]
  · intro a frame b hsplit ht
    rw [account_wrote_append] at hsplit
    rcases List.append_eq_append_iff.mp hsplit with ⟨c, rfl, hmore⟩ | ⟨c, hwrote, hmore⟩
    · exact (hopen c frame b hmore ht).1
    · cases c with
      | nil =>
        rw [List.append_nil] at hwrote
        rw [← hwrote]
        simpa using (hopen [] frame b hmore.symm ht).1
      | cons first c =>
        obtain ⟨rfl, -⟩ := List.cons.inj hmore
        exact h.before a frame c hwrote ht

/-- The same, seen from one of the two ends. -/
def Between : Role → List Event → List Event → Prop
  | .Controller, mine, theirs => Uncrossed mine theirs
  | .Node, mine, theirs => Uncrossed theirs mine

/-- A step that writes neither OPEN nor GOAWAY. -/
theorem Between.plain {role : Role} {mine theirs events : List Event}
    (h : Between role mine theirs)
    (hgot : (account (mine ++ events)).got <+: (account theirs).wrote)
    (hplain : ∀ f ∈ (account events).wrote, f.type ≠ .Open ∧ f.type ≠ .GoAway) :
    Between role (mine ++ events) theirs := by
  cases role with
  | Controller =>
    refine Uncrossed.controller h fun a f b hsplit ht => ?_
    exact absurd ht (hplain f (by rw [hsplit]; simp)).1
  | Node =>
    refine Uncrossed.node h hgot fun hsaid => ?_
    rw [saysGoAway_none fun f hf => (hplain f hf).2] at hsaid
    cases hsaid

section

variable {s : Session} {mine theirs : List Event} (hinv : Inv s mine)
  (h : Between s.role mine theirs) (hback : (account mine).got <+: (account theirs).wrote)

include hinv h hback

theorem between_call {c : Call} (hc : s.uncrossed mine theirs c = true) :
    Between s.role (mine ++ (s.call c).2) theirs := by
  have hgot : (account (mine ++ (s.call c).2)).got <+: (account theirs).wrote := by
    rwa [account_got_append, call_got, List.append_nil]
  by_cases hopen : ∃ request, c = .open_ request
  · obtain ⟨request, rfl⟩ := hopen
    rcases open_cases s request with hnone | ⟨-, hrole, hsent, hreceived, hne, -, hsome⟩
    · simpa only [call, hnone, List.append_nil] using h
    · simp only [uncrossed, hsome, hne, decide_false, Bool.false_or, noneInFlight_iff] at hc
      rw [hrole] at h ⊢
      refine Uncrossed.controller h fun a f b hsplit _ => ?_
      have ha : a = [] := by
        simp only [call, hsome] at hsplit
        have hlen := congrArg List.length hsplit
        simp only [account_wrote, List.filterMap_cons, List.filterMap_nil, List.length_append,
          List.length_cons, List.length_nil] at hlen
        exact List.eq_nil_of_length_eq_zero (by omega)
      rw [ha, List.append_nil, ← hinv.sent_goAway, wrote_eq_got hback, saysGoAway_append,
        ← hinv.received_goAway, hsent, hreceived, saysGoAway_none hc]
      exact ⟨rfl, rfl⟩
  · have hnotOpen : ∀ f ∈ (account (s.call c).2).wrote, f.type ≠ .Open := by
      intro f hf ht
      obtain ⟨request, hreq, -⟩ := (call_events (mem_wrote hf)).1 ht
      exact hopen ⟨request, hreq⟩
    cases hrole : s.role with
    | Controller =>
      rw [hrole] at h
      refine Uncrossed.controller h fun a f b hsplit ht => ?_
      exact absurd ht (hnotOpen f (by rw [hsplit]; simp))
    | Node =>
      rw [hrole] at h
      refine Uncrossed.node h hgot fun hsaid => ?_
      obtain ⟨f, hf, ht⟩ := List.any_eq_true.mp hsaid
      obtain rfl := (call_events (mem_wrote hf)).2 (of_decide_eq_true ht)
      rcases goAway_cases s with hnone | ⟨halive, -, -⟩
      · simp [call, hnone] at hf
      · simp only [uncrossed, hrole, halive, noneInFlight_iff, Bool.or_false, reduceCtorEq,
          decide_false, Bool.false_or] at hc
        rw [wrote_eq_got hback, opensOf_append, opensOf_none hc, List.append_nil]

theorem between_calls {cs : List Call} (hcs : s.uncrossedCalls mine theirs cs = true) :
    Between s.role (mine ++ (s.calls cs).2) theirs := by
  induction cs generalizing s mine with
  | nil => simpa [calls] using h
  | cons c cs ih =>
    simp only [uncrossedCalls, Bool.and_eq_true] at hcs
    have hcall := between_call hinv h hback hcs.1
    obtain ⟨hnext, hkept⟩ := inv_call hinv c
    have hgot : (account (mine ++ (s.call c).2)).got <+: (account theirs).wrote := by
      rwa [account_got_append, call_got, List.append_nil]
    rw [← hkept.role] at hcall ⊢
    have := ih hnext hcall hgot hcs.2
    simpa [calls, List.append_assoc] using this

omit hinv hback in
theorem between_dispatch {frame : Frame} {r : Session × List Event}
    (hnext : (account mine).got ++ [frame] <+: (account theirs).wrote)
    (hok : s.dispatch frame = .ok r) : Between s.role (mine ++ .got frame :: r.2) theirs := by
  have hgot : (account (mine ++ .got frame :: r.2)).got = (account mine).got ++ [frame] := by
    rw [List.append_cons, account_got_append, dispatch_got hok, List.append_nil]
    simp
  refine h.plain (by rwa [hgot]) ?_
  have hcons : (account (.got frame :: r.2)).wrote = (account r.2).wrote := by
    rw [← List.singleton_append, account_wrote_append]
    rfl
  rw [hcons]
  refine dispatch_wrote hok ?_
  rintro f (⟨-, ht⟩ | ⟨-, ht | ht⟩) <;> simp [ht]

omit hback in
theorem between_all (hs : s.protocolFailed = false) {frames : List Frame}
    {replies : List (List Call)}
    (hnext : (account mine).got ++ frames <+: (account theirs).wrote)
    (hall : s.uncrossedAll mine theirs frames replies = true) :
    Between s.role (mine ++ (s.dispatchAll frames replies).2.1) theirs := by
  induction frames generalizing s mine replies with
  | nil => simpa [dispatchAll] using h
  | cons frame frames ih =>
    unfold dispatchAll
    unfold uncrossedAll at hall
    cases hok : s.dispatch frame with
    | error e => simpa using h
    | ok r =>
      simp only [hok, Bool.and_eq_true] at hall
      obtain ⟨hfirst, hrest⟩ := hall
      have hone : (account mine).got ++ [frame] <+: (account theirs).wrote := by
        refine .trans ?_ hnext
        exact ⟨frames, by simp⟩
      have hgot : (account (mine ++ .got frame :: r.2)).got = (account mine).got ++ [frame] := by
        rw [List.append_cons, account_got_append, dispatch_got hok, List.append_nil]
        simp
      obtain ⟨hinv₁, hkept₁⟩ := inv_dispatch hinv hs hok
      have h₁ := between_dispatch h hone hok
      rw [← hkept₁.role] at h₁
      have h₂ := between_calls hinv₁ h₁ (by rwa [hgot]) hfirst
      obtain ⟨hinv₂, hkept₂⟩ := inv_calls hinv₁ (replies.headD [])
      rw [← hkept₂.role] at h₂
      have h₃ := ih hinv₂ h₂ (by rw [hkept₂.protocolFailed, hkept₁.protocolFailed, hs])
        (by rw [account_got_append, calls_got, List.append_nil, hgot]; simpa using hnext) hrest
      rw [hkept₂.role, hkept₁.role] at h₃
      simpa [List.append_assoc] using h₃

end

/-! ## A run without a crossing -/

theorem Between.other {role : Role} {mine theirs : List Event} (h : Between role mine theirs) :
    Between role.other theirs mine := by
  cases role <;> exact h

theorem Between.cast {role role' : Role} {mine theirs : List Event}
    (h : Between role mine theirs) (hrole : role = role') : Between role' mine theirs :=
  hrole ▸ h

/-- The logs of a pair in which nothing has crossed. -/
def Pair.Between (p : Pair) : Prop :=
  ∀ r, transport.Between r (p.ends r).log (p.ends r.other).log

theorem Pair.between_act {p : Pair} {side : Role} {r : Session × List Event} {inbox : Bytes}
    (h : transport.Between side ((p.ends side).log ++ r.2) (p.ends side.other).log) :
    (p.act side r inbox).Between := by
  have hother := side.other_ne
  intro x
  rcases side.eq_or_other x with rfl | rfl
  · simpa [Pair.act, hother] using h
  · simpa [Pair.act, hother] using h.other

section

variable {W : Role → UInt32} {p : Pair} (hpair : PairInv W p) (h : p.Between)

include hpair h

theorem between_receive {side : Role} {n : Nat} {replies : List (List Call)}
    (hm : (Pair.Move.deliver side n replies).uncrossed p = true) :
    Between side ((p.ends side).log ++
      ((p.ends side).session.receive ((p.ends side).inbox.take n) replies).2.1)
      (p.ends side.other).log := by
  by_cases hs : (p.ends side).session.protocolFailed = true
  · simpa [receive, hs] using h side
  · have hall := (Bool.or_eq_true _ _).mp hm |>.resolve_left hs
    rw [Bool.not_eq_true] at hs
    rw [receive_events hs]
    cases hpush : (p.ends side).session.decoder.push ((p.ends side).inbox.take n) with
    | mk decoder more =>
    obtain ⟨frames, decoded⟩ := more
    rw [hpush] at hall
    obtain ⟨rest, later, hsent, -⟩ := pushed_frames (hpair.fifo side)
      (wrote_fits (hpair.inv side.other)) hs hpush
    exact (between_all ((hpair.inv side).decoder decoder) ((h side).cast (hpair.role side).symm)
      hs ⟨later, hsent.symm⟩ hall).cast (hpair.role side)

theorem between_step {m : Pair.Move} (hm : m.uncrossed p = true) : (p.step m).Between := by
  cases m with
  | call side c =>
    apply Pair.between_act
    exact (between_call (hpair.inv side) ((h side).cast (hpair.role side).symm)
      (hpair.fifo side).accepted hm).cast (hpair.role side)
  | deliver side n replies =>
    have hreceive := between_receive hpair h hm
    simp only [Pair.step]
    split
    · exact Pair.between_act hreceive
    · exact Pair.between_act hreceive

end

/-! ## What the refusals say -/

theorem refuse_error {bad : Prop} [Decidable bad] {what : String} {e : Error} :
    refuse bad what = .error e ↔ bad ∧ protocolError what = e := by
  unfold refuse
  split_ifs <;> simp [*]

theorem validateStreamFrame_error {frame : Frame} {allowed : UInt8} {e : Error}
    (h : validateStreamFrame frame allowed = .error e) :
    e = protocolError "stream frame must have a nonzero stream id" ∨
      e = protocolError "frame contains unknown or reserved flags" := by
  unfold validateStreamFrame at h
  split_ifs at h
  · exact Or.inl (Except.error.inj h).symm
  · exact Or.inr (Except.error.inj h).symm

theorem dispatchData_error {s : Session} (frame : Frame) {e : Error}
    (h : s.dispatchData frame = .error e) : e ≠ protocolError "OPEN received after GOAWAY" := by
  rintro rfl
  simp only [dispatchData, bind_error, refuse_error] at h
  rcases h with h | ⟨-, -, ⟨-, h⟩ | ⟨-, -, h⟩⟩
  · rcases validateStreamFrame_error h with h | h <;> exact absurd h (by decide)
  · exact absurd h (by decide)
  · split at h
    · simp only [bind_error, refuse_error] at h
      rcases h with ⟨-, h⟩ | ⟨-, -, h⟩
      · exact absurd h (by decide)
      · cases h
    · split at h
      · exact absurd (Except.error.inj h) (by decide)
      · simp only [bind_error, refuse_error] at h
        rcases h with ⟨-, h⟩ | ⟨-, -, h⟩
        · exact absurd h (by decide)
        · split at h
          · exact absurd (Except.error.inj h) (by decide)
          · cases h

theorem dispatchWindowUpdate_error {s : Session} (frame : Frame) {e : Error}
    (h : s.dispatchWindowUpdate frame = .error e) :
    e ≠ protocolError "OPEN received after GOAWAY" := by
  rintro rfl
  simp only [dispatchWindowUpdate, bind_error] at h
  rcases h with h | ⟨-, -, h | ⟨delta, -, h⟩⟩
  · rcases validateStreamFrame_error h with h | h <;> exact absurd h (by decide)
  · unfold decodeWindowUpdate at h
    split at h
    · dsimp only at h
      split_ifs at h
      exact absurd (Except.error.inj h) (by decide)
    · exact absurd (Except.error.inj h) (by decide)
  · split at h
    · simp only [bind_error, refuse_error] at h
      rcases h with ⟨-, h⟩ | ⟨-, -, h⟩
      · exact absurd h (by decide)
      · cases h
    · simp only [bind_error, refuse_error] at h
      rcases h with ⟨-, h⟩ | ⟨-, -, h⟩
      · exact absurd h (by decide)
      · cases h

section

variable {s t : Session} {log tlog : List Event} {frame : Frame} {more : List Frame}
  (hs : Inv s log) (ht : Inv t tlog) (hrole : t.role = s.role.other)
  (hnext : (account tlog).wrote = (account log).got ++ frame :: more)
  (hback : (account tlog).got <+: (account log).wrote)
  (h : Between s.role log tlog)

include hs ht hrole hnext hback h

/-- An OPEN that is next in line meets no GOAWAY. -/
theorem open_accepted (htype : frame.type = .Open) : ∃ r, s.dispatch frame = .ok r := by
  cases hok : s.dispatch frame with
  | ok r => exact ⟨r, rfl⟩
  | error err =>
    obtain ⟨v, post, -, hmay, -, -⟩ := in_flight ht hnext hback
    simp only [MayWrite, htype] at hmay
    have hnode : s.role = .Node := by
      have hcontroller := hmay.1
      rw [hrole] at hcontroller
      cases hr : s.role <;> simp [hr, Role.other] at hcontroller ⊢
    rw [hnode] at h
    have h : Uncrossed tlog log := h
    obtain ⟨hgoAway, -⟩ := open_refused hs ht hrole hnext hback htype hok
    rw [hs.sent_goAway, hs.received_goAway, h.before _ frame more hnext htype] at hgoAway
    rcases hgoAway with hsent | hreceived
    · have hall := h.accepted hsent
      rw [hnext, ← List.singleton_append, opensOf_append, opensOf_append, opensOf_one,
        if_pos htype] at hall
      have hlen := congrArg List.length hall
      simp only [List.length_append, List.length_singleton] at hlen
      omega
    · cases hreceived

theorem not_refused_for_goAway {err : Error} (herror : s.dispatch frame = .error err) :
    err ≠ protocolError "OPEN received after GOAWAY" := by
  have hnot : ¬ ∃ r, s.dispatch frame = .ok r := by
    rintro ⟨r, hok⟩
    rw [hok] at herror
    cases herror
  by_cases hdata : frame.type = .Data
  · refine dispatchData_error (s := s) frame ?_
    simpa only [dispatch, hdata] using herror
  · by_cases hupdate : frame.type = .WindowUpdate
    · refine dispatchWindowUpdate_error (s := s) frame ?_
      simpa only [dispatch, hupdate] using herror
    · refine absurd ?_ hnot
      by_cases hopen : frame.type = .Open
      · exact open_accepted hs ht hrole hnext hback h hopen
      · by_cases hexit : frame.type = .Exit
        · exact accept_exit hs ht hrole hnext hback hexit
        · exact accept_connection ht hnext hback hopen hdata hupdate hexit

end

/-! ## The laws of a drain -/

/-- One initial window for both ends, that a DATA frame can carry. -/
def OneWindow (W : Role → UInt32) : Prop :=
  W .Controller = W .Node ∧ (W .Node).toNat ≤ kDefaultMaxFramePayload

/-- A call of a run that opens streams and drains the connection, of frames that the decoder
takes. With one window for both ends it may be any other call too. -/
def Draining (W : Role → UInt32) : Call → Prop
  | .open_ request => (encodeOpen request).length ≤ kDefaultMaxFramePayload
  | .goAway | .ping => True
  | _ => OneWindow W

def Pair.Move.Draining (W : Role → UInt32) : Pair.Move → Prop
  | .call _ c => transport.Draining W c
  | .deliver _ _ replies => ∀ cs ∈ replies, ∀ c ∈ cs, transport.Draining W c

instance (W : Role → UInt32) : Decidable (OneWindow W) := inferInstanceAs (Decidable (_ ∧ _))

instance (W : Role → UInt32) : DecidablePred (Draining W) := fun
  | .open_ request =>
    inferInstanceAs (Decidable ((encodeOpen request).length ≤ kDefaultMaxFramePayload))
  | .goAway | .ping => inferInstanceAs (Decidable True)
  | .sendData .. | .sendExit .. | .consume .. => inferInstanceAs (Decidable (OneWindow W))

instance (W : Role → UInt32) : DecidablePred (Pair.Move.Draining W) := fun
  | .call _ c => inferInstanceAs (Decidable (transport.Draining W c))
  | .deliver _ _ replies =>
    inferInstanceAs (Decidable (∀ cs ∈ replies, ∀ c ∈ cs, transport.Draining W c))

/-- A frame that such calls write. -/
def DrainingFrame (W : Role → UInt32) (frame : Frame) : Prop :=
  (frame.type = .Open → frame.payload.length ≤ kDefaultMaxFramePayload) ∧
    (OneWindow W ∨ frame.type = .Open ∨ frame.type = .Ping ∨ frame.type = .Pong ∨
      frame.type = .GoAway)

theorem call_draining {W : Role → UInt32} {s : Session} {c : Call} (hc : Draining W c) :
    ∀ f ∈ (account (s.call c).2).wrote, DrainingFrame W f := by
  intro f hf
  have hevent := call_events (mem_wrote hf)
  refine ⟨fun ht => ?_, ?_⟩
  · obtain ⟨request, rfl, hpayload⟩ := hevent.1 ht
    rw [hpayload]
    exact hc
  · cases c with
    | open_ request =>
      rcases open_cases s request with hnone | ⟨-, -, -, -, -, -, hsome⟩
      · simp [call, hnone] at hf
      · simp only [call, hsome, account_wrote, List.filterMap_cons, List.filterMap_nil,
          List.mem_singleton] at hf
        simp [hf]
    | goAway =>
      rcases goAway_cases s with hnone | ⟨-, -, hsome⟩
      · simp [call, hnone] at hf
      · simp only [call, hsome, account_wrote, List.filterMap_cons, List.filterMap_nil,
          List.mem_singleton] at hf
        simp [hf]
    | ping =>
      have hmem := mem_wrote hf
      simp only [call, ping] at hmem
      split_ifs at hmem
      · cases hmem
      · rw [Event.wrote.inj (send_events hmem)]
        simp
    | _ => exact Or.inl hc

/-- Neither end failed, nothing crossed, and both wrote the frames of a drain only. -/
structure Drains (W : Role → UInt32) (p : Pair) : Prop where
  pair : PairInv W p
  between : p.Between
  alive : ∀ r, (p.ends r).session.protocolFailed = false
  frames : ∀ r, ∀ f ∈ (account (p.ends r).log).wrote, DrainingFrame W f
  errors : p.errors = []

theorem OneWindow.all {W : Role → UInt32} (h : OneWindow W) (r : Role) :
    W r = W .Node ∧ (W r).toNat ≤ kDefaultMaxFramePayload := by
  cases r
  · exact ⟨h.1, h.1 ▸ h.2⟩
  · exact ⟨rfl, h.2⟩

theorem Drains.act {W : Role → UInt32} {p : Pair} (h : Drains W p) {side : Role}
    {r : Session × List Event} {inbox : Bytes} (hpair : PairInv W (p.act side r inbox))
    (hbetween : (p.act side r inbox).Between) (halive : r.1.protocolFailed = false)
    (hframes : ∀ f ∈ (account r.2).wrote, DrainingFrame W f) :
    Drains W (p.act side r inbox) := by
  have hother := side.other_ne
  refine ⟨hpair, hbetween, fun x => ?_, fun x => ?_, h.errors⟩
  · rcases side.eq_or_other x with rfl | rfl
    · simpa [Pair.act] using halive
    · simpa [Pair.act, hother] using h.alive side.other
  · rcases side.eq_or_other x with rfl | rfl
    · simp only [Pair.act, if_true, account_wrote_append]
      intro f hf
      rcases List.mem_append.mp hf with hf | hf
      · exact h.frames _ f hf
      · exact hframes f hf
    · simpa [Pair.act, hother] using h.frames side.other

theorem receive_draining {W : Role → UInt32} {p : Pair} (h : Drains W p) {side : Role} {n : Nat}
    {replies : List (List Call)} (hm : (Pair.Move.deliver side n replies).Draining W) :
    ∀ f ∈ (account ((p.ends side).session.receive ((p.ends side).inbox.take n) replies).2.1).wrote,
      DrainingFrame W f := by
  refine receive_wrote (fun cs hcs c hc s => call_draining (hm cs hcs c hc)) ?_
  intro frame hframe f hanswer
  cases hpush : (p.ends side).session.decoder.push ((p.ends side).inbox.take n) with
  | mk decoder more =>
  obtain ⟨rest, later, hsent, -⟩ := pushed_frames (h.pair.fifo side)
    (wrote_fits (h.pair.inv side.other)) (h.alive side) hpush
  rw [hpush] at hframe
  obtain ⟨-, hkind⟩ := h.frames side.other frame (by rw [hsent]; simp [hframe])
  rcases hanswer with ⟨-, ht⟩ | ⟨hupdate, ht⟩
  · simp [DrainingFrame, ht]
  · simp only [hupdate, reduceCtorEq, or_false] at hkind
    rcases ht with ht | ht <;> simp [DrainingFrame, ht, hkind]

section

variable {W : Role → UInt32} {p : Pair} (h : Drains W p) {side : Role} {s : Session}
  {events : List Event} {a b : List Frame} {frame : Frame}
  (hinv : Inv s ((p.ends side).log ++ events)) (hwindow : s.initialWindow = W side)

include h hinv hwindow

/-- No frame of a drain is too long for the decoder. -/
theorem draining_fits (hsplit : (account (p.ends side.other).log).wrote = a ++ frame :: b)
    (hgot : (account ((p.ends side).log ++ events)).got <+: a) :
    frame.payload.length ≤ kDefaultMaxFramePayload := by
  have hback := h.pair.back side events
  obtain ⟨hopen, hkind⟩ := h.frames side.other frame (by rw [hsplit]; simp)
  by_cases ht : frame.type = .Open
  · exact hopen ht
  · by_cases hone : OneWindow W
    · have hlen := in_flight_length hinv (h.pair.inv side.other)
        (by rw [h.pair.window, hwindow, (hone.all side).1, (hone.all side.other).1]) hsplit hgot
        hback (by rw [hwindow]; exact Nat.le_trans (hone.all side).2 (by decide)) ht
      rw [hwindow] at hlen
      exact Nat.le_trans hlen (Nat.max_le.mpr ⟨(hone.all side).2, by decide⟩)
    · obtain ⟨v, post, -, hmay, -, -⟩ := in_flight (h.pair.inv side.other) hsplit hback
      have hconnection : frame.Connection := by
        simp only [hone, ht, false_or] at hkind
        rcases hkind with hk | hk | hk <;> simpa only [MayWrite, hk] using hmay
      rw [hconnection.2.2.2]
      exact Nat.zero_le _

/-- Every frame of a drain is accepted. -/
theorem draining_accepted (hrole : s.role = side)
    (hnext : (account (p.ends side.other).log).wrote =
      (account ((p.ends side).log ++ events)).got ++ frame :: b)
    (hbetween : Between side ((p.ends side).log ++ events) (p.ends side.other).log) :
    ∃ r, s.dispatch frame = .ok r := by
  have hback := h.pair.back side events
  have hother : (p.ends side.other).session.role = s.role.other := by rw [h.pair.role, hrole]
  have hbetween := hbetween.cast hrole.symm
  obtain ⟨-, hkind⟩ := h.frames side.other frame (by rw [hnext]; simp)
  by_cases ht : frame.type = .Open
  · exact open_accepted hinv (h.pair.inv side.other) hother hnext hback hbetween ht
  · by_cases hone : OneWindow W
    · cases hok : s.dispatch frame with
      | ok r => exact ⟨r, rfl⟩
      | error err =>
        have hnot := not_refused_for_goAway hinv (h.pair.inv side.other) hother hnext hback
          hbetween hok
        refine absurd (honest_refused hinv (h.pair.inv side.other) hother ?_ hnext hback ?_ hok).2
          hnot
        · rw [h.pair.window, hwindow, (hone.all side).1, (hone.all side.other).1]
        · rw [hwindow]
          exact Nat.le_trans (hone.all side).2 (by decide)
    · simp only [hone, ht, false_or] at hkind
      refine accept_connection (h.pair.inv side.other) hnext hback ht ?_ ?_ ?_ <;>
        rcases hkind with hk | hk | hk <;> simp [hk]

end

theorem drains_step {W : Role → UInt32} {p : Pair} (h : Drains W p) {m : Pair.Move}
    (hm : m.Draining W) (hcross : m.uncrossed p = true) : Drains W (p.step m) := by
  have hpair := pairInv_step h.pair m
  have hbetween := between_step h.pair h.between hcross
  cases m with
  | call side c =>
    have hkept := (inv_call (h.pair.inv side) c).2
    exact h.act hpair hbetween (hkept.protocolFailed.trans (h.alive side)) (call_draining hm)
  | deliver side n replies =>
    obtain ⟨s', events, result, hreceive, hinv, hrole, hwindow, -, houtcome⟩ :=
      receive_fifo (h.pair.inv side) (h.pair.fifo side) (wrote_fits (h.pair.inv side.other)) n
        replies
    have hframes := receive_draining h hm
    have hafter := between_receive h.pair h.between hcross
    rw [hreceive] at hframes hafter
    simp only [Pair.step, hreceive] at hpair hbetween ⊢
    rw [h.pair.window] at hwindow
    cases houtcome with
    | ok halive => exact h.act hpair hbetween halive hframes
    | poisoned hfailed =>
      rw [h.alive side] at hfailed
      cases hfailed
    | @tooLong a frame b hsplit hgot hlong =>
      have := draining_fits h hinv hwindow hsplit hgot
      omega
    | @refused s frame more err hs hkept hkeptW hnext herror =>
      obtain ⟨r, hok⟩ := draining_accepted h hs (by rw [hkeptW, h.pair.window])
        (by rw [hkept, h.pair.role]) hnext hafter
      rw [hok] at herror
      cases herror

/-- Without a crossing no `receive` is refused for a GOAWAY, whatever the windows and the other
calls. -/
theorem goAway_step {W : Role → UInt32} {p : Pair} (hpair : PairInv W p) (h : p.Between)
    {m : Pair.Move} (hcross : m.uncrossed p = true)
    (herrors : protocolError "OPEN received after GOAWAY" ∉ p.errors) :
    protocolError "OPEN received after GOAWAY" ∉ (p.step m).errors := by
  cases m with
  | call side c => exact herrors
  | deliver side n replies =>
    obtain ⟨s', events, result, hreceive, hinv, hrole, hwindow, -, houtcome⟩ :=
      receive_fifo (hpair.inv side) (hpair.fifo side) (wrote_fits (hpair.inv side.other)) n replies
    have hafter := between_receive hpair h hcross
    rw [hreceive] at hafter
    have hone : ∀ e, e ≠ protocolError "OPEN received after GOAWAY" →
        protocolError "OPEN received after GOAWAY" ∉ p.errors ++ [e] := by
      intro e hne
      simp [herrors, hne.symm]
    simp only [Pair.step, hreceive]
    cases houtcome with
    | ok _ => exact herrors
    | poisoned _ => exact hone _ (by decide)
    | tooLong _ _ _ => exact hone _ (by decide)
    | @refused s frame more err hs hkept hkeptW hnext herror =>
      have hother : (p.ends side.other).session.role = s.role.other := by
        rw [hpair.role, hkept, hpair.role]
      have hnot := not_refused_for_goAway hs (hpair.inv side.other) hother hnext
        (hpair.back side events) (hafter.cast (by rw [hkept, hpair.role])) herror
      exact hone err hnot

theorem goAway_run {W : Role → UInt32} {p : Pair} (hpair : PairInv W p) (h : p.Between)
    {moves : List Pair.Move} (hcross : p.uncrossed moves = true)
    (herrors : protocolError "OPEN received after GOAWAY" ∉ p.errors) :
    protocolError "OPEN received after GOAWAY" ∉ (p.run moves).errors := by
  induction moves generalizing p with
  | nil => exact herrors
  | cons m moves ih =>
    simp only [Pair.uncrossed, Bool.and_eq_true] at hcross
    exact ih (pairInv_step hpair m) (between_step hpair h hcross.1) hcross.2
      (goAway_step hpair h hcross.1 herrors)

theorem drains_run {W : Role → UInt32} {p : Pair} (h : Drains W p) {moves : List Pair.Move}
    (hmoves : ∀ m ∈ moves, m.Draining W) (hcross : p.uncrossed moves = true) :
    Drains W (p.run moves) := by
  induction moves generalizing p with
  | nil => exact h
  | cons m moves ih =>
    simp only [Pair.uncrossed, Bool.and_eq_true] at hcross
    exact ih (drains_step h (hmoves m (by simp)) hcross.1) (fun m hm => hmoves m (by simp [hm]))
      hcross.2

theorem between_new (W : Role → UInt32) (streamWritable : Role → Bool) :
    (Pair.new W streamWritable).Between := by
  have hempty : Uncrossed [] [] := ⟨fun h => absurd h (by decide), by simp⟩
  intro r
  cases r <;> exact hempty

/-- A drain is safe in every run in which nothing crosses: a node says GOAWAY only when no OPEN
is on its way to it, and a controller opens a stream only when no GOAWAY is on its way to it.
No `receive` is then refused for a GOAWAY, for any windows and any calls. When the run opens
streams that the decoder takes and drains, at any windows, or makes any calls with one window
for both ends, no `receive` fails at all and both ends stay alive. -/
theorem a_drain_without_a_crossing_is_safe (W : Role → UInt32) (streamWritable : Role → Bool)
    (moves : List Pair.Move)
    (hcross : (Pair.new W streamWritable).uncrossed moves = true) :
    let p := (Pair.new W streamWritable).run moves
    protocolError "OPEN received after GOAWAY" ∉ p.errors ∧
      ((∀ m ∈ moves, m.Draining W) →
        p.errors = [] ∧ ∀ r, (p.ends r).session.protocolFailed = false) := by
  intro p
  have hpair := pairInv_new W streamWritable
  have hbetween := between_new W streamWritable
  refine ⟨goAway_run hpair hbetween hcross (by simp [Pair.new]), fun hmoves => ?_⟩
  have hnew : Drains W (.new W streamWritable) :=
    ⟨hpair, hbetween, fun _ => rfl, fun r => by simp [Pair.new], rfl⟩
  have := drains_run hnew hmoves hcross
  exact ⟨this.errors, this.alive⟩

theorem a_drain_after_the_open_arrived_is_safe :
    ((Pair.new (fun _ => 8) fun _ => false).run
      [.call .Controller (.open_ ⟨[[65]], []⟩), .deliver .Node 100 [[.goAway]],
        .deliver .Controller 100 [[.open_ ⟨[[65]], []⟩]], .call .Controller .goAway,
        .deliver .Node 100 []]).errors = [] :=
  ((a_drain_without_a_crossing_is_safe (fun _ => 8) (fun _ => false) _
    (by decide)).2 (by decide)).1

/-- The crossing. Stream 1 is open at both ends and the OPEN of stream 2 is on its way when the
node announces its drain: the next `receive` of the node fails, with stream 1 still open. -/
theorem a_crossing_kills_open_streams :
    let before := (Pair.new (fun _ => 8) fun _ => false).run
      [.call .Controller (.open_ ⟨[[65]], []⟩), .deliver .Node 100 [],
        .call .Controller (.open_ ⟨[[65]], []⟩), .call .Node .goAway]
    let after := before.step (.deliver .Node 100 [])
    before.errors = [] ∧
      noneInFlight .Open (before.ends .Controller).log (before.ends .Node).log = false ∧
      after.errors = [protocolError "OPEN received after GOAWAY"] ∧
      (after.ends .Node).session.protocolFailed = true ∧
      ((after.ends .Node).session.streams 1).isSome ∧
      ((after.ends .Controller).session.streams 1).isSome := by
  decide

end psx.transport
