-- The lease of a transport: a peer that is silent for `maxMissed` intervals in a row is lost, at
-- the tick that ends the last of them and never before.
import Mathlib.Data.List.DropRight
import PipeShellX.Transport.NativeTransport

/-! ## Silence -/

namespace Silence

/-- The last `m` of some intervals are there, and nothing was heard in any of them. -/
def Silent (m : Nat) (heard : List Bool) : Prop :=
  m ≤ heard.length ∧ ∀ b ∈ heard.rtake m, b = false

instance (m : Nat) (heard : List Bool) : Decidable (Silent m heard) :=
  inferInstanceAs (Decidable (_ ∧ _))

/-- How many intervals in a row were silent by now. -/
def trailing (heard : List Bool) : Nat := (heard.rtakeWhile fun b => !b).length

@[simp] theorem trailing_nil : trailing [] = 0 := rfl

@[simp] theorem trailing_heard (heard : List Bool) : trailing (heard ++ [true]) = 0 := by
  unfold trailing
  rw [List.rtakeWhile_concat_neg _ _ _ (by simp)]
  rfl

@[simp] theorem trailing_silent (heard : List Bool) :
    trailing (heard ++ [false]) = trailing heard + 1 := by
  unfold trailing
  rw [List.rtakeWhile_concat_pos _ _ _ rfl, List.length_append, List.length_singleton]

theorem silent_iff (m : Nat) (heard : List Bool) : Silent m heard ↔ m ≤ trailing heard := by
  induction heard using List.reverseRecOn generalizing m with
  | nil => simp [Silent]
  | append_singleton heard b ih =>
    cases m with
    | zero => simp [Silent]
    | succ m =>
      have hlast : Silent (m + 1) (heard ++ [b]) ↔ Silent m heard ∧ b = false := by
        unfold Silent
        rw [List.rtake_concat_succ, List.length_append, List.length_singleton]
        simp only [List.mem_append, List.mem_singleton, or_imp, forall_and, forall_eq]
        constructor
        · rintro ⟨hlen, hall, hb⟩
          exact ⟨⟨by omega, hall⟩, hb⟩
        · rintro ⟨⟨hlen, hall⟩, hb⟩
          exact ⟨by omega, hall, hb⟩
      rw [hlast, ih]
      cases b with
      | false => simp
      | true => simp

/-- An interval that was heard breaks the silence. -/
theorem not_silent_of_window {m : Nat} {heard : List Bool}
    (h : ∀ a window b, heard = a ++ window ++ b → window.length = m → true ∈ window) :
    ¬ Silent m heard := by
  rintro ⟨hlen, hall⟩
  have hwindow := h (heard.take (heard.length - m)) (heard.rtake m) []
    (by rw [List.append_nil]; exact (List.take_append_drop ..).symm)
    (by rw [List.rtake, List.length_drop]; omega)
  exact absurd (hall true hwindow) nofun

end Silence

namespace psx.transport

open psx.os (Tls)

/-- What shows that the peer lives: the end of the handshake, and any plaintext. -/
def TransportEvent.heard : TransportEvent → Bool
  | .onReady | .receive _ => true
  | _ => false

namespace NativeTransport

variable {tls : Tls} {t t' : NativeTransport tls}

/-! ## What the callbacks do to the lease -/

/-- A change of a transport between two ticks. -/
structure Hears (t t' : NativeTransport tls) : Prop where
  heartbeat : t'.heartbeat = t.heartbeat
  missed : t'.missedBeats = t.missedBeats
  failed : t.failed = true → t'.failed = true
  log : ∃ more, t'.log = t.log ++ more ∧
    t'.sawInbound = (t.sawInbound || more.any TransportEvent.heard) ∧
    (0 < t.heartbeat.interval → t'.heartbeatTimer = (t.heartbeatTimer || decide (.onReady ∈ more)))

/-- A change that hears nothing. -/
theorem hears_quiet (hheartbeat : t'.heartbeat = t.heartbeat)
    (hmissed : t'.missedBeats = t.missedBeats)
    (hfailed : t.failed = true → t'.failed = true) (hsaw : t'.sawInbound = t.sawInbound)
    (htimer : t'.heartbeatTimer = t.heartbeatTimer)
    (hlog : ∃ more, t'.log = t.log ++ more ∧ ∀ e ∈ more, e.heard = false) : Hears t t' := by
  obtain ⟨more, hlog, hmore⟩ := hlog
  refine ⟨hheartbeat, hmissed, hfailed, more, hlog, ?_, fun _ => ?_⟩
  · rw [hsaw, List.any_eq_false.mpr fun e he => by simp [hmore e he], Bool.or_false]
  · have hready : .onReady ∉ more := fun hmem => absurd (hmore _ hmem) nofun
    rw [htimer, decide_eq_false hready, Bool.or_false]

theorem Hears.refl (t : NativeTransport tls) : Hears t t :=
  hears_quiet rfl rfl id rfl rfl ⟨[], by simp, by simp⟩

theorem Hears.trans {a b c : NativeTransport tls} (h : Hears a b) (h' : Hears b c) : Hears a c := by
  obtain ⟨first, hfirst, hsaw, htimer⟩ := h.log
  obtain ⟨second, hsecond, hsaw', htimer'⟩ := h'.log
  refine ⟨h'.heartbeat.trans h.heartbeat, h'.missed.trans h.missed,
    fun hf => h'.failed (h.failed hf),
    first ++ second, by rw [hsecond, hfirst, List.append_assoc], ?_, fun hinterval => ?_⟩
  · rw [hsaw', hsaw, List.any_append, Bool.or_assoc]
  · rw [htimer' (h.heartbeat ▸ hinterval), htimer hinterval, Bool.or_assoc]
    simp

theorem hears_fail (e : Error) (answers : Answers) : Hears t (t.fail e answers) := by
  unfold fail
  split_ifs
  · exact .refl t
  · exact hears_quiet rfl rfl (fun _ => rfl) rfl rfl ⟨[.onError e], rfl,
      by simp [TransportEvent.heard]⟩

theorem hears_handled (called : TlsStream tls × List TlsEvent) (answers : Answers) :
    Hears t (t.handled called answers) := by
  unfold handled
  have hset : Hears t { t with stream := called.1 } :=
    hears_quiet rfl rfl id rfl rfl ⟨[], by simp, by simp⟩
  refine Trace.foldl_induction (P := Hears t) hset ?_
  intro pre event post _ hpre
  refine hpre.trans ?_
  cases event with
  | onError e => exact hears_fail e answers
  | _ => exact .refl _

theorem hears_sends (sents : List Sent) (answers : Answers) : Hears t (t.sends sents answers) := by
  unfold sends
  refine Trace.foldl_induction (P := Hears t) (.refl t) ?_
  intro pre sent post _ hpre
  exact hpre.trans (hears_handled _ answers)

theorem hears_onReady (answers : Answers) : Hears t (t.onReady answers) := by
  have hauthorizes : Hears t t.authorizes.1 := by
    unfold authorizes
    split
    · exact .refl t
    · exact hears_quiet rfl rfl id rfl rfl ⟨[_], rfl, by simp [TransportEvent.heard]⟩
  unfold onReady
  dsimp only
  split_ifs
  · exact hauthorizes.trans (hears_fail _ answers)
  · refine (hauthorizes.trans ?_).trans (hears_sends _ answers)
    generalize t.authorizes.1 = a
    unfold armHeartbeat
    dsimp only
    split_ifs with hzero
    · refine ⟨rfl, rfl, id, [.onReady], rfl, ?_, fun hinterval => by omega⟩
      simp [note, TransportEvent.heard]
    · refine ⟨rfl, rfl, id, [.onReady], rfl, ?_, fun _ => ?_⟩
      · simp [note, TransportEvent.heard]
      · simp [note]

theorem hears_onData (plaintext : Bytes) (answers : Answers) :
    Hears t (t.onData plaintext answers) := by
  unfold onData
  split_ifs
  · exact .refl t
  · have hreceived : Hears t ({ t with sawInbound := true }.note (.receive plaintext)) :=
      ⟨rfl, rfl, id, [.receive plaintext], rfl, by simp [note, TransportEvent.heard], fun _ => by
        simp [note]⟩
    dsimp only
    split
    · exact hreceived.trans (hears_sends _ answers)
    · exact (hreceived.trans (hears_sends _ answers)).trans (hears_fail _ answers)

theorem hears_setStream (stream : TlsStream tls) : Hears t { t with stream } :=
  hears_quiet rfl rfl id rfl rfl ⟨[], by simp, by simp⟩

theorem hears_deliverAppData (answers : Answers) : Hears t (t.deliverAppData answers) := by
  unfold deliverAppData
  split_ifs
  · exact .refl t
  · dsimp only
    split
    · exact hears_handled _ answers
    · split_ifs
      · exact hears_setStream _
      · exact (hears_setStream _).trans (hears_onData _ answers)

theorem hears_driveHandshake (answers : Answers) : Hears t (t.driveHandshake answers) := by
  unfold driveHandshake
  split_ifs
  · exact .refl t
  · dsimp only
    split
    · exact hears_handled _ answers
    · split_ifs
      · have hestablished : ∀ stream : TlsStream tls,
            Hears t ({ t with stream }.note .established) :=
          fun stream => hears_quiet rfl rfl id rfl rfl ⟨[_], rfl, by simp [TransportEvent.heard]⟩
        exact ((hestablished _).trans (hears_onReady answers)).trans (hears_deliverAppData answers)
      · exact hears_setStream _

theorem hears_onReadable (answers : Answers) : Hears t (t.onReadable answers) := by
  have hdrained := hears_handled (t := t) (t.stream.drain answers.reads) answers
  unfold onReadable
  dsimp only
  split_ifs
  · exact hdrained
  · exact (hdrained.trans (hears_driveHandshake answers)).trans (hears_handled _ answers)
  · exact (hdrained.trans (hears_deliverAppData answers)).trans (hears_handled _ answers)

theorem hears_onEvent (answers : Answers) : Hears t (t.onEvent answers) := by
  unfold onEvent
  by_cases hdead : t.stream.failed = true
  · rw [if_pos hdead]
    exact .refl t
  · rw [if_neg hdead]
    extract_lets written read
    have hwritten : Hears t written := by
      unfold written
      split_ifs
      · exact hears_handled _ answers
      · exact .refl t
    have hread : Hears t read := by
      unfold read
      split_ifs
      · exact hwritten.trans (hears_onReadable answers)
      · exact hwritten
    split_ifs
    · exact hread.trans (hears_handled _ answers)
    · exact hread

/-- Every event but a tick. -/
theorem hears_step {input : TransportInput} (h : ∀ ping answers, input ≠ .tick ping answers) :
    Hears t (t.step input) := by
  unfold step
  cases input with
  | connected answers =>
    dsimp only
    unfold start
    split_ifs
    · exact .refl t
    · exact (hears_driveHandshake answers).trans (hears_handled _ answers)
  | connectFailed e answers =>
    dsimp only
    split_ifs
    · exact .refl t
    · exact hears_handled _ answers
  | ready answers => exact hears_onEvent answers
  | tick ping answers => exact absurd rfl (h ping answers)
  | send sents answers => exact hears_sends sents answers

/-! ## The intervals -/

/-- A transport with the intervals between its ticks: which of those that are `past` were heard in,
and whether the one that goes on `now` is. -/
structure Observed (tls : Tls) where
  transport : NativeTransport tls
  past : List Bool := []
  now : Bool := false

namespace Observed

variable {o : Observed tls}

/-- A tick that is armed ends an interval. -/
def step (o : Observed tls) (input : TransportInput) : Observed tls :=
  let transport := o.transport.step input
  match input with
  | .tick .. =>
    if o.transport.heartbeatTimer then { transport, past := o.past ++ [o.now] }
    else { o with transport }
  | _ =>
    { o with
      transport
      now := o.now || (transport.log.drop o.transport.log.length).any TransportEvent.heard }

/-- The observation does not change the transport. -/
theorem foldl_transport (o : Observed tls) (inputs : List TransportInput) :
    (inputs.foldl step o).transport = o.transport.run inputs := by
  induction inputs generalizing o with
  | nil => rfl
  | cons input inputs ih =>
    have hnext : (o.step input).transport = o.transport.step input := by
      unfold step
      cases input with
      | tick ping answers =>
        dsimp only
        split_ifs <;> rfl
      | _ => rfl
    rw [List.foldl_cons, ih, hnext]
    rfl

end Observed

/-- The error of a peer that does not answer. -/
def leaseExpired : Error := ⟨.Timeout, 0, "peer unresponsive (lease expired)"⟩

/-- The transport fails for the lease, and arms no other tick. -/
structure Expires (t t' : NativeTransport tls) : Prop where
  alive : t.failed = false
  heartbeat : t'.heartbeat = t.heartbeat
  log : t'.log = t.log ++ [.onError leaseExpired]
  failed : t'.failed = true
  timer : t'.heartbeatTimer = false

theorem armHeartbeat_on (h : 0 < t.heartbeat.interval) :
    t.armHeartbeat = { t with heartbeatTimer := true } := if_neg (Nat.ne_of_gt h)

theorem sends_saw (sents : List Sent) (answers : Answers) :
    (t.sends sents answers).sawInbound = t.sawInbound := by
  unfold sends
  refine Trace.foldl_induction (P := fun u : NativeTransport tls => u.sawInbound =
    t.sawInbound) rfl ?_
  intro pre sent post _ hpre
  unfold send handled
  refine Trace.foldl_induction (P := fun u : NativeTransport tls => u.sawInbound = t.sawInbound)
    hpre ?_
  intro pre event post _ hpre
  cases event with
  | onError e =>
    unfold callback fail
    dsimp only
    split_ifs
    · exact hpre
    · exact hpre
  | _ => exact hpre

/-- The lease after a tick that does not end it. -/
structure Renewed (t t' : NativeTransport tls) : Prop where
  heartbeat : t'.heartbeat = t.heartbeat
  saw : t'.sawInbound = false
  missed : t'.missedBeats = if t.sawInbound then 0 else t.missedBeats + 1
  timer : t'.heartbeatTimer = true
  log : ∃ more, t'.log = t.log ++ more

theorem tick_cases (hinterval : 0 < t.heartbeat.interval) (halive : t.failed = false)
    (htimer : t.heartbeatTimer = true) (ping : List Sent) (answers : Answers) :
    (t.sawInbound = false ∧ t.heartbeat.maxMissed ≤ t.missedBeats + 1 ∧
      Expires t (t.step (.tick ping answers))) ∨
    (¬ (t.sawInbound = false ∧ t.heartbeat.maxMissed ≤ t.missedBeats + 1) ∧
      Renewed t (t.step (.tick ping answers))) := by
  have hnot : ¬ t.failed = true := by simp [halive]
  unfold step
  dsimp only
  rw [if_pos htimer]
  unfold heartbeatTick
  dsimp only
  rw [if_neg hnot]
  by_cases hexpired : t.sawInbound = false ∧ t.heartbeat.maxMissed ≤ t.missedBeats + 1
  · obtain ⟨hsilent, hmissed⟩ := hexpired
    refine .inl ⟨hsilent, hmissed, ?_⟩
    rw [if_pos (by simp [hsilent, hmissed])]
    unfold fail
    dsimp only
    rw [if_neg hnot]
    exact ⟨halive, rfl, rfl, rfl, rfl⟩
  · refine .inr ⟨hexpired, ?_⟩
    rw [if_neg]
    · have hsent := hears_sends (t := { t with
          heartbeatTimer := false
          missedBeats := if t.sawInbound then (0 : Int) else t.missedBeats + 1
          sawInbound := false }) ping answers
      obtain ⟨more, hlog, -⟩ := hsent.log
      rw [armHeartbeat_on (by rw [hsent.heartbeat]; exact hinterval)]
      exact ⟨hsent.heartbeat, sends_saw ping answers, hsent.missed, rfl, more, hlog⟩
    · rintro ⟨hsilent, hmissed⟩
      have hsilent : t.sawInbound = false := by simpa using hsilent
      rw [hsilent, if_neg Bool.false_ne_true] at hmissed
      exact hexpired ⟨hsilent, hmissed⟩

/-! ## The lease over a run -/

open Silence (Silent trailing silent_iff trailing_heard trailing_silent)

/-- The flag and the counter of a transport that did not fail stand for what was heard, and no tick
so far ended a silence of `m` intervals. -/
structure Leased (heartbeat : HeartbeatOptions) (m : Nat) (o : Observed tls) : Prop where
  heartbeat : o.transport.heartbeat = heartbeat
  armed : .onReady ∈ o.transport.log → o.transport.failed = false →
    o.transport.heartbeatTimer = true
  unarmed : .onReady ∉ o.transport.log → o.transport.heartbeatTimer = false
  saw : o.transport.failed = false → o.transport.sawInbound = o.now
  missed : o.transport.failed = false → o.transport.missedBeats = trailing o.past
  early : o.transport.failed = false → ∀ k ≤ o.past.length, ¬ Silent m (o.past.take k)
  idle : .onReady ∉ o.transport.log → o.past = []
  first : .onReady ∈ o.transport.log → (o.past ++ [o.now]).head? = some true

variable {heartbeat : HeartbeatOptions} {m : Nat} {o : Observed tls}

theorem Leased.hears (h : Leased heartbeat m o) (hinterval : 0 < heartbeat.interval)
    {input : TransportInput} (hinput : ∀ ping answers, input ≠ .tick ping answers) :
    Leased heartbeat m (o.step input) := by
  have hears := hears_step (t := o.transport) hinput
  obtain ⟨more, hlog, hsaw, htimer⟩ := hears.log
  have htimer := htimer (h.heartbeat ▸ hinterval)
  have hstep : o.step input = { o with
      transport := o.transport.step input, now := o.now || more.any TransportEvent.heard } := by
    unfold Observed.step
    cases input with
    | tick ping answers => exact absurd rfl (hinput ping answers)
    | _ => simp only [hlog, List.drop_left]
  have halive : (o.transport.step input).failed = false → o.transport.failed = false := by
    intro hf
    by_contra hfailed
    exact absurd ((hears.failed (by simpa using hfailed)).symm.trans hf) nofun
  rw [hstep]
  refine ⟨hears.heartbeat.trans h.heartbeat, fun hready hf => ?_, fun hnone => ?_, fun hf => ?_,
    fun hf => ?_, fun hf => h.early (halive hf), fun hnone => ?_, fun hready => ?_⟩
  · dsimp only at hready
    rw [hlog, List.mem_append] at hready
    rcases hready with hready | hready
    · exact htimer.trans (by rw [h.armed hready (halive hf), Bool.true_or])
    · exact htimer.trans (by rw [decide_eq_true hready, Bool.or_true])
  · dsimp only at hnone
    rw [hlog, List.mem_append, not_or] at hnone
    exact htimer.trans (by rw [h.unarmed hnone.1, decide_eq_false hnone.2]; rfl)
  · exact hsaw.trans (by rw [h.saw (halive hf)])
  · exact hears.missed.trans (h.missed (halive hf))
  · dsimp only at hnone
    rw [hlog, List.mem_append, not_or] at hnone
    exact h.idle hnone.1
  · dsimp only at hready ⊢
    rw [hlog, List.mem_append] at hready
    by_cases hbefore : .onReady ∈ o.transport.log
    · have hfirst := h.first hbefore
      cases hpast : o.past with
      | nil =>
        rw [hpast] at hfirst
        have hnow : o.now = true := by simpa using hfirst
        simp [hnow]
      | cons b past =>
        rw [hpast] at hfirst
        exact hfirst
    · have hany : more.any TransportEvent.heard = true :=
        List.any_eq_true.mpr ⟨_, hready.resolve_left hbefore, rfl⟩
      rw [h.idle hbefore, hany, Bool.or_true]
      rfl

/-- A list with no silence so far has none after one interval more, unless that ends one. -/
theorem early_snoc {past : List Bool} {b : Bool} (h : ∀ k ≤ past.length, ¬ Silent m (past.take k))
    (hlast : ¬ Silent m (past ++ [b])) :
    ∀ k ≤ (past ++ [b]).length, ¬ Silent m ((past ++ [b]).take k) := by
  intro k hk
  rw [List.length_append, List.length_singleton] at hk
  by_cases hk' : k ≤ past.length
  · rw [List.take_append_of_le_length hk']
    exact h k hk'
  · rw [List.take_of_length_le (by simp; omega)]
    exact hlast

theorem silent_now (h : Leased heartbeat m o) (hm : (m : Int) = heartbeat.maxMissed) (hpos : 1 ≤ m)
    (halive : o.transport.failed = false) :
    (o.transport.sawInbound = false ∧ o.transport.heartbeat.maxMissed ≤
      o.transport.missedBeats + 1) ↔
      Silent m (o.past ++ [o.now]) := by
  rw [h.saw halive, h.missed halive, h.heartbeat, ← hm, silent_iff]
  cases o.now with
  | false =>
    rw [trailing_silent]
    simp
    omega
  | true =>
    rw [trailing_heard]
    simp
    omega

theorem Leased.tick (h : Leased heartbeat m o) (hinterval : 0 < heartbeat.interval)
    (hm : (m : Int) = heartbeat.maxMissed) (hpos : 1 ≤ m) (ping : List Sent) (answers : Answers) :
    Leased heartbeat m (o.step (.tick ping answers)) := by
  by_cases htimer : o.transport.heartbeatTimer = true
  · have hready : .onReady ∈ o.transport.log := by
      by_contra hnone
      exact absurd ((h.unarmed hnone).symm.trans htimer) nofun
    have hstep : o.step (.tick ping answers) =
        ⟨o.transport.step (.tick ping answers), o.past ++ [o.now], false⟩ := if_pos htimer
    have hfirst : (o.past ++ [o.now] ++ [false]).head? = some true := by
      rw [List.head?_append, h.first hready]
      rfl
    rw [hstep]
    by_cases hfailed : o.transport.failed = true
    · have hsame : o.transport.step (.tick ping answers) =
          { o.transport with heartbeatTimer := false } := by
        unfold NativeTransport.step heartbeatTick
        dsimp only
        rw [if_pos htimer, if_pos hfailed]
      have hdead : ∀ {P : Prop}, o.transport.failed = false → P := fun hf =>
        absurd (hf.symm.trans hfailed) nofun
      rw [hsame]
      exact ⟨h.heartbeat, fun _ hf => hdead hf, fun _ => rfl, fun hf => hdead hf,
        fun hf => hdead hf,
        fun hf => hdead hf, fun hnone => absurd hready hnone, fun _ => hfirst⟩
    · have halive : o.transport.failed = false := by simpa using hfailed
      rcases tick_cases (h.heartbeat ▸ hinterval) halive htimer ping answers with
        ⟨-, -, hexpires⟩ | ⟨hgoes, hrenewed⟩
      · have hdead : ∀ {P : Prop}, (o.transport.step (.tick ping answers)).failed = false → P :=
          fun hf =>
          absurd (hf.symm.trans hexpires.failed) nofun
        refine ⟨hexpires.heartbeat.trans h.heartbeat, fun _ hf => hdead hf, fun _ => hexpires.timer,
          fun hf => hdead hf, fun hf => hdead hf, fun hf => hdead hf, fun hnone => ?_,
            fun _ => hfirst⟩
        refine absurd ?_ hnone
        dsimp only
        rw [hexpires.log]
        exact List.mem_append_left _ hready
      · obtain ⟨more, hlog⟩ := hrenewed.log
        have hstill : .onReady ∈ (o.transport.step (.tick ping answers)).log := by
          rw [hlog]
          exact List.mem_append_left _ hready
        refine ⟨hrenewed.heartbeat.trans h.heartbeat, fun _ _ => hrenewed.timer, fun hnone =>
          absurd hstill hnone, fun _ => hrenewed.saw, fun _ => ?_, fun _ => ?_, fun hnone =>
          absurd hstill hnone, fun _ => hfirst⟩
        · dsimp only
          rw [hrenewed.missed, h.saw halive, h.missed halive]
          cases o.now with
          | false => simp
          | true => simp
        · exact early_snoc (h.early halive) fun hsilent =>
            hgoes ((silent_now h hm hpos halive).mpr hsilent)
  · have hstep : o.step (.tick ping answers) = o := by
      unfold Observed.step NativeTransport.step
      dsimp only
      rw [if_neg htimer, if_neg htimer]
    rw [hstep]
    exact h

theorem Leased.step (h : Leased heartbeat m o) (hinterval : 0 < heartbeat.interval)
    (hm : (m : Int) = heartbeat.maxMissed) (hpos : 1 ≤ m) (input : TransportInput) :
    Leased heartbeat m (o.step input) := by
  cases input with
  | tick ping answers => exact h.tick hinterval hm hpos ping answers
  | _ => exact h.hears hinterval (by simp)

theorem create_leased (receiving : tls.State) (sending : tls.Sending)
    (authorize : Option (String → Bool)) (sanUri : String) (heartbeat : HeartbeatOptions)
    (hpos : 1 ≤ m) :
    Leased heartbeat m ⟨create receiving sending authorize sanUri heartbeat, [], false⟩ where
  heartbeat := rfl
  armed hready := by cases hready
  unarmed _ := rfl
  saw _ := rfl
  missed _ := rfl
  early _ k _ hsilent := by
    rw [List.take_nil, silent_iff] at hsilent
    exact absurd (Nat.lt_of_lt_of_le hpos hsilent) (Nat.lt_irrefl 0)
  idle _ := rfl
  first hready := by cases hready

/-! ## A peer that falls silent -/

/-- The keepalive timer fires. -/
def TransportInput.isTick : TransportInput → Bool
  | .tick .. => true
  | _ => false

/-- Nothing is heard of the peer in any step of a run. -/
def Unheard (t : NativeTransport tls) : List TransportInput → Prop
  | [] => True
  | input :: inputs =>
    ((t.step input).log.drop t.log.length).any TransportEvent.heard = false ∧
      Unheard (t.step input) inputs

theorem step_failed (hfailed : t.failed = true) (input : TransportInput) :
    (t.step input).failed = true := by
  by_cases htick : ∃ ping answers, input = .tick ping answers
  · obtain ⟨ping, answers, rfl⟩ := htick
    unfold step heartbeatTick
    dsimp only
    rw [if_pos hfailed]
    split_ifs
    · exact hfailed
    · exact hfailed
  · exact (hears_step fun ping answers heq => htick ⟨ping, answers, heq⟩).failed hfailed

theorem run_failed (hfailed : t.failed = true) (inputs : List TransportInput) :
    (t.run inputs).failed = true := by
  unfold run
  refine Trace.foldl_induction (P := fun t : NativeTransport tls => t.failed = true) hfailed ?_
  intro pre input post _ hpre
  exact step_failed hpre input

theorem armHeartbeat_log (t : NativeTransport tls) : t.armHeartbeat.log = t.log := by
  unfold armHeartbeat
  split_ifs <;> rfl

/-- The log of a transport only grows. -/
theorem log_step (t : NativeTransport tls) (input : TransportInput) :
    ∃ more, (t.step input).log = t.log ++ more := by
  by_cases htick : ∃ ping answers, input = .tick ping answers
  · obtain ⟨ping, answers, rfl⟩ := htick
    unfold step heartbeatTick
    dsimp only
    generalize (if t.sawInbound then (0 : Int) else t.missedBeats + 1) = missedBeats
    split_ifs
    · exact ⟨[], by simp⟩
    · exact (hears_fail (t := { t with heartbeatTimer := false, missedBeats }) _ answers).log.imp
        fun more h => h.1
    · rw [armHeartbeat_log]
      exact (hears_sends (t := { t with heartbeatTimer := false, missedBeats, sawInbound := false })
        ping answers).log.imp fun more h => h.1
    · exact ⟨[], by simp⟩
  · exact (hears_step fun ping answers heq => htick ⟨ping, answers, heq⟩).log.imp fun more h => h.1

/-- Every tick adds to the silence of a peer that is not heard. -/
theorem unheard_grows (h : Leased heartbeat m o) (hinterval : 0 < heartbeat.interval)
    (hm : (m : Int) = heartbeat.maxMissed) (hpos : 1 ≤ m) (hready : .onReady ∈ o.transport.log)
    {later : List TransportInput} (hunheard : o.transport.Unheard later)
    (halive : (later.foldl Observed.step o).transport.failed = false) :
    Leased heartbeat m (later.foldl Observed.step o) ∧
      trailing ((later.foldl Observed.step o).past ++ [(later.foldl Observed.step o).now]) =
        trailing (o.past ++ [o.now]) + later.countP TransportInput.isTick := by
  induction later generalizing o with
  | nil => exact ⟨h, rfl⟩
  | cons input later ih =>
    have hnow : o.transport.failed = false := by
      by_contra hfailed
      have hend := run_failed (by simpa using hfailed) (input :: later)
      rw [Observed.foldl_transport] at halive
      exact absurd (hend.symm.trans halive) nofun
    have hnext : (o.step input).transport = o.transport.step input :=
      Observed.foldl_transport o [input]
    obtain ⟨more, hlog⟩ := log_step o.transport input
    have hgrows : trailing ((o.step input).past ++ [(o.step input).now]) =
        trailing (o.past ++ [o.now]) + (TransportInput.isTick input).toNat := by
      unfold Observed.step
      cases input with
      | tick ping answers =>
        dsimp only
        rw [if_pos (h.armed hready hnow), trailing_silent]
        rfl
      | _ =>
        dsimp only
        rw [hunheard.1, Bool.or_false]
        rfl
    obtain ⟨hleased, hrest⟩ := ih (h.step hinterval hm hpos input)
      (by rw [hnext, hlog]; exact List.mem_append_left _ hready)
        (by rw [hnext]; exact hunheard.2) halive
    refine ⟨hleased, ?_⟩
    rw [List.foldl_cons, hrest, hgrows, List.countP_cons]
    cases TransportInput.isTick input with
    | false => simp
    | true =>
      simp
      omega

/-- A tick fails the transport exactly when it is the first that ends `maxMissed` silent intervals
in a row, where the interval that begins with the handshake was heard. A peer that is heard in any
`maxMissed` intervals in a row is not lost, and one that falls silent is lost within one tick more,
unless something else fails the transport first. -/
theorem the_lease_is_exact (receiving : tls.State) (sending : tls.Sending)
    (authorize : Option (String → Bool)) (sanUri : String) {heartbeat : HeartbeatOptions} {m : Nat}
    (hm : (m : Int) = heartbeat.maxMissed) (hpos : 1 ≤ m) (hinterval : 0 < heartbeat.interval)
    (inputs : List TransportInput) :
    let o := inputs.foldl Observed.step
      ⟨create receiving sending authorize sanUri heartbeat, [], false⟩
    o.transport.failed = false → .onReady ∈ o.transport.log →
      (o.past ++ [o.now]).head? = some true ∧
      (∀ ping answers, Expires o.transport (o.transport.step (.tick ping answers)) ↔
        Silent m (o.past ++ [o.now]) ∧ ∀ k ≤ o.past.length, ¬ Silent m (o.past.take k)) ∧
      ((∀ a window b, o.past ++ [o.now] = a ++ window ++ b → window.length = m → true ∈ window) →
        ∀ ping answers, ¬ Expires o.transport (o.transport.step (.tick ping answers))) ∧
      ∀ later, o.transport.Unheard later → later.countP TransportInput.isTick = m + 1 →
        (∀ pre input post, later = pre ++ input :: post → (o.transport.run pre).failed = false →
          ((o.transport.run pre).step input).failed = true →
            Expires (o.transport.run pre) ((o.transport.run pre).step input)) →
        ∃ pre input post, later = pre ++ input :: post ∧
          Expires (o.transport.run pre) ((o.transport.run pre).step input) := by
  intro o halive hready
  have hleased : Leased heartbeat m o := by
    refine Trace.foldl_induction (P := Leased heartbeat m)
      (create_leased receiving sending authorize sanUri heartbeat hpos) ?_
    intro pre input post _ hpre
    exact hpre.step hinterval hm hpos input
  have hexpires : ∀ ping answers, Expires o.transport (o.transport.step (.tick ping answers)) ↔
      Silent m (o.past ++ [o.now]) := by
    intro ping answers
    rw [← silent_now hleased hm hpos halive]
    rcases tick_cases (hleased.heartbeat ▸ hinterval) halive (hleased.armed hready halive) ping
      answers with
      ⟨hsilent, hmissed, hexpires⟩ | ⟨hgoes, hrenewed⟩
    · exact ⟨fun _ => ⟨hsilent, hmissed⟩, fun _ => hexpires⟩
    · refine ⟨fun hexpires => ?_, fun hsilent => absurd hsilent hgoes⟩
      exact absurd (hexpires.timer.symm.trans hrenewed.timer) nofun
  refine ⟨hleased.first hready, fun ping answers => ?_, fun hwindow ping answers => ?_,
    fun later hunheard hticks hother => ?_⟩
  · rw [hexpires]
    exact ⟨fun hsilent => ⟨hsilent, hleased.early halive⟩, And.left⟩
  · rw [hexpires]
    exact Silence.not_silent_of_window hwindow
  · have hlost : (o.transport.run later).failed = true := by
      by_contra hfailed
      have hend : (later.foldl Observed.step o).transport.failed = false := by
        rw [Observed.foldl_transport]
        simpa using hfailed
      obtain ⟨hafter, hgrown⟩ := unheard_grows hleased hinterval hm hpos hready hunheard hend
      refine hafter.early hend (later.foldl Observed.step o).past.length (Nat.le_refl _) ?_
      rw [List.take_length, silent_iff]
      generalize (later.foldl Observed.step o).past = past at hgrown ⊢
      generalize (later.foldl Observed.step o).now = now at hgrown
      rw [hticks] at hgrown
      cases now with
      | false =>
        rw [trailing_silent] at hgrown
        omega
      | true =>
        rw [trailing_heard] at hgrown
        omega
    obtain ⟨pre, input, post, heq, hbefore, hafter⟩ := Trace.foldl_meets
      (P := fun t : NativeTransport tls => t.failed = true) (by simp [halive]) hlost
    exact ⟨pre, input, post, heq,
      hother pre input post heq (by unfold run; simpa using hbefore) hafter⟩

/-- Two intervals after the handshake, and a lease of two. -/
theorem a_silent_peer_is_lost :
    let t := (create () () none "" ⟨2000, 2⟩ : NativeTransport TlsStream.clearTls).run
      [.connected {}, .tick [] {}, .tick [] {}]
    Expires t (t.step (.tick [] {})) := by
  intro t
  have h := @the_lease_is_exact TlsStream.clearTls () () none "" ⟨2000, 2⟩ 2 rfl (by decide)
    (by decide) [.connected {}, .tick [] {}, .tick [] {}] rfl (by decide)
  exact (h.2.1 [] {}).mpr (by decide)

end NativeTransport

end psx.transport
