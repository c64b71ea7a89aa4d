-- One end of the backplane (native_transport.cpp): a session over a TLS stream. What the stream
-- calls back is the transport's own code here, so the failure flags of both objects stand side
-- by side. The law: no byte reaches the session before the peer is authorized, and none after
-- the transport reported an error.
import PipeShellX.Trace
import PipeShellX.Transport.TlsStream

namespace psx.transport

open psx.os (Tls)

/-- What the transport calls, in order: the end of the handshake, the predicate that the user
gave, and the calls of `onReady`, `Session::receive` and `onError`. -/
inductive TransportEvent
  | established
  | authorize (sanUri : String) (accepted : Bool)
  | onReady
  | receive (plaintext : Bytes)
  | onError (e : Error)
  deriving DecidableEq

/-- How often a peer is asked for a sign of life, and how often it may miss it. -/
structure HeartbeatOptions where
  interval : Nat := 0
  maxMissed : Int := 3

/-- `peerSanUri` is what the engine reports of the peer's certificate, and `heartbeatTimer` says
that a tick is armed. -/
structure NativeTransport (tls : Tls) where
  stream : TlsStream tls
  authorize : Option (String → Bool) := none
  peerSanUri : String := ""
  heartbeat : HeartbeatOptions := {}
  heartbeatTimer : Bool := false
  sawInbound : Bool := false
  missedBeats : Int := 0
  failed : Bool := false
  log : List TransportEvent := []

/-- A readiness event of the stream with what happens in its callbacks: `onReady` is what the
user's callback sends, `onData` what the session sends while it receives, `received` what
`Session::receive` returns, and `onError` what the user's error callback sends. -/
structure Answers extends Ready where
  received : Result Unit := .ok ()
  onError : List Sent := []

namespace NativeTransport

variable {tls : Tls}

def note (t : NativeTransport tls) (e : TransportEvent) : NativeTransport tls :=
  { t with log := t.log ++ [e] }

/-- The errors of what the user's callback sends find `failed_` set. -/
def fail (t : NativeTransport tls) (e : Error) (answers : Answers) : NativeTransport tls :=
  if t.failed then t
  else
    let t := { t with failed := true }.note (.onError e)
    { t with stream := (t.stream.sends answers.onError).1 }

/-- The `onError` callback of the stream. Its other callbacks have definitions of their own. -/
def callback (t : NativeTransport tls) (answers : Answers) : TlsEvent → NativeTransport tls
  | .onError e => t.fail e answers
  | _ => t

/-- A call of the stream, with the callback if the call failed. -/
def handled (t : NativeTransport tls) (called : TlsStream tls × List TlsEvent)
    (answers : Answers) : NativeTransport tls :=
  called.2.foldl (fun t event => t.callback answers event) { t with stream := called.1 }

/-- The write callback of the session. -/
def send (t : NativeTransport tls) (sent : Sent) (answers : Answers) : NativeTransport tls :=
  t.handled (t.stream.send sent) answers

/-- What a stream has to send is sent. -/
def sends (t : NativeTransport tls) (sents : List Sent) (answers : Answers) :
    NativeTransport tls := sents.foldl (fun t sent => t.send sent answers) t

/-- The keepalive timer is set. -/
def armHeartbeat (t : NativeTransport tls) : NativeTransport tls :=
  if t.heartbeat.interval = 0 then t else { t with heartbeatTimer := true }

/-- What the predicate says of the peer. A transport without one accepts every peer that the
handshake authenticated. -/
def authorizes (t : NativeTransport tls) : NativeTransport tls × Bool :=
  match t.authorize with
  | none => (t, true)
  | some authorize =>
    (t.note (.authorize t.peerSanUri (authorize t.peerSanUri)), authorize t.peerSanUri)

/-- The `onReady` callback of the stream. -/
def onReady (t : NativeTransport tls) (answers : Answers) : NativeTransport tls :=
  let (t, accepted) := t.authorizes
  if !accepted then t.fail ⟨.Other, 0, "peer SAN-URI not authorized"⟩ answers
  else ({ t with sawInbound := true }.armHeartbeat.note .onReady).sends answers.onReady answers

/-- The `onData` callback of the stream. -/
def onData (t : NativeTransport tls) (plaintext : Bytes) (answers : Answers) :
    NativeTransport tls :=
  if t.failed then t
  else
    let t := ({ t with sawInbound := true }.note (.receive plaintext)).sends answers.onData answers
    match answers.received with
    | .ok () => t
    | .error e => t.fail e answers

/-- `TlsStream::deliverAppData`, with the transport's callback. -/
def deliverAppData (t : NativeTransport tls) (answers : Answers) : NativeTransport tls :=
  if t.stream.failed then t
  else
    let (held, data) := tls.read (t.stream.receiving, t.stream.encrypted)
    let stream := { t.stream with receiving := held.1, encrypted := held.2 }
    match data with
    | .error e => t.handled (stream.fail e) answers
    | .ok data =>
      if data = [] then { t with stream := stream }
      else { t with stream := stream }.onData data answers

/-- `TlsStream::driveHandshake`, with the transport's callbacks. -/
def driveHandshake (t : NativeTransport tls) (answers : Answers) : NativeTransport tls :=
  if t.stream.established ∨ t.stream.failed then t
  else
    let (result, receiving, sending, encrypted, bytes) :=
      tls.handshake t.stream.receiving t.stream.sending t.stream.encrypted
    let stream := { t.stream with receiving, sending, encrypted }
    match result with
    | .error e => t.handled (stream.fail e) answers
    | .ok done =>
      let stream := { stream with outbound := stream.outbound ++ bytes }
      if done then
        -- application data may have ridden the final flight
        (({ t with stream := { stream with established := true } }.note .established).onReady
          answers).deliverAppData answers
      else { t with stream := stream }

/-- `TlsStream::onReadable`. -/
def onReadable (t : NativeTransport tls) (answers : Answers) : NativeTransport tls :=
  let t := t.handled (t.stream.drain answers.reads) answers
  if t.stream.failed then t
  else
    let t := if !t.stream.established then t.driveHandshake answers else t.deliverAppData answers
    t.handled (t.stream.flushOutbound answers.lastWrites) answers

/-- `TlsStream::onEvent`. -/
def onEvent (t : NativeTransport tls) (answers : Answers) : NativeTransport tls :=
  if t.stream.failed then t
  else
    let t :=
      if answers.writable then t.handled (t.stream.flushOutbound answers.firstWrites) answers else t
    let t :=
      if !t.stream.failed && (answers.readable || answers.hangup) then t.onReadable answers else t
    if !t.stream.failed && answers.error then
      t.handled (t.stream.fail ⟨.Other, 0, "socket error"⟩) answers
    else t

/-- The connection stands, at `start` or when its connect completes: the client speaks first. -/
def start (t : NativeTransport tls) (answers : Answers) : NativeTransport tls :=
  if t.stream.failed then t
  else
    let t := t.driveHandshake answers
    t.handled (t.stream.flushOutbound answers.lastWrites) answers

/-- One tick of the lease. `ping` is what `Session::ping` sends. -/
def heartbeatTick (t : NativeTransport tls) (ping : List Sent) (answers : Answers) :
    NativeTransport tls :=
  let t := { t with heartbeatTimer := false }
  if t.failed then t
  else
    let t := { t with missedBeats := if t.sawInbound then 0 else t.missedBeats + 1 }
    if !t.sawInbound ∧ t.heartbeat.maxMissed ≤ t.missedBeats then
      t.fail ⟨.Timeout, 0, "peer unresponsive (lease expired)"⟩ answers
    else ({ t with sawInbound := false }.sends ping answers).armHeartbeat

/-- What happens to a transport: its connect completes, or fails at the last address; its socket
is ready; its timer fires; the user of the session sends. -/
inductive TransportInput
  | connected (answers : Answers)
  | connectFailed (e : Error) (answers : Answers)
  | ready (answers : Answers)
  | tick (ping : List Sent) (answers : Answers)
  | send (sents : List Sent) (answers : Answers)

/-- One step of a connection. -/
def step (t : NativeTransport tls) : TransportInput → NativeTransport tls
  | .connected answers => t.start answers
  | .connectFailed e answers =>
    if t.stream.failed then t else t.handled (t.stream.fail e) answers
  | .ready answers => t.onEvent answers
  | .tick ping answers => if t.heartbeatTimer then t.heartbeatTick ping answers else t
  | .send sents answers => t.sends sents answers

/-- A whole run of a connection. -/
def run (t : NativeTransport tls) (inputs : List TransportInput) : NativeTransport tls :=
  inputs.foldl step t

/-- The constructor, over an engine in its first state. -/
def create (receiving : tls.State) (sending : tls.Sending) (authorize : Option (String → Bool))
    (peerSanUri : String) (heartbeat : HeartbeatOptions) : NativeTransport tls :=
  { stream := { receiving, sending }, authorize, peerSanUri, heartbeat }

/-! ## What may be called after what -/

variable {authorize : Option (String → Bool)} {sanUri : String}

/-- The predicate accepted the peer, if the user gave one. -/
def Accepted (authorize : Option (String → Bool)) (sanUri : String)
    (history : List TransportEvent) : Prop :=
  authorize = none ∨ TransportEvent.authorize sanUri true ∈ history

/-- An error was reported. -/
def Reported (history : List TransportEvent) : Prop :=
  ∃ e, TransportEvent.onError e ∈ history

/-- Bytes go to the session, and `onReady` is called, once the handshake ended and the peer was
accepted, and before any error. `onReady` and `onError` are called once. -/
def allowed (authorize : Option (String → Bool)) (sanUri : String)
    (history : List TransportEvent) : TransportEvent → Prop
  | .established => True
  | .authorize uri accepted =>
    uri = sanUri ∧ .established ∈ history ∧ authorize.map (fun f => f uri) = some accepted
  | .onReady =>
    .established ∈ history ∧ Accepted authorize sanUri history ∧ .onReady ∉ history ∧
      ¬ Reported history
  | .receive _ =>
    .established ∈ history ∧ Accepted authorize sanUri history ∧ ¬ Reported history
  | .onError _ => ¬ Reported history

theorem Accepted.snoc {history : List TransportEvent} (h : Accepted authorize sanUri history)
    (e : TransportEvent) : Accepted authorize sanUri (history ++ [e]) := by
  rcases h with h | h
  · exact Or.inl h
  · exact Or.inr (List.mem_append_left _ h)

theorem reported_snoc {history : List TransportEvent} {e : TransportEvent} :
    Reported (history ++ [e]) ↔ Reported history ∨ ∃ error, e = .onError error := by
  simp [Reported, exists_or, eq_comm]

/-- Before the handshake ends only the stream can fail the transport: the lease is not armed and
no byte is delivered. -/
structure Inv (authorize : Option (String → Bool)) (sanUri : String) (t : NativeTransport tls) :
    Prop where
  predicate : t.authorize = authorize
  uri : t.peerSanUri = sanUri
  lawful : Trace.Lawful (allowed authorize sanUri) t.log
  reported : Reported t.log ↔ t.failed = true
  established : t.stream.established = true → .established ∈ t.log
  ready : .onReady ∈ t.log → t.stream.established = true
  early : t.failed = true → t.stream.established = true ∨ t.stream.failed = true
  timer : t.heartbeatTimer = true → t.stream.established = true

/-- Between two calls of the stream a peer that was not accepted finds the transport failed. -/
structure Guarded (authorize : Option (String → Bool)) (sanUri : String) (t : NativeTransport tls) :
    Prop extends Inv authorize sanUri t where
  accepted : t.stream.established = true → t.failed = true ∨ Accepted authorize sanUri t.log

theorem create_guarded (receiving : tls.State) (sending : tls.Sending)
    (authorize : Option (String → Bool)) (sanUri : String) (heartbeat : HeartbeatOptions) :
    Guarded authorize sanUri (create receiving sending authorize sanUri heartbeat) where
  predicate := rfl
  uri := rfl
  lawful := Trace.Lawful.nil
  reported := by simp [create, Reported]
  established := by simp [create]
  ready := by simp [create]
  early := by simp [create]
  timer := by simp [create]
  accepted := by simp [create]

/-! ## Calls of the stream -/

/-- A call of the stream ends no handshake, and reports an error only when it fails. -/
structure Called (s : TlsStream tls) (r : TlsStream tls × List TlsEvent) : Prop where
  established : r.1.established = s.established
  failed : r.1.failed = true ∨ TlsStream.NoError r.2 ∧ r.1.failed = s.failed

theorem called_of_quiet {s : TlsStream tls} {r : TlsStream tls × List TlsEvent}
    (h : TlsStream.Quiet s r) : Called s r := by
  refine ⟨h.established, ?_⟩
  rcases h.events with ⟨hnone, hsame⟩ | ⟨-, hfailed, -⟩
  · exact Or.inr ⟨by simp [hnone, TlsStream.NoError], hsame⟩
  · exact Or.inl hfailed

theorem called_drain {s : TlsStream tls} (hs : s.failed = false) (reads : List (Result Bytes)) :
    Called s (s.drain reads) := by
  obtain ⟨chunks, hnone, -, -, -, hestablished, hend⟩ := TlsStream.drain_spec hs reads
  refine ⟨hestablished, ?_⟩
  rcases hend with ⟨halive, hevents⟩ | ⟨hfailed, -⟩
  · exact Or.inr ⟨by rw [hevents]; exact hnone, halive.trans hs.symm⟩
  · exact Or.inl hfailed

variable {t : NativeTransport tls}

theorem Inv.setStream (h : Inv authorize sanUri t) {r : TlsStream tls × List TlsEvent}
    (hr : Called t.stream r) : Inv authorize sanUri { t with stream := r.1 } where
  predicate := h.predicate
  uri := h.uri
  lawful := h.lawful
  reported := h.reported
  established := fun hest => h.established (hr.established ▸ hest)
  ready := fun hready => hr.established.trans (h.ready hready)
  early := by
    intro hfailed
    rcases h.early hfailed with hest | hstream
    · exact Or.inl (hr.established.trans hest)
    · rcases hr.failed with hdead | ⟨-, hsame⟩
      · exact Or.inr hdead
      · exact Or.inr (hsame.trans hstream)
  timer := fun htimer => hr.established.trans (h.timer htimer)

theorem Guarded.setStream (h : Guarded authorize sanUri t) {r : TlsStream tls × List TlsEvent}
    (hr : Called t.stream r) : Guarded authorize sanUri { t with stream := r.1 } where
  toInv := h.toInv.setStream hr
  accepted := fun hest => h.accepted (hr.established ▸ hest)

theorem fail_failed (e : Error) (answers : Answers) : (t.fail e answers).failed = true := by
  unfold fail
  by_cases hfailed : t.failed = true
  · rw [if_pos hfailed]
    exact hfailed
  · rw [if_neg hfailed]
    rfl

theorem Inv.fail (h : Inv authorize sanUri t)
    (hlate : t.stream.established = true ∨ t.stream.failed = true) (e : Error)
    (answers : Answers) : Guarded authorize sanUri (t.fail e answers) := by
  refine ⟨?_, fun _ => Or.inl (fail_failed e answers)⟩
  unfold NativeTransport.fail
  by_cases hfailed : t.failed = true
  · rw [if_pos hfailed]
    exact h
  · rw [if_neg hfailed]
    have hnone : ¬ Reported t.log := fun hrep => hfailed (h.reported.mp hrep)
    have hfail : Inv authorize sanUri ({ t with failed := true }.note (.onError e)) := by
      refine ⟨h.predicate, h.uri, h.lawful.snoc hnone, ?_, ?_, ?_, fun _ => hlate, h.timer⟩
      · simp [note, reported_snoc]
      · intro hest
        exact List.mem_append_left _ (h.established hest)
      · intro hready
        exact h.ready (by simpa [note] using hready)
    exact hfail.setStream (called_of_quiet (TlsStream.sends_quiet _ _))

theorem fail_stream (t : NativeTransport tls) (e : Error) (answers : Answers) :
    Called t.stream ((t.fail e answers).stream, []) := by
  unfold fail
  by_cases hfailed : t.failed = true
  · rw [if_pos hfailed]
    exact called_of_quiet (.refl _)
  · rw [if_neg hfailed]
    have hsends := TlsStream.sends_quiet t.stream answers.onError
    refine ⟨hsends.established, ?_⟩
    rcases hsends.events with ⟨-, hsame⟩ | ⟨-, hdead, -⟩
    · exact Or.inr ⟨by simp [TlsStream.NoError], hsame⟩
    · exact Or.inl hdead

theorem Called.stays_failed {s : TlsStream tls} {r : TlsStream tls × List TlsEvent} (h : Called s r)
    (hs : s.failed = true) : r.1.failed = true := by
  rcases h.failed with hdead | ⟨-, hsame⟩
  · exact hdead
  · exact hsame.trans hs

/-- A failed stream fails the transport, whether the handshake ended or not. -/
theorem Guarded.callback (h : Guarded authorize sanUri t) (hdead : t.stream.failed = true)
    (answers : Answers) (event : TlsEvent) :
    Guarded authorize sanUri (t.callback answers event) ∧
      (t.callback answers event).stream.failed = true := by
  cases event with
  | onError e =>
    exact ⟨h.toInv.fail (Or.inr hdead) e answers, (fail_stream t e answers).stays_failed hdead⟩
  | _ => exact ⟨h, hdead⟩

theorem callbacks_noError {events : List TlsEvent} (hnone : TlsStream.NoError events)
    (t : NativeTransport tls) (answers : Answers) :
    events.foldl (fun (t : NativeTransport tls) event => t.callback answers event) t = t := by
  refine Trace.foldl_induction (P := fun u => u = t) rfl ?_
  intro pre event post hsplit hpre
  rw [hpre]
  cases event with
  | onError e => exact absurd (by simp [hsplit]) (hnone e)
  | _ => rfl

theorem Guarded.handled (h : Guarded authorize sanUri t) {r : TlsStream tls × List TlsEvent}
    (hr : Called t.stream r) (answers : Answers) :
    Guarded authorize sanUri (t.handled r answers) := by
  have hset := h.setStream hr
  unfold NativeTransport.handled
  rcases hr.failed with hdead | ⟨hnone, -⟩
  · refine And.left (Trace.foldl_induction (P := fun u : NativeTransport tls =>
      Guarded authorize sanUri u ∧ u.stream.failed = true) ⟨hset, hdead⟩ ?_)
    intro pre event post _ hpre
    exact hpre.1.callback hpre.2 answers event
  · rw [callbacks_noError hnone]
    exact hset

theorem handled_established {r : TlsStream tls × List TlsEvent} (hr : Called t.stream r)
    (answers : Answers) :
    (t.handled r answers).stream.established = t.stream.established := by
  unfold handled
  refine Trace.foldl_induction (P := fun u : NativeTransport tls => u.stream.established =
    t.stream.established)
    hr.established ?_
  intro pre event post _ hpre
  cases event with
  | onError e => exact (fail_stream _ e answers).established.trans hpre
  | _ => exact hpre

/-! ## The transport's own code -/

theorem Guarded.sends (h : Guarded authorize sanUri t) (sents : List Sent) (answers : Answers) :
    Guarded authorize sanUri (t.sends sents answers) := by
  unfold NativeTransport.sends
  refine Trace.foldl_induction (P := Guarded authorize sanUri) h ?_
  intro pre sent post _ hpre
  exact hpre.handled (called_of_quiet (TlsStream.send_quiet _ sent)) answers

theorem sends_established (t : NativeTransport tls) (sents : List Sent) (answers : Answers) :
    (t.sends sents answers).stream.established = t.stream.established := by
  unfold NativeTransport.sends
  refine Trace.foldl_induction (P := fun u : NativeTransport tls => u.stream.established =
    t.stream.established) rfl ?_
  intro pre sent post _ hpre
  exact (handled_established (called_of_quiet (TlsStream.send_quiet _ sent)) answers).trans hpre

theorem Guarded.armHeartbeat (h : Guarded authorize sanUri t)
    (hest : t.stream.established = true) : Guarded authorize sanUri t.armHeartbeat := by
  unfold NativeTransport.armHeartbeat
  split_ifs
  · exact h
  · exact { h with timer := fun _ => hest }

theorem armHeartbeat_established (t : NativeTransport tls) :
    t.armHeartbeat.stream.established = t.stream.established := by
  unfold armHeartbeat
  split_ifs <;> rfl

/-- An event that is no error, and not the start of the user's part, is only recorded. -/
theorem Inv.note (h : Inv authorize sanUri t) {e : TransportEvent}
    (hallowed : allowed authorize sanUri t.log e) (herror : ∀ error, e ≠ .onError error)
    (hready : e = .onReady → t.stream.established = true) : Inv authorize sanUri (t.note e) where
  predicate := h.predicate
  uri := h.uri
  lawful := h.lawful.snoc hallowed
  reported := by
    change Reported (t.log ++ [e]) ↔ t.failed = true
    rw [← h.reported]
    simp [reported_snoc, herror]
  established := fun hest => List.mem_append_left _ (h.established hest)
  ready := by
    intro hmem
    rcases List.mem_append.mp hmem with hmem | hmem
    · exact h.ready hmem
    · exact hready (List.mem_singleton.mp hmem).symm
  early := h.early
  timer := h.timer

theorem Guarded.note (h : Guarded authorize sanUri t) {e : TransportEvent}
    (hallowed : allowed authorize sanUri t.log e) (herror : ∀ error, e ≠ .onError error)
    (hready : e = .onReady → t.stream.established = true) :
    Guarded authorize sanUri (t.note e) where
  toInv := h.toInv.note hallowed herror hready
  accepted := fun hest => (h.accepted hest).imp_right fun haccepted => haccepted.snoc e

/-- The user is told of a peer that was accepted. -/
theorem Guarded.toldReady (h : Guarded authorize sanUri t) (hest : t.stream.established = true)
    (halive : t.failed = false) (hfirst : .onReady ∉ t.log) (answers : Answers) :
    Guarded authorize sanUri
      (({ t with sawInbound := true }.armHeartbeat.note .onReady).sends answers.onReady
        answers) := by
  have hseen : Guarded authorize sanUri { t with sawInbound := true } := { h with }
  have harmed := hseen.armHeartbeat hest
  have hlog : { t with sawInbound := true }.armHeartbeat.log = t.log := by
    unfold NativeTransport.armHeartbeat
    split_ifs <;> rfl
  have haccepted : Accepted authorize sanUri t.log := by
    apply (h.accepted hest).resolve_left
    simp [halive]
  have hnone : ¬ Reported t.log := by
    rw [h.reported, halive]
    exact Bool.false_ne_true
  apply Guarded.sends
  apply harmed.note
  · rw [hlog]
    exact ⟨h.established hest, haccepted, hfirst, hnone⟩
  · exact fun error heq => nomatch heq
  · exact fun _ => (armHeartbeat_established _).trans hest

theorem Inv.authorizes (h : Inv authorize sanUri t) (hest : t.stream.established = true) :
    Inv authorize sanUri t.authorizes.1 ∧
      (t.authorizes.2 = true → Accepted authorize sanUri t.authorizes.1.log) := by
  unfold NativeTransport.authorizes
  cases hf : t.authorize with
  | none => exact ⟨h, fun _ => Or.inl (h.predicate ▸ hf)⟩
  | some f =>
    dsimp only
    refine ⟨?_, fun haccepts => Or.inr ?_⟩
    · apply h.note
      · exact ⟨h.uri, h.established hest, by rw [← h.predicate, hf, Option.map_some]⟩
      · exact fun error heq => nomatch heq
      · exact fun heq => nomatch heq
    · rw [haccepts, h.uri]
      simp [NativeTransport.note]

theorem authorizes_same (t : NativeTransport tls) :
    t.authorizes.1.stream = t.stream ∧ t.authorizes.1.failed = t.failed ∧
      (TransportEvent.onReady ∈ t.authorizes.1.log ↔ TransportEvent.onReady ∈ t.log) := by
  unfold authorizes
  split <;> simp [note]

theorem Inv.onReady (h : Inv authorize sanUri t) (hest : t.stream.established = true)
    (halive : t.failed = false) (hfirst : .onReady ∉ t.log) (answers : Answers) :
    Guarded authorize sanUri (t.onReady answers) := by
  obtain ⟨hinv, haccepted⟩ := h.authorizes hest
  obtain ⟨hstream, hfailed, hlog⟩ := authorizes_same t
  have hest' : t.authorizes.1.stream.established = true := by rw [hstream, hest]
  unfold NativeTransport.onReady
  dsimp only
  cases haccepts : t.authorizes.2 with
  | false =>
    rw [Bool.not_false, if_pos rfl]
    exact hinv.fail (Or.inl hest') _ answers
  | true =>
    rw [Bool.not_true, if_neg Bool.false_ne_true]
    have hguarded : Guarded authorize sanUri t.authorizes.1 :=
      ⟨hinv, fun _ => Or.inr (haccepted haccepts)⟩
    apply hguarded.toldReady hest' (hfailed.trans halive)
    rwa [hlog]

theorem Guarded.onData (h : Guarded authorize sanUri t) (hest : t.stream.established = true)
    (plaintext : Bytes) (answers : Answers) :
    Guarded authorize sanUri (t.onData plaintext answers) := by
  unfold NativeTransport.onData
  by_cases hfailed : t.failed = true
  · rw [if_pos hfailed]
    exact h
  · rw [if_neg hfailed]
    have hseen : Guarded authorize sanUri { t with sawInbound := true } := { h with }
    have hreceived : Guarded authorize sanUri
        ({ t with sawInbound := true }.note (.receive plaintext)) := by
      apply hseen.note
      · refine ⟨h.established hest, (h.accepted hest).resolve_left hfailed, ?_⟩
        exact fun hrep => hfailed (h.reported.mp hrep)
      · exact fun error heq => nomatch heq
      · exact fun heq => nomatch heq
    have hsent := hreceived.sends answers.onData answers
    cases answers.received with
    | ok _ => exact hsent
    | error e =>
      apply hsent.toInv.fail
      exact Or.inl ((sends_established _ _ _).trans hest)

theorem onReady_established (t : NativeTransport tls) (answers : Answers) :
    (t.onReady answers).stream.established = t.stream.established := by
  obtain ⟨hstream, -, -⟩ := authorizes_same t
  rw [← hstream]
  unfold onReady
  dsimp only
  split_ifs
  · exact (fail_stream _ _ answers).established
  · rw [sends_established]
    exact armHeartbeat_established _

/-! ## The stream's code, with the transport's callbacks -/

theorem Guarded.deliverAppData (h : Guarded authorize sanUri t)
    (hest : t.stream.established = true) (answers : Answers) :
    Guarded authorize sanUri (t.deliverAppData answers) := by
  unfold NativeTransport.deliverAppData
  by_cases hdead : t.stream.failed = true
  · rw [if_pos hdead]
    exact h
  · rw [if_neg hdead]
    have hread : ∀ receiving encrypted, Called t.stream
        ({ t.stream with receiving, encrypted }, []) := fun _ _ =>
      ⟨rfl, Or.inr ⟨by simp [TlsStream.NoError], rfl⟩⟩
    rcases tls.read (t.stream.receiving, t.stream.encrypted) with ⟨held, data⟩
    have hset := h.setStream (hread held.1 held.2)
    cases data with
    | error e =>
      have hfail := called_of_quiet (TlsStream.fail_quiet
        { t.stream with receiving := held.1, encrypted := held.2 } e)
      exact h.handled ⟨hfail.established, hfail.failed⟩ answers
    | ok data =>
      dsimp only
      split_ifs
      · exact hset
      · exact hset.onData hest data answers

theorem Guarded.driveHandshake (h : Guarded authorize sanUri t) (answers : Answers) :
    Guarded authorize sanUri (t.driveHandshake answers) := by
  unfold NativeTransport.driveHandshake
  by_cases hdone : t.stream.established = true ∨ t.stream.failed = true
  · rw [if_pos hdone]
    exact h
  · rw [if_neg hdone]
    rcases tls.handshake t.stream.receiving t.stream.sending t.stream.encrypted with
      ⟨result, receiving, sending, encrypted, bytes⟩
    obtain ⟨hnew, hstream⟩ := not_or.mp hdone
    cases result with
    | error e =>
      have hfail := called_of_quiet (TlsStream.fail_quiet
        { t.stream with receiving, sending, encrypted } e)
      exact h.handled ⟨hfail.established, hfail.failed⟩ answers
    | ok done =>
      cases done with
      | false =>
        refine h.setStream (r := (_, [])) ⟨?_, Or.inr ⟨by simp [TlsStream.NoError], ?_⟩⟩ <;> rfl
      | true =>
        -- nothing failed the transport before, and nobody was told that it is ready
        have halive : t.failed = false := by
          rw [← Bool.not_eq_true]
          exact fun hfailed => hdone (h.early hfailed)
        have hfirst : .onReady ∉ t.log := fun hready => hnew (h.ready hready)
        have hest : Inv authorize sanUri (NativeTransport.note { t with
            stream := { t.stream with receiving, sending, encrypted, established := true
                                      outbound := t.stream.outbound ++ bytes } } .established) := by
          refine ⟨h.predicate, h.uri, h.lawful.snoc trivial, ?_, ?_, ?_, ?_, ?_⟩
          · change Reported (t.log ++ [.established]) ↔ t.failed = true
            rw [← h.reported]
            simp [reported_snoc]
          · simp [NativeTransport.note]
          · simp [NativeTransport.note]
          · simp [NativeTransport.note]
          · simp [NativeTransport.note]
        apply Guarded.deliverAppData
        · exact hest.onReady rfl halive (by simpa [NativeTransport.note] using hfirst) answers
        · exact onReady_established _ answers

theorem Guarded.flushOutbound (h : Guarded authorize sanUri t) (writes : List (Result Nat))
    (answers : Answers) :
    Guarded authorize sanUri (t.handled (t.stream.flushOutbound writes) answers) :=
  h.handled (called_of_quiet (TlsStream.flushOutbound_quiet _ writes)) answers

theorem Guarded.failStream (h : Guarded authorize sanUri t) (e : Error) (answers : Answers) :
    Guarded authorize sanUri (t.handled (t.stream.fail e) answers) :=
  h.handled (called_of_quiet (TlsStream.fail_quiet _ e)) answers

theorem Guarded.onReadable (h : Guarded authorize sanUri t) (halive : t.stream.failed = false)
    (answers : Answers) : Guarded authorize sanUri (t.onReadable answers) := by
  have hdrain := h.handled (called_drain halive answers.reads) answers
  unfold NativeTransport.onReadable
  dsimp only
  split_ifs with hdead hest
  · exact hdrain
  · exact (hdrain.driveHandshake answers).flushOutbound answers.lastWrites answers
  · rw [Bool.not_eq_true, Bool.not_eq_false'] at hest
    exact (hdrain.deliverAppData hest answers).flushOutbound answers.lastWrites answers

theorem Guarded.onEvent (h : Guarded authorize sanUri t) (answers : Answers) :
    Guarded authorize sanUri (t.onEvent answers) := by
  unfold NativeTransport.onEvent
  by_cases hdead : t.stream.failed = true
  · rw [if_pos hdead]
    exact h
  · rw [if_neg hdead]
    have hwritten : Guarded authorize sanUri
        (if answers.writable then t.handled (t.stream.flushOutbound answers.firstWrites) answers
          else t) := by
      split_ifs
      · exact h.flushOutbound answers.firstWrites answers
      · exact h
    dsimp only
    generalize (if answers.writable then
      t.handled (t.stream.flushOutbound answers.firstWrites) answers else t) = written at hwritten ⊢
    have hread : Guarded authorize sanUri
        (if !written.stream.failed && (answers.readable || answers.hangup) then
          written.onReadable answers else written) := by
      split_ifs with hreadable
      · apply hwritten.onReadable
        simpa using ((Bool.and_eq_true _ _).mp hreadable).1
      · exact hwritten
    generalize (if !written.stream.failed && (answers.readable || answers.hangup) then
      written.onReadable answers else written) = read at hread ⊢
    split_ifs
    · exact hread.failStream _ answers
    · exact hread

/-! ## Runs -/

theorem Guarded.start (h : Guarded authorize sanUri t) (answers : Answers) :
    Guarded authorize sanUri (t.start answers) := by
  unfold NativeTransport.start
  split_ifs
  · exact h
  · exact (h.driveHandshake answers).flushOutbound answers.lastWrites answers

theorem Guarded.heartbeatTick (h : Guarded authorize sanUri t)
    (hest : t.stream.established = true) (ping : List Sent) (answers : Answers) :
    Guarded authorize sanUri (t.heartbeatTick ping answers) := by
  unfold NativeTransport.heartbeatTick
  dsimp only
  generalize (if t.sawInbound then (0 : Int) else t.missedBeats + 1) = missedBeats
  have hfired : Guarded authorize sanUri { t with heartbeatTimer := false } :=
    { h with timer := fun htimer => absurd htimer Bool.false_ne_true }
  split_ifs
  · exact hfired
  · have hmissed : Inv authorize sanUri { t with heartbeatTimer := false, missedBeats } :=
      { hfired with }
    exact hmissed.fail (Or.inl hest) _ answers
  · have hmissed : Guarded authorize sanUri
        { t with heartbeatTimer := false, missedBeats, sawInbound := false } := { hfired with }
    apply (hmissed.sends ping answers).armHeartbeat
    exact (sends_established _ ping answers).trans hest

theorem Guarded.step (h : Guarded authorize sanUri t) (input : TransportInput) :
    Guarded authorize sanUri (t.step input) := by
  unfold NativeTransport.step
  cases input with
  | connected answers => exact h.start answers
  | connectFailed e answers =>
    dsimp only
    split_ifs
    · exact h
    · exact h.failStream e answers
  | ready answers => exact h.onEvent answers
  | tick ping answers =>
    dsimp only
    split_ifs with htimer
    · exact h.heartbeatTick (h.timer htimer) ping answers
    · exact h
  | send sents answers => exact h.sends sents answers

theorem Guarded.run (h : Guarded authorize sanUri t) (inputs : List TransportInput) :
    Guarded authorize sanUri (t.run inputs) := by
  unfold NativeTransport.run
  refine Trace.foldl_induction (P := Guarded authorize sanUri) h ?_
  intro pre input post _ hpre
  exact hpre.step input

/-- Over any engine, predicate and lease, and for any order of handshake steps, early data, socket
errors, ticks and sends from within callbacks: the bytes that reach the session, and `onReady`,
come after the handshake ended and the predicate accepted the peer's URI, and before any error;
`onReady` and `onError` are called at most once. -/
theorem no_frame_before_authorization (receiving : tls.State) (sending : tls.Sending)
    (authorize : Option (String → Bool)) (sanUri : String) (heartbeat : HeartbeatOptions)
    (inputs : List TransportInput) :
    Trace.Lawful (allowed authorize sanUri)
      ((create receiving sending authorize sanUri heartbeat).run inputs).log :=
  ((create_guarded receiving sending authorize sanUri heartbeat).run inputs).lawful

/-! ## The stream below it -/

theorem sends_dead {s : TlsStream tls} (hs : s.failed = true) (sents : List Sent) :
    s.sends sents = (s, []) := by
  induction sents with
  | nil => rfl
  | cons sent rest ih =>
    have hsend : s.send sent = (s, []) := by simp [TlsStream.send, hs]
    simp [TlsStream.sends, hsend, ih]

theorem sends_both (s : TlsStream tls) (a b : List Sent) :
    (s.sends (a ++ b)).1 = ((s.sends a).1.sends b).1 := by
  induction a generalizing s with
  | nil => rfl
  | cons sent a ih => exact ih (s.send sent).1

theorem fail_dead (hdead : t.stream.failed = true) (e : Error) (answers : Answers) :
    (t.fail e answers).stream = t.stream := by
  unfold fail
  split_ifs
  · rfl
  · change (t.stream.sends answers.onError).1 = t.stream
    rw [sends_dead hdead]

/-- The callbacks of a failed call send nothing: the stream is failed by then. -/
theorem handled_stream {r : TlsStream tls × List TlsEvent} (hr : Called t.stream r)
    (answers : Answers) : (t.handled r answers).stream = r.1 := by
  unfold handled
  rcases hr.failed with hdead | ⟨hnone, -⟩
  · refine Trace.foldl_induction (P := fun u : NativeTransport tls => u.stream = r.1) rfl ?_
    intro pre event post _ hpre
    rw [← hpre] at hdead
    cases event with
    | onError e => exact (fail_dead hdead e answers).trans hpre
    | _ => exact hpre
  · rw [callbacks_noError hnone]

theorem sends_stream (t : NativeTransport tls) (sents : List Sent) (answers : Answers) :
    (t.sends sents answers).stream = (t.stream.sends sents).1 := by
  induction sents generalizing t with
  | nil => rfl
  | cons sent rest ih =>
    change ((t.send sent answers).sends rest answers).stream = _
    rw [ih, send, handled_stream (called_of_quiet (TlsStream.send_quiet _ sent))]
    rfl

theorem fail_sends (t : NativeTransport tls) (e : Error) (answers : Answers) :
    ∃ sents, (t.fail e answers).stream = (t.stream.sends sents).1 := by
  unfold fail
  split_ifs
  · exact ⟨[], rfl⟩
  · exact ⟨answers.onError, rfl⟩

theorem onReady_sends (t : NativeTransport tls) (answers : Answers) :
    ∃ sents, (t.onReady answers).stream = (t.stream.sends sents).1 := by
  obtain ⟨hstream, -, -⟩ := authorizes_same t
  unfold onReady
  dsimp only
  split_ifs
  · rw [← hstream]
    exact fail_sends _ _ answers
  · refine ⟨answers.onReady, ?_⟩
    rw [sends_stream, ← hstream]
    congr 2
    unfold armHeartbeat
    split_ifs <;> rfl

theorem onData_sends (t : NativeTransport tls) (plaintext : Bytes) (answers : Answers) :
    ∃ sents, (t.onData plaintext answers).stream = (t.stream.sends sents).1 := by
  unfold onData
  split_ifs
  · exact ⟨[], rfl⟩
  · cases answers.received with
    | ok _ => exact ⟨answers.onData, sends_stream _ _ answers⟩
    | error e =>
      obtain ⟨sents, hsents⟩ := fail_sends (NativeTransport.sends
        ({ t with sawInbound := true }.note (.receive plaintext)) answers.onData answers) e answers
      refine ⟨answers.onData ++ sents, ?_⟩
      rw [sends_both]
      exact hsents.trans (by rw [sends_stream]; rfl)

theorem deliverAppData_stream (t : NativeTransport tls) (answers : Answers) :
    ∃ sents, (t.deliverAppData answers).stream = (t.stream.deliverAppData sents).1 := by
  unfold deliverAppData TlsStream.deliverAppData
  by_cases hdead : t.stream.failed = true
  · exact ⟨[], by rw [if_pos hdead, if_pos hdead]⟩
  · simp only [if_neg hdead]
    rcases tls.read (t.stream.receiving, t.stream.encrypted) with ⟨held, data⟩
    cases data with
    | error e =>
      have hfail := called_of_quiet (TlsStream.fail_quiet
        { t.stream with receiving := held.1, encrypted := held.2 } e)
      exact ⟨[], handled_stream ⟨hfail.established, hfail.failed⟩ answers⟩
    | ok data =>
      dsimp only
      by_cases hdata : data = []
      · exact ⟨[], by rw [if_pos hdata, if_pos hdata]⟩
      · obtain ⟨sents, hsents⟩ := onData_sends { t with stream :=
          { t.stream with receiving := held.1, encrypted := held.2 } } data answers
        exact ⟨sents, by rw [if_neg hdata, if_neg hdata, hsents]⟩

theorem driveHandshake_stream (t : NativeTransport tls) (answers : Answers) :
    ∃ onReady onData, (t.driveHandshake answers).stream =
      (t.stream.driveHandshake { answers.toReady with onReady, onData }).1 := by
  unfold driveHandshake TlsStream.driveHandshake
  by_cases hdone : t.stream.established = true ∨ t.stream.failed = true
  · exact ⟨[], [], by rw [if_pos hdone, if_pos hdone]⟩
  · rcases tls.handshake t.stream.receiving t.stream.sending t.stream.encrypted with
      ⟨result, receiving, sending, encrypted, bytes⟩
    simp only [if_neg hdone]
    cases result with
    | error e =>
      have hfail := called_of_quiet (TlsStream.fail_quiet
        { t.stream with receiving, sending, encrypted } e)
      exact ⟨[], [], handled_stream ⟨hfail.established, hfail.failed⟩ answers⟩
    | ok done =>
      cases done with
      | false => exact ⟨[], [], rfl⟩
      | true =>
        obtain ⟨onReady, hready⟩ := onReady_sends (NativeTransport.note { t with
          stream := { t.stream with receiving, sending, encrypted, established := true
                                    outbound := t.stream.outbound ++ bytes } } .established) answers
        obtain ⟨onData, hdata⟩ := deliverAppData_stream (NativeTransport.onReady
          (NativeTransport.note { t with
            stream := { t.stream with receiving, sending, encrypted, established := true
                                      outbound := t.stream.outbound ++ bytes } } .established)
          answers) answers
        refine ⟨onReady, onData, ?_⟩
        simp only [if_true]
        rw [hready] at hdata
        exact hdata

theorem onReadable_stream (t : NativeTransport tls) (halive : t.stream.failed = false)
    (answers : Answers) :
    ∃ onReady onData, (t.onReadable answers).stream =
      (t.stream.onReadable { answers.toReady with onReady, onData }).1 := by
  have hdrain := handled_stream (called_drain halive answers.reads) answers
  unfold onReadable TlsStream.onReadable
  dsimp only
  rw [hdrain]
  by_cases hdead : (t.stream.drain answers.reads).1.failed = true
  · exact ⟨[], [], by rw [if_pos hdead, if_pos hdead, hdrain]⟩
  · simp only [if_neg hdead]
    cases hest : (t.stream.drain answers.reads).1.established with
    | false =>
      obtain ⟨onReady, onData, hhand⟩ := driveHandshake_stream
        (t.handled (t.stream.drain answers.reads) answers) answers
      refine ⟨onReady, onData, ?_⟩
      rw [hdrain] at hhand
      simp only [Bool.not_false, if_true]
      rw [handled_stream (called_of_quiet (TlsStream.flushOutbound_quiet _ _)), hhand]
    | true =>
      obtain ⟨onData, hdata⟩ := deliverAppData_stream
        (t.handled (t.stream.drain answers.reads) answers) answers
      refine ⟨[], onData, ?_⟩
      rw [hdrain] at hdata
      simp only [Bool.not_true, Bool.false_eq_true, if_false]
      rw [handled_stream (called_of_quiet (TlsStream.flushOutbound_quiet _ _)), hdata]

/-- A readiness event of the transport is one of its stream, with some sends in the callbacks: the
laws of the stream hold below every transport. -/
theorem onEvent_stream (t : NativeTransport tls) (answers : Answers) :
    ∃ onReady onData, (t.onEvent answers).stream =
      (t.stream.onEvent { answers.toReady with onReady, onData }).1 := by
  unfold onEvent TlsStream.onEvent
  by_cases hdead : t.stream.failed = true
  · exact ⟨[], [], by rw [if_pos hdead, if_pos hdead]⟩
  · simp only [if_neg hdead]
    have hwritten : (if answers.writable then
        t.handled (t.stream.flushOutbound answers.firstWrites) answers else t).stream =
        (if answers.writable then t.stream.flushOutbound answers.firstWrites
          else (t.stream, [])).1 := by
      split_ifs
      · exact handled_stream (called_of_quiet (TlsStream.flushOutbound_quiet _ _)) answers
      · rfl
    generalize (if answers.writable then
      t.handled (t.stream.flushOutbound answers.firstWrites) answers else t) = written at hwritten ⊢
    generalize (if answers.writable then t.stream.flushOutbound answers.firstWrites
      else (t.stream, [])) = first at hwritten ⊢
    have hread : ∃ onReady onData,
        (if !written.stream.failed && (answers.readable || answers.hangup)
        then written.onReadable answers else written).stream =
        (if !first.1.failed && (answers.readable || answers.hangup) then
          first.1.onReadable { answers.toReady with onReady, onData } else (first.1, [])).1 := by
      rw [hwritten]
      split_ifs with hreadable
      · rw [← hwritten] at hreadable ⊢
        apply onReadable_stream
        simpa using ((Bool.and_eq_true _ _).mp hreadable).1
      · exact ⟨[], [], hwritten⟩
    obtain ⟨onReady, onData, hread⟩ := hread
    refine ⟨onReady, onData, ?_⟩
    generalize (if !written.stream.failed && (answers.readable || answers.hangup)
      then written.onReadable answers else written) = read at hread ⊢
    generalize (if !first.1.failed && (answers.readable || answers.hangup) then
      first.1.onReadable { answers.toReady with onReady, onData } else (first.1, [])) = more
      at hread ⊢
    rw [← hread]
    split_ifs
    · exact handled_stream (called_of_quiet (TlsStream.fail_quiet _ _)) answers
    · rfl

end NativeTransport

end psx.transport
