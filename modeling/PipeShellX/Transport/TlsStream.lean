-- The TLS byte stream of a connection (tls_stream.cpp) over an engine that decrypts
-- records in order. The results of the socket reads and writes are inputs. The law: a
-- stream hands over every byte of the complete records that it read, unless the read
-- that completes them ends in a close or an error.
import PipeShellX.Loop
import PipeShellX.Result

namespace psx.os

/-! ## The engine -/

/-- What the ciphertext that an engine holds starts with: a record with its plaintext (none for
a message of the engine itself), a piece of a record, the peer's close, or a bad record. -/
inductive Next (State : Type)
  | record (state : State) (plain rest : Bytes)
  | incomplete
  | closed
  | bad (e : Error)

/-- An in-order decryptor. Records are framed: more ciphertext behind a record, a close or a
bad record does not change it. -/
structure Tls where
  State : Type
  Sending : Type
  next : State → Bytes → Next State
  handshake : State → Sending → Bytes → Result Bool × State × Sending × Bytes × Bytes
  write : Sending → Bytes → Result (Sending × Bytes)
  shrinks : ∀ {s s' bytes plain rest}, next s bytes = .record s' plain rest →
    rest.length < bytes.length
  record_append : ∀ {s s' bytes plain rest} (more : Bytes), next s bytes = .record s' plain rest →
    next s (bytes ++ more) = .record s' plain (rest ++ more)
  closed_append : ∀ {s bytes} (more : Bytes), next s bytes = .closed →
    next s (bytes ++ more) = .closed
  bad_append : ∀ {s bytes e} (more : Bytes), next s bytes = .bad e →
    next s (bytes ++ more) = .bad e

namespace Tls

variable (tls : Tls)

/-- One turn of the loop of `read`. The plaintext of a record comes out of `SSL_read` in pieces
of 4096 bytes, one after the other. -/
def readTurn (held : tls.State × Bytes) : Option ((tls.State × Bytes) × Bytes) :=
  match tls.next held.1 held.2 with
  | .record state plain rest => some ((state, rest), plain)
  | _ => none

/-- The complete records: the state and the ciphertext after them, and their plaintext. -/
def decrypt (held : tls.State × Bytes) : (tls.State × Bytes) × Bytes :=
  Loop.run tls.readTurn held.2.length held

/-- `read` gives all the plaintext, or the error of a bad record in its place. -/
def read (held : tls.State × Bytes) : (tls.State × Bytes) × Result Bytes :=
  let (held, plain) := tls.decrypt held
  match tls.next held.1 held.2 with
  | .bad e => (held, .error e)
  | _ => (held, .ok plain)

variable {tls}

theorem readTurn_lower (held held' : tls.State × Bytes) (plain : Bytes)
    (h : tls.readTurn held = some (held', plain)) : held'.2.length < held.2.length := by
  unfold readTurn at h
  split at h
  · rename_i hnext
    cases h
    exact tls.shrinks hnext
  · cases h

theorem decrypt_record {state state' : tls.State} {bytes plain rest : Bytes}
    (h : tls.next state bytes = .record state' plain rest) :
    tls.decrypt (state, bytes) =
      ((tls.decrypt (state', rest)).1, plain ++ (tls.decrypt (state', rest)).2) := by
  have hturn : tls.readTurn (state, bytes) = some ((state', rest), plain) := by
    simp only [readTurn, h]
  have hlt := tls.shrinks h
  obtain ⟨n, hn⟩ : ∃ n, bytes.length = n + 1 := ⟨bytes.length - 1, by omega⟩
  unfold decrypt
  dsimp only
  rw [hn, Loop.run_some hturn, Loop.run_enough (fun a => a.2.length) readTurn_lower
    (show rest.length ≤ n by omega) (Nat.le_refl rest.length)]

theorem decrypt_stop {held : tls.State × Bytes} (h : tls.readTurn held = none) :
    tls.decrypt held = (held, []) := Loop.run_none h _

/-- Ciphertext that comes later is decrypted later. -/
theorem decrypt_append (state : tls.State) (bytes more : Bytes) :
    tls.decrypt (state, bytes ++ more) =
      let (held, plain) := tls.decrypt (state, bytes)
      let (held, later) := tls.decrypt (held.1, held.2 ++ more)
      (held, plain ++ later) := by
  induction hn : bytes.length using Nat.strongRecOn generalizing state bytes with
  | ind n ih =>
    cases hnext : tls.next state bytes with
    | record state' plain rest =>
      have hlt := tls.shrinks hnext
      rw [decrypt_record hnext, decrypt_record (tls.record_append more hnext),
        ih rest.length (by omega) state' rest rfl]
      simp
    | incomplete =>
      have hturn : tls.readTurn (state, bytes) = none := by simp only [readTurn, hnext]
      simp [decrypt_stop hturn]
    | closed =>
      have hturn : tls.readTurn (state, bytes) = none := by simp only [readTurn, hnext]
      simp [decrypt_stop hturn]
    | bad e =>
      have hturn : tls.readTurn (state, bytes) = none := by simp only [readTurn, hnext]
      simp [decrypt_stop hturn]

/-- Nothing is left to decrypt after `decrypt`. -/
theorem decrypt_ends (held : tls.State × Bytes) : tls.readTurn (tls.decrypt held).1 = none :=
  Loop.run_stops (fun a => a.2.length) readTurn_lower _ (Nat.le_refl _)

end Tls

end psx.os

namespace psx.transport

open psx.os (Tls)

/-! ## The stream -/

/-- `receiving` and `encrypted` are the engine's side of the incoming direction: its state and
the ciphertext that it holds. -/
structure TlsStream (tls : Tls) where
  receiving : tls.State
  sending : tls.Sending
  encrypted : Bytes := []
  outbound : Bytes := []
  established : Bool := false
  failed : Bool := false

/-- `read` records the chunks that came from the socket; the others are the callbacks. -/
inductive TlsEvent
  | read (chunk : Bytes)
  | onReady
  | onData (bytes : Bytes)
  | onError (e : Error)
  deriving DecidableEq

/-- What a callback sends, with the results of the socket writes that follow. -/
structure Sent where
  plaintext : Bytes
  writes : List (Result Nat)

/-- One readiness event: its flags, what the socket reads and writes return, and what the
callbacks send. A list of results that ends is a socket that would block. -/
structure Ready where
  writable : Bool := false
  readable : Bool := false
  hangup : Bool := false
  error : Bool := false
  firstWrites : List (Result Nat) := []
  reads : List (Result Bytes) := []
  onReady : List Sent := []
  onData : List Sent := []
  lastWrites : List (Result Nat) := []

namespace TlsStream

variable {tls : Tls}

/-- The stream fails, and tells it once. -/
def fail (s : TlsStream tls) (e : Error) : TlsStream tls × List TlsEvent :=
  if s.failed then (s, []) else ({ s with failed := true }, [.onError e])

/-- Ciphertext is written, as far as the socket takes it. -/
def flushOutbound (s : TlsStream tls) : List (Result Nat) → TlsStream tls × List TlsEvent
  | [] => (s, [])
  | wrote :: writes =>
    if s.outbound = [] then (s, [])
    else
      match wrote with
      | .ok n => { s with outbound := s.outbound.drop n }.flushOutbound writes
      | .error e => if e.cls = .WouldBlock then (s, []) else s.fail e

/-- Plaintext is encrypted and written. -/
def send (s : TlsStream tls) (sent : Sent) : TlsStream tls × List TlsEvent :=
  if s.failed ∨ sent.plaintext = [] then (s, [])
  else
    match tls.write s.sending sent.plaintext with
    | .error e => s.fail e
    | .ok (sending, bytes) =>
      { s with sending, outbound := s.outbound ++ bytes }.flushOutbound sent.writes

/-- What a callback sends, one call after the other. -/
def sends (s : TlsStream tls) : List Sent → TlsStream tls × List TlsEvent
  | [] => (s, [])
  | sent :: rest =>
    (((s.send sent).1.sends rest).1, (s.send sent).2 ++ ((s.send sent).1.sends rest).2)

/-- The plaintext of the records that are complete is handed over. -/
def deliverAppData (s : TlsStream tls) (replies : List Sent) : TlsStream tls × List TlsEvent :=
  if s.failed then (s, [])
  else
    let (held, data) := tls.read (s.receiving, s.encrypted)
    let s := { s with receiving := held.1, encrypted := held.2 }
    match data with
    | .error e => s.fail e
    | .ok data =>
      if data = [] then (s, []) else ((s.sends replies).1, .onData data :: (s.sends replies).2)

/-- The handshake goes on, and what came behind it is handed over. -/
def driveHandshake (s : TlsStream tls) (ready : Ready) : TlsStream tls × List TlsEvent :=
  if s.established ∨ s.failed then (s, [])
  else
    let (result, receiving, sending, encrypted, bytes) :=
      tls.handshake s.receiving s.sending s.encrypted
    let s := { s with receiving, sending, encrypted }
    match result with
    | .error e => s.fail e
    | .ok done =>
      let s := { s with outbound := s.outbound ++ bytes }
      if done then
        let (s, readyEvents) := { s with established := true }.sends ready.onReady
        -- application data may have ridden the final flight
        let (s, dataEvents) := s.deliverAppData ready.onData
        (s, .onReady :: readyEvents ++ dataEvents)
      else (s, [])

/-- The loop of `onReadable`: it feeds the engine until the socket would block. At the end of
the file and on an error the stream fails, and `onReadable` returns there. -/
def drain (s : TlsStream tls) : List (Result Bytes) → TlsStream tls × List TlsEvent
  | [] => (s, [])
  | .ok [] :: _ => s.fail ⟨.Other, 0, "peer closed the connection"⟩
  | .ok (byte :: chunk) :: reads =>
    let (s, events) := { s with encrypted := s.encrypted ++ byte :: chunk }.drain reads
    (s, .read (byte :: chunk) :: events)
  | .error e :: _ => if e.cls = .WouldBlock then (s, []) else s.fail e

/-- There is ciphertext to be read. -/
def onReadable (s : TlsStream tls) (ready : Ready) : TlsStream tls × List TlsEvent :=
  let (s, events) := s.drain ready.reads
  if s.failed then (s, events)
  else
    let (s, more) :=
      if !s.established then s.driveHandshake ready else s.deliverAppData ready.onData
    let (s, last) := s.flushOutbound ready.lastWrites
    (s, events ++ more ++ last)

/-- The socket is ready. -/
def onEvent (s : TlsStream tls) (ready : Ready) : TlsStream tls × List TlsEvent :=
  if s.failed then (s, [])
  else
    let (s, first) := if ready.writable then s.flushOutbound ready.firstWrites else (s, [])
    let (s, more) :=
      if !s.failed && (ready.readable || ready.hangup) then s.onReadable ready else (s, [])
    let (s, last) :=
      if !s.failed && ready.error then s.fail ⟨.Other, 0, "socket error"⟩ else (s, [])
    (s, first ++ more ++ last)

/-- A whole run of a stream. -/
def run (s : TlsStream tls) : List Ready → TlsStream tls × List TlsEvent
  | [] => (s, [])
  | ready :: rest =>
    (((s.onEvent ready).1.run rest).1, (s.onEvent ready).2 ++ ((s.onEvent ready).1.run rest).2)

/-! ## What was read and what was handed over -/

/-- The ciphertext that was read. -/
def received (log : List TlsEvent) : Bytes :=
  log.flatMap fun
    | .read chunk => chunk
    | _ => []

/-- The plaintext that was handed over. -/
def delivered (log : List TlsEvent) : Bytes :=
  log.flatMap fun
    | .onData bytes => bytes
    | _ => []

section

variable (a b : List TlsEvent)

@[simp] theorem received_append : received (a ++ b) = received a ++ received b := by simp [received]

@[simp] theorem delivered_append : delivered (a ++ b) = delivered a ++ delivered b := by
  simp [delivered]

end

@[simp] theorem received_error (e : Error) : received [.onError e] = [] := rfl

@[simp] theorem delivered_error (e : Error) : delivered [.onError e] = [] := rfl

/-- No error was told. -/
def NoError (log : List TlsEvent) : Prop := ∀ e, TlsEvent.onError e ∉ log

/-- The application bytes of the complete records in what the engine holds and `bytes`. -/
def plain (s : TlsStream tls) (bytes : Bytes) : Bytes :=
  (tls.decrypt (s.receiving, s.encrypted ++ bytes)).2

/-- `read` would meet a bad record. -/
def refuses (s : TlsStream tls) : Bool :=
  match (tls.read (s.receiving, s.encrypted)).2 with
  | .error _ => true
  | .ok _ => false

/-- The event loses nothing: when its drain of the socket ends in a close or an error, or feeds
a bad record, no application byte was completed since the last event. -/
def safeEvent (s : TlsStream tls) (ready : Ready) : Bool :=
  let s := if ready.writable then (s.flushOutbound ready.firstWrites).1 else s
  let fed := (s.drain ready.reads).1
  s.failed || !(ready.readable || ready.hangup) || !(fed.failed || fed.refuses) ||
    fed.plain [] = []

def safe (s : TlsStream tls) : List Ready → Bool
  | [] => true
  | ready :: rest => s.safeEvent ready && (s.onEvent ready).1.safe rest

/-! ## What the sending side does -/

/-- An action of the sending side: nothing happens to what was received, and the only event is
the failure of the stream. -/
structure Quiet (s : TlsStream tls) (r : TlsStream tls × List TlsEvent) : Prop where
  receiving : r.1.receiving = s.receiving
  encrypted : r.1.encrypted = s.encrypted
  established : r.1.established = s.established
  events : (r.2 = [] ∧ r.1.failed = s.failed) ∨
    (s.failed = false ∧ r.1.failed = true ∧ ∃ e, r.2 = [.onError e])

theorem Quiet.refl (s : TlsStream tls) : Quiet s (s, []) := ⟨rfl, rfl, rfl, Or.inl ⟨rfl, rfl⟩⟩

theorem Quiet.trans {s : TlsStream tls} {r r' : TlsStream tls × List TlsEvent} (h : Quiet s r)
    (h' : Quiet r.1 r') : Quiet s (r'.1, r.2 ++ r'.2) := by
  refine ⟨h'.receiving.trans h.receiving, h'.encrypted.trans h.encrypted,
    h'.established.trans h.established, ?_⟩
  rcases h.events with ⟨h1, h2⟩ | ⟨h1, h2, e, h3⟩
  · rw [h1, ← h2]
    exact h'.events
  · rcases h'.events with ⟨h1', h2'⟩ | ⟨h1', -⟩
    · exact Or.inr ⟨h1, h2'.trans h2, e, by simp [h3, h1']⟩
    · rw [h2] at h1'
      cases h1'

theorem fail_quiet (s : TlsStream tls) (e : Error) : Quiet s (s.fail e) := by
  unfold fail
  by_cases hs : s.failed = true
  · rw [if_pos hs]
    exact .refl s
  · rw [if_neg hs]
    exact ⟨rfl, rfl, rfl, Or.inr ⟨by simpa using hs, rfl, e, rfl⟩⟩

theorem flushOutbound_quiet (s : TlsStream tls) (writes : List (Result Nat)) :
    Quiet s (s.flushOutbound writes) := by
  induction writes generalizing s with
  | nil => exact .refl s
  | cons wrote writes ih =>
    unfold flushOutbound
    split_ifs
    · exact .refl s
    · cases wrote with
      | ok n =>
        have := ih { s with outbound := s.outbound.drop n }
        exact ⟨this.receiving, this.encrypted, this.established, this.events⟩
      | error e =>
        dsimp only
        split_ifs
        · exact .refl s
        · exact fail_quiet s e

theorem send_quiet (s : TlsStream tls) (sent : Sent) : Quiet s (s.send sent) := by
  unfold send
  split_ifs
  · exact .refl s
  · split
    · exact fail_quiet s _
    · rename_i sending bytes _
      have := flushOutbound_quiet { s with sending, outbound := s.outbound ++ bytes } sent.writes
      exact ⟨this.receiving, this.encrypted, this.established, this.events⟩

theorem sends_quiet (s : TlsStream tls) (sents : List Sent) : Quiet s (s.sends sents) := by
  induction sents generalizing s with
  | nil => exact .refl s
  | cons sent rest ih => exact (send_quiet s sent).trans (ih _)

/-! ## One event -/

/-- Between two events of an established stream the engine holds no complete record. -/
structure Established (s : TlsStream tls) : Prop where
  established : s.established = true
  alive : s.failed = false
  drained : tls.readTurn (s.receiving, s.encrypted) = none

/-- What the loop of `onReadable` read is fed to the engine, in order. -/
theorem drain_spec {s : TlsStream tls} (hs : s.failed = false) (reads : List (Result Bytes)) :
    ∃ chunks, NoError chunks ∧ delivered chunks = [] ∧
      (s.drain reads).1.receiving = s.receiving ∧
      (s.drain reads).1.encrypted = s.encrypted ++ received chunks ∧
      (s.drain reads).1.established = s.established ∧
      (((s.drain reads).1.failed = false ∧ (s.drain reads).2 = chunks) ∨
        (s.drain reads).1.failed = true ∧ ∃ e, (s.drain reads).2 = chunks ++ [.onError e]) := by
  have hfail : ∀ e, s.fail e = ({ s with failed := true }, [.onError e]) := by
    intro e
    simp [fail, hs]
  induction reads generalizing s with
  | nil => exact ⟨[], by simp [NoError], rfl, rfl, by simp [drain, received], rfl, Or.inl ⟨hs, rfl⟩⟩
  | cons read reads ih =>
    match read with
    | .ok [] =>
      refine ⟨[], by simp [NoError], rfl, ?_⟩
      simp [drain, hfail, received]
    | .ok (byte :: chunk) =>
      obtain ⟨chunks, hnone, hdata, hreceiving, hfed, hestablished, hend⟩ :=
        ih (s := { s with encrypted := s.encrypted ++ byte :: chunk }) hs (by simp [fail, hs])
      refine ⟨.read (byte :: chunk) :: chunks, ?_, by simpa [delivered] using hdata, hreceiving, ?_,
        hestablished, ?_⟩
      · intro e he
        rcases List.mem_cons.mp he with he | he
        · cases he
        · exact hnone e he
      · simpa [received, drain] using hfed
      · rcases hend with ⟨halive, hevents⟩ | ⟨hfailed, e, hevents⟩
        · exact Or.inl ⟨halive, by simp only [drain, hevents]⟩
        · exact Or.inr ⟨hfailed, e, by simp only [drain, hevents, List.cons_append]⟩
    | .error e =>
      refine ⟨[], by simp [NoError], rfl, ?_⟩
      unfold drain
      split_ifs
      · exact ⟨rfl, by simp [received], rfl, Or.inl ⟨hs, rfl⟩⟩
      · simp [hfail, received]

theorem deliverAppData_spec {s : TlsStream tls} (hs : s.failed = false) (replies : List Sent) :
    (s.refuses = true ∧ (s.deliverAppData replies).1.failed = true ∧
      ∃ e, (s.deliverAppData replies).2 = [.onError e]) ∨
    (s.refuses = false ∧ ∃ t data, NoError data ∧ received data = [] ∧
      delivered data = s.plain [] ∧ t.established = s.established ∧ t.failed = false ∧
      (t.receiving, t.encrypted) = (tls.decrypt (s.receiving, s.encrypted)).1 ∧
      ∃ r, Quiet t r ∧ s.deliverAppData replies = (r.1, data ++ r.2)) := by
  unfold deliverAppData refuses plain
  rw [if_neg (by simp [hs]), List.append_nil]
  have hheld : (tls.read (s.receiving, s.encrypted)).1 =
      (tls.decrypt (s.receiving, s.encrypted)).1 := by
    unfold Tls.read
    dsimp only
    split <;> rfl
  have hplain : ∀ data, (tls.read (s.receiving, s.encrypted)).2 = .ok data →
      data = (tls.decrypt (s.receiving, s.encrypted)).2 := by
    intro data hdata
    unfold Tls.read at hdata
    dsimp only at hdata
    split at hdata
    · cases hdata
    · exact (Except.ok.inj hdata).symm
  cases hread : tls.read (s.receiving, s.encrypted) with
  | mk held result =>
  rw [hread] at hheld hplain
  obtain rfl : held = _ := hheld
  cases result with
  | error e =>
    refine Or.inl ⟨rfl, ?_⟩
    simp [fail, hs]
  | ok data =>
    obtain rfl := hplain data rfl
    refine Or.inr ⟨rfl, { s with
      receiving := (tls.decrypt (s.receiving, s.encrypted)).1.1
      encrypted := (tls.decrypt (s.receiving, s.encrypted)).1.2 }, ?_⟩
    dsimp only
    by_cases hdata : (tls.decrypt (s.receiving, s.encrypted)).2 = []
    · rw [if_pos hdata]
      exact ⟨[], by simp [NoError], rfl, by simp [hdata, delivered], rfl, hs, rfl, _, .refl _, rfl⟩
    · rw [if_neg hdata]
      exact ⟨[.onData _], by simp [NoError], rfl, by simp [delivered], rfl, hs, rfl, _,
        sends_quiet _ replies, rfl⟩

/-- How an event of the stream `s` ends: it goes on with everything delivered, or it fails, as
the last thing that it does, and lost nothing exactly when the event was `safe`. -/
inductive Outcome (s : TlsStream tls) (safe : Bool) (r : TlsStream tls × List TlsEvent) : Prop
  | goesOn (h : Established r.1) (noError : NoError r.2)
      (all : tls.decrypt (s.receiving, s.encrypted ++ received r.2) =
        ((r.1.receiving, r.1.encrypted), delivered r.2))
      (safe : safe = true)
  | fails {pre e} (failed : r.1.failed = true) (events : r.2 = pre ++ [.onError e])
      (noError : NoError pre) (lost : delivered pre = s.plain (received pre) ↔ safe = true)

theorem Established.decrypt {s : TlsStream tls} (h : Established s) :
    tls.decrypt (s.receiving, s.encrypted) = ((s.receiving, s.encrypted), []) :=
  Tls.decrypt_stop h.drained

theorem Outcome.refl {s : TlsStream tls} (h : Established s) : Outcome s true (s, []) :=
  .goesOn h (by simp [NoError]) (by simpa [received, delivered] using h.decrypt) rfl

/-- What follows on the sending side does not change it. -/
theorem Outcome.quiet {s : TlsStream tls} {safe : Bool} {r r' : TlsStream tls × List TlsEvent}
    (h : Outcome s safe r) (h' : Quiet r.1 r') : Outcome s safe (r'.1, r.2 ++ r'.2) := by
  cases h with
  | goesOn hr noError all hsafe =>
    rcases h'.events with ⟨hnone, halive⟩ | ⟨-, hfailed, e, herror⟩
    · rw [hnone, List.append_nil]
      have hr' : Established r'.1 :=
        ⟨h'.established.trans hr.established, halive.trans hr.alive,
          by rw [h'.receiving, h'.encrypted]; exact hr.drained⟩
      exact .goesOn hr' noError (by rw [all, h'.receiving, h'.encrypted]) hsafe
    · refine .fails hfailed (by rw [herror]) noError ⟨fun _ => hsafe, fun _ => ?_⟩
      rw [plain, all]
  | fails failed events noError lost =>
    rcases h'.events with ⟨hnone, hfailed⟩ | ⟨halive, -⟩
    · exact .fails (hfailed.trans failed) (by rw [hnone, List.append_nil, events]) noError lost
    · rw [failed] at halive
      cases halive

/-- What went before it on the sending side does not matter either. -/
theorem Outcome.after {s t : TlsStream tls} {safe : Bool} {r : TlsStream tls × List TlsEvent}
    (h : Outcome t safe r) (hreceiving : t.receiving = s.receiving)
    (hencrypted : t.encrypted = s.encrypted) : Outcome s safe r := by
  cases h with
  | goesOn hr noError all hsafe =>
    exact .goesOn hr noError (by rw [← hreceiving, ← hencrypted, all]) hsafe
  | fails failed events noError lost =>
    exact .fails failed events noError (by rw [lost.symm, plain, plain, hreceiving, hencrypted])

theorem onReadable_outcome {s : TlsStream tls} (h : Established s) (ready : Ready) :
    Outcome s (!((s.drain ready.reads).1.failed || (s.drain ready.reads).1.refuses) ||
      (s.drain ready.reads).1.plain [] = []) (s.onReadable ready) := by
  obtain ⟨chunks, hnone, hdata, hreceiving, hfed, hestablished, hend⟩ :=
    drain_spec h.alive ready.reads
  have hplain : (s.drain ready.reads).1.plain [] = s.plain (received chunks) := by
    rw [plain, plain, hreceiving, hfed, List.append_nil]
  unfold onReadable
  generalize s.drain ready.reads = fed at *
  dsimp only
  rcases hend with ⟨halive, hevents⟩ | ⟨hfailed, e, hevents⟩
  · rw [if_neg (by simp [halive]), hestablished, h.established, hevents]
    simp only [Bool.not_true, Bool.false_eq_true, if_false]
    rcases deliverAppData_spec halive ready.onData with ⟨hrefuses, hfailed, e, herror⟩ |
      ⟨hrefuses, t, data, hdnone, hdrec, hdel, hte, hta, hheld, r, hquiet, hr⟩
    · have hout : Outcome s (!(fed.1.failed || fed.1.refuses) || fed.1.plain [] = [])
          ((fed.1.deliverAppData ready.onData).1,
            chunks ++ (fed.1.deliverAppData ready.onData).2) := by
        refine .fails hfailed (by rw [herror]) hnone ?_
        simp only [hdata, hrefuses, hplain, Bool.or_true, Bool.not_true, Bool.false_or,
          decide_eq_true_eq]
        exact eq_comm
      exact hout.quiet (flushOutbound_quiet _ _)
    · have hheld' : tls.decrypt (fed.1.receiving, fed.1.encrypted) =
          ((t.receiving, t.encrypted), delivered data) := by
        rw [hheld, hdel, plain, List.append_nil]
      have ht : Established t :=
        ⟨hte.trans (hestablished.trans h.established), hta, hheld ▸ Tls.decrypt_ends _⟩
      have hout : Outcome s (!(fed.1.failed || fed.1.refuses) || fed.1.plain [] = [])
          (t, chunks ++ data) := by
        refine .goesOn ht ?_ ?_ (by simp [halive, hrefuses])
        · intro e he
          exact (List.mem_append.mp he).elim (hnone e) (hdnone e)
        · rw [received_append, hdrec, List.append_nil, ← hreceiving, ← hfed, hheld',
            delivered_append, hdata, List.nil_append]
      rw [hr]
      have := (hout.quiet hquiet).quiet (flushOutbound_quiet r.1 ready.lastWrites)
      simpa [List.append_assoc] using this
  · rw [if_pos hfailed, hevents]
    refine .fails hfailed rfl hnone ?_
    simp only [hdata, hfailed, hplain, Bool.true_or, Bool.not_true, Bool.false_or,
      decide_eq_true_eq]
    exact eq_comm

theorem onEvent_outcome {s : TlsStream tls} (h : Established s) (ready : Ready) :
    Outcome s (s.safeEvent ready) (s.onEvent ready) := by
  have hfirst : Quiet s
      (if ready.writable then s.flushOutbound ready.firstWrites else (s, [])) := by
    split_ifs
    · exact flushOutbound_quiet s _
    · exact .refl s
  have hsame : (if ready.writable then (s.flushOutbound ready.firstWrites).1 else s) =
      (if ready.writable then s.flushOutbound ready.firstWrites else (s, [])).1 := by
    split_ifs <;> rfl
  unfold onEvent safeEvent
  have hnot : ¬ s.failed = true := by simp [h.alive]
  rw [hsame, if_neg hnot]
  generalize (if ready.writable then s.flushOutbound ready.firstWrites else (s, [])) = first at *
  dsimp only
  rcases hfirst.events with ⟨hnone, halive⟩ | ⟨-, hfailed, e, herror⟩
  · have hlast : ∀ t : TlsStream tls, Quiet t
        (if (!t.failed && ready.error) = true then t.fail ⟨.Other, 0, "socket error"⟩
          else (t, [])) := by
      intro t
      split_ifs
      · exact fail_quiet t _
      · exact .refl t
    have hs : Established first.1 :=
      ⟨hfirst.established.trans h.established, halive.trans h.alive,
        by rw [hfirst.receiving, hfirst.encrypted]; exact h.drained⟩
    rw [hs.alive, hnone]
    by_cases hread : (ready.readable || ready.hangup) = true
    · simp only [hread, Bool.not_false, Bool.and_true, if_true, Bool.not_true, Bool.false_or,
        List.nil_append]
      exact ((onReadable_outcome hs ready).after hfirst.receiving hfirst.encrypted).quiet (hlast _)
    · rw [Bool.not_eq_true] at hread
      simp only [hread, Bool.and_false, Bool.false_eq_true, if_false, Bool.not_false,
        Bool.true_or, Bool.or_true, List.append_nil]
      exact ((Outcome.refl hs).after hfirst.receiving hfirst.encrypted).quiet (hlast _)
  · simp only [hfailed, Bool.not_true, Bool.false_and, Bool.false_eq_true, if_false,
      List.append_nil, Bool.true_or]
    have := (Outcome.refl h).quiet hfirst
    simpa using this

/-! ## Runs -/

theorem run_failed {s : TlsStream tls} (hs : s.failed = true) (events : List Ready) :
    s.run events = (s, []) := by
  induction events with
  | nil => rfl
  | cons ready rest ih =>
    have hevent : s.onEvent ready = (s, []) := by simp [onEvent, hs]
    simp [run, hevent, ih]

theorem safe_failed {s : TlsStream tls} (hs : s.failed = true) (events : List Ready) :
    s.safe events = true := by
  induction events with
  | nil => rfl
  | cons ready rest ih =>
    have hevent : s.onEvent ready = (s, []) := by simp [onEvent, hs]
    have hfirst : (if ready.writable then (s.flushOutbound ready.firstWrites).1 else s).failed =
        true := by
      split_ifs
      · rcases (flushOutbound_quiet s ready.firstWrites).events with ⟨-, h⟩ | ⟨h, -⟩
        · exact h.trans hs
        · rw [hs] at h
          cases h
      · exact hs
    simp [safe, safeEvent, hfirst, hevent, ih]

theorem run_outcome {s : TlsStream tls} (h : Established s) (events : List Ready) :
    Outcome s (s.safe events) (s.run events) := by
  induction events generalizing s with
  | nil => exact .refl h
  | cons ready rest ih =>
    unfold run safe
    cases onEvent_outcome h ready with
    | fails failed events noError lost =>
      rw [run_failed failed, safe_failed failed, Bool.and_true]
      exact .fails failed (by rw [List.append_nil, events]) noError lost
    | goesOn hr noError all hsafe =>
      have hnext : ∀ more, tls.decrypt (s.receiving,
          s.encrypted ++ received ((s.onEvent ready).2 ++ more)) =
          ((tls.decrypt ((s.onEvent ready).1.receiving,
              (s.onEvent ready).1.encrypted ++ received more)).1,
            delivered (s.onEvent ready).2 ++ (s.onEvent ready).1.plain (received more)) := by
        intro more
        rw [received_append, ← List.append_assoc, Tls.decrypt_append, all]
        rfl
      rw [hsafe, Bool.true_and]
      cases ih hr with
      | fails failed events noError' lost =>
        refine .fails failed (by rw [events, List.append_assoc]) ?_ ?_
        · intro e he
          exact (List.mem_append.mp he).elim (noError e) (noError' e)
        · rw [← lost, plain, hnext, delivered_append]
          exact List.append_right_inj _
      | goesOn hr' noError' all' hsafe' =>
        refine .goesOn hr' ?_ ?_ hsafe'
        · intro e he
          exact (List.mem_append.mp he).elim (noError e) (noError' e)
        · rw [hnext, plain, all', delivered_append]

/-- An established stream, over any engine and any sequence of readiness events: while it lives,
it has handed over, once and in order, the bytes of all the complete records that it read. When
it fails, `onError` is the last thing it does, and everything was handed over before if and only
if no event of the run lost something: none whose drain of the socket ended in a close or an
error, or fed a bad record, after it had completed application bytes. -/
theorem nothing_is_lost_at_close_iff (s : TlsStream tls) (h : Established s)
    (events : List Ready) :
    ((s.run events).1.failed = false → NoError (s.run events).2 ∧
      delivered (s.run events).2 = s.plain (received (s.run events).2)) ∧
    ((∀ pre e post, (s.run events).2 = pre ++ .onError e :: post →
      post = [] ∧ delivered pre = s.plain (received pre)) ↔ s.safe events = true) := by
  cases run_outcome h events with
  | goesOn hr noError all hsafe =>
    refine ⟨fun _ => ⟨noError, by rw [plain, all]⟩, fun _ => hsafe, fun _ pre e post hlog => ?_⟩
    exact absurd (by rw [hlog]; simp) (noError e)
  | @fails before e failed hevents noError lost =>
    refine ⟨fun halive => ?_, fun hall => ?_, fun hsafe => ?_⟩
    · rw [failed] at halive
      cases halive
    · exact lost.mp (hall before e [] hevents).2
    · intro pre e' post hlog
      -- the only error of the log is its last event
      rw [hevents] at hlog
      rcases List.append_eq_append_iff.mp hlog with ⟨more, rfl, hmore⟩ | ⟨more, rfl, hmore⟩
      · cases more with
        | nil =>
          obtain ⟨-, hpost⟩ := List.cons.inj hmore
          exact ⟨hpost.symm, by simpa using lost.mpr hsafe⟩
        | cons x more =>
          have hlen := congrArg List.length hmore
          simp at hlen
      · cases more with
        | nil =>
          obtain ⟨-, hpost⟩ := List.cons.inj hmore
          exact ⟨hpost, by simpa using lost.mpr hsafe⟩
        | cons x more =>
          obtain ⟨rfl, -⟩ := List.cons.inj hmore
          exact absurd (by simp) (noError e')

/-- A handshake that ends leaves an established stream: what rode its last flight is
delivered. -/
theorem driveHandshake_established {s : TlsStream tls} (hs : s.established = false)
    (ready : Ready) (hdone : (s.driveHandshake ready).1.established = true)
    (halive : (s.driveHandshake ready).1.failed = false) :
    Established (s.driveHandshake ready).1 := by
  have hend : ∀ t : TlsStream tls, t.established = true →
      (t.deliverAppData ready.onData).1.failed = false →
      Established (t.deliverAppData ready.onData).1 := by
    intro t ht hlive
    by_cases hfailed : t.failed = true
    · have hsame : (t.deliverAppData ready.onData).1 = t := by simp [deliverAppData, hfailed]
      rw [hsame, hfailed] at hlive
      cases hlive
    · rw [Bool.not_eq_true] at hfailed
      rcases deliverAppData_spec hfailed ready.onData with ⟨-, hdead, -⟩ |
        ⟨-, u, data, -, -, -, hu, -, hheld, r, hquiet, hr⟩
      · rw [hdead] at hlive
        cases hlive
      · rw [hr] at hlive ⊢
        refine ⟨hquiet.established.trans (hu.trans ht), hlive, ?_⟩
        rw [hquiet.receiving, hquiet.encrypted, hheld]
        exact Tls.decrypt_ends _
  unfold driveHandshake at hdone halive ⊢
  split_ifs at hdone halive ⊢ with hguard
  · rw [hs] at hdone
    cases hdone
  · rcases hhand : tls.handshake s.receiving s.sending s.encrypted with
      ⟨result, receiving, sending, encrypted, bytes⟩
    rw [hhand] at hdone halive
    dsimp only at hdone halive ⊢
    cases result with
    | error e =>
      rw [(fail_quiet _ e).established] at hdone
      rw [hs] at hdone
      cases hdone
    | ok done =>
      cases done with
      | false =>
        dsimp only at hdone
        simp [hs] at hdone
      | true =>
        simp only [if_true] at halive ⊢
        exact hend _ (sends_quiet _ ready.onReady).established halive

/-- What an engine in the clear finds in front of it: a record is its length and its bytes, 0 is the
peer's close and 255 a bad record. -/
def clearNext (bytes : Bytes) : psx.os.Next Unit :=
  match bytes with
  | [] => .incomplete
  | n :: rest =>
    if n = 0 then .closed
    else if n = 255 then .bad ⟨.Other, 0, "SSL_read"⟩
    else if rest.length < n.toNat then .incomplete
    else .record () (rest.take n.toNat) (rest.drop n.toNat)

theorem clearNext_shrinks {_s s' : Unit} {bytes plain rest : Bytes}
    (h : clearNext bytes = .record s' plain rest) : rest.length < bytes.length := by
  cases bytes with
  | nil => cases h
  | cons n bytes =>
    dsimp only [clearNext] at h
    split_ifs at h
    cases h
    simp only [List.length_drop, List.length_cons]
    omega

theorem clearNext_record {_s s' : Unit} {bytes plain rest : Bytes} (more : Bytes)
    (h : clearNext bytes = .record s' plain rest) :
    clearNext (bytes ++ more) = .record s' plain (rest ++ more) := by
  cases bytes with
  | nil => cases h
  | cons n bytes =>
    dsimp only [clearNext, List.cons_append] at h ⊢
    split_ifs at h ⊢ with h1 h2 h3 h4
    · rw [List.length_append] at h3
      omega
    · cases h
      rw [List.take_append_of_le_length (by omega), List.drop_append_of_le_length (by omega)]

theorem clearNext_closed {_s : Unit} {bytes : Bytes} (more : Bytes)
    (h : clearNext bytes = .closed) :
    clearNext (bytes ++ more) = .closed := by
  cases bytes with
  | nil => cases h
  | cons n bytes =>
    dsimp only [clearNext, List.cons_append] at h ⊢
    split_ifs at h ⊢ with h1
    rfl

theorem clearNext_bad {_s : Unit} {bytes : Bytes} {e : Error} (more : Bytes)
    (h : clearNext bytes = .bad e) : clearNext (bytes ++ more) = .bad e := by
  cases bytes with
  | nil => cases h
  | cons n bytes =>
    dsimp only [clearNext, List.cons_append] at h ⊢
    split_ifs at h ⊢ with h1 h2
    exact h

/-- An engine in the clear, for runs. -/
def clearTls : Tls where
  State := Unit
  Sending := Unit
  next := fun _ => clearNext
  handshake := fun _ _ bytes => (.ok true, (), (), bytes, [])
  write := fun _ bytes => .ok ((), bytes)
  shrinks := @clearNext_shrinks
  record_append := @clearNext_record
  closed_append := @clearNext_closed
  bad_append := @clearNext_bad

def clearStream : TlsStream clearTls := { receiving := (), sending := (), established := true }

/-- Two records in two chunks, then a close that comes in an event of its own. -/
def closeApart : List Ready :=
  [{ readable := true, reads := [.ok [1, 65, 2, 66]] },
    { readable := true, reads := [.ok [67], .error ⟨.WouldBlock, 0, "read"⟩] },
    { hangup := true, reads := [.ok []] }]

theorem a_close_apart_loses_nothing :
    ∃ pre e, (clearStream.run closeApart).2 = pre ++ [.onError e] ∧
      delivered pre = [65, 66, 67] ∧ delivered pre = clearStream.plain (received pre) :=
  ⟨[.read [1, 65, 2, 66], .onData [65], .read [67], .onData [66, 67]],
    ⟨.Other, 0, "peer closed the connection"⟩, by decide, by decide,
    ((nothing_is_lost_at_close_iff clearStream ⟨rfl, rfl, rfl⟩ closeApart).2.mpr (by decide)
      _ _ [] rfl).2⟩

/-- A record and the close in one readiness event: the record was read and is never delivered. -/
theorem data_before_a_close_is_lost :
    (clearStream.run [{ readable := true, reads := [.ok [1, 65], .ok []] }]).2 =
        [.read [1, 65], .onError ⟨.Other, 0, "peer closed the connection"⟩] ∧
      clearStream.plain [1, 65] = [65] := by
  decide

end TlsStream

end psx.transport
