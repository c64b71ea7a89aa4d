-- A chain of remote stages together with the sessions of its connections: every chunk of
-- output is credited back at once and queued for the next stage, whatever waits there. The
-- law here bounds the queue while no chunk meets a full one.
import PipeShellX.Pipeline.DistributedRuns
import PipeShellX.Transport.SessionQueue

namespace psx.pipeline

open psx.os (ExitStatus)
open psx.transport

/-! ## The system -/

/-- A runner with the sessions of its stages. -/
structure DistributedFlow where
  runner : DistributedRunner := {}
  sessions : Nat → Session := fun _ => .new .Controller kDefaultStreamWindow false

namespace DistributedFlow

open DistributedRunner (Launch RemoteStage Setup)

/-- What the runner does to the sessions. A fence destroys the transport, and its session. -/
def obey (sessions : Nat → Session) : DistributedRunner.Event → Nat → Session
  | .opened index argv =>
    Function.update sessions index ((sessions index).open_ ⟨argv, []⟩).1
  | .sent index id bytes endStream =>
    Function.update sessions index ((sessions index).sendData id bytes endStream .Stdout).1
  | .consumed index id n => Function.update sessions index ((sessions index).consume id n).1
  | .fenced index => Function.update sessions index (.new .Controller kDefaultStreamWindow false)
  | _ => sessions

/-- What `Session::open` returns for each stage. -/
def opens (c : DistributedFlow) (index : Nat) : StreamId :=
  ((c.sessions index).open_ ⟨c.runner.argvs.getD index [], []⟩).2.1

/-- The runner takes an input, and its sessions do what it calls. -/
def tell (c : DistributedFlow) (input : DistributedRunner.Input) : DistributedFlow :=
  let runner := c.runner.step c.opens input
  { runner, sessions := (runner.log.drop c.runner.log.length).foldl obey c.sessions }

/-- The callbacks that a connection has for its session. -/
def heard (index : Nat) : transport.Event → Option DistributedRunner.Input
  | .onData _ bytes _ channel => some (.data index bytes channel)
  | .onExit _ status => some (.exit index status)
  | _ => none

/-- A frame arrives. A violation poisons the session and ends the connection. -/
def receive (c : DistributedFlow) (index : Nat) (frame : Frame) : DistributedFlow :=
  if ¬ (c.runner.conn index).transport ∨ (c.sessions index).protocolFailed then c
  else
    match (c.sessions index).dispatch frame with
    | .error e =>
      let failed := { c.sessions index with protocolFailed := true }
      { c with sessions := Function.update c.sessions index failed }.tell
      (.error index (e.message ""))
    | .ok (session, events) =>
      (events.filterMap (heard index)).foldl tell
        { c with sessions := Function.update c.sessions index session }

/-- What can happen: what the transports report but for frames, what the caller does, and
the frames. -/
inductive Input
  | ready (index : Nat)
  | error (index : Nat) (message : String)
  | writeStdin (bytes : Bytes)
  | closeStdin
  | cancel
  | ping (index : Nat)
  | frame (index : Nat) (frame : Frame)

/-- One step of the runner, with what it does to the sessions. -/
def step (c : DistributedFlow) : Input → DistributedFlow
  | .ready index => c.tell (.ready index)
  | .error index message => c.tell (.error index message)
  | .writeStdin bytes => c.tell (.writeStdin bytes)
  | .closeStdin => c.tell .closeStdin
  | .cancel => c.tell .cancel
  | .ping index =>
    { c with sessions := Function.update c.sessions index (c.sessions index).ping.1 }
  | .frame index frame => c.receive index frame

/-- A runner as constructed runs a chain of stages, and then takes some inputs. -/
def history (launch : Nat → Launch) (given : Setup) (stages : List RemoteStage)
    (inputs : List Input) : DistributedFlow :=
  inputs.foldl step
    { runner := (DistributedRunner.run launch
        { onOutput := given.onOutput, onStderr := given.onStderr } stages given.onComplete
        given.externalStdin).1 }

end DistributedFlow

/-! ## What the runner sends to a stage that is not the first -/

namespace DistributedRunner

/-- Nothing but an end goes to a stage that is not the first. -/
def Event.Spare : Event → Prop
  | .sent index _ bytes _ => index = 0 ∨ bytes = []
  | _ => True

/-- All that happened spares the sessions. -/
def Spares (d d' : DistributedRunner) : Prop :=
  ∃ more, d'.log = d.log ++ more ∧ ∀ e ∈ more, e.Spare

section

variable {d d' : DistributedRunner} {index : Nat}

theorem Spares.refl (d : DistributedRunner) : Spares d d := ⟨[], by simp, by simp⟩

theorem Spares.trans {a b c : DistributedRunner} (h : Spares a b) (h' : Spares b c) :
    Spares a c := by
  obtain ⟨first, hfirst, hspare⟩ := h
  obtain ⟨second, hsecond, hspare'⟩ := h'
  refine ⟨first ++ second, by rw [hsecond, hfirst, List.append_assoc], fun e he => ?_⟩
  rcases List.mem_append.mp he with he | he
  · exact hspare e he
  · exact hspare' e he

/-- Nothing was noted. -/
theorem spares_same (h : d'.log = d.log) : Spares d d' := ⟨[], by simp [h], by simp⟩

theorem spares_note {e : Event} (he : e.Spare) : Spares d (d.note e) :=
  ⟨[e], rfl, fun _ hmem => List.mem_singleton.mp hmem ▸ he⟩

theorem Spares.note {e : Event} (h : Spares d d') (he : e.Spare) : Spares d (d'.note e) :=
  h.trans (spares_note he)

/-- The connections changed, or the flags. -/
theorem Spares.same {d'' : DistributedRunner} (h : Spares d d') (hlog : d''.log = d'.log) :
    Spares d d'' :=
  h.trans (spares_same hlog)

theorem spares_use {e : Event} (he : e.Spare) : Spares d (d.use index e) := by
  unfold use
  split_ifs
  · exact spares_note he
  · exact spares_note trivial

theorem spares_sendFirst (bytes : Bytes) (endStream : Bool) :
    Spares d (d.sendData 0 bytes endStream) :=
  spares_use (Or.inl rfl)

theorem spares_sendEnd : Spares d (d.sendData index [] true) :=
  spares_use (Or.inr rfl)

theorem spares_finish (outcome : Outcome) : Spares d (d.finish outcome) := by
  unfold finish
  dsimp only
  split_ifs
  · exact .refl d
  · apply Spares.note
    · exact spares_same rfl
    · trivial
  · exact spares_same rfl

theorem spares_fenceBefore (index : Nat) : Spares d (d.fenceBefore index) := by
  refine ⟨_, rfl, fun e he => ?_⟩
  obtain ⟨i, -, rfl⟩ := List.mem_map.mp he
  trivial

theorem spares_onConnError (message : String) : Spares d (d.onConnError index message) := by
  unfold onConnError
  split_ifs
  · exact .refl d
  · exact spares_finish _

theorem spares_onExit (status : ExitStatus) : Spares d (d.onExit index status) := by
  have hnoted : Spares d (d.note (.exited index status)) := spares_note trivial
  have htold : Spares d ((d.note (.exited index status)).modify index (Conn.reported status)) :=
    hnoted.same rfl
  have hfenced := htold.trans (spares_fenceBefore index)
  unfold onExit onStageExit
  dsimp only
  split_ifs
  · exact htold
  · exact hfenced.trans spares_sendEnd
  · exact hfenced.trans (spares_finish _)

theorem spares_feedFirst : Spares d d.feedFirst := by
  have hfed : Spares d { d.sendData 0 d.stdinBuffer false with stdinBuffer := [] } :=
    (spares_sendFirst _ _).same rfl
  unfold feedFirst
  dsimp only
  split_ifs
  · exact hfed.trans (spares_sendFirst [] true)
  · exact hfed
  · exact spares_sendFirst [] true
  · exact .refl d
  · exact spares_sendFirst [] true

theorem spares_openStream (opens : Nat → StreamId) : Spares d (openStream opens d index) := by
  have hused : Spares d (d.use index (.opened index (d.argvs.getD index []))) := spares_use trivial
  exact hused.same rfl

theorem spares_onConnReady (opens : Nat → StreamId) : Spares d (d.onConnReady opens index) := by
  unfold onConnReady
  by_cases hdone : d.done = true
  · rw [if_pos hdone]
    exact .refl d
  · rw [if_neg hdone]
    extract_lets ready counted opened
    have hcounted : Spares d counted := spares_same rfl
    have hopened : Spares d opened :=
      Trace.foldl_induction (P := Spares d) hcounted fun _ _ _ _ h =>
        h.trans (spares_openStream opens)
    split_ifs
    · exact hcounted
    · have hopen : Spares d { opened with streamsOpen := true } := hopened.same rfl
      exact hopen.trans spares_feedFirst

theorem spares_writeStdin (bytes : Bytes) : Spares d (d.writeStdin bytes) := by
  unfold writeStdin
  split_ifs
  · exact .refl d
  · exact spares_sendFirst _ _
  · exact spares_same rfl

theorem spares_closeStdin : Spares d d.closeStdin := by
  unfold closeStdin
  dsimp only
  split_ifs
  · exact .refl d
  · have hpending : Spares d { d with stdinEndPending := true } := spares_same rfl
    exact hpending.trans (spares_sendFirst [] true)
  · exact spares_same rfl

theorem spares_cancel : Spares d d.cancel := by
  unfold cancel
  dsimp only
  split_ifs
  · exact .refl d
  · have hnoted : Spares d (d.note .cancelled) := spares_note trivial
    exact (hnoted.trans (spares_fenceBefore _)).trans (spares_finish _)

/-- Only a chunk of output goes to the next stage. -/
theorem spares_step (opens : Nat → StreamId) (input : Input)
    (hdata : ∀ index bytes channel, input ≠ .data index bytes channel) :
    Spares d (d.step opens input) := by
  unfold step
  cases input with
  | data index bytes channel => exact absurd rfl (hdata index bytes channel)
  | ready index =>
    dsimp only
    split_ifs
    · have hready : Spares d (d.modify index fun conn => { conn with ready := true }) :=
        spares_same rfl
      exact hready.trans (spares_onConnReady opens)
    · exact .refl d
  | exit index status =>
    dsimp only
    split_ifs
    · exact spares_onExit status
    · exact .refl d
  | error index message =>
    dsimp only
    split_ifs
    · exact spares_onConnError message
    · exact .refl d
  | writeStdin bytes => exact spares_writeStdin bytes
  | closeStdin => exact spares_closeStdin
  | cancel => exact spares_cancel

/-- The runner with a chunk of output, up to where it goes. -/
def took (d : DistributedRunner) (index : Nat) (data : Bytes) (channel : Channel) :
    DistributedRunner :=
  let d := d.note (.got index data channel)
  if (d.conn index).session then d.note (.consumed index (d.conn index).streamId data.length) else d

theorem spares_took (d : DistributedRunner) (index : Nat) (data : Bytes) (channel : Channel) :
    Spares d (d.took index data channel) := by
  unfold took
  dsimp only
  have hgot : Spares d (d.note (.got index data channel)) := spares_note trivial
  split_ifs
  · exact hgot.note trivial
  · exact hgot

theorem got_took (d : DistributedRunner) (index : Nat) (data : Bytes) (channel : Channel) :
    .got index data channel ∈ (d.took index data channel).log := by
  unfold took
  dsimp only
  split_ifs <;> simp [note]

/-- A chunk of output is kept here, or it goes to the next stage. -/
theorem onData_forwards (d : DistributedRunner) (index : Nat) (data : Bytes) (channel : Channel) :
    Spares (d.took index data channel) (d.onData index data channel) ∨
      channel = .Stdout ∧ d.done = false ∧ index + 1 < d.conns.length ∧
        (d.onData index data channel).log = (d.took index data channel).log ++
          [.sent (index + 1) (d.conn (index + 1)).streamId data false] := by
  have hdone : (d.took index data channel).done = d.done := by
    unfold took
    dsimp only
    split_ifs <;> rfl
  have hconns : (d.took index data channel).conns = d.conns := by
    unfold took
    dsimp only
    split_ifs <;> rfl
  change Spares _ (if channel = .Stderr then
      if (d.took index data channel).onStderr then (d.took index data channel).note (.stderr data)
      else d.took index data channel
    else (d.took index data channel).forward index data) ∨ _ ∧ _ ∧ _ ∧
      DistributedRunner.log (if channel = .Stderr then
        if (d.took index data channel).onStderr then (d.took index data channel).note (.stderr data)
        else d.took index data channel
      else (d.took index data channel).forward index data) = _
  cases channel with
  | Stderr =>
    left
    rw [if_pos rfl]
    split_ifs
    · exact spares_note trivial
    · exact .refl _
  | Stdout =>
    rw [if_neg (by decide)]
    unfold forward
    rw [hdone, hconns]
    split_ifs with hover hnext
    · exact .inl (.refl _)
    · unfold sendData use
      have hconn : (d.took index data .Stdout).conn (index + 1) = d.conn (index + 1) := by
        unfold conn
        rw [hconns]
      rw [hconn]
      split_ifs
      · exact .inr ⟨rfl, by simpa using hover, hnext, rfl⟩
      · exact .inl (spares_note trivial)
    · exact .inl (spares_note trivial)
    · exact .inl (.refl _)

end

end DistributedRunner

namespace DistributedFlow

open DistributedRunner (Launch RemoteStage Setup)

/-! ## What the sessions hold back -/

/-- A session of the chain, whose `sendBytes` count its queues. -/
structure Sound (s : Session) : Prop where
  role : s.role = .Controller
  window : s.initialWindow = kDefaultStreamWindow
  counted : s.Counted

theorem Sound.config {s s' : Session} (h : Sound s)
    (hconfig : (s'.role, s'.initialWindow) = (s.role, s.initialWindow))
    (hcounted : s.Counted → s'.Counted) : Sound s' := by
  obtain ⟨hrole, hwindow⟩ := Prod.mk.inj hconfig
  exact ⟨hrole.trans h.role, hwindow.trans h.window, hcounted h.counted⟩

theorem sound_new : Sound (.new .Controller kDefaultStreamWindow false) := ⟨rfl, rfl, nofun⟩

/-- Every session is sound, and a queue of a stage that is not the first holds less than the
window and one chunk that the stage before it produced. -/
structure Inv (c : DistributedFlow) : Prop where
  sound : ∀ index, Sound (c.sessions index)
  bounded : ∀ index id, (c.sessions (index + 1)).backlog id = 0 ∨
    ∃ bytes, .got index bytes .Stdout ∈ c.runner.log ∧
      (c.sessions (index + 1)).backlog id < kDefaultStreamWindow.toNat + bytes.length

section

variable {c : DistributedFlow}

/-- The log went on, and no queue of a stage that is not the first grew. -/
theorem Inv.eased (h : Inv c) {c' : DistributedFlow} (hsound : ∀ index, Sound (c'.sessions index))
    (hlog : ∀ e ∈ c.runner.log, e ∈ c'.runner.log)
    (hless : ∀ index id, (c'.sessions (index + 1)).backlog id ≤
      (c.sessions (index + 1)).backlog id) :
    Inv c' := by
  refine ⟨hsound, fun index id => ?_⟩
  have hle := hless index id
  rcases h.bounded index id with hnone | ⟨bytes, hgot, hroom⟩
  · exact .inl (by omega)
  · exact .inr ⟨bytes, hlog _ hgot, by omega⟩

/-- One session changed, and it waits with no more than before. -/
theorem Inv.relieved (h : Inv c) (index : Nat) {session : Session}
    (hrelieves : Session.Relieves (c.sessions index) session) :
    Inv { c with sessions := Function.update c.sessions index session } := by
  refine h.eased (fun i => ?_) (fun _ he => he) fun i id => ?_
  · by_cases hi : i = index
    · subst hi
      simpa using (h.sound i).config hrelieves.config hrelieves.counted
    · simpa [hi] using h.sound i
  · by_cases hi : i + 1 = index
    · subst hi
      simpa using hrelieves.backlog id
    · simp [hi]

/-- What one event does to the sessions. -/
theorem obey_spec (sessions : Nat → Session) (e : DistributedRunner.Event)
    (hsound : ∀ i, Sound (sessions i)) :
    (∀ i, Sound (obey sessions e i)) ∧
      (e.Spare → ∀ i id, (obey sessions e (i + 1)).backlog id ≤ (sessions (i + 1)).backlog id) := by
  have hone : ∀ index session, Sound session →
      (index ≠ 0 → ∀ id, session.backlog id ≤ (sessions index).backlog id) →
      (∀ i, Sound (Function.update sessions index session i)) ∧
        ∀ i id, (Function.update sessions index session (i + 1)).backlog id ≤
          (sessions (i + 1)).backlog id := by
    intro index session hnew hless
    refine ⟨fun i => ?_, fun i id => ?_⟩
    · by_cases hi : i = index
      · subst hi
        simpa using hnew
      · simpa [hi] using hsound i
    · by_cases hi : i + 1 = index
      · subst hi
        simpa using hless (by omega) id
      · simp [hi]
  have hrelieved : ∀ index session, Session.Relieves (sessions index) session →
      (∀ i, Sound (Function.update sessions index session i)) ∧
        ∀ i id, (Function.update sessions index session (i + 1)).backlog id ≤
          (sessions (i + 1)).backlog id := fun index session hrelieves =>
    hone index session ((hsound index).config hrelieves.config hrelieves.counted) fun _ =>
      hrelieves.backlog
  cases e with
  | opened index argv =>
    obtain ⟨hall, hless⟩ := hrelieved index _ (Session.relieves_open (sessions index) ⟨argv, []⟩)
    exact ⟨hall, fun _ => hless⟩
  | sent index id bytes endStream =>
    obtain ⟨hconfig, hcounted, hbacklog⟩ :=
      (sessions index).sendData_backlog id bytes endStream .Stdout
    have hnew := (hsound index).config hconfig hcounted
    refine ⟨fun i => ?_, fun hspare => ?_⟩
    · by_cases hi : i = index
      · subst hi
        simpa [obey] using hnew
      · simpa [obey, hi] using hsound i
    · rcases hspare with rfl | rfl
      · exact (hone 0 _ hnew fun hne => absurd rfl hne).2
      · exact (hrelieved index _ ((sessions index).relieves_sendEnd id endStream .Stdout)).2
  | consumed index id n =>
    obtain ⟨hall, hless⟩ := hrelieved index _ (Session.relieves_consume (sessions index) id n)
    exact ⟨hall, fun _ => hless⟩
  | fenced index =>
    have hempty : ∀ id, (Session.new .Controller kDefaultStreamWindow false).backlog id = 0 :=
      fun _ => rfl
    obtain ⟨hall, hless⟩ := hone index _ sound_new fun _ id => by
      rw [hempty]
      exact Nat.zero_le _
    exact ⟨hall, fun _ => hless⟩
  | null | output | stderr | complete | got | exited | cancelled =>
    exact ⟨hsound, fun _ _ _ => Nat.le_refl _⟩

/-- What a run of spare events does to them. -/
theorem obeys_spec (events : List DistributedRunner.Event) {sessions : Nat → Session}
    (hsound : ∀ i, Sound (sessions i)) (hspare : ∀ e ∈ events, e.Spare) :
    (∀ i, Sound (events.foldl obey sessions i)) ∧
      ∀ i id, (events.foldl obey sessions (i + 1)).backlog id ≤ (sessions (i + 1)).backlog id := by
  refine Trace.foldl_induction (P := fun after : Nat → Session => (∀ i, Sound (after i)) ∧
    ∀ i id, (after (i + 1)).backlog id ≤ (sessions (i + 1)).backlog id)
    ⟨hsound, fun _ _ => Nat.le_refl _⟩ fun pre e post heq h => ?_
  obtain ⟨hall, hless⟩ := obey_spec (pre.foldl obey sessions) e h.1
  exact ⟨hall, fun i id => Nat.le_trans (hless (hspare e (by simp [heq])) i id) (h.2 i id)⟩

/-- An input that sends no chunk on. -/
theorem Inv.spared (h : Inv c) {input : DistributedRunner.Input}
    (hspares : c.runner.Spares (c.runner.step c.opens input)) : Inv (c.tell input) := by
  obtain ⟨more, hmore, hspare⟩ := hspares
  have hobeys := obeys_spec more h.sound hspare
  have hnew : (c.runner.step c.opens input).log.drop c.runner.log.length = more := by
    rw [hmore, List.drop_left]
  unfold tell
  dsimp only
  rw [hnew]
  refine h.eased hobeys.1 (fun e he => ?_) hobeys.2
  dsimp only
  rw [hmore]
  exact List.mem_append_left _ he

theorem Inv.told (h : Inv c) {input : DistributedRunner.Input}
    (hdata : ∀ index bytes channel, input ≠ .data index bytes channel) : Inv (c.tell input) :=
  h.spared (DistributedRunner.spares_step c.opens input hdata)

/-- A chunk of output that meets room at the next stage, if it goes there. -/
theorem Inv.data (h : Inv c) (index : Nat) (bytes : Bytes) (channel : Channel)
    (hroom : c.runner.live index = true → channel = .Stdout → c.runner.done = false →
      index + 1 < c.runner.conns.length →
        (c.sessions (index + 1)).isWritable (c.runner.conn (index + 1)).streamId = true) :
    Inv (c.tell (.data index bytes channel)) := by
  by_cases hlive : c.runner.live index = true
  · have hstep : c.runner.step c.opens (.data index bytes channel) =
        c.runner.onData index bytes channel := by
      unfold DistributedRunner.step
      dsimp only
      rw [if_pos hlive]
    obtain ⟨more, hmore, hspare⟩ : c.runner.Spares (c.runner.took index bytes channel) :=
      DistributedRunner.spares_took c.runner index bytes channel
    rcases c.runner.onData_forwards index bytes channel with
      hspares | ⟨hchannel, hdone, hnext, hsent⟩
    · apply h.spared
      rw [hstep]
      exact DistributedRunner.Spares.trans ⟨more, hmore, hspare⟩ hspares
    · subst hchannel
      have hwritable := hroom hlive rfl hdone hnext
      have hgot := c.runner.got_took index bytes .Stdout
      obtain ⟨hsound, hless⟩ := obeys_spec more h.sound hspare
      have hnew : (c.runner.onData index bytes .Stdout).log.drop c.runner.log.length =
          more ++ [.sent (index + 1) (c.runner.conn (index + 1)).streamId bytes false] := by
        rw [hsent, hmore, List.append_assoc, List.drop_left]
      unfold tell
      dsimp only
      rw [hstep, hnew, List.foldl_append, List.foldl_cons, List.foldl_nil]
      generalize more.foldl obey c.sessions = sessions at hsound hless
      have hobeyed := obey_spec sessions
        (.sent (index + 1) (c.runner.conn (index + 1)).streamId bytes false) hsound
      refine ⟨hobeyed.1, fun i id => ?_⟩
      have hlog : ∀ e ∈ c.runner.log, e ∈ (c.runner.onData index bytes .Stdout).log := by
        intro e he
        rw [hsent, hmore]
        simp [he]
      have hkept : (sessions (i + 1)).backlog id = 0 ∨
          ∃ earlier, .got i earlier .Stdout ∈ (c.runner.onData index bytes .Stdout).log ∧
            (sessions (i + 1)).backlog id < kDefaultStreamWindow.toNat + earlier.length := by
        have hle := hless i id
        rcases h.bounded i id with hnone | ⟨earlier, hmem, hbound⟩
        · exact .inl (by omega)
        · exact .inr ⟨earlier, hlog _ hmem, by omega⟩
      unfold obey
      dsimp only
      by_cases hi : i = index
      · subst hi
        rw [Function.update_self]
        obtain ⟨-, -, hbacklog⟩ := (sessions (i + 1)).sendData_backlog
          (c.runner.conn (i + 1)).streamId bytes false .Stdout
        have hmost := hbacklog id
        by_cases hid : id = (c.runner.conn (i + 1)).streamId
        · -- the stream that the chunk joins had room for more
          right
          refine ⟨bytes, by rw [hsent]; exact List.mem_append_left _ hgot, ?_⟩
          rw [if_pos hid] at hmost
          have hle := hless i id
          have hbefore := Session.backlog_writable (h.sound (i + 1)).counted hwritable
          rw [← hid, (h.sound (i + 1)).window] at hbefore
          have hpositive : 0 < kDefaultStreamWindow.toNat := by decide
          rcases hbefore with hbefore | hbefore <;> omega
        · rw [if_neg hid, Nat.add_zero] at hmost
          rcases hkept with hnone | ⟨earlier, hmem, hbound⟩
          · exact .inl (by omega)
          · exact .inr ⟨earlier, hmem, by omega⟩
      · rw [Function.update_of_ne (by omega)]
        exact hkept
  · have hsame : c.tell (.data index bytes channel) = c := by
      unfold tell DistributedRunner.step
      dsimp only
      rw [if_neg hlive, List.drop_length]
      rfl
    rw [hsame]
    exact h

/-! ## Runs -/

/-- The frame brings a chunk of stdout that goes on to the next stage, whose queue is full. -/
def Overruns (c : DistributedFlow) : Input → Prop
  | .frame index frame =>
    frame.type = .Data ∧ channelOf frame.flags = .Stdout ∧
      (∃ session events, (c.sessions index).dispatch frame = .ok (session, events) ∧ events ≠ []) ∧
      c.runner.live index = true ∧ c.runner.done = false ∧ index + 1 < c.runner.conns.length ∧
      (c.sessions (index + 1)).isWritable (c.runner.conn (index + 1)).streamId = false
  | _ => False

theorem Inv.step (h : Inv c) {input : Input} (hroom : ¬ Overruns c input) : Inv (c.step input) := by
  unfold DistributedFlow.step
  cases input with
  | ready index => exact h.told nofun
  | error index message => exact h.told nofun
  | writeStdin bytes => exact h.told nofun
  | closeStdin => exact h.told nofun
  | cancel => exact h.told nofun
  | ping index => exact h.relieved index (Session.relieves_ping _)
  | frame index frame =>
    dsimp only
    unfold receive
    by_cases hgone : ¬ (c.runner.conn index).transport = true ∨
      (c.sessions index).protocolFailed = true
    · rw [if_pos hgone]
      exact h
    · rw [if_neg hgone]
      cases hdispatch : (c.sessions index).dispatch frame with
      | error e =>
        have hfailed : Session.Relieves (c.sessions index)
            { c.sessions index with protocolFailed := true } := Session.relieves_same rfl rfl
        exact (h.relieved index hfailed).told nofun
      | ok r =>
        obtain ⟨session, events⟩ := r
        have hrole := (h.sound index).role
        have hnext := h.relieved index (Session.dispatch_relieves hrole hdispatch)
        rcases Session.dispatch_hands hrole hdispatch with ⟨htype, hevents⟩ | hnone
        · dsimp only at hevents ⊢
          rw [hevents]
          change Inv (tell _ (.data index frame.payload (channelOf frame.flags)))
          refine hnext.data index _ _ fun hlive hchannel hdone hlt => ?_
          have hwritable : ¬ (c.sessions (index + 1)).isWritable
              (c.runner.conn (index + 1)).streamId = false := fun hfull =>
            hroom ⟨htype, hchannel, ⟨session, events, hdispatch, by simp [hevents]⟩,
              hlive, hdone, hlt,
              hfull⟩
          simpa using hwritable
        · dsimp only
          refine Trace.foldl_induction (P := Inv) hnext fun pre input post heq hpre => hpre.told ?_
          rintro i bytes channel rfl
          have hmem : .data i bytes channel ∈ events.filterMap (heard index) := by simp [heq]
          obtain ⟨e, he, hheard⟩ := List.mem_filterMap.mp hmem
          cases e with
          | onData id bytes endStream channel => exact hnone id bytes endStream channel he
          | _ => cases hheard

end

theorem history_snoc (launch : Nat → Launch) (given : Setup) (stages : List RemoteStage)
    (inputs : List Input) (input : Input) :
    history launch given stages (inputs ++ [input]) =
      (history launch given stages inputs).step input := by
  unfold history
  rw [List.foldl_append]
  rfl

/-- While no chunk of output goes on to a stage whose stream is not writable, what waits for a
stage is, in every state, less than the window and one chunk that the stage before it
produced. -/
theorem queues_stay_bounded (launch : Nat → Launch) (given : Setup) (stages : List RemoteStage)
    (inputs : List Input)
    (hroom : ∀ before input after, inputs = before ++ input :: after →
      ¬ Overruns (history launch given stages before) input) :
    let c := history launch given stages inputs
    ∀ index id, (∀ stream, (c.sessions (index + 1)).streams id = some stream →
        stream.sendBytes = (c.sessions (index + 1)).backlog id) ∧
      ((c.sessions (index + 1)).backlog id = 0 ∨
        ∃ bytes, .got index bytes .Stdout ∈ c.runner.log ∧
          (c.sessions (index + 1)).backlog id < kDefaultStreamWindow.toNat + bytes.length) := by
  have hinv : Inv (history launch given stages inputs) := by
    refine Trace.foldl_induction (P := Inv) ⟨fun _ => sound_new, fun _ _ => .inl rfl⟩ ?_
    intro before input after heq h
    exact h.step (hroom before input after heq)
  intro c index id
  refine ⟨fun stream hstream => ?_, hinv.bounded index id⟩
  rw [Session.backlog_some hstream]
  exact (hinv.sound (index + 1)).counted id stream hstream

/-! ## A stage that returns no credit -/

/-- A chunk as large as the window. -/
def windowful : Bytes := List.replicate 262144 0

theorem windowful_length : windowful.length = 262144 := List.length_replicate

/-- Two stages are up, and the second one has returned no credit for what the first produced. -/
structure Stalled (total : Nat) (c : DistributedFlow) : Prop where
  conns : c.runner.conns = [⟨true, 1, false, 0, true, true⟩, ⟨true, 1, false, 0, true, true⟩]
  running : c.runner.done = false ∧ c.runner.streamsOpen = true
  got : ∀ bytes, .got 0 bytes .Stdout ∈ c.runner.log → bytes = windowful
  roles : (c.sessions 0).role = .Controller ∧ (c.sessions 1).role = .Controller
  window : (c.sessions 1).initialWindow = kDefaultStreamWindow
  working : (c.sessions 0).protocolFailed = false ∧ (c.sessions 1).protocolFailed = false
  source : (c.sessions 0).locallyClosedStreams 1 = none ∧
    ∃ stream, (c.sessions 0).streams 1 = some stream ∧ stream.peerDataClosed = false ∧
      stream.recvWindow = .new kDefaultStreamWindow 0
  sink : ∃ stream, (c.sessions 1).streams 1 = some stream ∧ stream.localDataClosed = false ∧
    stream.exitPending = false ∧ stream.Counted ∧
    stream.backlog + 262144 = total + stream.sendCredit ∧
    (stream.sendQueue ≠ [] → stream.sendCredit = 0)

/-- The chain of two stages once both connections are ready. -/
def started : DistributedFlow :=
  history (fun _ => .started none none) ⟨true, true, true, false⟩ [⟨[[121]]⟩, ⟨[[104]]⟩]
    [.ready 0, .ready 1]

theorem started_stalled : Stalled 0 started := by
  refine ⟨by decide, by decide, ?_, by decide, by decide, by decide,
    ⟨by decide, _, rfl, by decide, by decide⟩,
    _, rfl, by decide, by decide, rfl, by decide, by decide⟩
  have hlog : started.runner.log = [.opened 0 [[121]], .opened 1 [[104]], .sent 0 1 [] true] := by
    decide
  rw [hlog]
  simp

/-- The window of the first stage, with a chunk outstanding. -/
def fullWindow : psx.stream.CreditWindow :=
  { window := 262144, threshold := 131072, outstanding := 262144 }

theorem dispatch_chunk {s : Session} {stream : Stream} {bytes : Bytes}
    (hlength : bytes.length = 262144) (hrole : s.role = .Controller)
    (hclosed : s.locallyClosedStreams 1 = none) (hstream : s.streams 1 = some stream)
    (hpeer : stream.peerDataClosed = false)
    (hwindow : stream.recvWindow = .new kDefaultStreamWindow 0) :
    s.dispatch ⟨.Data, 0, 1, bytes⟩ =
      .ok (s.setStream 1 { stream with recvWindow := fullWindow },
        [.onData 1 bytes false .Stdout]) := by
  have hflags : validateStreamFrame ⟨.Data, 0, 1, bytes⟩ (kFlagEndStream ||| kFlagStderr) =
      .ok () := by
    refine validateStreamFrame_ok.mpr ⟨?_, ?_⟩
    · show (1 : StreamId) ≠ 0
      decide
    · show decide ((0 : UInt8) &&& ~~~(kFlagEndStream ||| kFlagStderr) = 0) = true
      decide
  have hfits : stream.recvWindow.onData bytes.length = some fullWindow := by
    rw [hlength, hwindow]
    decide
  have hplain : Session.endsStream ⟨.Data, 0, 1, bytes⟩ = false := by
    show decide ((0 : UInt8) &&& kFlagEndStream ≠ 0) = false
    decide
  have hchannel : (0 : UInt8) &&& kFlagStderr = 0 := by decide
  simp [Session.dispatch, Session.dispatchData, hflags, hclosed, hstream, hpeer, hfits, hplain,
    hchannel, hrole, Session.refuse, bind, Except.bind, pure, Except.pure]

/-- What the runner does with a chunk of the first of the two stages. -/
theorem onData_windowful {d : DistributedRunner}
    (hconns : d.conns = [⟨true, 1, false, 0, true, true⟩, ⟨true, 1, false, 0, true, true⟩])
    (hdone : d.done = false) :
    d.onData 0 windowful .Stdout =
      { d with
        log := d.log ++ [.got 0 windowful .Stdout, .consumed 0 1 262144,
          .sent 1 1 windowful false] } := by
  simp [DistributedRunner.onData, DistributedRunner.note, DistributedRunner.conn, hconns,
    DistributedRunner.forward, hdone, DistributedRunner.sendData, DistributedRunner.use,
    windowful_length]

/-- The second stage queues the chunk, or spends credit on it. -/
theorem sendData_windowful {s : Session} {stream : Stream} {total : Nat}
    (hrole : s.role = .Controller)
    (hworking : s.protocolFailed = false) (hstream : s.streams 1 = some stream)
    (hclosed : stream.localDataClosed = false) (hexit : stream.exitPending = false)
    (hcounted : stream.Counted) (hcount : stream.backlog + 262144 = total + stream.sendCredit) :
    (s.sendData 1 windowful false .Stdout).1.role = .Controller ∧
      (s.sendData 1 windowful false .Stdout).1.initialWindow = s.initialWindow ∧
      (s.sendData 1 windowful false .Stdout).1.protocolFailed = false ∧
      ∃ after, (s.sendData 1 windowful false .Stdout).1.streams 1 = some after ∧
        after.localDataClosed = false ∧ after.exitPending = false ∧ after.Counted ∧
        after.backlog + 262144 = total + 262144 + after.sendCredit ∧
        (after.sendQueue ≠ [] → after.sendCredit = 0) := by
  obtain ⟨hbacklog, hqueued, hcredit, hpending, hended⟩ :=
    Session.queueData_backlog stream windowful false .Stdout
  obtain ⟨after, hsends, hstays, hstreams, hconfig⟩ :=
    Session.flushStream_sends s 1 (Session.queueData stream windowful false .Stdout)
  obtain ⟨next, rfl⟩ := hstays (hpending.trans hexit)
  have hnext := hsends next rfl
  have hfailed :
      (s.flushStream 1 (Session.queueData stream windowful false .Stdout)).1.protocolFailed =
      s.protocolFailed := by
    unfold Session.flushStream
    dsimp only
    split_ifs <;> rfl
  have hsend : (s.sendData 1 windowful false .Stdout).1 =
      (s.flushStream 1 (Session.queueData stream windowful false .Stdout)).1 := by
    unfold Session.sendData
    rw [if_neg (by simp [hworking, hrole]), hstream]
    dsimp only
    rw [if_neg (by simp [hclosed, hexit])]
  rw [hsend]
  have hafter : (s.flushStream 1 (Session.queueData stream windowful false .Stdout)).1.streams 1 =
      some next := by rw [hstreams, Function.update_self]
  refine ⟨(Prod.mk.inj hconfig).1.trans hrole, (Prod.mk.inj hconfig).2, hfailed.trans hworking,
    next, hafter, ?_, ?_, hnext.counted (hqueued hcounted), ?_, Session.flushStream_dry s hafter⟩
  · rw [hnext.closed, hended, hclosed]
    rfl
  · rw [hnext.exitPending, hpending, hexit]
  · have hspent := hnext.spent
    rw [hbacklog, hcredit, windowful_length] at hspent
    omega

/-- The first session gives the credit of a whole window back at once. -/
theorem consume_windowful {s : Session} {stream : Stream} (hworking : s.protocolFailed = false)
    (hstream : s.streams 1 = some stream) (hwindow : stream.recvWindow = fullWindow) :
    (s.consume 1 262144).1 =
      s.setStream 1 { stream with recvWindow := .new kDefaultStreamWindow 0 } := by
  have hback : (stream.recvWindow.onConsumed 262144).1 = .new kDefaultStreamWindow 0 := by
    rw [hwindow]
    decide
  unfold Session.consume
  rw [if_neg (by simp [hworking]), hstream]
  dsimp only
  rw [hback]

theorem Stalled.step {total : Nat} {c : DistributedFlow} (h : Stalled total c) :
    Stalled (total + 262144) (c.step (.frame 0 ⟨.Data, 0, 1, windowful⟩)) := by
  obtain ⟨hclosed, source, hsource, hpeer, hwindow⟩ := h.source
  obtain ⟨sink, hsink, hopen, hexit, hcounted, hcount, -⟩ := h.sink
  have hdispatch := dispatch_chunk windowful_length h.roles.1 hclosed hsource hpeer hwindow
  have hlive : c.runner.live 0 = true := by
    simp [DistributedRunner.live, DistributedRunner.conn, h.conns, h.running]
  have htransport : (c.runner.conn 0).transport = true := by
    simp [DistributedRunner.conn, h.conns]
  have hdata := onData_windowful h.conns h.running.1
  obtain ⟨hrole, hsize, hworking, after, hafter, hstill⟩ :=
    sendData_windowful h.roles.2 h.working.2 hsink hopen hexit hcounted hcount
  obtain ⟨taken, htaken⟩ : ∃ taken, taken =
    (c.sessions 0).setStream 1 { source with recvWindow := fullWindow } := ⟨_, rfl⟩
  have hstream : taken.streams 1 = some { source with recvWindow := fullWindow } := by
    rw [htaken]
    simp [Session.setStream]
  have hconsume := consume_windowful (by rw [htaken]; exact h.working.1) hstream rfl
  rw [← htaken] at hdispatch
  have hstep : c.step (.frame 0 ⟨.Data, 0, 1, windowful⟩) =
      { runner := c.runner.onData 0 windowful .Stdout
        sessions := Function.update
          (Function.update (Function.update c.sessions 0 taken) 0 (taken.consume 1 262144).1)
          1 ((c.sessions 1).sendData 1 windowful false .Stdout).1 } := by
    unfold DistributedFlow.step receive
    dsimp only
    rw [if_neg (by simp [htransport, h.working.1]), hdispatch]
    change tell { c with sessions := Function.update c.sessions 0 taken }
        (.data 0 windowful .Stdout) = _
    unfold tell DistributedRunner.step
    dsimp only
    rw [if_pos hlive, hdata]
    dsimp only
    rw [List.drop_left]
    simp [obey]
  have hfirst : (Function.update (Function.update (Function.update c.sessions 0 taken) 0
      (taken.consume 1 262144).1) 1 ((c.sessions 1).sendData 1 windowful false .Stdout).1) 0 =
      (c.sessions 0).setStream 1 { source with recvWindow := .new kDefaultStreamWindow 0 } := by
    rw [Function.update_of_ne (by decide), Function.update_self, hconsume, htaken]
    simp [Session.setStream]
  have hsecond : (Function.update (Function.update (Function.update c.sessions 0 taken) 0
      (taken.consume 1 262144).1) 1 ((c.sessions 1).sendData 1 windowful false .Stdout).1) 1 =
      ((c.sessions 1).sendData 1 windowful false .Stdout).1 := Function.update_self ..
  rw [hstep, hdata]
  refine ⟨h.conns, h.running, fun bytes hmem => ?_, ?_, ?_, ?_, ?_, ?_⟩
  · rcases List.mem_append.mp hmem with hmem | hmem
    · exact h.got bytes hmem
    · simpa using hmem
  · dsimp only
    rw [hfirst, hsecond]
    exact ⟨h.roles.1, hrole⟩
  · dsimp only
    rw [hsecond]
    exact hsize.trans h.window
  · dsimp only
    rw [hfirst, hsecond]
    exact ⟨h.working.1, hworking⟩
  · dsimp only
    rw [hfirst]
    refine ⟨hclosed, { source with recvWindow := .new kDefaultStreamWindow 0 }, ?_, hpeer, rfl⟩
    simp [Session.setStream]
  · dsimp only
    rw [hsecond]
    exact ⟨after, hafter, hstill⟩

/-- What waits for the second stage is what its first credit did not take. -/
theorem Stalled.backlog {total : Nat} {c : DistributedFlow} (h : Stalled total c) :
    (c.sessions 1).backlog 1 = total - 262144 := by
  obtain ⟨stream, hstream, -, -, -, hcount, hdry⟩ := h.sink
  rw [Session.backlog_some hstream]
  by_cases hqueue : stream.sendQueue = []
  · have hnone : stream.backlog = 0 := by simp [Stream.backlog, hqueue]
    omega
  · have hspent := hdry hqueue
    omega

/-- Another chunk meets a queue with room while less than the window waits in it. -/
theorem Stalled.roomy {total : Nat} {c : DistributedFlow} (h : Stalled total c)
    (hroom : total < 2 * 262144) : ¬ Overruns c (.frame 0 ⟨.Data, 0, 1, windowful⟩) := by
  rintro ⟨-, -, -, -, -, -, hfull⟩
  obtain ⟨stream, hstream, -, -, hcounted, -⟩ := h.sink
  have hid : (c.runner.conn 1).streamId = 1 := by simp [DistributedRunner.conn, h.conns]
  have hwaits := h.backlog
  rw [Session.backlog_some hstream, ← hcounted] at hwaits
  have hwindow : kDefaultStreamWindow.toNat = 262144 := by decide
  rw [hid] at hfull
  simp only [Session.isWritable, hstream, h.window, hwindow, decide_eq_false_iff_not] at hfull
  omega

/-- What waits for the second stage grows with every chunk. -/
theorem stalled_run (chunks : Nat) :
    Stalled (chunks * 262144)
      (history (fun _ => .started none none) ⟨true, true, true, false⟩ [⟨[[121]]⟩, ⟨[[104]]⟩]
        ([.ready 0, .ready 1] ++ List.replicate chunks (.frame 0 ⟨.Data, 0, 1, windowful⟩))) := by
  induction chunks with
  | zero =>
    rw [Nat.zero_mul]
    exact started_stalled
  | succ chunks ih =>
    rw [Nat.succ_mul, List.replicate_succ', ← List.append_assoc, history_snoc]
    exact ih.step

/-- Four chunks as large as the window arrive from the first stage, and the second one returns
no credit: what waits for it is more than the window and one chunk. -/
theorem a_slow_stage_is_overrun :
    let c := history (fun _ => .started none none) ⟨true, true, true, false⟩ [⟨[[121]]⟩, ⟨[[104]]⟩]
      ([.ready 0, .ready 1] ++ List.replicate 4 (.frame 0 ⟨.Data, 0, 1, windowful⟩))
    (c.runner.conn 1).streamId = 1 ∧ (c.sessions 1).backlog 1 ≠ 0 ∧
      ∀ bytes, .got 0 bytes .Stdout ∈ c.runner.log →
        ¬ (c.sessions 1).backlog 1 ≤ kDefaultStreamWindow.toNat + bytes.length := by
  have hstalled := stalled_run 4
  intro c
  change Stalled (4 * 262144) c at hstalled
  clear_value c
  have hwindow : kDefaultStreamWindow.toNat = 262144 := by decide
  rw [hstalled.backlog]
  refine ⟨?_, by omega, fun bytes hgot => ?_⟩
  · simp [DistributedRunner.conn, hstalled.conns]
  · rw [hstalled.got bytes hgot, windowful_length]
    omega

/-- The first of two chunks takes the whole credit, and the second one waits. -/
theorem a_second_chunk_waits :
    let c := history (fun _ => .started none none) ⟨true, true, true, false⟩ [⟨[[121]]⟩, ⟨[[104]]⟩]
      ([.ready 0, .ready 1] ++ List.replicate 2 (.frame 0 ⟨.Data, 0, 1, windowful⟩))
    (c.sessions 1).backlog 1 = 262144 ∧
      ((c.sessions 1).backlog 1 = 0 ∨ ∃ bytes, .got 0 bytes .Stdout ∈ c.runner.log ∧
        (c.sessions 1).backlog 1 < kDefaultStreamWindow.toNat + bytes.length) := by
  have hbacklog := (stalled_run 2).backlog
  have hfirst := (stalled_run 0).roomy (by decide)
  have hsecond := (stalled_run 1).roomy (by decide)
  generalize Input.frame 0 ⟨.Data, 0, 1, windowful⟩ = chunk at hbacklog hfirst hsecond ⊢
  refine ⟨hbacklog, ?_⟩
  have hbounded := fun hroom => (queues_stay_bounded (fun _ => .started none none)
    ⟨true, true, true, false⟩ [⟨[[121]]⟩, ⟨[[104]]⟩] ([.ready 0, .ready 1] ++
      List.replicate 2 chunk) hroom 0 1).2
  rw [Nat.zero_add] at hbounded
  refine hbounded fun before input after heq => ?_
  rcases before with _ | ⟨first, _ | ⟨second, _ | ⟨third, _ | ⟨fourth, before⟩⟩⟩⟩
  · obtain ⟨rfl, -⟩ := List.cons.inj heq
    exact id
  · obtain ⟨-, hrest⟩ := List.cons.inj heq
    obtain ⟨rfl, -⟩ := List.cons.inj hrest
    exact id
  · obtain ⟨rfl, hrest⟩ := List.cons.inj heq
    obtain ⟨rfl, hmore⟩ := List.cons.inj hrest
    obtain ⟨rfl, -⟩ := List.cons.inj hmore
    exact hfirst
  · obtain ⟨rfl, hrest⟩ := List.cons.inj heq
    obtain ⟨rfl, hmore⟩ := List.cons.inj hrest
    obtain ⟨rfl, hlast⟩ := List.cons.inj hmore
    obtain ⟨rfl, -⟩ := List.cons.inj hlast
    exact hsecond
  · simp at heq

end DistributedFlow

end psx.pipeline
