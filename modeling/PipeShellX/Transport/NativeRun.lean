-- A native controller together with the sessions of its connections. `start` checks
-- less of a command than `Session::open` does, and `onReady` drops what `open` returns:
-- the law here says when a connection that is ready has a stream to wait for.
import PipeShellX.Transport.NativeControllerRuns
import PipeShellX.Transport.SessionPair

namespace psx.transport

open psx.os (ExitStatus)

/-! ## What every step of the controller keeps -/

namespace NativeController

/-- The controller went on: its command stays, a connection that is done stays so, a transport
keeps its session, and every stream is opened for the command. -/
structure Follows (c c' : NativeController) : Prop where
  started : c'.started = c.started
  command : c'.command = c.command
  length : c'.conns.length = c.conns.length
  done : ∀ i, (c.conn i).done = true → (c'.conn i).done = true
  bound : (∀ i, (c.conn i).session = (c.conn i).transport) →
    ∀ i, (c'.conn i).session = (c'.conn i).transport
  log : ∃ more, c'.log = c.log ++ more ∧
    ∀ i command, .opened i command ∈ more → command = c.command ∧ i < c.conns.length

theorem Follows.refl (c : NativeController) : Follows c c :=
  ⟨rfl, rfl, rfl, fun _ h => h, id, [], by simp, by simp⟩

theorem Follows.trans {a b c : NativeController} (h : Follows a b) (h' : Follows b c) :
    Follows a c := by
  obtain ⟨first, hfirst, hopened⟩ := h.log
  obtain ⟨second, hsecond, hopened'⟩ := h'.log
  refine ⟨h'.started.trans h.started, h'.command.trans h.command, h'.length.trans h.length,
    fun i hi => h'.done i (h.done i hi), fun hb => h'.bound (h.bound hb), first ++ second,
    by rw [hsecond, hfirst, List.append_assoc], fun i command hmem => ?_⟩
  rcases List.mem_append.mp hmem with hmem | hmem
  · exact hopened i command hmem
  · rw [← h.command, ← h.length]
    exact hopened' i command hmem

/-- Counters, flags and timers do not matter. -/
theorem follows_same {c c' : NativeController} (hstarted : c'.started = c.started)
    (hcommand : c'.command = c.command) (hconns : c'.conns = c.conns) (hlog : c'.log = c.log) :
    Follows c c' := by
  refine ⟨hstarted, hcommand, by rw [hconns], fun i h => ?_, fun h i => ?_, [], by simp [hlog],
    by simp⟩
  · simpa only [conn, hconns] using h
  · simpa only [conn, hconns] using h i

theorem Follows.note {c c' : NativeController} (h : Follows c c') (e : Event)
    (he : ∀ i command, e = .opened i command → command = c'.command ∧ i < c'.conns.length) :
    Follows c (c'.note e) := by
  refine h.trans ⟨rfl, rfl, rfl, fun _ h => h, id, [e], rfl, fun i command hmem => ?_⟩
  exact he i command (List.mem_singleton.mp hmem).symm

theorem follows_modify (c : NativeController) (index : Nat) {f : Conn → Conn}
    (hdone : ∀ conn, conn.done = true → (f conn).done = true)
    (hbound : ∀ conn, conn.session = conn.transport → (f conn).session = (f conn).transport) :
    Follows c (c.modify index f) := by
  by_cases hi : index < c.conns.length
  · refine ⟨rfl, rfl, List.length_modify .., fun i h => ?_, fun h i => ?_, [],
      (List.append_nil _).symm, by simp⟩
    · rw [conn_modify f hi]
      split_ifs
      · exact hdone _ h
      · exact h
    · rw [conn_modify f hi]
      split_ifs
      · exact hbound _ (h i)
      · exact h i
  · exact follows_same rfl rfl (List.modify_eq_self (Nat.le_of_not_lt hi)) rfl

theorem follows_complete (c : NativeController) : Follows c c.completeIfReady := by
  unfold completeIfReady
  split_ifs
  · exact .refl c
  · have hcompleted : Follows c { c with completed := true, onComplete := false } :=
      follows_same rfl rfl rfl rfl
    exact hcompleted.note _ nofun
  · exact follows_same rfl rfl rfl rfl

theorem follows_foldl {α : Type} {f : NativeController → α → NativeController} (l : List α)
    (h : ∀ c a, Follows c (f c a)) (c : NativeController) : Follows c (l.foldl f c) := by
  induction l generalizing c with
  | nil => exact .refl c
  | cons a l ih => exact (h c a).trans (ih (f c a))

theorem follows_onConnDoneWith {cancel : NativeController → NativeController}
    (hcancel : ∀ c, Follows c (cancel c)) (c : NativeController) (index : Nat) :
    Follows c (onConnDoneWith cancel c index) := by
  unfold onConnDoneWith
  extract_lets fewer stopped armed
  have hfewer : Follows c fewer := follows_same rfl rfl rfl rfl
  have hstopped : Follows fewer stopped := by
    by_cases hfail : fewer.options.failFast ∧ ¬ fewer.cancelling ∧
        (fewer.conn index).result.failed
    · simpa only [stopped, if_pos hfail] using hcancel fewer
    · simpa only [stopped, if_neg hfail] using Follows.refl fewer
  have harmed : Follows stopped armed := by
    by_cases hactive : (stopped.conn index).active
    · simp only [armed, if_pos hactive]
      exact follows_same rfl rfl rfl rfl
    · simpa only [armed, if_neg hactive] using Follows.refl stopped
  exact ((hfewer.trans hstopped).trans harmed).trans (follows_complete armed)

section

variable {onConnDone : NativeController → Nat → NativeController}
  (hconn : ∀ c index, Follows c (onConnDone c index))

include hconn

theorem follows_finishWith (c : NativeController) (index : Nat) :
    Follows c (finishWith onConnDone c index) := by
  unfold finishWith
  split_ifs
  · exact .refl c
  · have hfinished : Follows c (c.modify index Conn.finished) :=
      follows_modify c index (fun _ _ => rfl) fun _ h => h
    apply (hfinished.note (.done index _) nofun).trans
    apply hconn

theorem follows_failWith (c : NativeController) (index : Nat) (message : String)
    (kind : CancelKind) : Follows c (failWith onConnDone c index message kind) := by
  unfold failWith
  split_ifs
  · apply follows_finishWith hconn
  · have hfailed : Follows c (c.modify index (Conn.failed message kind)) :=
      follows_modify c index (fun _ h => h) fun _ h => h
    exact hfailed.trans (follows_finishWith hconn _ index)

theorem follows_cancelWith (c : NativeController) (reason : String) (kind : CancelKind) :
    Follows c (cancelWith onConnDone c reason kind) := by
  unfold cancelWith
  split_ifs
  · exact .refl c
  · have hcancelling : Follows c { c with cancelling := true } := follows_same rfl rfl rfl rfl
    refine ((hcancelling.note .cancel nofun).trans
      (follows_foldl _ (fun c index => ?_) _)).trans (follows_complete _)
    split_ifs
    · exact .refl c
    · apply follows_failWith hconn

end

theorem follows_cancel (c : NativeController) (reason : String) (kind : CancelKind) :
    Follows c (c.cancel reason kind) :=
  follows_cancelWith (follows_onConnDoneWith .refl) c reason kind

theorem follows_onConnDone (c : NativeController) (index : Nat) : Follows c (onConnDone c index) :=
  follows_onConnDoneWith (fun c => follows_cancel c _ _) c index

theorem follows_onData (c : NativeController) (index : Nat) (data : Bytes) (channel : Channel)
    (answers : psx.stream.SpoolAnswers) (cancels : List (String × CancelKind)) :
    Follows c (c.onData index data channel answers cancels) := by
  unfold onData
  extract_lets consumed captured told
  have hconsumed : Follows c consumed := by
    by_cases hsession : (c.conn index).session
    · simpa only [consumed, if_pos hsession] using (Follows.refl c).note
        (.consumed index data.length) nofun
    · simpa only [consumed, if_neg hsession] using Follows.refl c
  split_ifs
  · exact hconsumed
  · have hcaptured : Follows consumed captured := by
      apply follows_modify
      · intro conn hdone
        cases channel <;> exact hdone
      · intro conn hbound
        cases channel <;> exact hbound
    have htold : Follows c told := (hconsumed.trans hcaptured).note (.output _ data channel) nofun
    apply htold.trans
    exact follows_foldl cancels (fun c call => follows_cancel c _ _) told

theorem follows_callback (c : NativeController) (index : Nat) (call : Callback) :
    Follows c (c.callback index call) := by
  cases call with
  | ready =>
    unfold callback
    dsimp only
    split_ifs with hopen
    · apply (Follows.refl c).note
      intro i command heq
      obtain ⟨rfl, rfl⟩ := Event.opened.inj heq
      refine ⟨rfl, ?_⟩
      by_contra hout
      simp [conn_outside (Nat.le_of_not_lt hout)] at hopen
    · exact .refl c
  | data bytes channel answers cancels => exact follows_onData c index bytes channel answers cancels
  | exit status =>
    unfold callback
    dsimp only
    split_ifs
    · exact .refl c
    · have hexited : Follows c (c.modify index (Conn.exited status)) :=
        follows_modify c index (fun _ h => h) fun _ h => h
      exact hexited.trans (follows_finishWith follows_onConnDone _ index)
  | error message => exact follows_failWith follows_onConnDone c index message .Other

theorem follows_launch (network : Nat → Launch) (c : NativeController) (index : Nat) :
    Follows c (launch network c index) := by
  unfold launch
  extract_lets activated launched
  have hactivated : Follows c activated :=
    follows_modify c index (fun _ h => h) fun _ h => h
  have hcounted : Follows activated { activated with active := activated.active + 1 } :=
    follows_same rfl rfl rfl rfl
  have hlaunched : Follows c launched := (hactivated.trans hcounted).note (.launch index) nofun
  cases network index with
  | connectFailed message => exact hlaunched.trans (follows_failWith follows_onConnDone _ _ _ _)
  | tlsFailed message => exact hlaunched.trans (follows_failWith follows_onConnDone _ _ _ _)
  | started during failed =>
    have hconnected : Follows launched (launched.modify index Conn.connected) :=
      follows_modify _ index (fun _ h => h) fun _ _ => rfl
    have hcalled := follows_foldl during (fun c call => follows_callback c index call)
      (launched.modify index Conn.connected)
    have hall := (hlaunched.trans hconnected).trans hcalled
    cases failed with
    | none => exact hall
    | some message => exact hall.trans (follows_failWith follows_onConnDone _ _ _ _)

theorem follows_fill (network : Nat → Launch) (turns : Nat) (c : NativeController) :
    Follows c (fill network turns c) := by
  induction turns generalizing c with
  | zero => exact .refl c
  | succ turns ih =>
    unfold fill
    split_ifs
    · have hnext : Follows c { c with nextToStart := c.nextToStart + 1 } :=
        follows_same rfl rfl rfl rfl
      exact (hnext.trans (follows_launch network _ _)).trans (ih _)
    · exact .refl c

theorem follows_fillSlots (network : Nat → Launch) (c : NativeController) :
    Follows c (c.fillSlots network) := by
  unfold fillSlots
  split_ifs
  · exact .refl c
  · have hfilling : Follows c { c with filling := true } := follows_same rfl rfl rfl rfl
    apply (hfilling.trans (follows_fill network _ _)).trans
    exact follows_same rfl rfl rfl rfl

theorem follows_retire (network : Nat → Launch) (c : NativeController) (index : Nat) :
    Follows c (c.retire network index) := by
  unfold retire
  extract_lets gone freed filled
  have hfreed : Follows c freed := by
    by_cases hactive : (c.conn index).active
    · have hretired : Follows c gone := follows_modify c index (fun _ h => h) fun _ _ => rfl
      have hcounted : Follows gone { gone with active := gone.active - 1 } :=
        follows_same rfl rfl rfl rfl
      simpa only [freed, if_pos hactive] using
        (hretired.trans hcounted).note (.retired index) nofun
    · simpa only [freed, if_neg hactive] using Follows.refl c
  have hfilled : Follows freed filled := by
    by_cases hcancelling : freed.cancelling
    · simpa only [filled, if_pos hcancelling] using Follows.refl freed
    · simpa only [filled, if_neg hcancelling] using follows_fillSlots network freed
  exact (hfreed.trans hfilled).trans (follows_complete filled)

theorem follows_start (network : Nat → Launch) (c : NativeController) (targets : List Target)
    (command : List Bytes) (onComplete : Bool) (options : Options) (hnone : c.conns = []) :
    Follows c (c.start network targets command onComplete options).1 ∨
      c.started = false ∧
        Follows (prepared c targets command onComplete options)
          (c.start network targets command onComplete options).1 := by
  by_cases hstarted : c.started
  · left
    rw [start_again network hstarted]
    exact .refl c
  · unfold start
    rw [if_neg hstarted]
    split_ifs with hcommand htarget hempty
    · exact .inl (.refl c)
    · exact .inl (.refl c)
    · refine .inr ⟨by simpa using hstarted, ?_⟩
      subst hempty
      have hover : Follows (prepared c [] command onComplete options)
          { prepared c [] command onComplete options with conns := c.conns, completed := true } :=
        follows_same rfl rfl hnone rfl
      cases onComplete with
      | false => exact hover
      | true => exact hover.note (.complete []) nofun
    · refine .inr ⟨by simpa using hstarted, ?_⟩
      simp only [note, hnone, List.nil_append]
      exact follows_fillSlots network (prepared c targets command onComplete options)

end NativeController

/-! ## A controller and its sessions -/

/-- The session of one connection. It is `ready` when `onReady` asked it for the stream. -/
structure Link where
  session : Session := .new .Controller kDefaultStreamWindow false
  log : List Event := []
  ready : Bool := false

namespace Link

/-- What `onReady` does: `session->open(OpenRequest{.argv = command_, .cwd = {}})`. The stream
id that `open` returns is dropped. -/
def opened (link : Link) (command : List Bytes) : Link :=
  { session := (link.session.open_ ⟨command, []⟩).1
    log := link.log ++ (link.session.open_ ⟨command, []⟩).2.2
    ready := true }

/-- A call of the session of a link. -/
def call (link : Link) (c : Session.Call) : Link :=
  { link with session := (link.session.call c).1, log := link.log ++ (link.session.call c).2 }

/-- What the controller does to the session of the connection `index`. What it consumes is in
the replies of the `receive` that delivers the data. -/
def follow (index : Nat) (link : Link) : NativeController.Event → Link
  | .launch i => if i = index then {} else link
  | .opened i command => if i = index then link.opened command else link
  | _ => link

/-- `onData` returns the credit of each DATA frame at once. -/
def reply (frame : Frame) : List Session.Call :=
  if frame.type = .Data then [.consume frame.streamId (.ofNat frame.payload.length)] else []

end Link

/-- A controller with the links to its nodes. -/
structure NativeRun where
  controller : NativeController := {}
  links : Nat → Link := fun _ => {}

namespace NativeRun

open NativeController (Launch Target Options CancelKind)

/-- The sessions follow the controller to its next state. -/
def enter (r : NativeRun) (c : NativeController) : NativeRun where
  controller := c
  links := fun index =>
    (c.log.drop r.controller.log.length).foldl (Link.follow index) (r.links index)

/-- The answers of the spool and of `onOutput` to one chunk of data. -/
structure Answer where
  spool : psx.stream.SpoolAnswers := {}
  cancels : List (String × CancelKind) := []

/-- The callbacks of a `receive`. The controller looks at data and at exits only. -/
def callbacks : List Event → List Answer → List NativeController.Callback
  | [], _ => []
  | .onData _ bytes _ channel :: events, answers =>
    .data bytes channel (answers.headD {}).spool (answers.headD {}).cancels ::
      callbacks events answers.tail
  | .onExit _ status :: events, answers => .exit status :: callbacks events answers
  | _ :: events, answers => callbacks events answers

/-- What a connection calls, with what the controller does to the links. -/
def callback (index : Nat) (r : NativeRun) (call : NativeController.Callback) : NativeRun :=
  r.enter (r.controller.callback index call)

/-- Plaintext for the session of a connection. A protocol error fails the connection. -/
def receive (r : NativeRun) (index : Nat) (bytes : Bytes) (answers : List Answer) : NativeRun :=
  let link := r.links index
  let replies := (link.session.decoder.push bytes).2.1.map Link.reply
  let (session, events, result) := link.session.receive bytes replies
  let r := { r with
    links := Function.update r.links index { link with session, log := link.log ++ events } }
  let r := (callbacks events answers).foldl (callback index) r
  match result with
  | .ok () => r
  | .error e => r.callback index (.error (e.message ""))

/-- What can happen to a native run. -/
inductive Input
  | start (targets : List Target) (command : List Bytes) (onComplete : Bool) (options : Options)
  | cancel (reason : String) (kind : CancelKind)
  | retire (index : Nat)
  | ready (index : Nat)
  | ping (index : Nat)
  | receive (index : Nat) (bytes : Bytes) (answers : List Answer)
  | error (index : Nat) (message : String)

/-- Only a transport that is there reports, and only a ready one reads and pings. -/
def step (network : Nat → Launch) (r : NativeRun) : Input → NativeRun
  | .start targets command onComplete options =>
    r.enter (r.controller.step network (.start targets command onComplete options))
  | .cancel reason kind => r.enter (r.controller.step network (.cancel reason kind))
  | .retire index => r.enter (r.controller.step network (.retire index))
  | .ready index => r.enter (r.controller.step network (.callback index .ready))
  | .error index message => r.enter (r.controller.step network (.callback index (.error message)))
  | .ping index =>
    if (r.controller.conn index).transport ∧ (r.links index).ready then
      { r with links := Function.update r.links index ((r.links index).call .ping) }
    else r
  | .receive index bytes answers =>
    if (r.controller.conn index).transport ∧ (r.links index).ready then
      r.receive index bytes answers
    else r

def run (network : Nat → Launch) (inputs : List Input) : NativeRun :=
  inputs.foldl (step network) {}

/-- The connection has an open stream, and its OPEN carried the command. -/
def Carries (r : NativeRun) (index : Nat) : Prop :=
  ∃ id stream, (r.links index).session.streams id = some stream ∧
    .wrote ⟨.Open, 0, id, encodeOpen ⟨r.controller.command, []⟩⟩ ∈ (r.links index).log

/-- The connection is ready and not done. -/
def Runs (r : NativeRun) (index : Nat) : Prop :=
  (r.links index).ready = true ∧ (r.controller.conn index).done = false

/-! ## The history of one session -/

/-- An EXIT that a session accepted was reported. -/
theorem exit_told {role : Role} {W : UInt32} {streamWritable : Bool} {s : Session}
    {log : List Event} (h : Reach role W streamWritable s log) {frame : Frame}
    (hgot : .got frame ∈ log) (htype : frame.type = .Exit) :
    ∃ status, .onExit frame.streamId status ∈ log := by
  induction h with
  | start => cases hgot
  | call c _ ih =>
    rcases List.mem_append.mp hgot with hgot | hgot
    · obtain ⟨status, hmem⟩ := ih hgot
      exact ⟨status, List.mem_append_left _ hmem⟩
    · exact False.elim (call_events hgot)
  | @frame s log last r _ _ hok ih =>
    rcases List.mem_append.mp hgot with hgot | hgot
    · obtain ⟨status, hmem⟩ := ih hgot
      exact ⟨status, List.mem_append_left _ hmem⟩
    · rcases List.mem_cons.mp hgot with heq | hgot
      · cases heq
        unfold Session.dispatch at hok
        simp only [htype] at hok
        obtain ⟨-, -, status, -, rfl⟩ := dispatchExit_ok hok
        exact ⟨status, by simp⟩
      · exact False.elim (dispatch_events hok hgot)
  | decoder _ _ ih => exact ih hgot
  | poison _ ih => exact ih hgot

/-- What holds of the session of a connection, whatever its peer does. -/
structure Sound (command : List Bytes) (link : Link) : Prop where
  reach : Reach .Controller kDefaultStreamWindow false link.session link.log
  fresh : link.ready = false → link = {}
  only : ∀ frame ∈ (account link.log).wrote, frame.type = .Open →
    validateOpenRequest ⟨command, []⟩ = .ok ()
  opened : link.ready = true → validateOpenRequest ⟨command, []⟩ = .ok () →
    ∃ id, .wrote ⟨.Open, 0, id, encodeOpen ⟨command, []⟩⟩ ∈ link.log

theorem sound_new (command : List Bytes) : Sound command {} :=
  ⟨.start, fun _ => rfl, by simp, by simp⟩

/-- A local call other than `open`, or a `receive` that answers with such calls. -/
theorem Sound.extend {command : List Bytes} {link : Link} (h : Sound command link)
    (hready : link.ready = true) {s : Session} {events : List Event}
    (hreach : Reach .Controller kDefaultStreamWindow false s (link.log ++ events))
    (hopens : ∀ frame ∈ (account events).wrote, frame.type ≠ .Open) :
    Sound command { link with session := s, log := link.log ++ events } := by
  refine ⟨hreach, fun hnot => ?_, fun frame hmem htype => ?_, fun _ hvalid => ?_⟩
  · rw [hready] at hnot
    cases hnot
  · rw [account_wrote, List.filterMap_append, ← account_wrote, ← account_wrote] at hmem
    rcases List.mem_append.mp hmem with hmem | hmem
    · exact h.only frame hmem htype
    · exact absurd htype (hopens frame hmem)
  · obtain ⟨id, hmem⟩ := h.opened hready hvalid
    exact ⟨id, List.mem_append_left _ hmem⟩

theorem Sound.open {command : List Bytes} {link : Link} (h : Sound command link) :
    Sound command (link.opened command) := by
  refine ⟨h.reach.call (.open_ ⟨command, []⟩), by simp [Link.opened], fun frame hmem htype => ?_,
    fun _ hvalid => ?_⟩
  · rcases open_cases link.session ⟨command, []⟩ with heq | ⟨-, -, -, -, -, hvalid, -⟩
    · simp only [Link.opened, heq, List.append_nil] at hmem
      exact h.only frame hmem htype
    · exact hvalid
  · by_cases hready : link.ready
    · obtain ⟨id, hmem⟩ := h.opened hready hvalid
      exact ⟨id, List.mem_append_left _ hmem⟩
    · rw [h.fresh (by simpa using hready)]
      exact ⟨1, by simp [Link.opened, Session.open_, Session.new, Session.tryEmplace,
        Session.setStream, Session.send, hvalid]⟩

theorem Sound.follow {command : List Bytes} {link : Link} (h : Sound command link) (index : Nat)
    {e : NativeController.Event} (he : ∀ i argv, e = .opened i argv → argv = command) :
    Sound command (link.follow index e) := by
  cases e with
  | launch i =>
    unfold Link.follow
    dsimp only
    split_ifs
    · exact sound_new command
    · exact h
  | opened i argv =>
    rw [he i argv rfl]
    unfold Link.follow
    dsimp only
    split_ifs
    · exact h.open
    · exact h
  | _ => exact h

/-- The controller's own calls report no exit. -/
theorem follow_exits (index : Nat) (link : Link) (e : NativeController.Event) {id : StreamId}
    {status : ExitStatus} (h : .onExit id status ∈ (link.follow index e).log) :
    .onExit id status ∈ link.log := by
  cases e with
  | launch i =>
    unfold Link.follow at h
    dsimp only at h
    split_ifs at h
    · cases h
    · exact h
  | opened i argv =>
    unfold Link.follow at h
    dsimp only at h
    split_ifs at h
    · rcases List.mem_append.mp h with h | h
      · exact h
      · exact False.elim (call_events (c := .open_ ⟨argv, []⟩) h)
    · exact h
  | _ => exact h

/-! ## Every state of a run -/

open NativeController (Follows)

/-- What holds of a run in every state but for the exits that are just being reported. -/
structure Steady (r : NativeRun) : Prop where
  idle : r.controller.started = false → r.controller.conns = [] ∧ ∀ i, (r.links i).ready = false
  bound : ∀ i, (r.controller.conn i).session = (r.controller.conn i).transport
  sound : ∀ i, Sound r.controller.command (r.links i)

/-- A run went on after what a session reported. -/
structure Later (r r' : NativeRun) : Prop where
  follows : Follows r.controller r'.controller
  exits : ∀ i id status, .onExit id status ∈ (r'.links i).log → .onExit id status ∈ (r.links i).log
  steady : Steady r → Steady r'

theorem Later.refl (r : NativeRun) : Later r r := ⟨.refl _, fun _ _ _ h => h, id⟩

theorem Later.trans {a b c : NativeRun} (h : Later a b) (h' : Later b c) : Later a c :=
  ⟨h.follows.trans h'.follows,
    fun i id status hmem => h.exits i id status (h'.exits i id status hmem),
    fun ha => h'.steady (h.steady ha)⟩

theorem foldl_follow (index : Nat) (command : List Bytes) {more : List NativeController.Event}
    (hmore : ∀ i argv, .opened i argv ∈ more → argv = command) (link : Link) :
    (Sound command link → Sound command (more.foldl (Link.follow index) link)) ∧
      (∀ id status, .onExit id status ∈ (more.foldl (Link.follow index) link).log →
        .onExit id status ∈ link.log) ∧
      ((∀ argv, .opened index argv ∉ more) → link.ready = false →
        (more.foldl (Link.follow index) link).ready = false) := by
  induction more generalizing link with
  | nil => exact ⟨id, fun _ _ h => h, fun _ h => h⟩
  | cons e more ih =>
    obtain ⟨hsound, hexits, hready⟩ :=
      ih (fun i argv hmem => hmore i argv (List.mem_cons_of_mem e hmem)) (link.follow index e)
    refine ⟨fun h => hsound (h.follow index ?_), fun id status hmem => ?_, fun hnone hnot => ?_⟩
    · intro i argv heq
      exact hmore i argv (by simp [heq])
    · exact follow_exits index link e (hexits id status hmem)
    · apply hready fun argv hmem => hnone argv (List.mem_cons_of_mem e hmem)
      cases e with
      | launch i =>
        unfold Link.follow
        dsimp only
        split_ifs
        · rfl
        · exact hnot
      | opened i argv =>
        have hne : i ≠ index := by
          rintro rfl
          exact hnone argv (by simp)
        simpa only [Link.follow, if_neg hne] using hnot
      | _ => exact hnot

theorem enter_later (r : NativeRun) {c : NativeController} (h : Follows r.controller c) :
    Later r (r.enter c) := by
  obtain ⟨more, hlog, hmore⟩ := h.log
  have hlinks : ∀ i, (r.enter c).links i = more.foldl (Link.follow i) (r.links i) := by
    intro i
    unfold enter
    simp only [hlog, List.drop_left]
  have hfollow : ∀ i, _ := fun i =>
    foldl_follow i r.controller.command (fun j argv hmem => (hmore j argv hmem).1) (r.links i)
  refine ⟨h, fun i id status hmem => ?_, fun hr => ⟨fun hidle => ?_, h.bound hr.bound, fun i => ?_⟩⟩
  · rw [hlinks] at hmem
    exact (hfollow i).2.1 id status hmem
  · obtain ⟨hconns, hready⟩ := hr.idle (h.started.symm.trans hidle)
    refine ⟨List.length_eq_zero_iff.mp ?_, fun i => ?_⟩
    · rw [← List.length_eq_zero_iff, ← h.length] at hconns
      exact hconns
    · rw [hlinks]
      refine (hfollow i).2.2 (fun argv hmem => ?_) (hready i)
      have hlt := (hmore i argv hmem).2
      rw [hconns] at hlt
      cases hlt
  · have hcommand : (r.enter c).controller.command = r.controller.command := h.command
    rw [hlinks, hcommand]
    exact (hfollow i).1 (hr.sound i)

theorem callback_later (r : NativeRun) (index : Nat) (call : NativeController.Callback) :
    Later r (r.callback index call) :=
  enter_later r (NativeController.follows_callback r.controller index call)

/-! ## An exit that is reported ends its connection -/

theorem exit_done (c : NativeController) {index : Nat} (hi : index < c.conns.length)
    (status : ExitStatus) : ((c.callback index (.exit status)).conn index).done = true := by
  unfold NativeController.callback
  dsimp only
  by_cases hdone : (c.conn index).done
  · rw [if_pos hdone]
    exact hdone
  · rw [if_neg hdone]
    have hexited := NativeController.conn_modify_self (NativeController.Conn.exited status) hi
    have hopen : ((c.modify index (NativeController.Conn.exited status)).conn index).done =
        false := by
      rw [hexited]
      exact eq_false_of_ne_true hdone
    unfold NativeController.finish NativeController.finishWith
    rw [if_neg (by simp [hopen])]
    apply (NativeController.follows_onConnDone _ index).done index
    have hlen : index < (c.modify index (NativeController.Conn.exited status)).conns.length := by
      simpa [NativeController.modify] using hi
    have hfinished := NativeController.conn_modify_self NativeController.Conn.finished hlen
    exact (congrArg NativeController.Conn.done hfinished).trans rfl

theorem mem_callbacks {id : StreamId} {status : ExitStatus} {events : List Event}
    (h : .onExit id status ∈ events) (answers : List Answer) :
    .exit status ∈ callbacks events answers := by
  induction events generalizing answers with
  | nil => cases h
  | cons e events ih =>
    rcases List.mem_cons.mp h with rfl | hlater
    · simp [callbacks]
    · cases e <;> simp [callbacks, ih hlater]

theorem callbacks_later (r : NativeRun) (index : Nat) (calls : List NativeController.Callback) :
    Later r (calls.foldl (callback index) r) ∧
      (index < r.controller.conns.length → ∀ status, .exit status ∈ calls →
        ((calls.foldl (callback index) r).controller.conn index).done = true) := by
  induction calls generalizing r with
  | nil => exact ⟨.refl r, fun _ _ h => by cases h⟩
  | cons call calls ih =>
    obtain ⟨hlater, hdone⟩ := ih (r.callback index call)
    have hcall := callback_later r index call
    refine ⟨hcall.trans hlater, fun hi status hmem => ?_⟩
    rcases List.mem_cons.mp hmem with rfl | hmem
    · exact hlater.follows.done index (exit_done r.controller hi status)
    · exact hdone (by rw [hcall.follows.length]; exact hi) status hmem

/-- What holds of a run in every state. -/
structure Inv (r : NativeRun) : Prop where
  steady : Steady r
  exits : ∀ i, (r.controller.conn i).done = false → ∀ id status, .onExit id status ∉ (r.links i).log

theorem Inv.later {r r' : NativeRun} (h : Inv r) (hlater : Later r r') : Inv r' := by
  refine ⟨hlater.steady h.steady, fun i hopen id status hmem => ?_⟩
  have hbefore : (r.controller.conn i).done = false := by
    by_contra hdone
    rw [hlater.follows.done i (by simpa using hdone)] at hopen
    cases hopen
  exact h.exits i hbefore id status (hlater.exits i id status hmem)

theorem reply_wrote (frames : List Frame) :
    ∀ cs ∈ frames.map Link.reply, ∀ c ∈ cs, ∀ s : Session, ∀ f ∈ (account (s.call c).2).wrote,
      f.type ≠ .Open := by
  intro cs hcs c hc s f hf htype
  obtain ⟨frame, -, rfl⟩ := List.mem_map.mp hcs
  unfold Link.reply at hc
  split_ifs at hc
  · obtain rfl := List.mem_singleton.mp hc
    obtain ⟨request, hcall, -⟩ := (call_events (mem_wrote hf)).1 htype
    cases hcall
  · cases hc

/-- A session took in some frames, and its callbacks run. -/
theorem Inv.reported {r last : NativeRun} (h : Inv r) {index : Nat}
    (hi : index < r.controller.conns.length) (hready : (r.links index).ready = true)
    {link : Link} {events : List Event} (answers : List Answer)
    (hlink : Sound r.controller.command link) (hlog : link.log = (r.links index).log ++ events)
    (hlast : Later ((callbacks events answers).foldl (callback index)
      { r with links := Function.update r.links index link }) last) : Inv last := by
  set mid : NativeRun := { r with links := Function.update r.links index link }
  have hmid : Steady mid := by
    refine ⟨fun hidle => ?_, h.steady.bound, fun i => ?_⟩
    · rw [(h.steady.idle hidle).2 index] at hready
      cases hready
    · by_cases hne : i = index
      · subst hne
        simpa only [mid, Function.update_self] using hlink
      · simpa only [mid, Function.update_of_ne hne] using h.steady.sound i
  obtain ⟨hcalls, hexited⟩ := callbacks_later mid index (callbacks events answers)
  have hlater := hcalls.trans hlast
  refine ⟨hlater.steady hmid, fun i hopen id status hmem => ?_⟩
  have hbefore : (r.controller.conn i).done = false := by
    by_contra hdone
    rw [hlater.follows.done i (by simpa using hdone)] at hopen
    cases hopen
  have hmem := hlater.exits i id status hmem
  by_cases hne : i = index
  · subst hne
    simp only [mid, Function.update_self, hlog] at hmem
    rcases List.mem_append.mp hmem with hmem | hmem
    · exact h.exits i hbefore id status hmem
    · rw [hlast.follows.done i (hexited hi status (mem_callbacks hmem answers))] at hopen
      cases hopen
  · simp only [mid, Function.update_of_ne hne] at hmem
    exact h.exits i hbefore id status hmem

theorem lt_of_transport {c : NativeController} {index : Nat}
    (h : (c.conn index).transport = true) : index < c.conns.length := by
  by_contra hout
  rw [NativeController.conn_outside (Nat.le_of_not_lt hout)] at h
  cases h

theorem Inv.receive {r : NativeRun} (h : Inv r) {index : Nat} (bytes : Bytes)
    (answers : List Answer) (htransport : (r.controller.conn index).transport = true)
    (hready : (r.links index).ready = true) : Inv (r.receive index bytes answers) := by
  unfold NativeRun.receive
  extract_lets link replies
  have hreach := reach_receive (h.steady.sound index).reach bytes replies
  have hwrote : ∀ f ∈ (account (link.session.receive bytes replies).2.1).wrote, f.type ≠ .Open := by
    refine receive_wrote (reply_wrote _) ?_
    rintro frame - f (⟨-, ht⟩ | ⟨-, ht | ht⟩) <;> simp [ht]
  have hlink := (h.steady.sound index).extend hready hreach hwrote
  have hreported : ∀ last, Later _ last → Inv last := fun last =>
    h.reported (lt_of_transport htransport) hready answers hlink rfl
  rcases hresult : link.session.receive bytes replies with ⟨session, events, ⟨e⟩ | ⟨⟩⟩
  all_goals
    simp only [link, hresult] at hreported
    apply hreported
  · exact callback_later _ _ _
  · exact .refl _

theorem Inv.ping {r : NativeRun} (h : Inv r) {index : Nat}
    (htransport : (r.controller.conn index).transport = true)
    (hready : (r.links index).ready = true) :
    Inv { r with links := Function.update r.links index ((r.links index).call .ping) } := by
  have hreach := (h.steady.sound index).reach.call .ping
  have hwrote : ∀ f ∈ (account ((r.links index).session.call .ping).2).wrote, f.type ≠ .Open := by
    intro f hf htype
    obtain ⟨request, hcall, -⟩ := (call_events (mem_wrote hf)).1 htype
    cases hcall
  have hlink := (h.steady.sound index).extend hready hreach hwrote
  have hnone : callbacks ((r.links index).session.call .ping).2 [] = [] := by
    simp only [Session.call, Session.ping, Session.send]
    split_ifs <;> rfl
  apply h.reported (lt_of_transport htransport) hready [] hlink rfl
  rw [hnone]
  exact .refl _

theorem Inv.prepared {r : NativeRun} (h : Inv r) (targets : List Target) (command : List Bytes)
    (onComplete : Bool) (options : Options) (hidle : r.controller.started = false) :
    Inv { r with controller := r.controller.prepared targets command onComplete options } := by
  have hempty : ∀ i, r.links i = {} := fun i =>
    (h.steady.sound i).fresh ((h.steady.idle hidle).2 i)
  refine ⟨⟨fun hnot => (by cases hnot), fun i => ?_, fun i => ?_⟩, fun i _ id status hmem => ?_⟩
  · unfold NativeController.conn NativeController.prepared
    rw [List.getD_eq_getElem?_getD, List.getElem?_map]
    cases targets[i]? <;> rfl
  · simp only [hempty]
    exact sound_new _
  · simp only [hempty] at hmem
    cases hmem

/-- A start that is accepted enters its first state by way of the prepared one. -/
theorem Inv.start (network : Nat → Launch) {r : NativeRun} (h : Inv r) (targets : List Target)
    (command : List Bytes) (onComplete : Bool) (options : Options) :
    Inv (r.enter (r.controller.start network targets command onComplete options).1) := by
  by_cases hstarted : r.controller.started
  · rw [NativeController.start_again network hstarted]
    exact h.later (enter_later r (.refl _))
  · have hidle : r.controller.started = false := by simpa using hstarted
    rcases NativeController.follows_start network r.controller targets command onComplete options
      (h.steady.idle hidle).1 with hsame | ⟨-, hnew⟩
    · exact h.later (enter_later r hsame)
    · have hprepared := h.prepared targets command onComplete options hidle
      have hlater := hprepared.later (enter_later _ hnew)
      obtain ⟨more, hlog, -⟩ := hnew.log
      have hlog' : (r.controller.start network targets command onComplete options).1.log =
          r.controller.log ++ .start targets options onComplete :: more := by
        rw [hlog]
        simp [NativeController.prepared]
      -- the event of the start itself does nothing to a session
      have hsame : r.enter (r.controller.start network targets command onComplete options).1 =
          NativeRun.enter
            { r with controller := r.controller.prepared targets command onComplete options }
            (r.controller.start network targets command onComplete options).1 := by
        unfold enter
        congr 1
        funext i
        rw [hlog, List.drop_left, ← hlog, hlog', List.drop_left]
        rfl
      rw [hsame]
      exact hlater

theorem Inv.step (network : Nat → Launch) {r : NativeRun} (h : Inv r) (input : Input) :
    Inv (r.step network input) := by
  cases input with
  | start targets command onComplete options => exact h.start network targets command _ options
  | cancel reason kind =>
    exact h.later (enter_later r (NativeController.follows_cancel r.controller reason kind))
  | retire index =>
    apply h.later (enter_later r _)
    unfold NativeController.step
    dsimp only
    split_ifs
    · refine Follows.trans ?_ (NativeController.follows_retire network _ index)
      exact NativeController.follows_same rfl rfl rfl rfl
    · exact .refl _
  | ready index =>
    apply h.later (enter_later r _)
    unfold NativeController.step
    dsimp only
    split_ifs
    · exact NativeController.follows_callback _ _ _
    · exact .refl _
  | error index message =>
    apply h.later (enter_later r _)
    unfold NativeController.step
    dsimp only
    split_ifs
    · exact NativeController.follows_callback _ _ _
    · exact .refl _
  | ping index =>
    unfold NativeRun.step
    dsimp only
    split_ifs with hguard
    · exact h.ping hguard.1 hguard.2
    · exact h
  | receive index bytes answers =>
    unfold NativeRun.step
    dsimp only
    split_ifs with hguard
    · exact h.receive bytes answers hguard.1 hguard.2
    · exact h

theorem inv_run (network : Nat → Launch) (inputs : List Input) : Inv (run network inputs) := by
  unfold run
  induction inputs using List.reverseRecOn with
  | nil => exact ⟨⟨fun _ => ⟨rfl, fun _ => rfl⟩, fun _ => rfl, fun _ => sound_new _⟩, by simp⟩
  | append_singleton inputs input ih =>
    rw [List.foldl_append]
    exact ih.step network input

/-! ## Ready connections -/

theorem Inv.carries_iff {r : NativeRun} (h : Inv r) (index : Nat) (hruns : r.Runs index) :
    r.Carries index ↔ validateOpenRequest ⟨r.controller.command, []⟩ = .ok () := by
  obtain ⟨hready, hopen⟩ := hruns
  have hsound := h.steady.sound index
  constructor
  · rintro ⟨id, -, -, hmem⟩
    exact hsound.only _ (by
      rw [account_wrote, List.mem_filterMap]
      exact ⟨_, hmem, rfl⟩) rfl
  · intro hvalid
    obtain ⟨id, hmem⟩ := hsound.opened hready hvalid
    obtain ⟨hinv, hrole, -⟩ := inv_reach hsound.reach
    have hopened : id ∈ (account (r.links index).log).opens (r.links index).session.role := by
      rw [hrole, Account.opens, opensOf, account_wrote, List.mem_map]
      refine ⟨_, List.mem_filter.mpr ⟨List.mem_filterMap.mpr ⟨_, hmem, rfl⟩, ?_⟩, rfl⟩
      simp
    have hstream := hinv.streams id
    generalize hs : (r.links index).session.streams id = stream at hstream
    generalize (r.links index).session.locallyClosedStreams id = closed at hstream
    cases hstream with
    | unborn hnone => exact absurd hnone (opens_view_ne_nil.mpr hopened)
    | live => exact ⟨id, _, hs, hmem⟩
    | exitSent hnode => simp [hrole] at hnode
    | exitGot _ _ hexit =>
      -- an EXIT from the peer would have ended the connection
      obtain ⟨frame, hgot, htype⟩ := List.any_eq_true.mp hexit
      rw [account_got, List.mem_filterMap] at hgot
      obtain ⟨e, hview, he⟩ := hgot
      obtain ⟨status, hexited⟩ : ∃ status, .onExit frame.streamId status ∈ (r.links index).log := by
        apply exit_told hsound.reach _ (by simpa using htype)
        cases e <;> simp at he
        rw [← he]
        exact (mem_view.mp hview).1
      exact absurd hexited (h.exits index hopen _ _)

/-- `onReady` on a connection that is not done leaves it ready and not done. -/
theorem Inv.ready {r : NativeRun} (network : Nat → Launch) (h : Inv r) {index : Nat}
    (htransport : (r.controller.conn index).transport = true)
    (hopen : (r.controller.conn index).done = false) :
    (r.step network (.ready index)).Runs index ∧
      (r.step network (.ready index)).controller.command = r.controller.command := by
  have hbound := h.steady.bound index
  have hnext : r.controller.step network (.callback index .ready) =
      r.controller.note (.opened index r.controller.command) := by
    unfold NativeController.step NativeController.callback
    simp [htransport, hopen, hbound]
  unfold NativeRun.step
  dsimp only
  rw [hnext]
  refine ⟨⟨?_, hopen⟩, rfl⟩
  simp [enter, NativeController.note, Link.follow, Link.opened]

/-- A connection that is ready and not done has an open stream that carries the command, in
every state of every run, exactly when the command is a valid request: `start` takes commands
that are not. Right after `onReady` a connection that was not done is such a connection. -/
theorem a_ready_connection_has_a_stream_iff_the_command_is_valid (network : Nat → Launch)
    (inputs : List Input) (index : Nat) :
    ((run network inputs).Runs index → ((run network inputs).Carries index ↔
      validateOpenRequest ⟨(run network inputs).controller.command, []⟩ = .ok ())) ∧
    (((run network inputs).controller.conn index).transport = true →
      ((run network inputs).controller.conn index).done = false →
      (run network (inputs ++ [.ready index])).Runs index ∧
        ((run network (inputs ++ [.ready index])).Carries index ↔
          validateOpenRequest ⟨(run network inputs).controller.command, []⟩ = .ok ())) := by
  have h := inv_run network inputs
  refine ⟨h.carries_iff index, fun htransport hopen => ?_⟩
  obtain ⟨hruns, hcommand⟩ := h.ready network htransport hopen
  have hsame : run network (inputs ++ [.ready index]) =
      (run network inputs).step network (.ready index) := by
    simp [run]
  have hiff := (inv_run network (inputs ++ [.ready index])).carries_iff index
  rw [hsame] at hiff ⊢
  rw [hcommand] at hiff
  exact ⟨hruns, hiff hruns⟩

/-- One target that connects, and the argv `["true"]`. -/
theorem a_valid_command_gets_its_stream :
    let network : Nat → Launch := fun _ => .started [] none
    let start := Input.start [⟨"node", 7000⟩] [[116, 114, 117, 101]] true {}
    (run network [start, .ready 0]).Carries 0 ∧ (run network [start, .ready 0]).Runs 0 :=
  ⟨((a_ready_connection_has_a_stream_iff_the_command_is_valid _ [_, .ready 0] 0).1
      (by unfold Runs; decide)).mpr (by decide),
    ((a_ready_connection_has_a_stream_iff_the_command_is_valid _ [_] 0).2
      (by decide) (by decide)).1⟩

/-- `start` accepts an argv of one NUL byte. The connection is then ready and not done, and it
has no stream. -/
theorem a_command_with_a_nul_waits_for_ever :
    let network : Nat → Launch := fun _ => .started [] none
    let r := run network [.start [⟨"node", 7000⟩] [[0]] true {}, .ready 0]
    (NativeController.start network {} [⟨"node", 7000⟩] [[0]] true {}).2 = .ok () ∧
      r.controller.command = [[0]] ∧ r.Runs 0 ∧ ¬ r.Carries 0 ∧
      ∀ id, (r.links 0).session.streams id = none := by
  intro network r
  have hnone : ∀ id, (r.links 0).session.streams id = none := fun _ => rfl
  refine ⟨by decide, by decide, by unfold Runs; decide, ?_, hnone⟩
  rintro ⟨id, stream, hstream, -⟩
  rw [hnone] at hstream
  cases hstream

end NativeRun

end psx.transport
