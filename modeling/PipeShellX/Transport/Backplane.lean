-- A controller and a node joined by two byte channels: at one end a session whose owner makes any
-- calls, at the other a session with the runner of stages. Together they are a pair of sessions, so
-- what holds of every pair holds of them: what a stage wrote comes out at the controller, and its
-- EXIT after it.
import PipeShellX.Transport.NodeStageCalls

namespace psx.transport

open psx.os (ExitStatus Waits)

/-! ## Bytes for the node -/

namespace NodeStageRunner

/-- The sink of `Session::receive`: each frame with its callbacks. A refused frame ends it. -/
def dispatchAll (depth : Nat) : List Frame → List Answers → NodeStageRunner → NodeStageRunner
  | [], _, r => r
  | frame :: frames, answers, r =>
    dispatchAll depth frames answers.tail (r.dispatch depth (answers.headD {}) frame)

/-- `Session::receive`, with the runner as its handler. -/
def receive (depth : Nat) (r : NodeStageRunner) (bytes : Bytes) (answers : List Answers) :
    NodeStageRunner :=
  if r.session.protocolFailed then r
  else
    let (decoder, frames, decoded) := r.session.decoder.push bytes
    let r := dispatchAll depth frames answers { r with session := { r.session with decoder } }
    match decoded with
    | .ok () => r
    | .error _ => { r with session := { r.session with protocolFailed := true } }

variable {W : UInt32} {r : NodeStageRunner}

theorem Sound.decoder (h : Sound W r) (decoder : FrameDecoder) :
    Sound W { r with session := { r.session with decoder } } :=
  ⟨⟨.decoder decoder h.inv.reach, h.inv.stages, h.inv.fresh, h.inv.lawful⟩, h.undone,
    ⟨h.trail.lawful, h.trail.started, h.trail.reaped⟩⟩

theorem Sound.dispatchAll (h : Sound W r) (depth : Nat) (frames : List Frame)
    (answers : List Answers) :
    Sound W (r.dispatchAll depth frames answers) := by
  induction frames generalizing r answers with
  | nil => exact h
  | cons frame frames ih => exact ih (h.step depth (.frame frame (answers.headD {}))) answers.tail

theorem Sound.receive (h : Sound W r) (depth : Nat) (bytes : Bytes) (answers : List Answers) :
    Sound W (r.receive depth bytes answers) := by
  unfold NodeStageRunner.receive
  split
  · exact h
  · have hall := (h.decoder (r.session.decoder.push bytes).1).dispatchAll depth
      (r.session.decoder.push bytes).2.1 answers
    dsimp only
    split
    · exact hall
    · exact hall.step depth .malformed

theorem dispatchAll_failed (depth : Nat) (frames : List Frame) (answers : List Answers)
    (hs : r.session.protocolFailed = true) : r.dispatchAll depth frames answers = r := by
  induction frames generalizing answers with
  | nil => rfl
  | cons frame frames ih =>
    rw [NodeStageRunner.dispatchAll, NodeStageRunner.dispatch, if_pos hs]
    exact ih answers.tail

/-- What the session of the node did is what a session does that dispatches the same frames, and
whose handlers make calls of their own. -/
theorem dispatchAll_calls (h : Sound W r) (depth : Nat) (hs : r.session.protocolFailed = false)
    (frames : List Frame) (answers : List Answers) :
    ∃ replies s events result,
      r.session.dispatchAll frames replies = (s, events, result) ∧
      sessionLog (r.dispatchAll depth frames answers).log = sessionLog r.log ++ events ∧
      (r.dispatchAll depth frames answers).session =
        match result with
        | .ok () => s
        | .error _ => { s with protocolFailed := true } := by
  induction frames generalizing r answers with
  | nil => exact ⟨[], r.session, [], .ok (), rfl, by simp [dispatchAll], rfl⟩
  | cons frame frames ih =>
    rw [dispatchAll]
    cases hok : r.session.dispatch frame with
    | error e =>
      have hpoison : r.dispatch depth (answers.headD {}) frame =
          { r with session := { r.session with protocolFailed := true } } := by
        rw [NodeStageRunner.dispatch, if_neg (by simp [hs]), hok]
      refine ⟨[], r.session, [], .error e, ?_, ?_, ?_⟩
      · rw [Session.dispatchAll, hok]
      · rw [hpoison, dispatchAll_failed depth _ _ rfl]
        simp
      · rw [hpoison, dispatchAll_failed depth _ _ rfl]
    | ok taken =>
      have hleads := dispatch_leads depth (answers.headD {}) h.inv hs hok
      obtain ⟨cs, hsession, hlog⟩ := hleads.calls
      have hnext := h.step depth (.frame frame (answers.headD {}))
      obtain ⟨hinv, hkept⟩ := inv_dispatch h.inv.session.1 hs hok
      have hkept' := (inv_calls hinv cs).2
      have halive : (r.dispatch depth (answers.headD {}) frame).session.protocolFailed = false := by
        rw [hsession]
        exact hkept'.protocolFailed.trans (hkept.protocolFailed.trans hs)
      obtain ⟨replies, s, events, result, hall, hlogs, hsessions⟩ := ih hnext halive answers.tail
      refine ⟨cs :: replies, s, .got frame :: taken.2 ++ (taken.1.calls cs).2 ++ events, result, ?_,
        ?_, hsessions⟩
      · have hall' : (taken.1.calls cs).1.dispatchAll frames replies = (s, events, result) := by
          rw [← hall]
          exact congrArg (fun t => Session.dispatchAll t frames replies) hsession.symm
        rw [Session.dispatchAll, hok]
        simp [hall']
      · have htook : sessionLog (r.took frame taken).log =
            sessionLog r.log ++ .got frame :: taken.2 := by
          simp only [took, note, sessionLog_append]
          rw [← List.map_cons, sessionLog_map]
        rw [show r.step depth (.frame frame (answers.headD {})) =
          r.dispatch depth (answers.headD {}) frame from rfl] at *
        rw [hlogs, hlog, htook]
        simp [took, note]

/-- The same for the bytes of a chunk. -/
theorem receive_calls (h : Sound W r) (depth : Nat) (bytes : Bytes) (answers : List Answers) :
    ∃ replies, (r.receive depth bytes answers).session = (r.session.receive bytes replies).1 ∧
      sessionLog (r.receive depth bytes answers).log =
        sessionLog r.log ++ (r.session.receive bytes replies).2.1 := by
  cases hs : r.session.protocolFailed with
  | true =>
    exact ⟨[], by simp [receive, Session.receive, hs], by simp [receive, Session.receive, hs]⟩
  | false =>
    rcases hpush : r.session.decoder.push bytes with ⟨decoder, frames, decoded⟩
    obtain ⟨replies, s, events, result, hall, hlog, hsession⟩ :=
      dispatchAll_calls (h.decoder decoder) depth hs frames answers
    refine ⟨replies, ?_⟩
    have hnot : ¬ r.session.protocolFailed = true := by simp [hs]
    unfold receive Session.receive
    rw [if_neg hnot, if_neg hnot, hpush]
    dsimp only at hall hlog hsession ⊢
    rw [hall]
    cases decoded with
    | ok _ =>
      cases result with
      | ok _ => exact ⟨hsession, hlog⟩
      | error e => exact ⟨hsession, hlog⟩
    | error e =>
      refine ⟨?_, hlog⟩
      dsimp only
      rw [hsession]
      cases result <;> rfl

end NodeStageRunner

/-! ## The two ends -/

/-- The controller with the bytes on their way to it, and the node with those on their way to it. -/
structure Backplane where
  controller : End
  node : NodeStageRunner
  inbox : Bytes := []

namespace Backplane

/-- A controller and a node that have not spoken yet. -/
def new (W : UInt32) (streamWritable : Bool) (validator : Option (OpenRequest → Option Bytes)) :
    Backplane :=
  { controller := { session := .new .Controller W streamWritable }, node := .new W validator }

/-- The controller did something: what it wrote goes behind the bytes that travel to the node. -/
def speak (b : Backplane) (r : Session × List Event) (inbox : Bytes) : Backplane :=
  { b with
    controller := { session := r.1, log := b.controller.log ++ r.2, inbox }
    inbox := b.inbox ++ Pair.wire r.2 }

/-- The node did something: what its session wrote since then goes to the controller. -/
def answer (b : Backplane) (node : NodeStageRunner) (inbox : Bytes) : Backplane :=
  let events :=
    (NodeStageRunner.sessionLog node.log).drop (NodeStageRunner.sessionLog b.node.log).length
  { controller := { b.controller with inbox := b.controller.inbox ++ Pair.wire events },
    node, inbox }

/-- What happens: calls of the controller's owner; bytes that arrive, with what the handlers do; and
at the node an edge of a pipe, the end of a child, a beat of the lease. -/
inductive Move
  | call (c : Session.Call)
  | deliver (n : Nat) (replies : List (List Session.Call))
  | receive (n : Nat) (answers : List NodeStageRunner.Answers)
  | readable (id : StreamId) (channel : Channel) (answers : NodeStageRunner.Answers)
  | stdinWritable (id : StreamId) (writes : List (Result Nat))
  | stageExit (id : StreamId) (waits : Waits)
  | ping

/-- One move of either side. -/
def step (depth : Nat) (b : Backplane) : Move → Backplane
  | .call c => b.speak (b.controller.session.call c) b.controller.inbox
  | .deliver n replies =>
    let (session, events, _) := b.controller.session.receive (b.controller.inbox.take n) replies
    b.speak (session, events) (b.controller.inbox.drop n)
  | .receive n answers => b.answer (b.node.receive depth (b.inbox.take n) answers) (b.inbox.drop n)
  | .readable id channel answers =>
    b.answer (b.node.step depth (.readable id channel answers)) b.inbox
  | .stdinWritable id writes => b.answer (b.node.step depth (.stdinWritable id writes)) b.inbox
  | .stageExit id waits => b.answer (b.node.step depth (.stageExit id waits)) b.inbox
  | .ping => b.answer (b.node.step depth .ping) b.inbox

def run (depth : Nat) (b : Backplane) (moves : List Move) : Backplane := moves.foldl (step depth) b

/-! ## A pair of sessions -/

/-- The two ends of a pair that stand where the controller and the node stand. -/
structure Mirrors (b : Backplane) (p : Pair) : Prop where
  controller : p.ends .Controller = b.controller
  node : p.ends .Node = ⟨b.node.session, NodeStageRunner.sessionLog b.node.log, b.inbox⟩

theorem wire_append (a b : List Event) : Pair.wire (a ++ b) = Pair.wire a ++ Pair.wire b := by
  unfold Pair.wire
  rw [account_wrote_append]
  simp [encodeFrames]

/-- A few calls of one end, one after the other. -/
theorem run_calls (p : Pair) (side : Role) (cs : List Session.Call) :
    (p.run (cs.map (.call side))).ends =
      (p.act side ((p.ends side).session.calls cs) (p.ends side).inbox).ends := by
  have hother := side.other_ne
  induction cs generalizing p with
  | nil =>
    funext r
    rcases side.eq_or_other r with rfl | rfl
    · simp [Pair.run, Pair.act, Session.calls]
    · simp [Pair.run, Pair.act, Session.calls, hother, Pair.wire, encodeFrames]
  | cons c cs ih =>
    rw [List.map_cons, Pair.run, List.foldl_cons]
    rw [show (cs.map (Pair.Move.call side)).foldl Pair.step (p.step (.call side c)) =
      (p.step (.call side c)).run (cs.map (.call side)) from rfl, ih]
    funext r
    rcases side.eq_or_other r with rfl | rfl
    · simp [Pair.step, Pair.act, Session.calls]
    · simp [Pair.step, Pair.act, Session.calls, hother, wire_append]

theorem Mirrors.speak {b : Backplane} {p p' : Pair} (h : Mirrors b p) {r : Session × List Event}
    {inbox : Bytes} (hends : p'.ends = (p.act .Controller r inbox).ends) :
    Mirrors (b.speak r inbox) p' := by
  constructor
  · simp [hends, Pair.act, Backplane.speak, h.controller]
  · simp [hends, Pair.act, Backplane.speak, h.node, Role.other]

theorem Mirrors.answer {b : Backplane} {p p' : Pair} (h : Mirrors b p) {node : NodeStageRunner}
    {events : List Event} {inbox : Bytes}
    (hlog : NodeStageRunner.sessionLog node.log = NodeStageRunner.sessionLog b.node.log ++ events)
    (hends : p'.ends = (p.act .Node (node.session, events) inbox).ends) :
    Mirrors (b.answer node inbox) p' := by
  constructor
  · simp [hends, Pair.act, Backplane.answer, h.controller, hlog, Role.other]
  · simp [hends, Pair.act, Backplane.answer, h.node, hlog]

theorem Mirrors.answer_calls {b : Backplane} {p : Pair} (h : Mirrors b p) {node : NodeStageRunner}
    (hcalls : NodeStageRunner.Calls b.node node) :
    ∃ moves, Mirrors (b.answer node b.inbox) (p.run moves) := by
  obtain ⟨cs, hsession, hlog⟩ := hcalls
  refine ⟨cs.map (.call .Node), h.answer hlog ?_⟩
  rw [run_calls, h.node, hsession]

/-- Each move is made of moves of the pair. -/
theorem Mirrors.step {W : UInt32} {b : Backplane} {p : Pair} (h : Mirrors b p)
    (hsound : b.node.Sound W) (depth : Nat) (m : Move) :
    (∃ moves, Mirrors (b.step depth m) (p.run moves)) ∧ (b.step depth m).node.Sound W := by
  have hlocal : ∀ input : NodeStageRunner.Input, (∀ frame answers, input ≠ .frame frame answers) →
      input ≠ .malformed →
        (∃ moves, Mirrors (b.answer (b.node.step depth input) b.inbox) (p.run moves)) ∧
        (b.answer (b.node.step depth input) b.inbox).node.Sound W := by
    intro input hframe halive
    exact ⟨h.answer_calls (NodeStageRunner.step_follows depth hframe halive).calls,
      hsound.step depth input⟩
  cases m with
  | call c =>
    refine ⟨⟨[.call .Controller c], h.speak ?_⟩, hsound⟩
    simp [Pair.run, Pair.step, h.controller]
  | deliver n replies =>
    refine ⟨⟨[.deliver .Controller n replies], h.speak ?_⟩, hsound⟩
    simp only [Pair.run, List.foldl_cons, List.foldl_nil, Pair.step, h.controller]
    split <;> rfl
  | receive n answers =>
    obtain ⟨replies, hsession, hlog⟩ :=
      NodeStageRunner.receive_calls hsound depth (b.inbox.take n) answers
    refine ⟨⟨[.deliver .Node n replies], h.answer hlog ?_⟩, hsound.receive depth _ _⟩
    simp only [Pair.run, List.foldl_cons, List.foldl_nil, Pair.step, h.node, hsession]
    split <;> rfl
  | readable id channel answers => exact hlocal _ (by simp) (by simp)
  | stdinWritable id writes => exact hlocal _ (by simp) (by simp)
  | stageExit id waits => exact hlocal _ (by simp) (by simp)
  | ping => exact hlocal _ (by simp) (by simp)

theorem Mirrors.run {W : UInt32} {b : Backplane} {p : Pair} (h : Mirrors b p)
    (hsound : b.node.Sound W) (depth : Nat) (moves : List Move) :
    (∃ made, Mirrors (b.run depth moves) (p.run made)) ∧ (b.run depth moves).node.Sound W := by
  induction moves generalizing b p with
  | nil => exact ⟨⟨[], h⟩, hsound⟩
  | cons m moves ih =>
    obtain ⟨⟨first, hmirrors⟩, hnext⟩ := h.step hsound depth m
    obtain ⟨⟨later, hend⟩, hlast⟩ := ih hmirrors hnext
    refine ⟨⟨first ++ later, ?_⟩, hlast⟩
    rw [Pair.run, List.foldl_append]
    exact hend

/-- Whatever happens, the two ends are those of a pair, and the node is sound. -/
theorem run_mirrors (W : UInt32) (streamWritable : Bool)
    (validator : Option (OpenRequest → Option Bytes)) (depth : Nat) (moves : List Move) :
    (∃ p, Mirrors ((new W streamWritable validator).run depth moves) p ∧ PairInv (fun _ => W) p) ∧
      ((new W streamWritable validator).run depth moves).node.Sound W := by
  have hstart : Mirrors (new W streamWritable validator)
      (Pair.new (fun _ => W) fun r => if r = .Controller then streamWritable else true) :=
        ⟨rfl, rfl⟩
  obtain ⟨⟨made, hmirrors⟩, hsound⟩ :=
    hstart.run (NodeStageRunner.sound_new W validator) depth moves
  exact ⟨⟨_, hmirrors, pairInv_run (pairInv_new _ _) made⟩, hsound⟩

/-! ## What goes through -/

open NodeStageRunner (ledger sessionLog) in
/-- What `sendData` and `sendExit` took of a stage is in its ledger, and so is what `onData` handed
over for it. -/
theorem account_ledger (id : StreamId) (log : List NodeStageRunner.Event) :
    (account (view id (sessionLog log))).taken = (ledger id log).queued ∧
      (account (view id (sessionLog log))).exitsAsked = (ledger id log).asked ∧
      (account (view id (sessionLog log))).delivered.map Prod.snd = (ledger id log).received := by
  induction log using List.reverseRecOn with
  | nil => exact ⟨rfl, rfl, rfl⟩
  | append_singleton log e ih =>
    rw [NodeStageRunner.ledger_snoc, NodeStageRunner.sessionLog_append, view_append, account_append]
    obtain ⟨htaken, hasked, hdelivered⟩ := ih
    cases e with
    | session e =>
      rw [show sessionLog [NodeStageRunner.Event.session e] = [e] from rfl]
      by_cases he : e.streamId = id
      · cases e <;> simp_all [view, NodeStageRunner.Event.stage, tag, Function.comp_def]
      · simp_all [view, NodeStageRunner.Event.stage]
    | _ =>
      rw [apply_ite NodeStageRunner.Ledger.queued, apply_ite NodeStageRunner.Ledger.asked,
        apply_ite NodeStageRunner.Ledger.received]
      simpa [NodeStageRunner.sessionLog, view] using ⟨htaken, hasked, hdelivered⟩

open NodeStageRunner (ledger sessionLog) in
/-- What a stage was asked to end with, it was sent an EXIT for. -/
theorem exitAsked_sent {W : UInt32} {r : NodeStageRunner} (h : r.Sound W) {id : StreamId}
    {status : ExitStatus}
    (hasked : status ∈ (account (view id (sessionLog r.log))).exitsAsked) :
    .exitSent id status ∈ r.log := by
  have hin : Event.exitAsked id status ∈ sessionLog r.log := by
    generalize sessionLog r.log = log at hasked
    induction log using List.reverseRecOn with
    | nil => simp [view] at hasked
    | append_singleton log e ih =>
      rw [view_append, account_append] at hasked
      by_cases he : e.streamId = id
      · cases e <;> simp_all [view, Event.streamId]
        exact hasked.elim (fun hold => .inl (ih hold)) .inr
      · apply List.mem_append_left
        apply ih
        simpa [view, he] using hasked
  rw [NodeStageRunner.mem_sessionLog] at hin
  obtain ⟨a, b, heq⟩ := List.append_of_mem hin
  have hsent : .exitSent id status ∈ a := h.trail.lawful a _ b heq
  rw [heq]
  exact List.mem_append_left _ hsent

/-- What the session of a node took of a stage is the first part of what was read from it, and all
of it once the session took the EXIT. -/
theorem taken_read {W : UInt32} {r : NodeStageRunner} (h : r.Sound W) {id : StreamId}
    (hstarted : NodeStageRunner.Started id r.log) :
    (account (view id (NodeStageRunner.sessionLog r.log))).taken <+:
        (NodeStageRunner.ledger id r.log).read ∧
      ((account (view id (NodeStageRunner.sessionLog r.log))).exitsAsked ≠ [] →
        (account (view id (NodeStageRunner.sessionLog r.log))).taken =
          (NodeStageRunner.ledger id r.log).read) := by
  obtain ⟨htaken, hasked, -⟩ := account_ledger id r.log
  rw [htaken, hasked]
  rw [← NodeStageRunner.ledger_started] at hstarted
  have htended := h.inv.stages id
  generalize r.session.streams id = stream at htended
  generalize r.stages id = stage at htended
  cases htended with
  | unstarted hnot => simp [hnot] at hstarted
  | running hrun => exact ⟨hrun.handed ▸ hrun.part, fun htook => absurd hrun.asked htook⟩
  | finished hfinished =>
    exact ⟨hfinished.handed ▸ hfinished.part, fun htook =>
      (hfinished.asked htook).trans hfinished.handed.symm⟩

/-- What a stage that was started wrote comes out at the controller, byte for byte on its channel.
The EXIT comes after all of it: both pipes of the stage had ended, and the status is the one that
its process was reaped with. A stream without a stage ends with 126 or 127. A session that fails, at
either end, or a GOAWAY does not change that. -/
theorem a_stage_is_heard (depth : Nat) (W : UInt32) (streamWritable : Bool)
    (validator : Option (OpenRequest → Option Bytes)) (moves : List Move) (id : StreamId) :
    let b := (new W streamWritable validator).run depth moves
    let read := (NodeStageRunner.ledger id b.node.log).read
    (NodeStageRunner.Started id b.node.log →
      (account (view id b.controller.log)).delivered <+: read) ∧
    ∀ pre status post, b.controller.log = pre ++ .onExit id status :: post →
      (NodeStageRunner.Started id b.node.log → (account (view id pre)).delivered = read ∧
        (∀ channel, .ended id channel ∈ b.node.log) ∧ .reaped id status ∈ b.node.log) ∧
      (¬ NodeStageRunner.Started id b.node.log → NodeStageRunner.Unstarted status) := by
  intro b read
  obtain ⟨⟨p, hmirrors, hpair⟩, hsound⟩ := run_mirrors W streamWritable validator depth moves
  have hnode : (p.ends .Node).log = NodeStageRunner.sessionLog b.node.log := by rw [hmirrors.node]
  have hcontroller : (p.ends .Controller).log = b.controller.log := by rw [hmirrors.controller]
  refine ⟨fun hstarted => ?_, fun pre status post hlog => ?_⟩
  · have hdelivered := delivered_taken hpair .Controller id
    rw [hcontroller, show Role.Controller.other = .Node from rfl, hnode] at hdelivered
    exact hdelivered.trans (taken_read hsound hstarted).1
  · have hview : view id (p.ends .Controller).log =
        view id pre ++ .onExit id status :: view id post := by
      rw [hcontroller, hlog]
      exact view_split id rfl
    obtain ⟨hall, hasked⟩ := exit_delivered hpair .Controller hview
    rw [show Role.Controller.other = .Node from rfl, hnode] at hall hasked
    have hin : status ∈ (account (view id (NodeStageRunner.sessionLog b.node.log))).exitsAsked := by
      simp [hasked]
    have hsent := exitAsked_sent hsound hin
    obtain ⟨a, c, heq⟩ := List.append_of_mem hsent
    obtain ⟨hreaped, hunstarted⟩ := hsound.trail.lawful a _ c heq
    by_cases hstarted : NodeStageRunner.Started id a
    · have hin : NodeStageRunner.Started id b.node.log := by
        rw [heq]
        exact NodeStageRunner.started_append.mpr (.inl hstarted)
      have hread := (taken_read hsound hin).2 (hasked.trans_ne (by simp))
      refine ⟨fun _ => ⟨hall.trans hread, fun channel => ?_, ?_⟩, fun hnot => absurd hin hnot⟩
      · have hends :=
          (hsound.inv.lawful a _ c heq (NodeStageRunner.ledger_started.mpr hstarted)).2.1
        rw [heq]
        exact List.mem_append_left _ (NodeStageRunner.mem_ended.mp (hends channel))
      · rw [heq]
        exact List.mem_append_left _ (hreaped hstarted)
    · refine ⟨fun hin => ?_, fun _ => hunstarted hstarted⟩
      -- an EXIT before the start would be one of another stage
      rw [heq, NodeStageRunner.started_append, NodeStageRunner.started_cons] at hin
      obtain ⟨request, hlater⟩ := (hin.resolve_left hstarted).resolve_left (by simp)
      obtain ⟨c₁, c₂, rfl⟩ := List.append_of_mem hlater
      have hquiet := (hsound.trail.lawful (a ++ .exitSent id status :: c₁) (.started id request) c₂
        (by simp [heq])).1
      exact absurd (by simp) (hquiet status)

/-- A stage that says "hi" and is done with exit code 3: both bytes and the code arrive. -/
theorem a_greeting_is_heard :
    let moves : List Move := [.call (.open_ ⟨[[97]], []⟩), .receive 1000 [{}],
      .readable 1 .Stdout { reads := fun _ => [.ok ⟨[104, 105], by decide⟩, .ok ⟨[], by decide⟩] },
      .readable 1 .Stderr { reads := fun _ => [.ok ⟨[], by decide⟩] },
      .stageExit 1 ⟨.ok (some ⟨.Exited, 3⟩), .ok {}⟩, .deliver 1000 []]
    let b := (new 64 true none).run 0 moves
    (account (view 1 b.controller.log)).delivered <+: (NodeStageRunner.ledger 1 b.node.log).read ∧
      (account (view 1 b.controller.log)).delivered = [(.Stdout, 104), (.Stdout, 105)] ∧
      .onExit 1 ⟨.Exited, 3⟩ ∈ b.controller.log := by
  intro moves b
  refine ⟨(a_stage_is_heard 0 64 true none moves 1).1 (by decide), ?_, ?_⟩
  · decide
  · decide

/-- What was written to the input of a stage, what was dropped because the stage had closed it, and
what waits for it are, in this order, the first bytes that the controller sent to the stage. Nothing
is dropped while the stage takes input. -/
theorem a_stage_is_fed (depth : Nat) (W : UInt32) (streamWritable : Bool)
    (validator : Option (OpenRequest → Option Bytes)) (moves : List Move) (id : StreamId) :
    let b := (new W streamWritable validator).run depth moves
    let l := NodeStageRunner.ledger id b.node.log
    ∀ stage, b.node.stages id = some stage →
      l.wrote ++ l.dropped ++ stage.stdinBuffer <+:
        (account (view id b.controller.log)).taken.map Prod.snd ∧
      (stage.stdinOpen = true → l.dropped = []) ∧ stage.stdinBuffer.length ≤ W.toNat := by
  intro b l stage hstage
  obtain ⟨⟨p, hmirrors, hpair⟩, hsound⟩ := run_mirrors W streamWritable validator depth moves
  obtain ⟨stream, -, hrun⟩ := hsound.inv.running hstage
  refine ⟨?_, hrun.input.dropped, hrun.input.buffer_le⟩
  have hdelivered := delivered_taken hpair .Node id
  rw [hmirrors.node, show Role.Node.other = .Controller from rfl, hmirrors.controller] at hdelivered
  have hreceived := (account_ledger id b.node.log).2.2
  rw [hrun.input.received] at hreceived
  rw [← hreceived]
  exact hdelivered.map Prod.snd

theorem a_line_is_fed :
    let moves : List Move := [.call (.open_ ⟨[[97]], []⟩), .receive 1000 [{}],
      .call (.sendData 1 [104, 105, 10] false .Stdout), .receive 1000 [{ writes := [.ok 2] }]]
    let b := (new 64 true none).run 0 moves
    ∃ stage, b.node.stages 1 = some stage ∧ stage.stdinBuffer = [10] ∧
      (NodeStageRunner.ledger 1 b.node.log).wrote ++
        (NodeStageRunner.ledger 1 b.node.log).dropped ++
        stage.stdinBuffer <+: (account (view 1 b.controller.log)).taken.map Prod.snd := by
  intro moves b
  have hwaits : (b.node.stages 1).map (·.stdinBuffer) = some [10] := by decide
  obtain ⟨stage, hstage, hbuffer⟩ := Option.map_eq_some_iff.mp hwaits
  exact ⟨stage, hstage, hbuffer, (a_stage_is_fed 0 64 true none moves 1 stage hstage).1⟩

end Backplane

end psx.transport
