-- What the callbacks of a node do to its session and to its log. The session sees calls of its own
-- interface and no others; a stage is started for an OPEN that the validator let pass; and the EXIT
-- of a stage has the status that its process was reaped with.
import PipeShellX.Transport.NodeStageRuns
import PipeShellX.Transport.SessionExchange

namespace psx.transport

open psx.os (ExitStatus Interest Waits)

/-! ## Calls in a row -/

theorem Session.calls_append (s : Session) (a b : List Session.Call) :
    s.calls (a ++ b) = (((s.calls a).1.calls b).1, (s.calls a).2 ++ ((s.calls a).1.calls b).2) := by
  induction a generalizing s with
  | nil => rfl
  | cons c a ih => simp [Session.calls, ih]

namespace NodeStageRunner

variable {r r' r'' : NodeStageRunner} {id : StreamId}

/-- The session went through a few calls, and the log has what they did. -/
def Calls (r r' : NodeStageRunner) : Prop :=
  ∃ cs : List Session.Call, r'.session = (r.session.calls cs).1 ∧
    sessionLog r'.log = sessionLog r.log ++ (r.session.calls cs).2

theorem Calls.refl (r : NodeStageRunner) : Calls r r := ⟨[], rfl, by simp [Session.calls]⟩

theorem Calls.trans (h : Calls r r') (h' : Calls r' r'') : Calls r r'' := by
  obtain ⟨a, hsession, hlog⟩ := h
  obtain ⟨b, hsession', hlog'⟩ := h'
  refine ⟨a ++ b, ?_, ?_⟩
  · rw [Session.calls_append, hsession', hsession]
  · rw [Session.calls_append, hlog', hlog, hsession, List.append_assoc]

theorem mem_sessionLog {log : List Event} {e : psx.transport.Event} :
    e ∈ sessionLog log ↔ .session e ∈ log := by
  unfold sessionLog
  rw [List.mem_filterMap]
  constructor
  · rintro ⟨e', he', heq⟩
    cases e' with
    | session e'' =>
      simp only [Option.some.injEq] at heq
      exact heq ▸ he'
    | _ => cases heq
  · intro he
    exact ⟨_, he, rfl⟩

theorem calls_opens {s : Session} {cs : List Session.Call} {request : OpenRequest} :
    .onOpen id request ∉ (s.calls cs).2 := by
  induction cs generalizing s with
  | nil => simp [Session.calls]
  | cons c cs ih =>
    simp only [Session.calls, List.mem_append, not_or]
    exact ⟨fun he => (call_events he).elim, ih⟩

/-- No call of the session hands an OPEN over. -/
theorem Calls.opens (h : Calls r r') {request : OpenRequest}
    (hin : .session (.onOpen id request) ∈ r'.log) : .session (.onOpen id request) ∈ r.log := by
  obtain ⟨cs, -, hlog⟩ := h
  rw [← mem_sessionLog, hlog, List.mem_append] at hin
  rw [← mem_sessionLog]
  exact hin.resolve_right calls_opens

/-! ## The trail -/

/-- What the node runs: a command, and one that the validator has no reason to refuse. -/
def Admitted (validator : Option (OpenRequest → Option Bytes)) (request : OpenRequest) : Prop :=
  request.argv ≠ [] ∧ (validator.bind fun validate => validate request) = none

/-- A process was started for the stream. -/
def Started (id : StreamId) (log : List Event) : Prop := ∃ request, .started id request ∈ log

@[simp] theorem started_nil : ¬ Started id [] := by
  simp [Started]

@[simp] theorem started_cons {e : Event} {log : List Event} :
    Started id (e :: log) ↔ (∃ request, e = .started id request) ∨ Started id log := by
  simp [Started, exists_or, eq_comm]

@[simp] theorem started_append {a b : List Event} :
    Started id (a ++ b) ↔ Started id a ∨ Started id b := by
  simp [Started, exists_or]

@[simp] theorem started_map {events : List psx.transport.Event} :
    ¬ Started id (events.map .session) := by
  simp [Started]

/-- How an EXIT says that no process was started: the command was refused, or could not start. -/
def Unstarted (status : ExitStatus) : Prop := status = ⟨.Exited, 126⟩ ∨ status = ⟨.Exited, 127⟩

/-- What may happen to a stage, and when. -/
def TrailAllowed (validator : Option (OpenRequest → Option Bytes)) (pre : List Event) : Event → Prop
  | .started id request => (∀ status, .exitSent id status ∉ pre) ∧
      .session (.onOpen id request) ∈ pre ∧ Admitted validator request
  | .exitSent id status => (Started id pre → .reaped id status ∈ pre) ∧
      (¬ Started id pre → Unstarted status)
  | .session (.exitAsked id status) => .exitSent id status ∈ pre
  | _ => True

/-- What happened to the stages was allowed. -/
structure Trail (r : NodeStageRunner) : Prop where
  lawful : Trace.Lawful (TrailAllowed r.validator) r.log
  started : ∀ id stage, r.stages id = some stage → Started id r.log
  reaped : ∀ id stage, r.stages id = some stage → stage.exited = true →
    .reaped id stage.status ∈ r.log

/-- From one state to another, by what a callback does. -/
structure Leads (r r' : NodeStageRunner) : Prop where
  calls : Calls r r'
  validator : r'.validator = r.validator
  grows : r.log ⊆ r'.log
  trail : Trail r → Trail r'

theorem Leads.refl (r : NodeStageRunner) : Leads r r := ⟨.refl r, rfl, List.Subset.refl _, id⟩

theorem Leads.trans (h : Leads r r') (h' : Leads r' r'') : Leads r r'' where
  calls := h.calls.trans h'.calls
  validator := h'.validator.trans h.validator
  grows := List.Subset.trans h.grows h'.grows
  trail := fun htrail => h'.trail (h.trail htrail)

/-- The same, and no stage is started. -/
structure Follows (r r' : NodeStageRunner) : Prop extends Leads r r' where
  started : ∀ id, Started id r'.log → Started id r.log

theorem Follows.refl (r : NodeStageRunner) : Follows r r := ⟨.refl r, fun _ => id⟩

theorem Follows.trans (h : Follows r r') (h' : Follows r' r'') : Follows r r'' :=
  ⟨h.toLeads.trans h'.toLeads, fun id hin => h.started id (h'.started id hin)⟩

/-! ## One step -/

theorem exitAsked_call {s : Session} {c : Session.Call} {status : ExitStatus}
    (h : .exitAsked id status ∈ (s.call c).2) : c = .sendExit id status := by
  cases c with
  | sendExit id' status' =>
    simp only [Session.call, Session.sendExit] at h
    split_ifs at h
    · cases h
    · split at h
      · cases h
      · split_ifs at h
        · cases h
        · simp_all
        · rcases List.mem_cons.mp h with hasked | h
          · simp_all
          · cases send_events h
  | sendData id' bytes endStream channel =>
    simp only [Session.call, Session.sendData] at h
    split_ifs at h
    · cases h
    · split at h
      · cases h
      · split_ifs at h
        · cases h
        · rcases List.mem_cons.mp h with hqueued | h
          · cases hqueued
          · rcases flushStream_events h with ⟨frame, hwrote, -⟩ | hwritable
            · cases hwrote
            · cases hwritable
  | open_ request =>
    simp only [Session.call, Session.open_] at h
    split_ifs at h
    · cases h
    · cases send_events h
  | consume id' n =>
    simp only [Session.call, Session.consume] at h
    split_ifs at h
    · cases h
    · split at h
      · cases h
      · rcases List.mem_cons.mp h with hconsumed | h
        · cases hconsumed
        · split_ifs at h
          · cases send_events h
          · cases h
  | ping =>
    simp only [Session.call, Session.ping] at h
    split_ifs at h
    · cases h
    · cases send_events h
  | goAway =>
    simp only [Session.call, Session.goAway] at h
    split_ifs at h
    · cases h
    · cases send_events h

/-- What the runner takes down of itself, and a call of the session with what it did. -/
theorem follows_call {c : Session.Call} (events : List Event)
    (hown : sessionLog events = []) (hstarted : ∀ id, ¬ Started id events)
    (hasks : ∀ id status, c = .sendExit id status → .exitSent id status ∈ events)
    (hallowed : Trail r → ∀ pre e post, events = pre ++ e :: post →
      TrailAllowed r.validator (r.log ++ pre) e) :
    Follows r (({ r with session := (r.session.call c).1 } : NodeStageRunner).note
      (events ++ (r.session.call c).2.map .session)) := by
  refine ⟨⟨⟨[c], ?_, ?_⟩, rfl, ?_, fun htrail => ⟨?_, ?_, ?_⟩⟩, ?_⟩
  · rfl
  · simp [note, hown, Session.calls]
  · simp [note]
  · dsimp only [note]
    rw [← List.append_assoc]
    apply (htrail.lawful.extend (hallowed htrail)).extend
    intro pre e post heq
    have he : e ∈ (r.session.call c).2.map Event.session := by simp [heq]
    obtain ⟨e', he', rfl⟩ := List.mem_map.mp he
    cases e' with
    | exitAsked id status =>
      apply List.mem_append_left
      exact List.mem_append_right _ (hasks id status (exitAsked_call he'))
    | _ => trivial
  · intro id stage hstage
    exact started_append.mpr (.inl (htrail.started id stage hstage))
  · intro id stage hstage hexited
    exact List.mem_append_left _ (htrail.reaped id stage hstage hexited)
  · intro id hin
    simpa [note, hstarted id] using hin

/-- What the runner takes down of itself. -/
theorem follows_note (events : List Event) (hown : sessionLog events = [])
    (hstarted : ∀ id, ¬ Started id events) (hexits : ∀ id status, .exitSent id status ∉ events) :
    Follows r (r.note events) := by
  refine ⟨⟨⟨[], rfl, ?_⟩, rfl, ?_, fun htrail => ⟨?_, ?_, ?_⟩⟩, ?_⟩
  · simp [note, hown, Session.calls]
  · simp [note]
  · apply htrail.lawful.extend
    intro pre e post heq
    have he : e ∈ events := by simp [heq]
    cases e with
    | started id request => exact absurd ⟨request, he⟩ (hstarted id)
    | exitSent id status => exact absurd he (hexits id status)
    | session e =>
      have hnone : e ∈ sessionLog events := mem_sessionLog.mpr he
      simp [hown] at hnone
    | _ => trivial
  · intro id stage hstage
    exact started_append.mpr (.inl (htrail.started id stage hstage))
  · intro id stage hstage hexited
    exact List.mem_append_left _ (htrail.reaped id stage hstage hexited)
  · intro id hin
    simpa [note, hstarted id] using hin

/-- Whether its child is reaped, and how. -/
def Stage.verdict (stage : Stage) : Bool × ExitStatus := (stage.exited, stage.status)

/-- An entry that changes keeps its verdict. -/
theorem follows_setStage {before after : Stage} (hbefore : r.stages id = some before)
    (hsame : after.verdict = before.verdict) : Follows r (r.setStage id (some after)) := by
  simp only [Stage.verdict, Prod.mk.injEq] at hsame
  refine ⟨⟨.refl r, rfl, List.Subset.refl _, fun htrail => ⟨htrail.lawful, ?_, ?_⟩⟩,
    fun _ hin => hin⟩
  · intro j stage hstage
    by_cases hj : j = id
    · rw [hj]
      exact htrail.started id before hbefore
    · apply htrail.started j stage
      simpa [NodeStageRunner.setStage, hj] using hstage
  · intro j stage hstage hexited
    by_cases hj : j = id
    · have hafter : after = stage := by simpa [NodeStageRunner.setStage, hj] using hstage
      rw [hj, ← hafter, hsame.2]
      apply htrail.reaped id before hbefore
      rw [← hsame.1, hafter]
      exact hexited
    · apply htrail.reaped j stage
      · simpa [NodeStageRunner.setStage, hj] using hstage
      · exact hexited

theorem follows_erase : Follows r (r.setStage id none) := by
  refine ⟨⟨.refl r, rfl, List.Subset.refl _, fun htrail => ⟨htrail.lawful, ?_, ?_⟩⟩,
    fun _ hin => hin⟩
  · intro j stage hstage
    by_cases hj : j = id
    · simp [NodeStageRunner.setStage, hj] at hstage
    · apply htrail.started j stage
      simpa [NodeStageRunner.setStage, hj] using hstage
  · intro j stage hstage hexited
    by_cases hj : j = id
    · simp [NodeStageRunner.setStage, hj] at hstage
    · apply htrail.reaped j stage
      · simpa [NodeStageRunner.setStage, hj] using hstage
      · exact hexited

/-! ## The output of a stage -/

theorem sendExit_follows (status : ExitStatus)
    (hexit : Trail r → (Started id r.log → .reaped id status ∈ r.log) ∧
      (¬ Started id r.log → Unstarted status)) :
    Follows r (r.sendExit id status) := by
  refine follows_call (c := .sendExit id status) [.exitSent id status] rfl (by simp)
    (by simp) ?_
  intro htrail pre e post heq
  obtain ⟨rfl, hone⟩ : pre = [] ∧ e = .exitSent id status := by
    cases pre with
    | nil => exact ⟨rfl, (List.cons.inj heq).1.symm⟩
    | cons x pre => simp at heq
  rw [hone, List.append_nil]
  exact hexit htrail

theorem consume_follows (n : UInt32) : Follows r (r.consume id n) := by
  refine follows_call (c := .consume id n) [.credited id n] rfl (by simp) (by simp) ?_
  intro htrail pre e post heq
  have he : e ∈ [Event.credited id n] := by simp [heq]
  rw [List.mem_singleton.mp he]
  trivial

theorem sendData_follows {resume : NodeStageRunner → StreamId → NodeStageRunner}
    (hresume : ∀ r id, Follows r (resume r id)) (bytes : Bytes) (channel : Channel) :
    Follows r (r.sendData resume id bytes channel) := by
  have hsent : Follows r (({ r with session := (r.session.sendData id bytes false channel).1 } :
      NodeStageRunner).note (.handed id channel bytes ::
        (r.session.sendData id bytes false channel).2.map .session)) := by
    refine follows_call (c := .sendData id bytes false channel)
      [.handed id channel bytes] rfl (by simp) (by simp) ?_
    intro htrail pre e post heq
    have he : e ∈ [Event.handed id channel bytes] := by simp [heq]
    rw [List.mem_singleton.mp he]
    trivial
  unfold NodeStageRunner.sendData
  dsimp only
  split
  · exact hsent.trans (hresume _ id)
  · exact hsent

theorem finishIfDone_follows : Follows r (r.finishIfDone id) := by
  unfold finishIfDone
  split
  · exact .refl r
  · rename_i stage hstage
    split
    · rename_i hdone
      apply (sendExit_follows stage.status ?_).trans follows_erase
      intro htrail
      refine ⟨fun _ => ?_, fun hnot => absurd (htrail.started id stage hstage) hnot⟩
      apply htrail.reaped id stage hstage
      simp only [Stage.done, Bool.and_eq_true] at hdone
      exact hdone.1.1
    · exact .refl r

theorem closeReader_follows (channel : Channel) : Follows r (r.closeReader id channel) := by
  unfold NodeStageRunner.closeReader
  split
  · exact .refl r
  · rename_i stage hstage
    split
    · exact .refl r
    · apply (follows_setStage hstage ?_).trans (follows_note _ rfl (by simp) (by simp))
      cases channel <;> rfl

theorem pause_follows : Follows r (r.pause id) := by
  unfold pause
  split
  · exact .refl r
  · rename_i stage hstage
    exact follows_setStage hstage rfl

theorem readLoop_follows {resume : NodeStageRunner → StreamId → NodeStageRunner}
    (hresume : ∀ r id, Follows r (resume r id)) (channel : Channel) (reads : List (Result Chunk)) :
    Follows r (r.readLoop resume id channel reads) := by
  induction reads generalizing r with
  | nil =>
    unfold readLoop
    split
    · exact pause_follows
    · exact finishIfDone_follows
  | cons got reads ih =>
    unfold readLoop
    split
    · exact pause_follows
    · cases got with
      | ok chunk =>
        dsimp only
        split
        · exact (closeReader_follows channel).trans finishIfDone_follows
        · apply Follows.trans (follows_note [.read id channel chunk.1] rfl (by simp) (by simp))
          exact (sendData_follows hresume _ _).trans ih
      | error e =>
        dsimp only
        split
        · exact finishIfDone_follows
        · exact (closeReader_follows channel).trans finishIfDone_follows

theorem onReadable_follows {resume : NodeStageRunner → StreamId → NodeStageRunner}
    (hresume : ∀ r id, Follows r (resume r id)) (reads : Channel → List (Result Chunk))
    (channel : Channel) : Follows r (r.onReadable resume reads id channel) := by
  unfold onReadable
  split
  · exact .refl r
  · exact readLoop_follows hresume channel _

theorem resumeReads_follows (reads : Channel → List (Result Chunk)) (depth : Nat) :
    ∀ r id, Follows r (resumeReads reads depth r id) := by
  induction depth with
  | zero => exact fun r id => .refl r
  | succ depth ih =>
    intro r id
    unfold resumeReads
    split
    · exact .refl r
    · rename_i stage hstage
      split
      · exact .refl r
      · dsimp only
        have hsame : ({ stage with paused := false }.setReadInterest true).verdict =
            stage.verdict := rfl
        apply Follows.trans (follows_setStage hstage hsame)
        apply Follows.trans (follows_note [.resumed id] rfl (by simp) (by simp))
        exact (onReadable_follows ih reads .Stdout).trans (onReadable_follows ih reads .Stderr)

/-! ## The input of a stage -/

theorem verdict_rearmStdin (stage : Stage) : stage.rearmStdin.verdict = stage.verdict := by
  unfold Stage.rearmStdin
  split_ifs <;> rfl

theorem drainStdin_follows (writes : List (Result Nat)) {entry stage : Stage}
    (hentry : r.stages id = some entry) (hsame : stage.verdict = entry.verdict) :
    Follows r (drainStdin id writes stage r) := by
  induction writes generalizing r stage with
  | nil => exact follows_setStage hentry ((verdict_rearmStdin stage).trans hsame)
  | cons write writes ih =>
    have hrearm : Follows r (r.setStage id stage.rearmStdin) :=
      follows_setStage hentry ((verdict_rearmStdin stage).trans hsame)
    unfold drainStdin
    split
    · cases write with
      | ok count =>
        dsimp only
        split
        · apply Follows.trans (follows_note [.wrote id (stage.stdinBuffer.take
            (min count stage.stdinBuffer.length))] rfl (by simp) (by simp))
          apply (consume_follows _).trans
          exact ih hentry hsame
        · exact hrearm
      | error e =>
        dsimp only
        split
        · exact hrearm
        · apply Follows.trans (follows_note [.dropped id stage.stdinBuffer] rfl (by simp)
            (by simp))
          apply (consume_follows _).trans
          exact follows_setStage hentry hsame
    · exact hrearm

theorem onData_follows (writes : List (Result Nat)) (bytes : Bytes) (endStream : Bool) :
    Follows r (r.onData writes id bytes endStream) := by
  unfold NodeStageRunner.onData
  split
  · exact .refl r
  · rename_i stage hstage
    exact drainStdin_follows writes hstage rfl

theorem onStdinWritable_follows (writes : List (Result Nat)) :
    Follows r (r.onStdinWritable writes id) := by
  unfold onStdinWritable
  split
  · exact .refl r
  · rename_i stage hstage
    exact drainStdin_follows writes hstage rfl

/-! ## The end and the start -/

/-- The verdict of a stage comes with a line of the log. -/
theorem follows_reaped {before : Stage} (hbefore : r.stages id = some before)
    (status : ExitStatus) :
    Follows r ((r.setStage id (some { before with status, exited := true })).note
      [.reaped id status]) := by
  refine ⟨⟨⟨[], rfl, ?_⟩, rfl, ?_, fun htrail => ⟨?_, ?_, ?_⟩⟩, ?_⟩
  · simp [note, NodeStageRunner.setStage, Session.calls, sessionLog]
  · simp [note, NodeStageRunner.setStage]
  · exact htrail.lawful.snoc trivial
  · intro j stage hstage
    apply started_append.mpr
    left
    by_cases hj : j = id
    · rw [hj]
      exact htrail.started id before hbefore
    · apply htrail.started j stage
      simpa [note, NodeStageRunner.setStage, hj] using hstage
  · intro j stage hstage hexited
    by_cases hj : j = id
    · have hafter : { before with status, exited := true } = stage := by
        simpa [note, NodeStageRunner.setStage, hj] using hstage
      simp [note, hj, ← hafter]
    · apply List.mem_append_left
      apply htrail.reaped j stage
      · simpa [note, NodeStageRunner.setStage, hj] using hstage
      · exact hexited
  · intro j hin
    simpa [note, NodeStageRunner.setStage] using hin

theorem onStageExit_follows (waits : Waits) : Follows r (r.onStageExit id waits) := by
  unfold onStageExit
  split
  · exact .refl r
  · rename_i stage hstage
    exact (follows_reaped hstage _).trans finishIfDone_follows

/-- A stage that starts is the node's own from then on. -/
theorem leads_started (launch : Launch) (hquiet : ∀ status, .exitSent id status ∉ r.log)
    {request : OpenRequest} (hopen : .session (.onOpen id request) ∈ r.log)
    (hadmitted : Admitted r.validator request) :
    Leads r ((r.note [.started id request]).setStage id
      (some (launch.armed ((r.stages id).getD {})))) := by
  refine ⟨⟨[], rfl, ?_⟩, rfl, ?_, fun htrail => ⟨?_, ?_, ?_⟩⟩
  · simp [note, NodeStageRunner.setStage, Session.calls, sessionLog]
  · simp [note, NodeStageRunner.setStage]
  · exact htrail.lawful.snoc ⟨hquiet, hopen, hadmitted⟩
  · intro j stage hstage
    by_cases hj : j = id
    · simp [note, NodeStageRunner.setStage, hj]
    · apply started_append.mpr
      left
      apply htrail.started j stage
      simpa [note, NodeStageRunner.setStage, hj] using hstage
  · intro j stage hstage hexited
    apply List.mem_append_left
    by_cases hj : j = id
    · have hafter : launch.armed ((r.stages id).getD {}) = stage := by
        simpa [note, NodeStageRunner.setStage, hj] using hstage
      subst hj
      cases hentry : r.stages j with
      | none =>
        rw [← hafter, hentry] at hexited
        simp [Launch.armed] at hexited
      | some before =>
        rw [← hafter, hentry] at hexited ⊢
        exact htrail.reaped j before hentry hexited
    · apply htrail.reaped j stage
      · simpa [note, NodeStageRunner.setStage, hj] using hstage
      · exact hexited

/-- An OPEN that the session handed over, of a stage that was not there. -/
theorem onOpen_leads {resume : NodeStageRunner → StreamId → NodeStageRunner}
    (hresume : ∀ r id, Follows r (resume r id)) (launch : Launch) {request : OpenRequest}
    (hopen : .session (.onOpen id request) ∈ r.log) (hfresh : ¬ Started id r.log)
    (hquiet : ∀ status, .exitSent id status ∉ r.log) :
    Leads r (r.onOpen resume launch id request) := by
  have hrefuse : Leads r (r.sendExit id ⟨.Exited, 127⟩) :=
    (sendExit_follows _ fun _ => ⟨fun hstarted => absurd hstarted hfresh,
      fun _ => .inr rfl⟩).toLeads
  unfold onOpen
  split
  · exact hrefuse
  · rename_i hargv
    split
    · rename_i reason hreason
      have hsent : Follows r (r.sendData resume id (rejection reason) .Stderr) :=
        sendData_follows hresume (rejection reason) .Stderr
      apply hsent.toLeads.trans
      apply Follows.toLeads
      apply sendExit_follows
      exact fun _ => ⟨fun hstarted => absurd (hsent.started id hstarted) hfresh, fun _ => .inl rfl⟩
    · rename_i hadmitted
      split
      · exact hrefuse
      · split
        · exact hrefuse
        · have hstart := leads_started launch hquiet hopen ⟨hargv, hadmitted⟩
          unfold arm
          dsimp only
          split
          · exact hstart
          · split
            · exact hstart.trans (onStageExit_follows _).toLeads
            · exact hstart

/-! ## A frame -/

theorem resume_follows (depth : Nat) (answers : Answers) :
    ∀ r id, Follows r (resume depth answers r id) := resumeReads_follows answers.reads (depth + 1)

theorem called_follows (depth : Nat) (answers : Answers) {e : psx.transport.Event}
    (he : ∀ id request, e ≠ .onOpen id request) : Follows r (called depth answers r e) := by
  cases e with
  | onOpen id request => exact absurd rfl (he id request)
  | onData id bytes endStream channel => exact onData_follows answers.writes bytes endStream
  | onStreamWritable id => exact resume_follows depth answers r id
  | _ => exact .refl r

theorem foldl_called_follows (depth : Nat) (answers : Answers) {events : List psx.transport.Event}
    (he : ∀ e ∈ events, ∀ id request, e ≠ .onOpen id request) :
    Follows r (events.foldl (called depth answers) r) := by
  induction events generalizing r with
  | nil => exact .refl r
  | cons e events ih =>
    rw [List.foldl_cons]
    apply (called_follows depth answers (he e List.mem_cons_self)).trans
    exact ih fun e' he' => he e' (List.mem_cons_of_mem _ he')

/-- The callbacks of an accepted frame, once the session has taken it. -/
theorem callbacks_lead (depth : Nat) (answers : Answers) {frame : Frame}
    {taken : Session × List psx.transport.Event} (hok : r.session.dispatch frame = .ok taken)
    (hfresh : frame.type = .Open → ¬ Started frame.streamId r.log ∧
      ∀ status, .exitSent frame.streamId status ∉ r.log) :
    Leads (r.took frame taken) (taken.2.foldl (called depth answers) (r.took frame taken)) := by
  by_cases htype : frame.type = .Open
  · rw [Session.dispatch, htype] at hok
    obtain ⟨-, -, -, -, -, request, -, rfl⟩ := dispatchOpen_ok hok
    apply onOpen_leads (resume_follows depth answers)
    · simp [took, note]
    · simpa [took, note] using (hfresh htype).1
    · simpa [took, note] using (hfresh htype).2
  · apply Follows.toLeads
    apply foldl_called_follows
    rintro e he id request rfl
    exact htype (dispatch_events hok he).1

theorem Trail.took (h : Trail r) {frame : Frame} {taken : Session × List psx.transport.Event}
    (hok : r.session.dispatch frame = .ok taken) : Trail (r.took frame taken) where
  lawful := by
    apply h.lawful.extend
    intro pre e post heq
    have he : e ∈ (psx.transport.Event.got frame :: taken.2).map Event.session := by
      rw [List.map_cons, heq]
      simp
    obtain ⟨e', he', rfl⟩ := List.mem_map.mp he
    cases e' with
    | exitAsked id status =>
      rcases List.mem_cons.mp he' with hgot | he'
      · cases hgot
      · exact (dispatch_events hok he').elim
    | _ => trivial
  started := fun id stage hstage => started_append.mpr (.inl (h.started id stage hstage))
  reaped := fun id stage hstage hexited => List.mem_append_left _ (h.reaped id stage hstage hexited)

/-! ## The ledger and the log -/

@[simp] theorem ledger_snoc (id : StreamId) (log : List Event) (e : Event) :
    ledger id (log ++ [e]) = if e.stage = id then (ledger id log).note e else ledger id log := by
  unfold ledger
  rw [List.filter_append, List.foldl_append]
  by_cases he : e.stage = id <;> simp [he]

theorem ledger_started {log : List Event} :
    (ledger id log).started = true ↔ Started id log := by
  induction log using List.reverseRecOn with
  | nil => simp
  | append_singleton log e ih =>
    rw [ledger_snoc, started_append, ← ih, apply_ite Ledger.started]
    cases e with
    | session e => cases e <;> simp
    | started j request =>
      by_cases hj : j = id
      · simp [Event.stage, hj]
      · simp [Event.stage, hj]
    | _ => simp

instance (id : StreamId) (log : List Event) : Decidable (Started id log) :=
  decidable_of_iff _ ledger_started

theorem mem_exits {log : List Event} {status : ExitStatus} :
    status ∈ (ledger id log).exits ↔ .exitSent id status ∈ log := by
  induction log using List.reverseRecOn with
  | nil => simp
  | append_singleton log e ih =>
    rw [ledger_snoc, List.mem_append, List.mem_singleton, ← ih, apply_ite Ledger.exits]
    cases e with
    | session e => cases e <;> simp
    | exitSent j sent =>
      by_cases hj : j = id
      · simp [Event.stage, hj]
      · simp [Event.stage, hj, Ne.symm hj]
    | _ => simp

theorem mem_ended {log : List Event} {channel : Channel} :
    channel ∈ (ledger id log).ended ↔ .ended id channel ∈ log := by
  induction log using List.reverseRecOn with
  | nil => simp
  | append_singleton log e ih =>
    rw [ledger_snoc, List.mem_append, List.mem_singleton, ← ih, apply_ite Ledger.ended]
    cases e with
    | session e => cases e <;> simp
    | ended j channel =>
      by_cases hj : j = id
      · simp [Event.stage, hj, or_comm]
      · simp [Event.stage, hj, Ne.symm hj]
    | _ => simp

section

variable {watched prompt : Prop} {W : UInt32}

/-- Nothing happened yet with a stream that is being opened. -/
theorem Inv.fresh_open (h : Inv watched prompt W r) {frame : Frame} (htype : frame.type = .Open)
    {taken : Session × List psx.transport.Event} (hok : r.session.dispatch frame = .ok taken) :
    ¬ Started frame.streamId r.log ∧ ∀ status, .exitSent frame.streamId status ∉ r.log := by
  obtain ⟨hinv, hrole, -⟩ := h.session
  rw [Session.dispatch, htype] at hok
  obtain ⟨hne, -, -, -, hnext, -⟩ := dispatchOpen_ok hok
  have hopens := hinv.opens
  rw [hrole, show r.session.nextOpen = frame.streamId by simp [Session.nextOpen, hrole, hnext]]
    at hopens
  have hledger := h.fresh frame.streamId (hopens.next_notMem hne).2.2
  refine ⟨?_, fun status => ?_⟩
  · simp [← ledger_started, hledger]
  · simp [← mem_exits, hledger]

/-- A frame that the session takes, with everything the node does for it. -/
theorem dispatch_leads (depth : Nat) (answers : Answers) (h : Inv watched prompt W r)
    (hs : r.session.protocolFailed = false) {frame : Frame}
    {taken : Session × List psx.transport.Event} (hok : r.session.dispatch frame = .ok taken) :
    Leads (r.took frame taken) (r.dispatch depth answers frame) := by
  rw [dispatch_ok depth answers hs hok]
  exact callbacks_lead depth answers hok fun htype => h.fresh_open htype hok

theorem dispatch_trail (depth : Nat) (answers : Answers) (h : Inv watched prompt W r)
    (htrail : Trail r) (frame : Frame) : Trail (r.dispatch depth answers frame) := by
  cases hs : r.session.protocolFailed with
  | true =>
    unfold NodeStageRunner.dispatch
    rw [if_pos hs]
    exact htrail
  | false =>
    cases hok : r.session.dispatch frame with
    | error e =>
      unfold NodeStageRunner.dispatch
      rw [if_neg (by simp [hs]), hok]
      exact ⟨htrail.lawful, htrail.started, htrail.reaped⟩
    | ok taken => exact (dispatch_leads depth answers h hs hok).trail (htrail.took hok)

/-- What happens without a frame. -/
theorem step_follows (depth : Nat) {input : Input}
    (hlocal : ∀ frame answers, input ≠ .frame frame answers)
    (halive : input ≠ .malformed) : Follows r (r.step depth input) := by
  cases input with
  | frame frame answers => exact absurd rfl (hlocal frame answers)
  | readable id channel answers =>
    exact onReadable_follows (resume_follows depth answers) answers.reads channel
  | stdinWritable id writes => exact onStdinWritable_follows writes
  | stageExit id waits => exact onStageExit_follows waits
  | ping =>
    exact follows_call (c := .ping) [] rfl (by simp) (by simp)
      fun _ pre e post heq => by simp at heq
  | malformed => exact absurd rfl halive

theorem step_trail (depth : Nat) (h : Inv watched prompt W r) (htrail : Trail r) (input : Input) :
    Trail (r.step depth input) := by
  cases input with
  | frame frame answers => exact dispatch_trail depth answers h htrail frame
  | malformed => exact ⟨htrail.lawful, htrail.started, htrail.reaped⟩
  | readable | stdinWritable | stageExit | ping =>
    apply (step_follows depth ?_ ?_).trail htrail
    · intro frame answers heq
      cases heq
    · intro heq
      cases heq

end

/-! ## Runs -/

/-- What every node keeps. -/
structure Sound (W : UInt32) (r : NodeStageRunner) : Prop where
  inv : Inv False False W r
  undone : Undone r
  trail : Trail r

theorem sound_new (W : UInt32) (validator : Option (OpenRequest → Option Bytes)) :
    Sound W (new W validator) where
  inv := ⟨.start, fun id => .unstarted rfl, fun id _ => rfl, .nil⟩
  undone := by
    intro id stage hstage
    cases hstage
  trail := by
    refine ⟨.nil, ?_, ?_⟩
    · intro id stage hstage
      cases hstage
    · intro id stage hstage
      cases hstage

theorem Sound.step {W : UInt32} (h : Sound W r) (depth : Nat) (input : Input) :
    Sound W (r.step depth input) := by
  have hstep : Inv False False W (r.step depth input) ∧ Undone (r.step depth input) :=
    step_inv depth (fun hfalse => hfalse.elim) (fun hfalse => hfalse.elim) h.inv h.undone
  exact ⟨hstep.1, hstep.2, step_trail depth h.inv h.trail input⟩

theorem sound_history (depth : Nat) (W : UInt32) (validator : Option (OpenRequest → Option Bytes))
    (inputs : List Input) : Sound W (history depth W validator inputs) := by
  apply Trace.foldl_induction (P := fun r => Sound W r) (sound_new W validator)
  intro before input after _ h
  exact h.step depth input

end NodeStageRunner

end psx.transport
