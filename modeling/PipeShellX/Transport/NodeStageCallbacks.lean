-- The callbacks of a stage: its output is read while its stream is writable, its input is
-- written as far as its pipe takes it, and it goes once it is over. Each keeps `Inv`.
import PipeShellX.Transport.NodeStageRunnerLaws

namespace psx.transport.NodeStageRunner

open psx.os (ExitStatus Interest Waits)

section

variable {watched prompt : Prop} {W : UInt32} {r : NodeStageRunner} {id : StreamId}

theorem update_same {stage : Option Stage} (h : r.stages id = stage) :
    Function.update r.stages id stage = r.stages := by
  rw [← h, Function.update_eq_self]

/-! ## The stages that are over go -/

/-- Between two callbacks no stage is done. -/
def Undone (r : NodeStageRunner) : Prop := ∀ id stage, r.stages id = some stage → stage.done = false

theorem undone_update {r' : NodeStageRunner} {stage : Option Stage}
    (hstages : r'.stages = Function.update r.stages id stage)
    (hstage : ∀ s, stage = some s → s.done = false)
    (hothers : ∀ j s, j ≠ id → r.stages j = some s → s.done = false) : Undone r' := by
  intro j s hj
  rw [hstages] at hj
  by_cases hid : j = id
  · subst hid
    exact hstage s (by simpa using hj)
  · exact hothers j s hid (by simpa [hid] using hj)

theorem finishIfDone_inv (h : Inv watched prompt W r)
    (hothers : ∀ j stage, j ≠ id → r.stages j = some stage → stage.done = false) :
    Inv watched prompt W (r.finishIfDone id) ∧ Undone (r.finishIfDone id) := by
  unfold finishIfDone
  cases hstage : r.stages id with
  | none =>
    refine ⟨h, fun j stage hj => hothers j stage ?_ hj⟩
    rintro rfl
    rw [hstage] at hj
    cases hj
  | some stage =>
    dsimp only
    by_cases hdone : stage.done = true
    · rw [if_pos hdone]
      obtain ⟨stream, hstream, hrun⟩ := h.running hstage
      obtain ⟨hinv, -, -⟩ := h.session
      obtain ⟨hbytes, hsilent, hevents⟩ :=
        Session.sendExit_stays (s := r.session) stage.status hstream
      have hdone' : stage.exited = true ∧ stage.stdoutOpen = false ∧ stage.stderrOpen = false := by
        simpa [Stage.done, and_assoc] using hdone
      have hlog : ((r.sendExit id stage.status).setStage id none).log = r.log ++
          ([.exitSent id stage.status] ++
            (r.session.call (.sendExit id stage.status)).2.map .session) := rfl
      have hstages : ((r.sendExit id stage.status).setStage id none).stages =
        Function.update r.stages id none := rfl
      refine ⟨?_, undone_update hstages (by simp) hothers⟩
      refine h.calls (.sendExit id stage.status) (h.opened_of_stream hstream)
        (sendExit_local (hinv.streams id) (hinv.lawful id) stage.status) rfl hstages hlog
        (by simp [Event.stage]) rfl (.finished ?_) ?_
      · obtain ⟨asked, hasked, hnone⟩ := asked_foldl hevents
          ([Event.exitSent id stage.status].foldl Ledger.note (ledger id r.log))
        rw [show r.session.call (.sendExit id stage.status) =
          r.session.sendExit id stage.status from rfl, hasked]
        exact {
          started := hrun.started
          exits := ⟨stage.status, by simp [hrun.exits]⟩
          handed := hrun.handed
          part := hrun.part
          queued := hrun.queued
          asked := fun htook => by
            -- a session that took the EXIT had taken the bytes before it
            apply hrun.queued
            by_contra hfailed
            apply htook
            simp [hrun.asked, hnone (hsilent (by simpa using hfailed))]
          sendBytes := fun after hafter => by
            rw [hbytes after hafter]
            exact hrun.sendBytes }
      · intro pre e post heq
        obtain ⟨rfl, rfl, -⟩ : pre = [] ∧ e = .exitSent id stage.status ∧ post = [] := by
          cases pre <;> simp_all
        intro _
        rw [List.append_nil]
        refine ⟨hrun.reaped.trans hdone'.1, fun channel => (hrun.ended channel).mpr ?_, hrun.exits⟩
        cases channel
        · exact hdone'.2.1
        · exact hdone'.2.2
    · rw [if_neg hdone]
      refine ⟨h, fun j s hj => ?_⟩
      by_cases hid : j = id
      · subst hid
        rw [hstage] at hj
        obtain rfl := Option.some.inj hj
        simpa using hdone
      · exact hothers j s hid hj

/-! ## Reads -/

@[simp] theorem isOpen_setReadInterest (stage : Stage) (enabled : Bool) (channel : Channel) :
    (stage.setReadInterest enabled).isOpen channel = stage.isOpen channel := by
  cases channel <;> rfl

theorem watch_setReadInterest {stage : Stage} (enabled : Bool) {channel : Channel}
    (hopen : stage.isOpen channel = true) :
    (stage.setReadInterest enabled).watch channel =
      (stage.watch channel).map fun _ => if enabled then Interest.Readable else .None := by
  cases channel
  all_goals
    simp only [Stage.isOpen] at hopen
    simp only [Stage.setReadInterest, Stage.watch, hopen, if_true]

theorem isOpen_closeReader (stage : Stage) (channel other : Channel) :
    (stage.closeReader channel).isOpen other =
      if other = channel then false else stage.isOpen other := by
  cases channel <;> cases other <;> rfl

theorem watch_closeReader {stage : Stage} {channel other : Channel} (h : other ≠ channel) :
    (stage.closeReader channel).watch other = stage.watch other := by
  cases channel <;> cases other <;> first | rfl | exact absurd rfl h

section

variable {failed : Bool} {stream : Stream} {stage : Stage} {l : Ledger} {W : Nat}

theorem Fed.congr {stage' : Stage} {l' : Ledger} (h : Fed prompt W failed stream stage l)
    (hbuffer : stage'.stdinBuffer = stage.stdinBuffer) (hopen : stage'.stdinOpen = stage.stdinOpen)
    (hl : l'.received = l.received ∧ l'.wrote = l.wrote ∧ l'.dropped = l.dropped ∧
      l'.credited = l.credited) : Fed prompt W failed stream stage' l' := by
  obtain ⟨hreceived, hwrote, hdropped, hcredited⟩ := hl
  constructor
  · rw [hbuffer]
    exact h.outstanding
  · rw [hbuffer]
    exact h.buffer_le
  · rw [hreceived, hwrote, hdropped, hbuffer]
    exact h.received
  · rw [hopen, hdropped]
    exact h.dropped
  · rw [hcredited, hwrote, hdropped]
    exact h.credited
  · rw [hopen, hbuffer]
    exact h.dry

theorem Running.pause (h : Running watched prompt W failed stream stage l)
    (hfull : W ≤ stream.sendBytes) :
    Running watched prompt W failed stream { stage.setReadInterest false with paused := true } l :=
  { h with
    ended := fun channel => by
      rw [h.ended]
      cases channel <;> rfl
    input := h.input.congr rfl rfl ⟨rfl, rfl, rfl, rfl⟩
    paused := fun _ => hfull
    interest := fun _ hpaused => by cases hpaused
    tokens := fun hw channel hopen => by
      have hopen : stage.isOpen channel = true := by cases channel <;> exact hopen
      have hwatch := watch_setReadInterest false hopen
      have htoken := h.tokens hw channel hopen
      intro hnone
      have hnone : (stage.setReadInterest false).watch channel = none := by
        cases channel <;> exact hnone
      rw [hwatch, Option.map_eq_none_iff] at hnone
      exact htoken hnone }

theorem Running.resume (h : Running watched prompt W failed stream stage l) :
    Running watched prompt W failed stream ({ stage with
                                              paused := false }.setReadInterest true) l :=
  { h with
    ended := fun channel => by
      rw [h.ended]
      cases channel <;> rfl
    input := h.input.congr rfl rfl ⟨rfl, rfl, rfl, rfl⟩
    paused := fun hpaused => by cases hpaused
    interest := fun hw _ channel hopen => by
      have hopen : Stage.isOpen { stage with paused := false } channel = true := by
        simpa using hopen
      rw [watch_setReadInterest true hopen]
      have htoken := h.tokens hw channel (by cases channel <;> exact hopen)
      obtain ⟨interest, hinterest⟩ := Option.ne_none_iff_exists'.mp htoken
      have hinterest : Stage.watch { stage with paused := false } channel = some interest := by
        cases channel <;> exact hinterest
      simp [hinterest]
    tokens := fun hw channel hopen => by
      have hopen : Stage.isOpen { stage with paused := false } channel = true := by
        simpa using hopen
      rw [watch_setReadInterest true hopen, ne_eq, Option.map_eq_none_iff]
      have htoken := h.tokens hw channel (by cases channel <;> exact hopen)
      cases channel <;> exact htoken }

theorem Running.closeReader (h : Running watched prompt W failed stream stage l)
    (channel : Channel) :
    Running watched prompt W failed stream (stage.closeReader channel)
      { l with ended := channel :: l.ended } := by
  have hkeep : ∀ other, (stage.closeReader channel).isOpen other = true →
      other ≠ channel ∧ stage.isOpen other = true := by
    intro other hopen
    rw [isOpen_closeReader] at hopen
    split_ifs at hopen with heq
    exact ⟨heq, hopen⟩
  cases channel
  all_goals
    exact { h with
      ended := fun other => by
        rw [isOpen_closeReader, List.mem_cons, h.ended]
        split_ifs with heq <;> simp [heq]
      input := h.input.congr rfl rfl ⟨rfl, rfl, rfl, rfl⟩
      interest := fun hw hpaused other hopen => by
        obtain ⟨hne, hopen⟩ := hkeep other hopen
        rw [watch_closeReader hne]
        exact h.interest hw hpaused other hopen
      tokens := fun hw other hopen => by
        obtain ⟨hne, hopen⟩ := hkeep other hopen
        rw [watch_closeReader hne]
        exact h.tokens hw other hopen }

end

theorem Inv.pause (h : Inv watched prompt W r) (hundone : Undone r)
    (hfull : r.session.isWritable id = false) :
    Inv watched prompt W (r.pause id) ∧ Undone (r.pause id) := by
  unfold NodeStageRunner.pause
  cases hstage : r.stages id with
  | none => exact ⟨h, hundone⟩
  | some stage =>
    obtain ⟨stream, hstream, hrun⟩ := h.running hstage
    have hbytes : W.toNat ≤ stream.sendBytes := by
      rw [← h.session.2.2]
      simpa [Session.isWritable, hstream] using hfull
    refine ⟨h.setStage hstream (hrun.pause hbytes), undone_update rfl ?_ fun j s _ => hundone j s⟩
    rintro s hs
    obtain rfl := Option.some.inj hs
    exact hundone id stage hstage

theorem Inv.closeReader (h : Inv watched prompt W r) (hundone : Undone r) (channel : Channel) :
    Inv watched prompt W (r.closeReader id channel) ∧
      ∀ j stage, j ≠ id → (r.closeReader id channel).stages j = some stage →
        stage.done = false := by
  unfold NodeStageRunner.closeReader
  cases hstage : r.stages id with
  | none => exact ⟨h, fun j s _ => hundone j s⟩
  | some stage =>
    dsimp only
    split_ifs
    · obtain ⟨stream, hstream, hrun⟩ := h.running hstage
      refine ⟨h.noted _ hstream (by simp [Event.stage]) rfl (by simp) (hrun.closeReader channel),
        ?_⟩
      intro j s hj hs
      exact hundone j s (by simpa [NodeStageRunner.setStage, note, hj] using hs)
    · exact ⟨h, fun j s _ => hundone j s⟩

/-- A callback that does nothing without a stage whose reads were stopped. -/
def Idle (resume : NodeStageRunner → StreamId → NodeStageRunner) : Prop :=
  ∀ r id, (∀ stage, r.stages id = some stage → stage.paused = false) → resume r id = r

/-- One turn of the read loop: what was read goes to the session, and the reads go on. -/
theorem Inv.sendData (h : Inv watched prompt W r)
    {resume : NodeStageRunner → StreamId → NodeStageRunner} (hidle : Idle resume) {stage : Stage}
    (hstage : r.stages id = some stage) (hwritable : r.session.isWritable id = true)
    {bytes : Bytes} (hbytes : bytes.length ≤ kReadBytes) (channel : Channel) :
    Inv watched prompt W ((r.note [.read id channel bytes]).sendData resume id bytes channel) ∧
      ((r.note [.read id channel bytes]).sendData resume id bytes channel).stages = r.stages := by
  obtain ⟨stream, hstream, hrun⟩ := h.running hstage
  obtain ⟨hinv, hrole, hW⟩ := h.session
  have hroom : stream.sendBytes < W.toNat := by
    rw [← hW]
    simpa [Session.isWritable, hstream] using hwritable
  have hpaused : stage.paused = false := by
    by_contra hp
    have := hrun.paused (by simpa using hp)
    omega
  -- the callback finds a stage whose reads go on
  have hback : ∀ r' : NodeStageRunner, r'.stages = r.stages → resume r' id = r' := by
    intro r' hr'
    apply hidle r' id
    intro s hs
    rw [hr', hstage] at hs
    exact Option.some.inj hs ▸ hpaused
  have hcall : (r.note [.read id channel bytes]).sendData resume id bytes channel =
      ({ r with session := (r.session.sendData id bytes false channel).1 } : NodeStageRunner).note
        ([.read id channel bytes, .handed id channel bytes] ++
          (r.session.call (.sendData id bytes false channel)).2.map .session) := by
    unfold NodeStageRunner.sendData
    dsimp only
    rw [hback, ite_self]
    · simp [note, Session.call]
    · rfl
  have hsame := update_same hstage
  rw [hcall]
  refine ⟨h.calls (.sendData id bytes false channel) (h.opened_of_stream hstream)
    (sendData_local (hinv.streams id) (hinv.lawful id) bytes false channel) rfl
    hsame.symm rfl (by simp [Event.stage]) rfl ?_
    (exits_of_none (by simp)), rfl⟩
  simp only [Session.call]
  cases hs : r.session.protocolFailed with
  | true =>
    rw [Session.sendData_failed id bytes channel hs]
    rw [hs] at hrun
    simp only [List.map_nil, List.foldl_cons, List.foldl_nil, Ledger.note]
    rw [hstream]
    exact .running { hrun with
      handed := by rw [hrun.handed]
      part := hrun.part.trans (List.prefix_append _ _)
      queued := fun hfailed => by cases hfailed
      input := hrun.input.congr rfl rfl ⟨rfl, rfl, rfl, rfl⟩ }
  | false =>
    obtain ⟨after, events, hflushed, hevents, heq⟩ := Session.sendData_stays bytes channel hs hrole
      hstream hrun.localDataClosed hrun.exitPending
    have hquiet : ∀ e ∈ events, Quiet e := by
      intro e he
      rcases hevents e he with ⟨frame, rfl⟩ | rfl <;> exact fun _ => rfl
    rw [hs] at hrun
    rw [heq, List.map_cons, List.foldl_cons, quiet_foldl hquiet]
    simp only [List.foldl_cons, List.foldl_nil, Ledger.note, Session.setStream,
      Function.update_self]
    have hmore := hflushed.sendBytes
    exact .running { hrun with
      handed := by rw [hrun.handed]
      part := (hrun.queued rfl) ▸ List.prefix_rfl
      queued := fun hfailed => by rw [hrun.queued hfailed]
      localDataClosed := hflushed.localDataClosed.trans hrun.localDataClosed
      exitPending := hflushed.exitPending.trans hrun.exitPending
      sendBytes := by
        dsimp only at hmore
        omega
      input := by
        refine ⟨fun hfailed => ?_, hrun.input.buffer_le, hrun.input.received, hrun.input.dropped,
          hrun.input.credited, hrun.input.dry⟩
        rw [hflushed.recvWindow]
        exact hrun.input.outstanding hfailed
      paused := fun hp => by
        rw [hpaused] at hp
        cases hp }

theorem readLoop_inv {resume : NodeStageRunner → StreamId → NodeStageRunner} (hidle : Idle resume)
    (channel : Channel) (reads : List (Result Chunk)) (h : Inv watched prompt W r)
    (hundone : Undone r) {stage : Stage} (hstage : r.stages id = some stage) :
    Inv watched prompt W (r.readLoop resume id channel reads) ∧
      Undone (r.readLoop resume id channel reads) := by
  induction reads generalizing r with
  | nil =>
    unfold readLoop
    by_cases hfull : r.session.isWritable id = false
    · rw [if_pos (by simp [hfull])]
      exact h.pause hundone hfull
    · rw [if_neg (by simpa using hfull)]
      exact finishIfDone_inv h fun j s _ => hundone j s
  | cons got reads ih =>
    unfold readLoop
    by_cases hfull : r.session.isWritable id = false
    · rw [if_pos (by simp [hfull])]
      exact h.pause hundone hfull
    · rw [if_neg (by simpa using hfull)]
      have hclose : Inv watched prompt W (r.closeReader id channel) ∧ _ :=
        h.closeReader hundone channel
      cases got with
      | ok chunk =>
        dsimp only
        split_ifs with hnil
        · exact finishIfDone_inv hclose.1 hclose.2
        · obtain ⟨hsent, hstages⟩ := h.sendData hidle hstage (by simpa using hfull) chunk.2 channel
          refine ih hsent (fun j s hj => hundone j s ?_) ?_
          · rw [← hstages]
            exact hj
          · rw [hstages]
            exact hstage
      | error e =>
        dsimp only
        split_ifs with hblock
        · exact finishIfDone_inv h fun j s _ => hundone j s
        · exact finishIfDone_inv hclose.1 hclose.2

theorem onReadable_inv {resume : NodeStageRunner → StreamId → NodeStageRunner} (hidle : Idle resume)
    (reads : Channel → List (Result Chunk)) (h : Inv watched prompt W r) (hundone : Undone r)
    (channel : Channel) :
    Inv watched prompt W (r.onReadable resume reads id channel) ∧
      Undone (r.onReadable resume reads id channel) := by
  unfold onReadable
  cases hstage : r.stages id with
  | none => exact ⟨h, hundone⟩
  | some stage => exact readLoop_inv hidle channel _ h hundone hstage

/-- However deep it may nest, the callback leaves a stage alone whose reads go on. -/
theorem resumeReads_idle (reads : Channel → List (Result Chunk)) (depth : Nat) :
    Idle (resumeReads reads depth) := by
  intro r id hpaused
  cases depth with
  | zero => rfl
  | succ depth =>
    unfold resumeReads
    cases hstage : r.stages id with
    | none => rfl
    | some stage => simp [hpaused stage hstage]

theorem resumeReads_inv (reads : Channel → List (Result Chunk)) (depth : Nat)
    (h : Inv watched prompt W r) (hundone : Undone r) :
    Inv watched prompt W (resumeReads reads depth r id) ∧
      Undone (resumeReads reads depth r id) := by
  cases depth with
  | zero => exact ⟨h, hundone⟩
  | succ depth =>
    unfold resumeReads
    cases hstage : r.stages id with
    | none => exact ⟨h, hundone⟩
    | some stage =>
      dsimp only
      split_ifs with hpaused
      · obtain ⟨stream, hstream, hrun⟩ := h.running hstage
        have hidle := resumeReads_idle reads depth
        have hresumed : Inv watched prompt W ((r.setStage id
            ({ stage with paused := false }.setReadInterest true)).note [.resumed id]) :=
          h.noted _ hstream (by simp [Event.stage]) rfl (by simp) hrun.resume
        have hundone' : Undone ((r.setStage id
            ({ stage with paused := false }.setReadInterest true)).note [.resumed id]) := by
          refine undone_update rfl ?_ fun j s _ => hundone j s
          rintro s hs
          obtain rfl := Option.some.inj hs
          exact hundone id stage hstage
        obtain ⟨hout, hundone''⟩ := onReadable_inv hidle reads hresumed hundone' .Stdout
        exact onReadable_inv hidle reads hout hundone'' .Stderr
      · exact ⟨h, hundone⟩

/-! ## Writes -/

@[simp] theorem setStage_setStage (r : NodeStageRunner) (id : StreamId) (a b : Option Stage) :
    (r.setStage id a).setStage id b = r.setStage id b := by
  simp [NodeStageRunner.setStage]

theorem setStage_same (r : NodeStageRunner) (id : StreamId) (stage : Stage) :
    (r.setStage id (some stage)).stages id = some stage := by
  simp [NodeStageRunner.setStage]

/-- What a call of `consume` leaves of the stream. -/
theorem consume_stream {s : Session} {stream : Stream} (n : Nat)
    (hstream : s.streams id = some stream) :
    ∃ recvWindow, (s.consume id n).1.streams id = some { stream with recvWindow } ∧
      (s.protocolFailed = false →
        recvWindow.outstanding = stream.recvWindow.outstanding - stream.recvWindow.clamp n) ∧
      ∀ e ∈ (s.consume id n).2, Quiet e := by
  cases hs : s.protocolFailed with
  | true =>
    rw [Session.consume_failed id n hs]
    exact ⟨stream.recvWindow, hstream, fun h => (by cases h), by simp⟩
  | false =>
    obtain ⟨events, hevents, heq⟩ := Session.consume_stays n hs hstream
    rw [heq]
    refine ⟨(stream.recvWindow.onConsumed n).1, by simp [Session.setStream], fun _ => ?_, ?_⟩
    · exact (stream.recvWindow.onConsumed_window n).2.2
    · intro e he
      rcases List.mem_cons.mp he with rfl | he
      · exact fun _ => rfl
      · obtain ⟨frame, rfl⟩ := hevents e he
        exact fun _ => rfl

section

variable {failed : Bool} {stream : Stream} {stage : Stage} {l : Ledger} {W : Nat}

/-- Two stages that differ in their input at most. -/
structure SameOutput (a b : Stage) : Prop where
  stdoutOpen : b.stdoutOpen = a.stdoutOpen
  stderrOpen : b.stderrOpen = a.stderrOpen
  stdoutWatch : b.stdoutWatch = a.stdoutWatch
  stderrWatch : b.stderrWatch = a.stderrWatch
  exited : b.exited = a.exited
  paused : b.paused = a.paused

theorem SameOutput.isOpen {a b : Stage} (h : SameOutput a b) (channel : Channel) :
    b.isOpen channel = a.isOpen channel := by
  cases channel
  · exact h.stdoutOpen
  · exact h.stderrOpen

theorem SameOutput.watch {a b : Stage} (h : SameOutput a b) (channel : Channel) :
    b.watch channel = a.watch channel := by
  cases channel
  · exact h.stdoutWatch
  · exact h.stderrWatch

theorem SameOutput.done {a b : Stage} (h : SameOutput a b) : b.done = a.done := by
  unfold Stage.done
  rw [h.exited, h.stdoutOpen, h.stderrOpen]

theorem Running.feed (h : Running watched prompt W failed stream stage l) {stream' : Stream}
    {stage' : Stage} {l' : Ledger} (hstream : stream'.localDataClosed = stream.localDataClosed ∧
      stream'.exitPending = stream.exitPending ∧ stream'.sendBytes = stream.sendBytes)
    (hsame : SameOutput stage stage')
    (hl : l' = { l with
      received := l'.received, wrote := l'.wrote, dropped := l'.dropped, credited := l'.credited })
    (input : Fed prompt W failed stream' stage' l') :
    Running watched prompt W failed stream' stage' l' := by
  obtain ⟨hlocal, hexit, hbytes⟩ := hstream
  rw [hl] at input ⊢
  exact { h with
    reaped := h.reaped.trans hsame.exited.symm
    ended := fun channel => by rw [h.ended, hsame.isOpen]
    localDataClosed := hlocal.trans h.localDataClosed
    exitPending := hexit.trans h.exitPending
    sendBytes := by
      rw [hbytes]
      exact h.sendBytes
    input
    paused := fun hp => by
      rw [hbytes]
      exact h.paused (hsame.paused ▸ hp)
    interest := fun hw hp channel hopen => by
      rw [hsame.watch]
      exact h.interest hw (hsame.paused ▸ hp) channel (hsame.isOpen channel ▸ hopen)
    tokens := fun hw channel hopen => by
      rw [hsame.watch]
      exact h.tokens hw channel (hsame.isOpen channel ▸ hopen) }

theorem sameOutput_rearmStdin (stage : Stage) : SameOutput stage stage.rearmStdin := by
  unfold Stage.rearmStdin
  split_ifs <;> exact ⟨rfl, rfl, rfl, rfl, rfl, rfl⟩

theorem Fed.rearmStdin (h : Fed prompt W failed stream stage l) :
    Fed prompt W failed stream stage.rearmStdin l := by
  unfold Stage.rearmStdin
  split_ifs with hbuffer
  · exact ⟨h.outstanding, h.buffer_le, h.received, fun hopen => (by cases hopen), h.credited,
      fun _ _ => hbuffer⟩
  · exact h
  · exact h.congr rfl rfl ⟨rfl, rfl, rfl, rfl⟩
  · exact h.congr rfl rfl ⟨rfl, rfl, rfl, rfl⟩

/-- Bytes that went down the pipe, and the credit that came back for them. -/
theorem Fed.wrote (h : Fed prompt W failed stream stage l) {count : Nat}
    (hopen : stage.stdinOpen = true) (hcount : count ≤ stage.stdinBuffer.length)
    {recvWindow : psx.stream.CreditWindow} (hwindow : failed = false →
      recvWindow.outstanding = stream.recvWindow.outstanding - stream.recvWindow.clamp count) :
    Fed prompt W failed { stream with recvWindow }
      { stage with stdinBuffer := stage.stdinBuffer.drop count }
      { l with
        wrote := l.wrote ++ stage.stdinBuffer.take count
        credited := l.credited + count } where
  outstanding := fun hfailed => by
    have := h.outstanding hfailed
    simp only [hwindow hfailed, psx.stream.CreditWindow.clamp, List.length_drop]
    omega
  buffer_le := by
    have := h.buffer_le
    simp only [List.length_drop]
    omega
  received := by
    have := h.received
    rw [h.dropped hopen, List.append_nil] at this
    simp only [h.dropped hopen, List.append_nil, List.append_assoc, List.take_append_drop, this]
  dropped := h.dropped
  credited := by
    have := h.credited
    simp only [List.length_append, List.length_take]
    omega
  dry := fun _ hclosed => by
    rw [show stage.stdinOpen = false from hclosed] at hopen
    cases hopen

/-- Bytes that the stage will never read, and the credit that came back for them. -/
theorem Fed.drop (h : Fed prompt W failed stream stage l) (hopen : stage.stdinOpen = true)
    {recvWindow : psx.stream.CreditWindow} (hwindow : failed = false → recvWindow.outstanding =
      stream.recvWindow.outstanding - stream.recvWindow.clamp stage.stdinBuffer.length) :
    Fed prompt W failed { stream with recvWindow } ({ stage with stdinBuffer := [] }.closeStdin)
      { l with
        dropped := l.dropped ++ stage.stdinBuffer
        credited := l.credited + stage.stdinBuffer.length } where
  outstanding := fun hfailed => by
    have := h.outstanding hfailed
    simp only [hwindow hfailed, psx.stream.CreditWindow.clamp]
    simp only [Stage.closeStdin, List.length_nil]
    omega
  buffer_le := Nat.zero_le _
  received := by
    have := h.received
    rw [h.dropped hopen, List.append_nil] at this
    simpa [h.dropped hopen, Stage.closeStdin] using this
  dropped := fun hclosed => by cases hclosed
  credited := by
    have := h.credited
    simp only [List.length_append]
    omega
  dry := fun _ _ => rfl

/-- The count of a write fits its word: it is no more than the window. -/
theorem toNat_count {W : UInt32} (h : Fed prompt W.toNat failed stream stage l) {count : Nat}
    (hcount : count ≤ stage.stdinBuffer.length) : (UInt32.ofNat count).toNat = count := by
  have := h.buffer_le
  have := W.toNat_lt
  rw [UInt32.toNat_ofNat']
  exact Nat.mod_eq_of_lt (by omega)

end

theorem Undone.same {stage : Stage} (h : Undone (r.setStage id (some stage))) {r' : NodeStageRunner}
    {stage' : Stage} (hsame : SameOutput stage stage')
    (hstages : r'.stages = Function.update r.stages id (some stage')) : Undone r' := by
  have hdone := h id stage (by simp [NodeStageRunner.setStage])
  refine undone_update hstages ?_ fun j s hj hs => h j s (by simpa [NodeStageRunner.setStage, hj])
  rintro s hs
  obtain rfl := Option.some.inj hs
  exact hsame.done.trans hdone

theorem Inv.rearmStdin {stage : Stage} (h : Inv watched prompt W (r.setStage id (some stage)))
    (hundone : Undone (r.setStage id (some stage))) :
    Inv watched prompt W (r.setStage id (some stage.rearmStdin)) ∧
      Undone (r.setStage id (some stage.rearmStdin)) := by
  obtain ⟨stream, hstream, hrun⟩ := h.running (setStage_same r id stage)
  refine ⟨?_, hundone.same (sameOutput_rearmStdin stage) rfl⟩
  rw [← setStage_setStage r id (some stage)]
  exact h.setStage hstream (hrun.feed ⟨rfl, rfl,
    rfl⟩ (sameOutput_rearmStdin stage) rfl hrun.input.rearmStdin)

/-- Bytes leave the buffer: `e` says where they went, and their credit goes back. -/
theorem Inv.consume {stage stage' : Stage} (h : Inv watched prompt W (r.setStage id (some stage)))
    (hundone : Undone (r.setStage id (some stage))) (hsame : SameOutput stage stage') {count : Nat}
    (hle : count ≤ stage.stdinBuffer.length) {e : Event} (he : e.stage = id)
    (hown : sessionLog [e, .credited id (.ofNat count)] = [])
    (hexits : ∀ i status, e ≠ .exitSent i status)
    (hl : ∀ l : Ledger, l.note e = { l with
      wrote := (l.note e).wrote, dropped := (l.note e).dropped })
    (hfed : ∀ {failed : Bool} {stream : Stream} {l : Ledger} {recvWindow : psx.stream.CreditWindow},
      Fed prompt W.toNat failed stream stage l →
      (failed = false → recvWindow.outstanding =
        stream.recvWindow.outstanding - stream.recvWindow.clamp count) →
      Fed prompt W.toNat failed { stream with recvWindow } stage' { l with
        wrote := (l.note e).wrote
        dropped := (l.note e).dropped
        credited := l.credited + count }) :
    Inv watched prompt W (((r.note [e]).consume id (.ofNat count)).setStage id (some stage')) ∧
      Undone (((r.note [e]).consume id (.ofNat count)).setStage id (some stage')) := by
  obtain ⟨stream, hstream, hrun⟩ := h.running (setStage_same r id stage)
  obtain ⟨hinv, -, -⟩ := h.session
  obtain ⟨recvWindow, hafter, houtstanding, hquiet⟩ :=
    consume_stream (UInt32.ofNat count).toNat hstream
  have hnat := toNat_count hrun.input hle
  have hlog : (((r.note [e]).consume id (.ofNat count)).setStage id (some stage')).log =
      (r.setStage id (some stage)).log ++ ([e, .credited id (.ofNat count)] ++
        ((r.setStage id (some stage)).session.call (.consume id (.ofNat count))).2.map
          .session) := by
    simp [NodeStageRunner.consume, note, NodeStageRunner.setStage, Session.call]
  refine ⟨h.calls (.consume id (.ofNat count)) (h.opened_of_stream hstream)
    (consume_local (hinv.streams id) (hinv.lawful id) _) rfl (Function.update_idem ..).symm hlog
    (by simpa using ⟨he, rfl⟩) hown ?_ (exits_of_none (by simpa using hexits)),
      hundone.same hsame rfl⟩
  simp only [Session.call]
  rw [quiet_foldl hquiet, hafter]
  rw [hnat] at houtstanding
  have hnote : ∀ l : Ledger, [e, .credited id (.ofNat count)].foldl Ledger.note l = { l with
      wrote := (l.note e).wrote
      dropped := (l.note e).dropped
      credited := l.credited + count } := by
    intro l
    rw [List.foldl_cons, hl l]
    simp [hnat]
  rw [hnote]
  exact .running (hrun.feed ⟨rfl, rfl, rfl⟩ hsame rfl (hfed hrun.input houtstanding))

/-- The write loop. It starts from a stage that the map does not hold yet. -/
theorem drainStdin_inv (writes : List (Result Nat)) {stage : Stage}
    (h : Inv watched prompt W (r.setStage id (some stage)))
    (hundone : Undone (r.setStage id (some stage))) :
    Inv watched prompt W (r.drainStdin id writes stage) ∧
      Undone (r.drainStdin id writes stage) := by
  induction writes generalizing r stage with
  | nil => exact h.rearmStdin hundone
  | cons write writes ih =>
    unfold drainStdin
    split_ifs with hopen
    · cases write with
      | ok count =>
        dsimp only
        split_ifs with hcount
        · have hle : min count stage.stdinBuffer.length ≤ stage.stdinBuffer.length :=
            Nat.min_le_right _ _
          generalize min count stage.stdinBuffer.length = count at hle
          have hsame : SameOutput stage
            { stage with stdinBuffer := stage.stdinBuffer.drop count } :=
              ⟨rfl, rfl, rfl, rfl, rfl, rfl⟩
          obtain ⟨hwrote, hundone'⟩ :=
            h.consume (e := .wrote id (stage.stdinBuffer.take count)) hundone hsame hle rfl rfl
              (by simp) (fun _ => rfl) fun hfed hwindow => hfed.wrote hopen.1 hle hwindow
          exact ih hwrote hundone'
        · exact h.rearmStdin hundone
      | error e =>
        dsimp only
        split_ifs with hblock
        · exact h.rearmStdin hundone
        · have hsame : SameOutput stage ({ stage with stdinBuffer := [] }.closeStdin) :=
            ⟨rfl, rfl, rfl, rfl, rfl, rfl⟩
          exact h.consume (e := .dropped id stage.stdinBuffer) hundone hsame (Nat.le_refl _) rfl rfl
            (by simp) (fun _ => rfl) fun hfed hwindow => hfed.drop hopen.1 hwindow
    · exact h.rearmStdin hundone

theorem onStdinWritable_inv (writes : List (Result Nat)) (h : Inv watched prompt W r)
    (hundone : Undone r) :
    Inv watched prompt W (r.onStdinWritable writes id) ∧ Undone (r.onStdinWritable writes id) := by
  unfold onStdinWritable
  cases hstage : r.stages id with
  | none => exact ⟨h, hundone⟩
  | some stage =>
    have hsame : r.setStage id (some stage) = r := by
      rw [NodeStageRunner.setStage, update_same hstage]
    exact drainStdin_inv writes (hsame.symm ▸ h) (hsame.symm ▸ hundone)

/-! ## The start and the end -/

theorem onStageExit_inv (waits : Waits) (h : Inv watched prompt W r) (hundone : Undone r) :
    Inv watched prompt W (r.onStageExit id waits) ∧ Undone (r.onStageExit id waits) := by
  unfold onStageExit
  cases hstage : r.stages id with
  | none => exact ⟨h, hundone⟩
  | some stage =>
    obtain ⟨stream, hstream, hrun⟩ := h.running hstage
    refine finishIfDone_inv (h.noted _ hstream (by simp [Event.stage]) rfl (by simp) ?_) ?_
    · exact { hrun with
        reaped := rfl
        ended := fun
          | .Stdout => hrun.ended .Stdout
          | .Stderr => hrun.ended .Stderr
        input := hrun.input.congr rfl rfl ⟨rfl, rfl, rfl, rfl⟩
        interest := fun hw hp => fun
          | .Stdout => hrun.interest hw hp .Stdout
          | .Stderr => hrun.interest hw hp .Stderr
        tokens := fun hw => fun
          | .Stdout => hrun.tokens hw .Stdout
          | .Stderr => hrun.tokens hw .Stderr }
    · intro j s hj hs
      exact hundone j s (by simpa [note, NodeStageRunner.setStage, hj] using hs)

/-- The watches of a stage are there. -/
def Launch.Watched (launch : Launch) : Prop :=
  launch.watchOut = .ok () ∧ launch.watchErr = .ok ()

/-- A stage that was just started. -/
theorem running_new {launch : Launch} (hwatch : watched → launch.Watched) (W : Nat) (failed : Bool)
    {stream : Stream} (hstream : stream.localDataClosed = false ∧ stream.exitPending = false ∧
      stream.sendBytes = 0 ∧ stream.recvWindow.outstanding = 0) :
    Running watched prompt W failed stream (launch.armed {}) { started := true } := by
  obtain ⟨hlocal, hexit, hbytes, hwindow⟩ := hstream
  have hwatches : watched → ∀ channel, (launch.armed {}).watch channel = some .Readable := by
    intro hw channel
    obtain ⟨hout, herr⟩ := hwatch hw
    cases channel
    · simp [Launch.armed, Stage.watch, hout]
    · simp [Launch.armed, Stage.watch, herr]
  exact {
    started := rfl
    exits := rfl
    asked := rfl
    reaped := rfl
    ended := fun channel => by cases channel <;> simp [Stage.isOpen, Launch.armed]
    handed := rfl
    part := List.prefix_rfl
    queued := fun _ => rfl
    localDataClosed := hlocal
    exitPending := hexit
    sendBytes := by
      rw [hbytes, kReadBytes]
      omega
    input :=
      ⟨fun _ => hwindow, Nat.zero_le _, rfl, fun _ => rfl, rfl, fun _ hclosed => by cases hclosed⟩
    paused := fun hp => by cases hp
    interest := fun hw _ channel _ => hwatches hw channel
    tokens := fun hw channel _ => by simp [hwatches hw channel] }

theorem started_foldl (events : List psx.transport.Event) (l : Ledger) :
    ((events.map .session).foldl Ledger.note l).started = l.started := by
  induction events generalizing l with
  | nil => rfl
  | cons e events ih =>
    rw [List.map_cons, List.foldl_cons, ih]
    cases e <;> rfl

/-- A request that starts nothing gets its EXIT at once. -/
theorem Inv.refuse (h : Inv watched prompt W r) (hid : id ∈ r.opened) (hstage : r.stages id = none)
    (hstarted : (ledger id r.log).started = false) (status : ExitStatus) :
    Inv watched prompt W (r.sendExit id status) := by
  obtain ⟨hinv, -, -⟩ := h.session
  have hstages : (r.sendExit id status).stages = Function.update r.stages id none :=
    (update_same hstage).symm
  have hlog : (r.sendExit id status).log = r.log ++ ([.exitSent id status] ++
    (r.session.call (.sendExit id status)).2.map .session) := rfl
  refine h.calls (.sendExit id status)
    hid (sendExit_local (hinv.streams id) (hinv.lawful id) status)
    rfl hstages hlog (by simp [Event.stage]) rfl (.unstarted ?_) ?_
  · rw [started_foldl]
    exact hstarted
  · intro pre e post heq
    obtain ⟨rfl, rfl, -⟩ : pre = [] ∧ e = .exitSent id status ∧ post = [] := by
      cases pre <;> simp_all
    intro hcase
    rw [List.append_nil, hstarted] at hcase
    cases hcase

/-- The diagnostic of a refusal. -/
theorem Inv.diagnose (h : Inv watched prompt W r)
    {resume : NodeStageRunner → StreamId → NodeStageRunner} (hidle : Idle resume)
    (hid : id ∈ r.opened) (hstage : r.stages id = none)
    (hstarted : (ledger id r.log).started = false) (bytes : Bytes) (channel : Channel) :
    Inv watched prompt W (r.sendData resume id bytes channel) ∧
      (r.sendData resume id bytes channel).stages = r.stages ∧
      id ∈ (r.sendData resume id bytes channel).opened ∧
      (ledger id (r.sendData resume id bytes channel).log).started = false := by
  obtain ⟨hinv, -, -⟩ := h.session
  have hback : ∀ r' : NodeStageRunner, r'.stages = r.stages → resume r' id = r' := by
    intro r' hr'
    apply hidle r' id
    intro s hs
    rw [hr', hstage] at hs
    cases hs
  have hcall : r.sendData resume id bytes channel =
      ({ r with session := (r.session.sendData id bytes false channel).1 } : NodeStageRunner).note
        ([.handed id channel bytes] ++
          (r.session.call (.sendData id bytes false channel)).2.map .session) := by
    unfold NodeStageRunner.sendData
    dsimp only
    rw [hback, ite_self]
    · rfl
    · rfl
  have hsame := update_same hstage
  have hlocal := sendData_local (hinv.streams id) (hinv.lawful id) bytes false channel
  have hstarted' : (((r.session.call (.sendData id bytes false channel)).2.map .session).foldl
      Ledger.note ([Event.handed id channel bytes].foldl Ledger.note (ledger id r.log))).started =
        false := by
    rw [started_foldl]
    exact hstarted
  rw [hcall]
  refine ⟨h.calls (.sendData id bytes false channel) hid hlocal rfl hsame.symm rfl
    (by simp [Event.stage]) rfl (.unstarted hstarted') (exits_of_none (by simp)), rfl,
    opened_grows rfl hid, ?_⟩
  rw [note, ledger_here, List.foldl_append]
  · exact hstarted'
  · intro e he
    rcases List.mem_append.mp he with he | he
    · rw [List.mem_singleton.mp he]
      rfl
    · obtain ⟨e', he', rfl⟩ := List.mem_map.mp he
      exact (hlocal.events e' he').1

/-- A stage that starts, and may be gone before its exit is watched. -/
theorem arm_inv {launch : Launch} (hwatch : watched → launch.Watched) (h : Inv watched prompt W r)
    (hundone : Undone r) (hledger : ledger id r.log = {}) {stream : Stream}
    (hstream : r.session.streams id = some stream)
    (hnew : stream.localDataClosed = false ∧ stream.exitPending = false ∧ stream.sendBytes = 0 ∧
      stream.recvWindow.outstanding = 0) (request : OpenRequest) :
    Inv watched prompt W ((r.note [.started id request]).arm launch id {}) ∧
      Undone ((r.note [.started id request]).arm launch id {}) := by
  have hstarted : Inv watched prompt W
      ((r.note [.started id request]).setStage id (some (launch.armed {}))) := by
    refine h.noted [.started id request] hstream (by simp [Event.stage]) rfl (by simp) ?_
    rw [hledger]
    exact running_new hwatch _ _ hnew
  have hundone' :
      Undone ((r.note [.started id request]).setStage id (some (launch.armed {}))) := by
    refine undone_update rfl ?_ fun j s _ => hundone j s
    rintro s hs
    obtain rfl := Option.some.inj hs
    rfl
  unfold arm
  dsimp only
  cases launch.watchChild with
  | ok => exact ⟨hstarted, hundone'⟩
  | error e =>
    dsimp only
    split_ifs
    · exact onStageExit_inv launch.waits hstarted hundone'
    · exact ⟨hstarted, hundone'⟩

theorem onOpen_inv {resume : NodeStageRunner → StreamId → NodeStageRunner} (hidle : Idle resume)
    {launch : Launch} (hwatch : watched → launch.Watched) (h : Inv watched prompt W r)
    (hundone : Undone r) (hstage : r.stages id = none) (hledger : ledger id r.log = {})
    {stream : Stream} (hstream : r.session.streams id = some stream)
    (hnew : stream.localDataClosed = false ∧ stream.exitPending = false ∧ stream.sendBytes = 0 ∧
      stream.recvWindow.outstanding = 0) (request : OpenRequest) :
    Inv watched prompt W (r.onOpen resume launch id request) ∧
      Undone (r.onOpen resume launch id request) := by
  have hid := h.opened_of_stream hstream
  have hstarted : (ledger id r.log).started = false := by rw [hledger]
  have hrefuse : ∀ status, Inv watched prompt W (r.sendExit id status) ∧
      Undone (r.sendExit id status) :=
    fun status => ⟨h.refuse hid hstage hstarted status, hundone⟩
  unfold onOpen
  by_cases hargv : request.argv = []
  · rw [if_pos hargv]
    exact hrefuse _
  · rw [if_neg hargv]
    cases r.validator.bind fun validator => validator request with
    | some reason =>
      obtain ⟨hsent, hstages, hid', hstarted'⟩ :=
        h.diagnose hidle hid hstage hstarted (rejection reason) .Stderr
      refine ⟨hsent.refuse hid' (by rw [hstages, hstage]) hstarted' _, fun j s hj => ?_⟩
      exact hundone j s (hstages ▸ hj)
    | none =>
      dsimp only
      split_ifs
      · exact hrefuse _
      · exact hrefuse _
      · rw [hstage]
        exact arm_inv hwatch h hundone hledger hstream hnew request

end

end psx.transport.NodeStageRunner
