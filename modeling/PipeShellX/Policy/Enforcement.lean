-- A node with a policy (node_command.cpp gives it to the runner as its validator), over whole runs:
-- no stage is started for a command that the policy does not let pass, whatever the controller
-- sends, and each such command is answered with its reason and 126.
import PipeShellX.Policy.Policy
import PipeShellX.Transport.NodeStageCalls

namespace psx.policy

open psx.transport
open psx.transport.NodeStageRunner

/-- The hook that `nodeSubcommand` makes of a policy. -/
def Policy.validateCommand (policy : Policy) (request : OpenRequest) : Option Bytes :=
  policy.validate request.argv

variable {r : NodeStageRunner} {W : UInt32} {id : StreamId}

/-- Each stream is opened once. -/
theorem opened_once (h : r.Sound W) {request request' : OpenRequest}
    (hin : .session (.onOpen id request) ∈ r.log) (hin' : .session (.onOpen id request') ∈ r.log) :
    request' = request := by
  rw [← mem_sessionLog] at hin hin'
  obtain ⟨hinv, hrole, -⟩ := h.inv.session
  have hopens := hinv.on_opens
  rw [if_pos hrole] at hopens
  have hids := hinv.opens.1
  rw [← hopens] at hids
  have hnodup : (onOpens (sessionLog r.log)).Nodup := by
    apply List.Nodup.of_map UInt32.toNat
    rw [hids]
    exact List.nodup_range'
  have hids' : ∀ {events : List psx.transport.Event} {other : OpenRequest},
      .onOpen id other ∈ events → id ∈ onOpens events :=
    fun hother => List.mem_filterMap.mpr ⟨_, hother, rfl⟩
  obtain ⟨before, after, hlog⟩ := List.append_of_mem hin
  rw [hlog] at hnodup hin'
  have hcut : onOpens (before ++ .onOpen id request :: after) =
      onOpens before ++ id :: onOpens after := by simp [onOpens]
  rw [hcut, List.nodup_append, List.nodup_cons] at hnodup
  rcases List.mem_append.mp hin' with hbefore | hrest
  · exact absurd rfl (hnodup.2.2 id (hids' hbefore) id List.mem_cons_self)
  · rcases List.mem_cons.mp hrest with heq | hafter
    · simp only [Event.onOpen.injEq] at heq
      exact heq.2
    · exact absurd (hids' hafter) hnodup.2.1.1

/-! ## Refusals -/

/-- The answer to an OPEN that is refused for this reason. -/
def Answered (id : StreamId) (reason : Bytes) (log : List NodeStageRunner.Event) : Prop :=
  .handed id .Stderr (rejection reason) ∈ log ∧ .exitSent id ⟨.Exited, 126⟩ ∈ log

theorem onOpen_answers {resume : NodeStageRunner → StreamId → NodeStageRunner}
    (hresume : ∀ r id, Follows r (resume r id)) (launch : Launch) {request : OpenRequest}
    {reason : Bytes} (hargv : request.argv ≠ [])
    (hreason : (r.validator.bind fun validate => validate request) = some reason) :
    Answered id reason (r.onOpen resume launch id request).log := by
  unfold onOpen
  rw [if_neg hargv, hreason]
  constructor
  · apply List.mem_append_left
    unfold NodeStageRunner.sendData
    dsimp only
    split
    · apply (hresume _ id).grows
      simp [note]
    · simp [note]
  · simp [NodeStageRunner.sendExit, note]

/-- Every OPEN that the node's validator refused was answered. -/
def Refuses (r : NodeStageRunner) : Prop :=
  ∀ id request reason, .session (.onOpen id request) ∈ r.log → request.argv ≠ [] →
    (r.validator.bind fun validate => validate request) = some reason → Answered id reason r.log

theorem refuses_leads {r' : NodeStageRunner} (h : Refuses r) (hleads : Leads r r') :
    Refuses r' := by
  intro id request reason hin hargv hreason
  rw [hleads.validator] at hreason
  obtain ⟨hhanded, hexit⟩ := h id request reason (hleads.calls.opens hin) hargv hreason
  exact ⟨hleads.grows hhanded, hleads.grows hexit⟩

theorem refuses_dispatch (depth : Nat) (answers : NodeStageRunner.Answers) (hsound : r.Sound W)
    (h : Refuses r) (frame : Frame) : Refuses (r.dispatch depth answers frame) := by
  cases hs : r.session.protocolFailed with
  | true =>
    unfold NodeStageRunner.dispatch
    rw [if_pos hs]
    exact h
  | false =>
    cases hok : r.session.dispatch frame with
    | error e =>
      unfold NodeStageRunner.dispatch
      rw [if_neg (by simp [hs]), hok]
      exact h
    | ok taken =>
      have hleads := dispatch_leads depth answers hsound.inv hs hok
      intro id request reason hin hargv hreason
      rw [hleads.validator] at hreason
      have htook := hleads.calls.opens hin
      simp only [took, note, List.mem_append, ← List.map_cons, List.mem_map] at htook
      rcases htook with hold | ⟨e, he, heq⟩
      · obtain ⟨hhanded, hexit⟩ := h id request reason hold hargv hreason
        exact ⟨hleads.grows (List.mem_append_left _ hhanded),
          hleads.grows (List.mem_append_left _ hexit)⟩
      · cases heq
        have hopen : .onOpen id request ∈ taken.2 := (List.mem_cons.mp he).resolve_left (by simp)
        have htype := (dispatch_events hok hopen).1
        rw [dispatch_ok depth answers hs hok]
        rw [Session.dispatch, htype] at hok
        obtain ⟨-, -, -, -, -, asked, -, rfl⟩ := dispatchOpen_ok hok
        simp only [List.mem_singleton, Event.onOpen.injEq] at hopen
        obtain ⟨rfl, rfl⟩ := hopen
        exact onOpen_answers (resume_follows depth answers) answers.launch hargv hreason

theorem refuses_step (depth : Nat) (hsound : r.Sound W) (h : Refuses r) (input : Input) :
    Refuses (r.step depth input) := by
  cases input with
  | frame frame answers => exact refuses_dispatch depth answers hsound h frame
  | malformed => exact h
  | readable | stdinWritable | stageExit | ping =>
    apply refuses_leads h (step_follows depth ?_ ?_).toLeads
    · intro frame answers heq
      cases heq
    · intro heq
      cases heq

theorem validator_step (depth : Nat) (hsound : r.Sound W) (input : Input) :
    (r.step depth input).validator = r.validator := by
  cases input with
  | frame frame answers =>
    change (r.dispatch depth answers frame).validator = r.validator
    cases hs : r.session.protocolFailed with
    | true =>
      unfold NodeStageRunner.dispatch
      rw [if_pos hs]
    | false =>
      cases hok : r.session.dispatch frame with
      | error e =>
        unfold NodeStageRunner.dispatch
        rw [if_neg (by simp [hs]), hok]
      | ok taken => exact (dispatch_leads depth answers hsound.inv hs hok).validator
  | malformed => rfl
  | readable | stdinWritable | stageExit | ping =>
    apply (step_follows depth ?_ ?_).validator
    · intro frame answers heq
      cases heq
    · intro heq
      cases heq

theorem history_refuses (depth : Nat) (W : UInt32) (validator : Option (OpenRequest → Option Bytes))
    (inputs : List Input) : (history depth W validator inputs).validator = validator ∧
      Refuses (history depth W validator inputs) := by
  have hall : Sound W (history depth W validator inputs) ∧
      (history depth W validator inputs).validator = validator ∧
      Refuses (history depth W validator inputs) := by
    apply Trace.foldl_induction (P := fun r => Sound W r ∧ r.validator = validator ∧ Refuses r)
    · refine ⟨sound_new W validator, rfl, ?_⟩
      intro id request reason hin
      cases hin
    · intro before input after _ h
      exact ⟨h.1.step depth input, (validator_step depth h.1 input).trans h.2.1,
        refuses_step depth h.1 h.2.2 input⟩
  exact hall.2

/-- What the session hands over was decoded, and a decoded request has a command. -/
theorem opened_valid (h : r.Sound W) {request : OpenRequest}
    (hin : .session (.onOpen id request) ∈ r.log) : request.argv ≠ [] := by
  rw [← mem_sessionLog] at hin
  obtain ⟨before, after, hlog⟩ := List.append_of_mem hin
  have hview : view id (sessionLog r.log) = view id before ++ .onOpen id request ::
      view id after := by
    rw [hlog]
    exact view_split id rfl
  have hvalid : validateOpenRequest request = .ok () := h.inv.session.1.lawful id _ _ _ hview
  intro hnone
  simp [validateOpenRequest, hnone] at hvalid

/-- A node with the policy of a file, in any run. A process is spawned only for an OPEN of its
stream, with the command of that OPEN, and the lines of the file let the command pass; a stream is
opened only once. Every other command is answered with the reason on the error channel and with exit
code 126, and nothing is started for it. -/
theorem no_stage_escapes_the_policy (depth : Nat) (W : UInt32) {text : Bytes} {policy : Policy}
    (hparse : parse text = .ok policy) (inputs : List Input) :
    ∃ said, List.Forall₂ Says (text.splitOn newline) said ∧
      let log := (history depth W (some policy.validateCommand) inputs).log
      (∀ pre id request post, log = pre ++ .started id request :: post →
        .session (.onOpen id request) ∈ pre ∧ Permits said request.argv ∧
          ∀ other, .session (.onOpen id other) ∈ log → other = request) ∧
      ∀ id request, .session (.onOpen id request) ∈ log → ¬ Permits said request.argv →
        ¬ Started id log ∧ ∃ reason, policy.validate request.argv = some reason ∧
          Answered id reason log := by
  obtain ⟨said, hlines, hmade⟩ := parse_ok hparse
  have hpermits : ∀ argv, policy.validate argv = none ↔ Permits said argv := by
    rw [hmade]
    exact obeyed_permits said
  refine ⟨said, hlines, ?_⟩
  intro log
  have hsound := sound_history depth W (some policy.validateCommand) inputs
  obtain ⟨hvalidator, hrefuses⟩ := history_refuses depth W (some policy.validateCommand) inputs
  have hstarted : ∀ pre id request post, log = pre ++ .started id request :: post →
      .session (.onOpen id request) ∈ pre ∧ Permits said request.argv ∧
        ∀ other, .session (.onOpen id other) ∈ log → other = request := by
    intro pre id request post hlog
    obtain ⟨-, hopen, -, hadmitted⟩ := hsound.trail.lawful pre _ post hlog
    rw [hvalidator] at hadmitted
    refine ⟨hopen, (hpermits _).mp hadmitted, fun other hother => ?_⟩
    apply opened_once hsound ?_ hother
    change _ ∈ log
    rw [hlog]
    exact List.mem_append_left _ hopen
  refine ⟨hstarted, fun id request hopen hnot => ⟨?_, ?_⟩⟩
  · rintro ⟨asked, hin⟩
    obtain ⟨pre, post, hlog⟩ := List.append_of_mem hin
    obtain ⟨-, hpassed, hsame⟩ := hstarted pre id asked post hlog
    rw [hsame request hopen] at hnot
    exact hnot hpassed
  · rw [← hpermits] at hnot
    obtain ⟨reason, hreason⟩ := Option.ne_none_iff_exists'.mp hnot
    refine ⟨reason, hreason, hrefuses id request reason hopen (opened_valid hsound hopen) ?_⟩
    rw [hvalidator]
    exact hreason

/-- What the file "allow a" says. -/
theorem line_of_a {directives : List Directive}
    (h : List.Forall₂ Says ((Text.ascii "allow a\n").splitOn newline) directives) :
    directives = [.allow [97], .nothing] := by
  rw [show (Text.ascii "allow a\n").splitOn newline = [Text.ascii "allow a", []] by decide] at h
  obtain ⟨first, _, hfirst, hrest, rfl⟩ := List.forall₂_cons_left_iff.mp h
  obtain ⟨second, _, hsecond, hnone, rfl⟩ := List.forall₂_cons_left_iff.mp hrest
  rw [List.forall₂_nil_left_iff.mp hnone]
  rw [← said_iff] at hfirst hsecond
  rw [show said (Text.ascii "allow a") = some (.allow [97]) by decide] at hfirst
  rw [show said [] = some .nothing by decide] at hsecond
  rw [← Option.some.inj hfirst, ← Option.some.inj hsecond]

/-- With the policy "allow a" an OPEN of "a" starts a stage, and one of "b" is refused. -/
theorem a_stranger_is_refused :
    let log := (history 0 64 (some ({ allowed := [[97]] } : Policy).validateCommand)
      [.frame ⟨.Open, 0, 1, encodeOpen ⟨[[97]], []⟩⟩ {},
        .frame ⟨.Open, 0, 2, encodeOpen ⟨[[98]], []⟩⟩ {}]).log
    .started 1 ⟨[[97]], []⟩ ∈ log ∧ Permits [.allow [97], .nothing] [[97]] ∧
      ¬ Started 2 log ∧ ∃ reason, Answered 2 reason log := by
  intro log
  have hparse : parse (Text.ascii "allow a\n") = .ok { allowed := [[97]] } := by decide
  obtain ⟨said, hlines, hstarted, hrefused⟩ := no_stage_escapes_the_policy 0 64 hparse
    [.frame ⟨.Open, 0, 1, encodeOpen ⟨[[97]], []⟩⟩ {},
      .frame ⟨.Open, 0, 2, encodeOpen ⟨[[98]], []⟩⟩ {}]
  rw [line_of_a hlines] at hstarted hrefused
  have hfirst : .started 1 ⟨[[97]], []⟩ ∈ log := by decide +kernel
  have hsecond : .session (.onOpen 2 ⟨[[98]], []⟩) ∈ log := by decide +kernel
  have hstranger : ¬ Permits [.allow [97], .nothing] [[98]] := by
    intro h
    simpa using (h.named ⟨[97], by simp⟩ [98] rfl).1
  obtain ⟨pre, post, hlog⟩ := List.append_of_mem hfirst
  obtain ⟨hnever, reason, -, hanswered⟩ := hrefused 2 ⟨[[98]], []⟩ hsecond hstranger
  exact ⟨hfirst, (hstarted pre 1 _ post hlog).2.1, hnever, reason, hanswered⟩

end psx.policy
