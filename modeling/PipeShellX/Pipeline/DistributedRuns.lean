-- Whole runs of a remote chain: from `run`, with any outcome of its connections, through
-- any order of events. When a fenced session is used after all, what a late connection
-- error does, and what a run without errors delivers.
import PipeShellX.Pipeline.DistributedRunnerLaws

namespace psx.pipeline.DistributedRunner

open psx.os (ExitStatus)
open psx.transport (Channel StreamId)
open Trace (Lawful)

variable {d d' : DistributedRunner} {n index : Nat} {given : Setup}

/-! ## The start of a run -/

/-- The first connections of a runner are up, and nothing else happened. -/
structure Fresh (n : Nat) (given : Setup) (d : DistributedRunner) : Prop where
  conns : d.conns = List.replicate n (Conn.connected {})
  running : d.done = false
  setup : d.setup = given
  log : d.log = []
  streamsOpen : d.streamsOpen = false
  readyCount : d.readyCount = 0

theorem Fresh.going (h : Fresh n given d) : Going n given d := by
  have hconn : ∀ i, d.conn i = if i < n then Conn.connected {} else {} := by
    intro i
    unfold conn
    rw [h.conns, List.getD_eq_getElem?_getD, List.getElem?_replicate]
    split_ifs <;> rfl
  have hexited : ∀ i, (d.conn i).exited = false := fun i => by
    rw [hconn]
    split_ifs <;> rfl
  refine ⟨h.running, h.setup, by simp [h.log], ⟨by simp [h.conns], fun i => ?_, fun i hi => ?_,
    by simp [h.log], by simp [h.log], fun i hover => ?_, by simp [h.log]⟩, fun i k _ hover => ?_,
    fun _ => hexited, ?_, fun hopen => ?_⟩
  · rw [hconn]
    split_ifs <;> rfl
  · rw [hconn, if_pos hi]
    simp [Conn.connected, h.log]
  · simp [hexited] at hover
  · simp [hexited] at hover
  · rw [h.readyCount, h.conns, List.countP_replicate]
    rfl
  · simp [h.streamsOpen] at hopen

theorem onConnError_done (d : DistributedRunner) (index : Nat) (message : String) :
    (d.onConnError index message).done = true := by
  unfold onConnError
  cases hdone : d.done with
  | true => simpa using hdone
  | false =>
    simp only [Bool.false_eq_true, if_false]
    rw [finish_running hdone]

theorem connect_done (launch : Nat → Launch) (left : Nat) (h : d.done = true) :
    (connect launch left d).done = true := by
  induction left generalizing d with
  | zero => exact h
  | succ left ih =>
    unfold connect
    extract_lets index pushed
    cases launch index with
    | connectFailed message => exact onConnError_done _ _ _
    | tlsFailed message => exact onConnError_done _ _ _
    | started error failed =>
      cases failed with
      | some message => exact onConnError_done _ _ _
      | none =>
        apply ih
        cases error with
        | some message => exact onConnError_done _ _ _
        | none => exact h

theorem Fresh.connected (h : Fresh n given d) :
    Fresh (n + 1) given ({ d with conns := d.conns ++ [({} : Conn)] }.modify n Conn.connected) := by
  refine ⟨?_, h.running, h.setup, h.log, h.streamsOpen, h.readyCount⟩
  have hlast := Counts.modify_snoc Conn.connected d.conns {}
  rw [show d.conns.length = n by simp [h.conns]] at hlast
  unfold modify
  rw [hlast, h.conns, List.replicate_succ']

/-- A connection that fails ends the run, and otherwise all are up. -/
theorem connect_phase (launch : Nat → Launch) (left : Nat) (h : Fresh n given d) :
    (connect launch left d).done = true ∨ Fresh (n + left) given (connect launch left d) := by
  induction left generalizing d n with
  | zero => exact .inr h
  | succ left ih =>
    have hlen : d.conns.length = n := by simp [h.conns]
    unfold connect
    simp only [hlen]
    cases launch n with
    | connectFailed message => exact .inl (onConnError_done _ _ _)
    | tlsFailed message => exact .inl (onConnError_done _ _ _)
    | started error failed =>
      cases failed with
      | some message => exact .inl (onConnError_done _ _ _)
      | none =>
        cases error with
        | some message => exact .inl (connect_done launch left (onConnError_done _ _ _))
        | none =>
          have hnext := ih h.connected
          rwa [Nat.add_right_comm] at hnext

/-- When every transport starts, every connection is up. -/
theorem connect_all {launch : Nat → Launch} (left : Nat) (h : Fresh n given d)
    (hlaunch : ∀ i < n + left, launch i = .started none none) :
    Fresh (n + left) given (connect launch left d) := by
  induction left generalizing d n with
  | zero => exact h
  | succ left ih =>
    have hlen : d.conns.length = n := by simp [h.conns]
    unfold connect
    simp only [hlen, hlaunch n (by omega)]
    have hnext := ih h.connected fun i hi => hlaunch i (by omega)
    rwa [Nat.add_right_comm] at hnext

/-! ## One step -/

/-- A call that feeds the first stage from outside. -/
def Input.feeds : Input → Bool
  | .writeStdin _ | .closeStdin => true
  | _ => false

/-- The stdin comes from outside, the run is not done, and a later stage has exited before the
first one did. -/
def FirstFenced (d : DistributedRunner) : Prop :=
  d.externalStdin = true ∧ d.done = false ∧ .fenced 0 ∈ d.log

instance (d : DistributedRunner) : Decidable d.FirstFenced := by
  unfold FirstFenced
  infer_instance

/-- The outcomes that were handed to the caller. -/
def completes (log : List Event) : List Outcome :=
  log.filterMap fun
    | .complete outcome => some outcome
    | _ => none

@[simp] theorem completes_append (a b : List Event) :
    completes (a ++ b) = completes a ++ completes b := by simp [completes]

theorem completes_nil {log : List Event} (h : ∀ outcome, .complete outcome ∉ log) :
    completes log = [] := by
  unfold completes
  rw [List.filterMap_eq_nil_iff]
  intro e he
  cases e with
  | complete outcome => exact absurd he (h outcome)
  | _ => rfl

theorem Calmly.null (h : Calmly d d') (i : Nat) : .null i ∈ d'.log ↔ .null i ∈ d.log := by
  obtain ⟨more, hlog, hcalm⟩ := h.log
  rw [hlog]
  exact mem_tell fun hmem => hcalm (.null i) hmem

theorem null_fences (d : DistributedRunner) (index i : Nat) : .null i ∉ d.fences index := by
  intro hmem
  obtain ⟨j, -, -, heq⟩ := mem_fences.mp hmem
  cases heq

theorem finish_null (d : DistributedRunner) (outcome : Outcome) (i : Nat) :
    .null i ∈ (d.finish outcome).log ↔ .null i ∈ d.log := by
  cases hdone : d.done with
  | true => simp [finish, hdone]
  | false =>
    rw [finish_running hdone]
    apply mem_tell
    split_ifs <;> simp

/-- What a caller hears of an outcome. -/
def Setup.hears (given : Setup) (outcome : Outcome) : List Outcome :=
  if given.onComplete then [outcome] else []

/-- The end of a run that was going on: one outcome, if the caller wants it. -/
theorem finish_ends (hrunning : d.done = false) (hsetup : d.setup = given)
    (hsilent : ∀ outcome, .complete outcome ∉ d.log) (outcome : Outcome) :
    (d.finish outcome).done = true ∧
      completes (d.finish outcome).log = given.hears outcome := by
  rw [finish_running hrunning, ← hsetup]
  refine ⟨rfl, ?_⟩
  rw [completes_append, completes_nil hsilent]
  unfold Setup.hears setup
  dsimp only
  split_ifs <;> rfl

theorem delivery_null (d : DistributedRunner) (index : Nat) (bytes : Bytes) (channel : Channel)
    (i : Nat) : .null i ∉ d.delivery index bytes channel := by
  unfold delivery
  split_ifs <;> simp

/-- No stage is fenced before the streams are open. -/
theorem Going.not_fenced (h : Going n given d) (hopen : ¬ d.streamsOpen = true) (i : Nat) :
    .fenced i ∉ d.log := by
  intro hmem
  have hexited := (h.stages.gone i hmem).2.1
  rw [h.early (by simpa using hopen)] at hexited
  cases hexited

/-- Feeding the first stage while its streams are open. -/
theorem Going.feed (h : Going n given d) (hopen : d.streamsOpen = true) (bytes : Bytes)
    (endStream : Bool) : Going n given (d.sendData 0 bytes endStream) ∧
      ∀ i, .null i ∈ (d.sendData 0 bytes endStream).log ↔
        .null i ∈ d.log ∨ i = 0 ∧ .fenced 0 ∈ d.log := by
  have hpos := (h.opened hopen).1
  have hiff := h.stages.fenced 0 hpos
  rw [← h.stages.bound] at hiff
  unfold sendData
  cases hsession : (d.conn 0).session with
  | true =>
    rw [use_live hsession]
    rw [hsession] at hiff
    refine ⟨h.tell (by simp [Event.Plain]), fun i => ?_⟩
    have hnot : .fenced 0 ∉ d.log := fun hmem => by simpa using hiff.mpr hmem
    simp [note, hnot]
  | false =>
    rw [use_null hsession]
    refine ⟨h.tell (by simp [Event.Plain]), fun i => ?_⟩
    simp [note, hiff.mp hsession]

/-- What one step of a run that is going on does. -/
theorem Going.step (h : Going n given d) (opens : Nat → StreamId) (input : Input) :
    ((∃ outcome, (d.step opens input).done = true ∧
        completes (d.step opens input).log = given.hears outcome) ∨
      Going n given (d.step opens input)) ∧
      ∀ i, .null i ∈ (d.step opens input).log ↔
        .null i ∈ d.log ∨ i = 0 ∧ input.feeds = true ∧ d.FirstFenced := by
  cases input with
  | ready index =>
    by_cases hguard : (d.conn index).transport = true ∧ (d.conn index).ready = false
    · obtain ⟨hgoing, hcalmly⟩ := h.ready opens hguard.1 hguard.2
      exact ⟨.inr hgoing, fun i => by simp [hcalmly.null, Input.feeds]⟩
    · have hsame : d.step opens (.ready index) = d := by
        unfold DistributedRunner.step
        dsimp only
        rw [if_neg (by simpa using hguard)]
      rw [hsame]
      exact ⟨.inr h, fun i => by simp [Input.feeds]⟩
  | data index bytes channel =>
    unfold DistributedRunner.step
    dsimp only
    split_ifs with hlive
    · rw [h.onData hlive]
      refine ⟨.inr (h.tell fun e he => ?_), fun i => ?_⟩
      · simp only [List.mem_append, List.mem_cons, List.not_mem_nil, or_false] at he
        rcases he with (rfl | rfl) | he
        · trivial
        · trivial
        · exact delivery_plain d index bytes channel e he
      · rw [mem_tell (by simp [delivery_null])]
        simp [Input.feeds]
    · exact ⟨.inr h, fun i => by simp [Input.feeds]⟩
  | exit index status =>
    unfold DistributedRunner.step
    dsimp only
    split_ifs with hlive
    · have hover := h.overtaken hlive status
      have hnull : ∀ i, .null i ∈ (d.overtaken index status).log ↔ .null i ∈ d.log := fun i => by
        rw [overtaken_log (lt_of_live hlive)]
        apply mem_tell
        simp [null_fences]
      rw [h.onExit hlive]
      split_ifs
      · refine ⟨.inr (hover.tell (by simp [Event.Plain])), fun i => ?_⟩
        simp [note, hnull, Input.feeds]
      · refine ⟨.inl ⟨_, finish_ends hover.running hover.setup hover.silent _⟩, fun i => ?_⟩
        simp [finish_null, hnull, Input.feeds]
    · exact ⟨.inr h, fun i => by simp [Input.feeds]⟩
  | error index message =>
    unfold DistributedRunner.step
    dsimp only
    split_ifs
    · unfold onConnError
      rw [if_neg (by simp [h.running])]
      refine ⟨.inl ⟨_, finish_ends h.running h.setup h.silent _⟩, fun i => ?_⟩
      simp [finish_null, Input.feeds]
    · exact ⟨.inr h, fun i => by simp [Input.feeds]⟩
  | writeStdin bytes =>
    unfold DistributedRunner.step writeStdin
    dsimp only
    split_ifs with hguard hopen
    · refine ⟨.inr h, fun i => ?_⟩
      rcases hguard with hguard | hguard <;> simp [FirstFenced, hguard]
    · obtain ⟨hgoing, hnull⟩ := h.feed hopen bytes false
      refine ⟨.inr hgoing, fun i => ?_⟩
      simp only [not_or, Bool.not_eq_true] at hguard
      simp [hnull, Input.feeds, FirstFenced, hguard]
    · refine ⟨.inr (h.quiet ⟨calmly_same rfl rfl rfl, rfl, rfl, rfl⟩), fun i => ?_⟩
      simp [FirstFenced, h.not_fenced hopen]
  | closeStdin =>
    unfold DistributedRunner.step closeStdin
    dsimp only
    have hended : Going n given { d with stdinEndPending := true } :=
      h.quiet ⟨calmly_same rfl rfl rfl, rfl, rfl, rfl⟩
    split_ifs with hguard hopen
    · refine ⟨.inr h, fun i => ?_⟩
      rcases hguard with hguard | hguard <;> simp [FirstFenced, hguard]
    · obtain ⟨hgoing, hnull⟩ := hended.feed hopen [] true
      refine ⟨.inr hgoing, fun i => (hnull i).trans ?_⟩
      simp only [not_or, Bool.not_eq_true] at hguard
      simp [Input.feeds, FirstFenced, hguard]
    · refine ⟨.inr hended, fun i => ?_⟩
      simp [FirstFenced, h.not_fenced hopen]
  | cancel =>
    unfold DistributedRunner.step
    dsimp only
    have hsilent : ∀ outcome, .complete outcome ∉ d.abandoned.log := by
      intro outcome
      rw [abandoned_log, List.mem_append, List.mem_cons, not_or, not_or]
      refine ⟨h.silent outcome, by simp, fun hmem => ?_⟩
      obtain ⟨j, -, -, heq⟩ := mem_fences.mp hmem
      cases heq
    have hends := finish_ends (d := d.abandoned) h.running h.setup hsilent d.abandoned.outcome
    rw [h.cancel]
    refine ⟨.inl ⟨_, hends⟩, fun i => ?_⟩
    rw [finish_null, abandoned_log, mem_tell (by simp [null_fences])]
    simp [Input.feeds]

/-- What still happens once a run is done. -/
def Event.Idle : Event → Prop
  | .got .. | .consumed .. | .stderr _ | .exited .. => True
  | _ => False

theorem done_step (hdone : d.done = true) (opens : Nat → StreamId) (input : Input) :
    (d.step opens input).done = true ∧
      ∃ more, (d.step opens input).log = d.log ++ more ∧ ∀ e ∈ more, e.Idle := by
  have hsame : ∃ more, d.log = d.log ++ more ∧ ∀ e ∈ more, e.Idle := ⟨[], by simp, by simp⟩
  unfold step
  cases input with
  | ready index =>
    dsimp only
    split_ifs
    · have hmarked : (d.modify index fun conn => { conn with ready := true }).done = true := hdone
      unfold onConnReady
      rw [if_pos hmarked]
      exact ⟨hdone, hsame⟩
    · exact ⟨hdone, hsame⟩
  | data index bytes channel =>
    dsimp only
    split_ifs with hlive
    · unfold onData forward
      extract_lets told consumed
      have hconsumed : consumed.done = true ∧
          ∃ more, consumed.log = d.log ++ more ∧ ∀ e ∈ more, e.Idle := by
        unfold consumed
        split_ifs
        · exact ⟨hdone, [.got index bytes channel,
            .consumed index (told.conn index).streamId bytes.length],
            by simp [told, note], by simp [Event.Idle]⟩
        · exact ⟨hdone, [.got index bytes channel], rfl, by simp [Event.Idle]⟩
      obtain ⟨hover, more, hlog, hidle⟩ := hconsumed
      rw [if_pos hover]
      split_ifs
      · refine ⟨hover, more ++ [.stderr bytes], by simp [note, hlog], fun e he => ?_⟩
        rcases List.mem_append.mp he with he | he
        · exact hidle e he
        · rw [List.mem_singleton.mp he]
          trivial
      · exact ⟨hover, more, hlog, hidle⟩
      · exact ⟨hover, more, hlog, hidle⟩
    · exact ⟨hdone, hsame⟩
  | exit index status =>
    dsimp only
    split_ifs with hlive
    · have htold : ((d.note (.exited index status)).modify index (Conn.reported status)).done =
          true :=
        hdone
      unfold onExit onStageExit
      rw [if_pos htold]
      exact ⟨hdone, [.exited index status], rfl, by simp [Event.Idle]⟩
    · exact ⟨hdone, hsame⟩
  | error index message =>
    dsimp only
    split_ifs
    · unfold onConnError
      rw [if_pos hdone]
      exact ⟨hdone, hsame⟩
    · exact ⟨hdone, hsame⟩
  | writeStdin bytes =>
    dsimp only
    unfold writeStdin
    rw [if_pos (.inr hdone)]
    exact ⟨hdone, hsame⟩
  | closeStdin =>
    dsimp only
    unfold closeStdin
    rw [if_pos (.inr hdone)]
    exact ⟨hdone, hsame⟩
  | cancel =>
    dsimp only
    unfold cancel
    rw [if_pos hdone]
    exact ⟨hdone, hsame⟩

theorem done_null (hdone : d.done = true) (opens : Nat → StreamId) (input : Input) (i : Nat) :
    .null i ∈ (d.step opens input).log ↔ .null i ∈ d.log := by
  obtain ⟨-, more, hlog, hidle⟩ := done_step hdone opens input
  rw [hlog]
  exact mem_tell fun hmem => hidle (.null i) hmem

/-- A run that is done has nothing more to tell its caller. -/
theorem done_completes (hdone : d.done = true) (opens : Nat → StreamId) (input : Input) :
    completes (d.step opens input).log = completes d.log := by
  obtain ⟨-, more, hlog, hidle⟩ := done_step hdone opens input
  rw [hlog, completes_append, completes_nil fun outcome hmem => hidle (.complete outcome) hmem,
    List.append_nil]

/-! ## Whole runs -/

/-- A runner as constructed runs a chain of stages, and then takes some inputs. `launch` and
`opens` are what the connections and the sessions answer. -/
def history (launch : Nat → Launch) (opens : Nat → StreamId) (given : Setup)
    (stages : List RemoteStage) (inputs : List Input) : DistributedRunner :=
  steps opens (run launch { onOutput := given.onOutput, onStderr := given.onStderr } stages
    given.onComplete given.externalStdin).1 inputs

theorem history_snoc (launch : Nat → Launch) (opens : Nat → StreamId) (given : Setup)
    (stages : List RemoteStage) (inputs : List Input) (input : Input) :
    history launch opens given stages (inputs ++ [input]) =
      (history launch opens given stages inputs).step opens input := by
  simp [history, steps]

theorem onConnError_null (d : DistributedRunner) (index : Nat) (message : String) (i : Nat) :
    .null i ∈ (d.onConnError index message).log ↔ .null i ∈ d.log := by
  unfold onConnError
  split_ifs
  · rfl
  · exact finish_null _ _ i

theorem connect_null (launch : Nat → Launch) (left : Nat) (d : DistributedRunner) (i : Nat) :
    .null i ∈ (connect launch left d).log ↔ .null i ∈ d.log := by
  induction left generalizing d with
  | zero => rfl
  | succ left ih =>
    unfold connect
    extract_lets index pushed
    cases launch index with
    | connectFailed message => exact onConnError_null _ _ _ i
    | tlsFailed message => exact onConnError_null _ _ _ i
    | started error failed =>
      cases failed with
      | some message =>
        refine (onConnError_null _ _ _ i).trans ?_
        cases error with
        | some message => exact onConnError_null _ _ _ i
        | none => rfl
      | none =>
        refine (ih _).trans ?_
        cases error with
        | some message => exact onConnError_null _ _ _ i
        | none => rfl

theorem Fresh.start (given : Setup) (stages : List RemoteStage) : Fresh 0 given
    { onOutput := given.onOutput, onStderr := given.onStderr, onComplete := given.onComplete,
      externalStdin := given.externalStdin, argvs := stages.map (·.argv) } :=
  ⟨rfl, rfl, rfl, rfl, rfl, rfl⟩

/-- The two phases of a run. An empty chain is refused, and nothing is set up for it. -/
theorem history_phase (launch : Nat → Launch) (opens : Nat → StreamId) (given : Setup)
    (stages : List RemoteStage) (inputs : List Input) :
    (history launch opens given stages inputs).done = true ∨
      ∃ given', (stages = [] ∧ given'.onComplete = false ∨ given' = given) ∧
        Going stages.length given' (history launch opens given stages inputs) := by
  induction inputs using List.reverseRecOn with
  | nil =>
    unfold history steps run
    by_cases hstages : stages = []
    · subst hstages
      have hfresh : Fresh 0 ⟨given.onOutput, given.onStderr, false, false⟩
          { onOutput := given.onOutput, onStderr := given.onStderr } :=
            ⟨rfl, rfl, rfl, rfl, rfl, rfl⟩
      exact .inr ⟨_, .inl ⟨rfl, rfl⟩, hfresh.going⟩
    · rw [if_neg hstages]
      rcases connect_phase launch stages.length (Fresh.start given stages) with hdone | hfresh
      · exact .inl hdone
      · rw [Nat.zero_add] at hfresh
        exact .inr ⟨given, .inr rfl, hfresh.going⟩
  | append_singleton inputs input ih =>
    rw [history_snoc]
    rcases ih with hdone | ⟨given', hsame, hgoing⟩
    · exact .inl (done_step hdone opens input).1
    · rcases (hgoing.step opens input).1 with ⟨outcome, hdone, -⟩ | hnext
      · exact .inl hdone
      · exact .inr ⟨given', hsame, hnext⟩

/-! ## Fenced sessions -/

/-- A call goes through a null session exactly when the first stage is fed from outside after
a later stage has exited before it: every other call finds its session there. -/
theorem no_fenced_session_is_used_iff (launch : Nat → Launch) (opens : Nat → StreamId)
    (given : Setup) (stages : List RemoteStage) (inputs : List Input) :
    (∀ i, .null i ∉ (history launch opens given stages inputs).log) ↔
      ∀ before input after, inputs = before ++ input :: after → input.feeds = true →
        ¬ (history launch opens given stages before).FirstFenced := by
  induction inputs using List.reverseRecOn with
  | nil =>
    refine iff_of_true (fun i => ?_) fun before input after heq => by simp at heq
    unfold history steps run
    split_ifs
    · simp
    · rw [List.foldl_nil, connect_null]
      simp
  | append_singleton inputs last ih =>
    have hstep : ∀ i, .null i ∈ (history launch opens given stages (inputs ++ [last])).log ↔
        .null i ∈ (history launch opens given stages inputs).log ∨
          i = 0 ∧ last.feeds = true ∧ (history launch opens given stages inputs).FirstFenced := by
      intro i
      rw [history_snoc]
      rcases history_phase launch opens given stages inputs with hdone | ⟨given', -, hgoing⟩
      · rw [done_null hdone]
        simp [FirstFenced, hdone]
      · exact (hgoing.step opens last).2 i
    constructor
    · intro hnone before input after heq hfeeds hfirst
      rcases List.eq_nil_or_concat after with rfl | ⟨after, x, rfl⟩
      · obtain ⟨rfl, hlast⟩ := List.append_inj' heq rfl
        cases hlast
        exact hnone 0 ((hstep 0).mpr (.inr ⟨rfl, hfeeds, hfirst⟩))
      · have hcut : inputs ++ [last] = (before ++ input :: after) ++ [x] := by simpa using heq
        obtain ⟨hinputs, -⟩ := List.append_inj' hcut rfl
        refine ih.mp (fun i hmem => hnone i ((hstep i).mpr (.inl hmem))) before input after hinputs
          hfeeds hfirst
    · intro hsafe i hmem
      rcases (hstep i).mp hmem with hmem | ⟨-, hfeeds, hfirst⟩
      · refine ih.mpr (fun before input after heq => ?_) i hmem
        exact hsafe before input (after ++ [last]) (by simp [heq])
      · exact hsafe inputs last [] rfl hfeeds hfirst

/-- Three stages, fed from outside. The middle one exits while the first one runs, which
fences the first; the next bytes for its stdin go through a null session. -/
theorem a_fenced_first_stage_is_fed :
    let stages : List RemoteStage := [⟨[[99]]⟩, ⟨[[104]]⟩, ⟨[[115]]⟩]
    .null 0 ∈ (history (fun _ => .started none none) (fun _ => 1) ⟨true, true, true, true⟩ stages
      [.ready 0, .ready 1, .ready 2, .exit 1 ⟨.Exited, 0⟩, .writeStdin [97]]).log := by
  decide

/-! ## Errors after an exit -/

theorem onConnError_unheard (h : d.onComplete = false) (index : Nat) (message : String) :
    (d.onConnError index message).onComplete = false ∧
      completes (d.onConnError index message).log = completes d.log := by
  unfold onConnError finish
  split_ifs
  · exact ⟨h, rfl⟩
  · dsimp only
    rw [if_neg (by simp [h])]
    exact ⟨h, rfl⟩

theorem connect_unheard (launch : Nat → Launch) (left : Nat) (h : d.onComplete = false) :
    completes (connect launch left d).log = completes d.log := by
  induction left generalizing d with
  | zero => rfl
  | succ left ih =>
    unfold connect
    extract_lets index pushed
    have hpushed : pushed.onComplete = false := h
    cases launch index with
    | connectFailed message => exact (onConnError_unheard hpushed _ _).2
    | tlsFailed message => exact (onConnError_unheard hpushed _ _).2
    | started error failed =>
      have hup : (pushed.modify index Conn.connected).onComplete = false := h
      cases error with
      | none =>
        cases failed with
        | some message => exact (onConnError_unheard hup _ _).2
        | none => exact ih hup
      | some message =>
        obtain ⟨hquiet, hsame⟩ := onConnError_unheard hup index message
        cases failed with
        | some message' => exact (onConnError_unheard hquiet _ _).2.trans hsame
        | none => exact (ih hquiet).trans hsame

/-- A caller without a handler hears nothing. -/
theorem history_unheard (launch : Nat → Launch) (opens : Nat → StreamId) (given : Setup)
    (stages : List RemoteStage) (inputs : List Input) (hnone : given.onComplete = false) :
    completes (history launch opens given stages inputs).log = [] := by
  induction inputs using List.reverseRecOn with
  | nil =>
    unfold history steps run
    split_ifs
    · rfl
    · exact connect_unheard launch stages.length hnone
  | append_singleton inputs input ih =>
    rw [history_snoc]
    rcases history_phase launch opens given stages inputs with hdone | ⟨given', hgiven, hgoing⟩
    · rw [done_completes hdone, ih]
    · have hnone' : given'.onComplete = false := by
        rcases hgiven with ⟨-, hnone'⟩ | rfl
        · exact hnone'
        · exact hnone
      rcases (hgoing.step opens input).1 with ⟨outcome, -, hheard⟩ | hnext
      · rw [hheard, Setup.hears, if_neg (by simp [hnone'])]
      · exact completes_nil hnext.silent

/-- A stage that reported its exit keeps its transport. -/
theorem Stages.told_transport (h : Stages n d) {status : ExitStatus}
    (htold : .exited index status ∈ d.log) : (d.conn index).transport = true := by
  by_contra hgone
  have hfenced := (h.fenced index (h.told index status htold).1).mp (by simpa using hgone)
  exact h.apart index status hfenced htold

/-- A connection error after the exit of its stage changes nothing of what the caller hears,
whatever follows, exactly when the run is done already, or there is no handler to hear it. -/
theorem a_late_error_changes_nothing_iff (launch : Nat → Launch) (opens : Nat → StreamId)
    (given : Setup) (stages : List RemoteStage) (inputs : List Input) (index : Nat)
    (message : String) (status : ExitStatus)
    (hexit : .exited index status ∈ (history launch opens given stages inputs).log) :
    (∀ later, completes (history launch opens given stages
        (inputs ++ .error index message :: later)).log =
      completes (history launch opens given stages (inputs ++ later)).log) ↔
    (history launch opens given stages inputs).done = true ∨ given.onComplete = false := by
  have hsplit : ∀ later,
      history launch opens given stages (inputs ++ .error index message :: later) =
      steps opens ((history launch opens given stages inputs).step opens (.error index message))
        later := fun later => by simp [history, steps]
  have hkept : ∀ later, history launch opens given stages (inputs ++ later) =
      steps opens (history launch opens given stages inputs) later := fun later => by
    simp [history, steps]
  constructor
  · intro hsame
    by_contra hnot
    rw [not_or, Bool.not_eq_true, Bool.not_eq_false] at hnot
    rcases history_phase launch opens given stages inputs with hdone | ⟨given', hgiven, hgoing⟩
    · simp [hdone] at hnot
    · have hlt := (hgoing.stages.told index status hexit).1
      obtain rfl : given' = given := by
        rcases hgiven with ⟨rfl, -⟩ | hgiven
        · cases hlt
        · exact hgiven
      have htransport := hgoing.stages.told_transport hexit
      have hnow := hsame []
      rw [hsplit, hkept] at hnow
      unfold steps at hnow
      rw [List.foldl_nil, List.foldl_nil, completes_nil hgoing.silent] at hnow
      unfold step onConnError at hnow
      dsimp only at hnow
      rw [if_pos htransport, if_neg (by simp [hgoing.running])] at hnow
      rw [(finish_ends hgoing.running hgoing.setup hgoing.silent _).2, Setup.hears,
        if_pos hnot.2] at hnow
      cases hnow
  · rintro (hdone | hnone) later
    · have hstep : (history launch opens given stages inputs).step opens (.error index message) =
          history launch opens given stages inputs := by
        unfold step onConnError
        dsimp only
        rw [if_pos hdone, ite_self]
      rw [hsplit, hkept, hstep]
    · rw [history_unheard launch opens given stages _ hnone,
        history_unheard launch opens given stages _ hnone]

/-- Both stages have exited when the first connection is lost. -/
theorem a_late_error_after_the_end_is_ignored :
    let launch : Nat → Launch := fun _ => .started none none
    let given : Setup := ⟨true, true, true, false⟩
    let inputs : List Input := [.ready 0, .ready 1, .exit 0 ⟨.Exited, 0⟩, .exit 1 ⟨.Exited, 3⟩]
    ∀ later, completes (history launch (fun _ => 1) given [⟨[[99]]⟩, ⟨[[104]]⟩]
        (inputs ++ .error 0 "peer closed the connection" :: later)).log =
      completes (history launch (fun _ => 1) given [⟨[[99]]⟩, ⟨[[104]]⟩] (inputs ++ later)).log :=
  (a_late_error_changes_nothing_iff _ (fun _ => 1) _ _ _ 0 _ ⟨.Exited, 0⟩ (by decide)).mpr
    (.inl (by decide))

/-- The first of two stages has exited with 0 when its connection is lost, and the run fails;
without that error it completes with the codes of both. -/
theorem a_late_error_fails_the_run :
    let launch : Nat → Launch := fun _ => .started none none
    let given : Setup := ⟨true, true, true, false⟩
    let stages : List RemoteStage := [⟨[[99]]⟩, ⟨[[104]]⟩]
    let inputs : List Input := [.ready 0, .ready 1, .exit 0 ⟨.Exited, 0⟩]
    .exited 0 ⟨.Exited, 0⟩ ∈ (history launch (fun _ => 1) given stages inputs).log ∧
      completes (history launch (fun _ => 1) given stages
        (inputs ++ [.error 0 "peer closed the connection", .exit 1 ⟨.Exited, 0⟩])).log =
        [⟨1, [], "stage 0: peer closed the connection"⟩] ∧
      completes (history launch (fun _ => 1) given stages
        (inputs ++ [.exit 1 ⟨.Exited, 0⟩])).log = [⟨0, [0, 0], ""⟩] := by
  decide

end psx.pipeline.DistributedRunner
