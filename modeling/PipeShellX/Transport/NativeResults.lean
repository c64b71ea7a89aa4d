-- What the owner of a controller hears of it (native_controller.cpp): output of its targets, and at
-- the very end one result for each. A result is marked as timed out, cancelled or aborted only if
-- the run was stopped for that.
import PipeShellX.Transport.NativeRun

namespace psx.transport.NativeController

open psx.os (ExitStatus)

/-! ## What the network does, when the output stops nothing -/

/-- A callback of a transport whose owner cancels nothing when it hears of output. -/
inductive Report
  | ready
  | data (bytes : Bytes) (channel : Channel) (answers : psx.stream.SpoolAnswers)
  | exit (status : ExitStatus)
  | error (message : String)

/-- What a report calls. -/
def Report.callback : Report → Callback
  | .ready => .ready
  | .data bytes channel answers => .data bytes channel answers []
  | .exit status => .exit status
  | .error message => .error message

/-- How a launch goes, as `Launch`. -/
inductive Attempt
  | connectFailed (message : String)
  | tlsFailed (message : String)
  | started (during : List Report) (failed : Option String)

/-- How the start of a connection ends. -/
def Attempt.launch : Attempt → Launch
  | .connectFailed message => .connectFailed message
  | .tlsFailed message => .tlsFailed message
  | .started during failed => .started (during.map Report.callback) failed

/-! ## The marks of a result -/

/-- The result is marked only for what is allowed. -/
structure HostResult.MarkedBy (allowed : CancelKind → Prop) (result : HostResult) : Prop where
  timedOut : result.timedOut = true → allowed .Timeout
  cancelled : result.cancelled = true → allowed .Interrupt
  aborted : result.aborted = true → allowed .FailFast

/-- Every result is that of a target, with marks that are allowed, and what is heard is of a
target. -/
structure Labelled (allowed : CancelKind → Prop) (hosts : List String) (c : NativeController) :
    Prop where
  failFast : c.options.failFast = true → allowed .FailFast
  named : c.conns.map (·.result.host) = hosts
  marks : ∀ conn ∈ c.conns, conn.result.MarkedBy allowed
  outputs : ∀ host data channel, .output host data channel ∈ c.log → host ∈ hosts

section

variable {allowed : CancelKind → Prop} {hosts : List String} {c : NativeController} {index : Nat}

theorem Labelled.length (h : Labelled allowed hosts c) : c.conns.length = hosts.length := by
  rw [← h.named, List.length_map]

theorem Labelled.mono {allowed' : CancelKind → Prop} (h : Labelled allowed hosts c)
    (hle : ∀ kind, allowed kind → allowed' kind) : Labelled allowed' hosts c := by
  refine ⟨fun hfast => hle _ (h.failFast hfast), h.named, fun conn hin => ?_, h.outputs⟩
  have hmarks := h.marks conn hin
  exact ⟨fun h => hle _ (hmarks.timedOut h), fun h => hle _ (hmarks.cancelled h),
    fun h => hle _ (hmarks.aborted h)⟩

/-- Counters, flags and timers do not matter. -/
theorem Labelled.same {c' : NativeController} (h : Labelled allowed hosts c)
    (hopts : c'.options = c.options) (hconns : c'.conns = c.conns) (hlog : c'.log = c.log) :
    Labelled allowed hosts c' := by
  refine ⟨?_, ?_, ?_, ?_⟩
  · rw [hopts]
    exact h.failFast
  · rw [hconns]
    exact h.named
  · rw [hconns]
    exact h.marks
  · rw [hlog]
    exact h.outputs

theorem Labelled.note (h : Labelled allowed hosts c) {e : Event}
    (he : ∀ host data channel, e = .output host data channel → host ∈ hosts) :
    Labelled allowed hosts (c.note e) := by
  refine ⟨h.failFast, h.named, h.marks, fun host data channel hin => ?_⟩
  rcases List.mem_append.mp hin with hin | hin
  · exact h.outputs host data channel hin
  · exact he host data channel (List.mem_singleton.mp hin).symm

theorem Labelled.modify (h : Labelled allowed hosts c) (index : Nat) (f : Conn → Conn)
    (hhost : ∀ conn, (f conn).result.host = conn.result.host)
    (hmarks : ∀ conn, conn.result.MarkedBy allowed → (f conn).result.MarkedBy allowed) :
    Labelled allowed hosts (c.modify index f) := by
  refine ⟨h.failFast, ?_, fun conn hin => ?_, h.outputs⟩
  · unfold NativeController.modify
    dsimp only
    rw [Counts.map_modify hhost]
    exact h.named
  · obtain ⟨i, hi, rfl⟩ := List.mem_iff_getElem.mp hin
    unfold NativeController.modify at hi ⊢
    dsimp only at hi ⊢
    rw [List.getElem_modify]
    rw [List.length_modify] at hi
    split
    · exact hmarks _ (h.marks _ (List.getElem_mem hi))
    · exact h.marks _ (List.getElem_mem hi)

theorem Labelled.foldl {α : Type} {f : NativeController → α → NativeController} (l : List α)
    (hf : ∀ a ∈ l, ∀ c, Labelled allowed hosts c → Labelled allowed hosts (f c a))
    (h : Labelled allowed hosts c) : Labelled allowed hosts (l.foldl f c) := by
  induction l generalizing c with
  | nil => exact h
  | cons a l ih =>
    apply ih fun b hb => hf b (List.mem_cons_of_mem _ hb)
    exact hf a List.mem_cons_self c h

theorem Labelled.completeIfReady (h : Labelled allowed hosts c) :
    Labelled allowed hosts c.completeIfReady := by
  unfold NativeController.completeIfReady
  split_ifs
  · exact h
  · have hdone : Labelled allowed hosts { c with completed := true, onComplete := false } :=
      h.same rfl rfl rfl
    apply hdone.note
    simp
  · exact h.same rfl rfl rfl

theorem marks_failed (conn : Conn) (message : String) {kind : CancelKind}
    (hkind : kind ≠ .Other → allowed kind) :
    (Conn.failed message kind conn).result.MarkedBy allowed := by
  refine ⟨fun hmark => ?_, fun hmark => ?_, fun hmark => ?_⟩
  all_goals
    simp only [Conn.failed, decide_eq_true_eq] at hmark
    subst hmark
    exact hkind (by simp)

theorem Labelled.onConnDoneWith {cancel : NativeController → NativeController}
    (hcancel : ∀ c, Labelled allowed hosts c → allowed .FailFast →
      Labelled allowed hosts (cancel c))
    (h : Labelled allowed hosts c) (index : Nat) :
    Labelled allowed hosts (onConnDoneWith cancel c index) := by
  unfold NativeController.onConnDoneWith
  extract_lets fewer stopped armed
  have hfewer : Labelled allowed hosts fewer := h.same rfl rfl rfl
  have hstopped : Labelled allowed hosts stopped := by
    by_cases hfail : fewer.options.failFast ∧ ¬ fewer.cancelling ∧
        (fewer.conn index).result.failed
    · simp only [stopped, if_pos hfail]
      exact hcancel fewer hfewer (hfewer.failFast hfail.1)
    · simpa only [stopped, if_neg hfail] using hfewer
  have harmed : Labelled allowed hosts armed := by
    by_cases hactive : (stopped.conn index).active
    · simp only [armed, if_pos hactive]
      exact hstopped.same rfl rfl rfl
    · simpa only [armed, if_neg hactive] using hstopped
  exact harmed.completeIfReady

section

variable {onConnDone : NativeController → Nat → NativeController}
  (hconn : ∀ c index, Labelled allowed hosts c → Labelled allowed hosts (onConnDone c index))

include hconn

theorem Labelled.finishWith (h : Labelled allowed hosts c) (index : Nat) :
    Labelled allowed hosts (finishWith onConnDone c index) := by
  unfold NativeController.finishWith
  split_ifs
  · exact h
  · apply hconn
    have hfinished : Labelled allowed hosts (c.modify index Conn.finished) :=
      h.modify index _ (fun _ => rfl) fun _ hmarks =>
        ⟨hmarks.timedOut, hmarks.cancelled, hmarks.aborted⟩
    apply hfinished.note
    simp

theorem Labelled.failWith (h : Labelled allowed hosts c) (index : Nat) (message : String)
    {kind : CancelKind} (hkind : kind ≠ .Other → allowed kind) :
    Labelled allowed hosts (failWith onConnDone c index message kind) := by
  unfold NativeController.failWith
  apply Labelled.finishWith hconn
  split_ifs
  · exact h
  · apply h.modify
    · exact fun _ => rfl
    · exact fun conn _ => marks_failed conn message hkind

theorem Labelled.cancelWith (h : Labelled allowed hosts c) (reason : String) {kind : CancelKind}
    (hkind : kindOf reason kind ≠ .Other → allowed (kindOf reason kind)) :
    Labelled allowed hosts (cancelWith onConnDone c reason kind) := by
  unfold NativeController.cancelWith
  split_ifs
  · exact h
  · apply Labelled.completeIfReady
    apply Labelled.foldl
    · intro index _ c h
      split_ifs
      · exact h
      · exact h.failWith hconn index reason hkind
    · have hcancelling : Labelled allowed hosts { c with cancelling := true } := h.same rfl rfl rfl
      apply hcancelling.note
      simp

end

theorem Labelled.cancel (h : Labelled allowed hosts c) (reason : String) {kind : CancelKind}
    (hkind : kindOf reason kind ≠ .Other → allowed (kindOf reason kind)) :
    Labelled allowed hosts (c.cancel reason kind) := by
  apply Labelled.cancelWith _ h reason hkind
  intro c index h
  exact h.onConnDoneWith (fun _ h _ => h) index

theorem Labelled.onConnDone (h : Labelled allowed hosts c) (index : Nat) :
    Labelled allowed hosts (onConnDone c index) := by
  apply h.onConnDoneWith
  intro c h hallowed
  exact h.cancel "fail-fast" fun _ => hallowed

theorem Labelled.fail (h : Labelled allowed hosts c) (index : Nat) (message : String) :
    Labelled allowed hosts (c.fail index message .Other) := by
  apply Labelled.failWith _ h
  · simp
  · exact fun c index h => h.onConnDone index

theorem Labelled.onData (h : Labelled allowed hosts c) (hi : index < hosts.length) (data : Bytes)
    (channel : Channel) (answers : psx.stream.SpoolAnswers) :
    Labelled allowed hosts (c.onData index data channel answers []) := by
  unfold NativeController.onData
  extract_lets consumed captured told
  have hconsumed : Labelled allowed hosts consumed := by
    by_cases hsession : (c.conn index).session
    · simp only [consumed, if_pos hsession]
      apply h.note
      simp
    · simpa only [consumed, if_neg hsession] using h
  split_ifs
  · exact hconsumed
  · have hcaptured : Labelled allowed hosts captured := by
      apply hconsumed.modify
      · intro conn
        cases channel <;> rfl
      · intro conn hmarks
        cases channel <;> exact ⟨hmarks.timedOut, hmarks.cancelled, hmarks.aborted⟩
    have htold : Labelled allowed hosts told := by
      apply hcaptured.note
      intro host data' channel' heq
      obtain ⟨rfl, -, -⟩ := Event.output.inj heq
      rw [← hcaptured.named]
      have hin : captured.conn index ∈ captured.conns :=
        conn_mem (by rw [hcaptured.length]; exact hi)
      exact List.mem_map.mpr ⟨_, hin, rfl⟩
    exact htold

theorem Labelled.callback (h : Labelled allowed hosts c) (hi : index < hosts.length)
    (report : Report) :
    Labelled allowed hosts (c.callback index report.callback) := by
  cases report with
  | ready =>
    dsimp only [Report.callback, NativeController.callback]
    split_ifs
    · apply h.note
      simp
    · exact h
  | data bytes channel answers => exact h.onData hi bytes channel answers
  | exit status =>
    dsimp only [Report.callback, NativeController.callback]
    split_ifs
    · exact h
    · have hexited : Labelled allowed hosts (c.modify index (Conn.exited status)) :=
        h.modify index _ (fun _ => rfl) fun _ hmarks =>
          ⟨hmarks.timedOut, hmarks.cancelled, hmarks.aborted⟩
      exact hexited.finishWith (fun c index h => h.onConnDone index) index
  | error message => exact h.fail index message

theorem Labelled.launch (h : Labelled allowed hosts c) (attempts : Nat → Attempt)
    (hi : index < hosts.length) :
    Labelled allowed hosts (launch (fun i => (attempts i).launch) c index) := by
  unfold NativeController.launch
  extract_lets activated launched
  have hactivated : Labelled allowed hosts activated :=
    h.modify index Conn.activated (fun _ => rfl) fun _ hmarks => hmarks
  have hcounted : Labelled allowed hosts { activated with active := activated.active + 1 } :=
    hactivated.same rfl rfl rfl
  have hlaunched : Labelled allowed hosts launched := by
    apply hcounted.note
    simp
  beta_reduce
  cases attempts index with
  | connectFailed message => exact hlaunched.fail index _
  | tlsFailed message => exact hlaunched.fail index _
  | started during failed =>
    have hconnected : Labelled allowed hosts (launched.modify index Conn.connected) :=
      hlaunched.modify index Conn.connected (fun _ => rfl) fun _ hmarks => hmarks
    have hcalled : Labelled allowed hosts ((during.map Report.callback).foldl
        (fun c call => c.callback index call) (launched.modify index Conn.connected)) := by
      rw [List.foldl_map]
      exact hconnected.foldl during fun report _ c h => h.callback hi report
    cases failed with
    | none => exact hcalled
    | some message => exact hcalled.fail index _

theorem Labelled.fill (h : Labelled allowed hosts c) (attempts : Nat → Attempt) (turns : Nat) :
    Labelled allowed hosts (fill (fun i => (attempts i).launch) turns c) := by
  induction turns generalizing c with
  | zero => exact h
  | succ turns ih =>
    unfold NativeController.fill
    split_ifs with hgo
    · apply ih
      have hnext : Labelled allowed hosts { c with nextToStart := c.nextToStart + 1 } :=
        h.same rfl rfl rfl
      apply hnext.launch attempts
      rw [← h.length]
      exact hgo.1
    · exact h

theorem Labelled.fillSlots (h : Labelled allowed hosts c) (attempts : Nat → Attempt) :
    Labelled allowed hosts (c.fillSlots fun i => (attempts i).launch) := by
  unfold NativeController.fillSlots
  split_ifs
  · exact h
  · have hfilling : Labelled allowed hosts { c with filling := true } := h.same rfl rfl rfl
    exact (hfilling.fill attempts _).same rfl rfl rfl

theorem Labelled.retire (h : Labelled allowed hosts c) (attempts : Nat → Attempt) (index : Nat) :
    Labelled allowed hosts (c.retire (fun i => (attempts i).launch) index) := by
  unfold NativeController.retire
  extract_lets gone freed filled
  have hfreed : Labelled allowed hosts freed := by
    by_cases hactive : (c.conn index).active
    · have hgone : Labelled allowed hosts gone :=
        h.modify index Conn.retired (fun _ => rfl) fun _ hmarks => hmarks
      have hcounted : Labelled allowed hosts { gone with active := gone.active - 1 } :=
        hgone.same rfl rfl rfl
      simp only [freed, if_pos hactive]
      apply hcounted.note
      simp
    · simpa only [freed, if_neg hactive] using h
  have hfilled : Labelled allowed hosts filled := by
    by_cases hcancelling : freed.cancelling
    · simpa only [filled, if_pos hcancelling] using hfreed
    · simpa only [filled, if_neg hcancelling] using hfreed.fillSlots attempts
  exact hfilled.completeIfReady

/-- A controller whose targets are set up has results without a mark. -/
theorem labelled_prepared (targets : List Target) (command : List Bytes) (onComplete : Bool)
    {options : Options} (hfast : options.failFast = true → allowed .FailFast) :
    Labelled allowed (targets.map (·.host)) (prepared {} targets command onComplete options) := by
  refine ⟨hfast, ?_, fun conn hin => ?_, fun host data channel hin => ?_⟩
  · simp [prepared, freshConn]
  · obtain ⟨target, -, rfl⟩ := List.mem_map.mp hin
    exact ⟨by simp [freshConn], by simp [freshConn], by simp [freshConn]⟩
  · simp [prepared] at hin

end

/-! ## The last event -/

section

variable {targets : List Target} {options : Options} {onComplete : Bool} {c : NativeController}

/-- The last event of a run hands over a result for each target, and was not there before. -/
structure HandsOver (targets : List Target) (before after : NativeController) : Prop where
  log : ∃ more, after.log = before.log ++ more ++ [.complete (after.conns.map (·.result))] ∧
    ∀ results, .complete results ∉ before.log ++ more
  hosts : after.conns.map (·.result.host) = targets.map (·.host)

/-- Nothing is handed over, and what was heard stays so. -/
structure HoldsBack (before after : NativeController) : Prop where
  log : ∃ more, after.log = before.log ++ more
  quiet : ∀ results, .complete results ∉ after.log

theorem Live.closes (h : Live targets options true c) (hfilled : Filled c)
    (hfilling : c.filling = false)
    (hnonempty : targets ≠ []) {before : NativeController}
    (hgrows : ∃ more, c.log = before.log ++ more) :
    Waiting targets options true c.completeIfReady ∧ HoldsBack before c.completeIfReady ∨
      Over targets options true c.completeIfReady ∧ HandsOver targets before c.completeIfReady := by
  have htold := h.running.told
  obtain ⟨more, hmore⟩ := hgrows
  by_cases hidle : c.active = 0
  · right
    have hzero := h.all_done hfilled hnonempty hidle
    have hready : c.completeIfReady =
        ({ c with completed := true, onComplete := false } : NativeController).note
          (.complete (c.conns.map (·.result))) := by
      unfold completeIfReady
      rw [if_neg (by simp [hidle, hzero, htold.running]), if_pos htold.handler]
    refine ⟨?_, ?_⟩
    · rcases h.rest hfilled hfilling hnonempty with hwait | hover
      · have hactive := hwait.active
        rw [hready] at hactive
        simp [NativeController.note, hidle] at hactive
      · exact hover
    · rw [hready]
      refine ⟨⟨more, ?_, ?_⟩, htold.hosts⟩
      · simp [NativeController.note, hmore]
      · rw [← hmore]
        exact htold.quiet
  · left
    have hsame : c.completeIfReady = c := completeIfReady_running (by omega)
    rw [hsame]
    exact ⟨⟨h, hnonempty, hfilled, hfilling, by omega⟩, ⟨more, hmore⟩, htold.quiet⟩

/-- What an owner can do to a controller that is started, and what its transports and timers do. -/
inductive Move
  | cancel (reason : String) (kind : CancelKind)
  | report (index : Nat) (call : Report)
  | retire (index : Nat)

/-- What a move is for the controller. -/
def Move.input : Move → Input
  | .cancel reason kind => .cancel reason kind
  | .report index call => .callback index call.callback
  | .retire index => .retire index

theorem Waiting.keeps {c' : NativeController} (h : Waiting targets options true c)
    (hlive : Live targets options true c' ∧ Steady c c') (hfollows : Follows c c') :
    Waiting targets options true c' ∧ HoldsBack c c' := by
  obtain ⟨more, hmore, -⟩ := hfollows.log
  exact ⟨h.steady hlive.1 hlive.2, ⟨more, hmore⟩, hlive.1.running.told.quiet⟩

theorem Waiting.same (h : Waiting targets options true c) :
    Waiting targets options true c ∧ HoldsBack c c :=
  ⟨h, ⟨[], by simp⟩, h.live.running.told.quiet⟩

/-- A move leaves the run waiting, with nothing handed over, or ends it with its results. -/
theorem Waiting.moves (network : Nat → Launch) (h : Waiting targets options true c) (move : Move) :
    Waiting targets options true (c.step network move.input) ∧
      HoldsBack c (c.step network move.input) ∨
      Over targets options true (c.step network move.input) ∧
        HandsOver targets c (c.step network move.input) := by
  cases move with
  | cancel reason kind =>
    left
    exact h.keeps (h.live.cancel reason kind h.active) (follows_cancel c reason kind)
  | report index call =>
    left
    dsimp only [Move.input, NativeController.step]
    split
    · rename_i hwired
      apply h.keeps
      · exact h.live.callback call.callback (h.live.running.slots.wired index hwired)
      · exact follows_callback c index call.callback
    · exact h.same
  | retire index =>
    dsimp only [Move.input, NativeController.step]
    split
    · rename_i htimer
      have hactive : (c.conn index).active :=
        ((h.live.running.slots.timers index).mp (by simpa using htimer)).1
      have hfreed := h.live.freed htimer
      have hgrew : (freed c index).log = c.log ++ [.retired index] := rfl
      rw [retire_eq network hactive]
      split
      · rename_i hcancel
        exact hfreed.closes (.inl hcancel) h.filling h.nonempty ⟨_, hgrew⟩
      · obtain ⟨hlive, hfilled, hfilling, -⟩ := hfreed.fillSlots network h.filling
        obtain ⟨more, hmore, -⟩ := (follows_fillSlots network (freed c index)).log
        apply hlive.closes hfilled hfilling h.nonempty
        exact ⟨.retired index :: more, by rw [hmore, hgrew]; simp⟩
    · exact .inl h.same

theorem completeIfReady_cancelling (c : NativeController) :
    c.completeIfReady.cancelling = c.cancelling := by
  unfold completeIfReady
  split_ifs <;> rfl

/-- A run that is cancelled stays so. -/
theorem Waiting.stays_cancelled (network : Nat → Launch) (h : Waiting targets options true c)
    (hcancelling : c.cancelling = true) (move : Move) :
    (c.step network move.input).cancelling = true := by
  cases move with
  | cancel reason kind => exact (h.live.cancel reason kind h.active).2.cancelling hcancelling
  | report index call =>
    dsimp only [Move.input, NativeController.step]
    split
    · rename_i hwired
      have hactive := h.live.running.slots.wired index hwired
      exact (h.live.callback call.callback hactive).2.cancelling hcancelling
    · exact hcancelling
  | retire index =>
    dsimp only [Move.input, NativeController.step]
    split
    · rename_i htimer
      have hactive : (c.conn index).active :=
        ((h.live.running.slots.timers index).mp (by simpa using htimer)).1
      have hstill : (freed c index).cancelling = true := hcancelling
      rw [retire_eq network hactive, if_pos hstill, completeIfReady_cancelling]
      exact hstill
    · exact hcancelling

theorem Waiting.cancelled (network : Nat → Launch) (h : Waiting targets options true c)
    (reason : String)
    (kind : CancelKind) : (c.step network (Move.cancel reason kind).input).cancelling = true := by
  obtain ⟨-, -, hcancelling, -⟩ := cancel_running reason kind h.live.running h.active
  exact hcancelling

/-- A connection that takes a slot is there, and one that is done waits for its timer; in a run that
is cancelled all of them are done. -/
theorem Waiting.waits (h : Waiting targets options true c) :
    (∃ i, (c.conn i).active = true) ∧
      (c.cancelling = true → ∀ i, (c.conn i).active = true → i ∈ c.retireTimers) := by
  refine ⟨h.orchestrated.waits h.live.running.told.started h.live.running.told.running, ?_⟩
  intro hcancelling i hactive
  have hdone :=
    h.live.running.remaining_zero.mp (h.live.guarded.stopped hcancelling) i (lt_of_active hactive)
  simpa using (h.live.running.slots.timers i).mpr ⟨hactive, hdone⟩

/-- A start is refused, or the run waits for its first connections, or, without targets, it is over
at once. -/
theorem start_cases (network : Nat → Launch) (targets : List Target) (command : List Bytes)
    (options : Options) {c : NativeController} {started : Result Unit}
    (hstart : ({} : NativeController).start network targets command true options = (c, started)) :
    (c = {} ∧ ∃ e, started = .error e) ∨
    (started = .ok () ∧ Waiting targets options true c ∧ HoldsBack {} c) ∨
    (started = .ok () ∧ Over targets options true c ∧ HandsOver targets {} c) := by
  have hnew : Unstarted {} := ⟨rfl, rfl, rfl, rfl, rfl, rfl, by simp⟩
  have hover := hnew.start network targets command true options
  rw [hstart] at hover
  unfold start at hstart
  rw [if_neg (by simp)] at hstart
  split_ifs at hstart with hcommand htargets hempty
  · obtain ⟨rfl, rfl⟩ := Prod.mk.inj hstart
    exact .inl ⟨rfl, _, rfl⟩
  · obtain ⟨rfl, rfl⟩ := Prod.mk.inj hstart
    exact .inl ⟨rfl, _, rfl⟩
  · obtain ⟨rfl, rfl⟩ := Prod.mk.inj hstart
    subst hempty
    refine .inr (.inr ⟨rfl, ?_, ⟨[.start [] options true], by simp [note], by simp⟩, rfl⟩)
    rcases hover with hunstarted | hwait | hover
    · exact absurd hunstarted.started (by simp [note])
    · exact absurd rfl hwait.nonempty
    · exact hover
  · obtain ⟨rfl, rfl⟩ := Prod.mk.inj hstart
    have hwait := hnew.begins network hempty command true options
    exact .inr (.inl ⟨rfl, hwait, ⟨_, rfl⟩, hwait.live.running.told.quiet⟩)

/-- A controller that was started, or refused to, has results of its targets without a mark. -/
theorem labelled_start {allowed : CancelKind → Prop} (attempts : Nat → Attempt)
    (targets : List Target)
    (command : List Bytes) {options : Options} (hfast : options.failFast = true → allowed .FailFast)
    {c : NativeController} {started : Result Unit}
    (hstart : ({} : NativeController).start (fun i => (attempts i).launch) targets command
      true options =
      (c, started)) (hok : started = .ok ()) :
    Labelled allowed (targets.map (·.host)) c := by
  have hprepared := labelled_prepared targets command true hfast
  unfold start at hstart
  rw [if_neg (by simp)] at hstart
  split_ifs at hstart with hcommand htargets hempty
  · simp [hok] at hstart
  · simp [hok] at hstart
  · obtain ⟨rfl, -⟩ := Prod.mk.inj hstart
    subst hempty
    have hdone : Labelled allowed []
        { prepared {} [] command true options with completed := true } := hprepared.same rfl rfl rfl
    apply hdone.note
    simp
  · obtain ⟨rfl, -⟩ := Prod.mk.inj hstart
    exact hprepared.fillSlots attempts

/-- A move adds no mark but the one of its cancellation. -/
theorem Labelled.moves {allowed : CancelKind → Prop} {hosts : List String}
    (attempts : Nat → Attempt) (h : Labelled allowed hosts c) {move : Move}
    (hmove : ∀ reason kind, move = .cancel reason kind → kindOf reason kind ≠ .Other →
      allowed (kindOf reason kind)) :
    Labelled allowed hosts (c.step (fun i => (attempts i).launch) move.input) := by
  cases move with
  | cancel reason kind => exact h.cancel reason (hmove reason kind rfl)
  | report index call =>
    dsimp only [Move.input, NativeController.step]
    split
    · rename_i hwired
      apply h.callback
      rw [← h.length]
      exact NativeRun.lt_of_transport hwired
    · exact h
  | retire index =>
    dsimp only [Move.input, NativeController.step]
    split
    · have herased : Labelled allowed hosts { c with retireTimers := c.retireTimers.erase index } :=
        h.same rfl rfl rfl
      exact herased.retire attempts index
    · exact h

end

end psx.transport.NativeController
