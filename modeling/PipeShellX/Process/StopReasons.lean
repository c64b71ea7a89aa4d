-- The reasons for which the workers of a run stop. A teardown marks whom it finds unfinished, and
-- a worker keeps its first reason unless a second teardown finds it unfinished again.
import Mathlib.Data.List.TakeWhile
import PipeShellX.Process.RemoteResult
import PipeShellX.Process.WorkerRuns

namespace psx.process.WorkerRun

open psx.os (Waits)
open psx.stream (SpoolAnswers)

variable {r r' : WorkerRun} {index : Nat}

/-! ## Reasons -/

/-- The reasons that a worker shows. -/
def reasons (w : Worker) : List StopReason :=
  (if w.timedOut then [.Deadline] else []) ++ (if w.cancelled then [.Cancel] else []) ++
    if w.aborted then [.FailFast] else []

/-- Why an event stops a worker. -/
def stopOf (index : Nat) : Event → Option StopReason
  | .marked other reason => if other = index then some reason else none
  | _ => none

/-- The reason of the first teardown that reached the worker while it was not finished. -/
def firstStop (index : Nat) (log : List Event) : Option StopReason :=
  (log.takeWhile (· ≠ .counted index)).findSome? (stopOf index)

/-- What a result says of a worker that was stopped. -/
def told : StopReason → String
  | .Deadline => "ERROR: command timed out"
  | .Cancel => "ERROR: cancelled"
  | .FailFast => "ERROR: aborted (fail-fast)"

/-- Each worker shows the reason of the first teardown that reached it, and no other one. -/
structure OneReason (r : WorkerRun) : Prop where
  shows : ∀ index < r.workers.length,
    reasons (r.worker index) = (firstStop index r.log).toList
  told : ∀ index < r.workers.length, ∀ reason, firstStop index r.log = some reason →
    (clientResult (r.worker index)).errorMessage = told reason

/-! ## When it holds -/

/-- No unfinished worker from `first` on has a reason yet. -/
def CleanFrom (r : WorkerRun) (first : Nat) : Prop :=
  ∀ index < r.workers.length, first ≤ index → (r.worker index).counted = false →
    reasons (r.worker index) = []

/-- No worker was stopped yet. -/
def Clean (r : WorkerRun) : Prop := r.CleanFrom 0

/-- A failure would abort the run. -/
def CanAbort (r : WorkerRun) : Prop :=
  r.failFast = true ∧ r.aborted = false ∧ r.cancelled = false

/-- The worker was spawned and is not over. -/
def AtWork (r : WorkerRun) (index : Nat) : Prop :=
  index < r.nextToSpawn ∧ index ∉ r.retryQueue ∧ (r.worker index).complete = false

/-- A deadline or a signal comes before any other teardown left somebody unfinished, and the
deadline of a run that a failure would abort finds nobody at work, or only the last worker. -/
def Spares (r : WorkerRun) : Input → Prop
  | .signal => r.cancelled = true ∨ r.Clean
  | .fire _ _ =>
    r.due.head? = some .Deadline →
      r.Clean ∧ (r.CanAbort → (∃ index, r.AtWork index) → r.remaining ≤ 1)
  | _ => True

/-- The states of a run whose deadlines and signals spare the workers. -/
inductive Spared (settings : Settings) : WorkerRun → Prop
  | begin (start : Nat → Start) : Spared settings (begin settings start)
  | step {r : WorkerRun} (input : Input) :
      Spared settings r → r.Enabled input → r.Spares input → Spared settings (r.step input)

/-! ## The log -/

section

variable {log : List Event} {e : Event}

/-- Only a teardown gives a reason. -/
theorem firstStop_snoc (he : stopOf index e = none) :
    firstStop index (log ++ [e]) = firstStop index log := by
  unfold firstStop
  by_cases hall : ∀ x ∈ log, x ≠ .counted index
  · have htake : log.takeWhile (· ≠ .counted index) = log :=
      List.takeWhile_eq_self_iff.mpr (by simpa using hall)
    rw [List.takeWhile_append, htake, if_pos rfl, List.findSome?_append]
    have hnone : ([e].takeWhile (· ≠ .counted index)).findSome? (stopOf index) = none := by
      by_cases hcounted : e ≠ .counted index <;> simp [hcounted, he]
    rw [hnone, Option.or_none]
  · have hshort : (log.takeWhile (· ≠ .counted index)).length ≠ log.length := by
      intro hlength
      apply hall
      have hself := (List.takeWhile_prefix (· ≠ Event.counted index)).eq_of_length hlength
      simpa using List.takeWhile_eq_self_iff.mp hself
    rw [List.takeWhile_append, if_neg hshort]

/-- The first teardown that reaches a worker before it is counted. -/
theorem firstStop_marked {reason : StopReason} (hopen : .counted index ∉ log)
    (hnone : firstStop index log = none) :
    firstStop index (log ++ [.marked index reason]) = some reason := by
  have hall : ∀ x ∈ log, x ≠ .counted index := fun x hx heq => hopen (heq ▸ hx)
  have htake : log.takeWhile (· ≠ .counted index) = log :=
    List.takeWhile_eq_self_iff.mpr (by simpa using hall)
  unfold firstStop at hnone ⊢
  rw [htake] at hnone
  rw [List.takeWhile_append, htake, if_pos rfl, List.findSome?_append, hnone]
  simp [stopOf]

end

/-! ## Steps that give no reason -/

/-- Every worker shows its first reason. -/
def Shows (r : WorkerRun) : Prop :=
  ∀ index, reasons (r.worker index) = (firstStop index r.log).toList

/-- Workers are counted, spawned and reaped, and nobody is given a reason. -/
structure Alike (r r' : WorkerRun) : Prop where
  length : r'.workers.length = r.workers.length
  reasons : ∀ index, reasons (r'.worker index) = reasons (r.worker index)
  counted : ∀ index, (r.worker index).counted = true → (r'.worker index).counted = true
  remaining : r'.remaining ≤ r.remaining
  failFast : r'.failFast = r.failFast
  aborted : r'.aborted = r.aborted
  cancelled : r'.cancelled = r.cancelled
  stop : ∀ index, firstStop index r'.log = firstStop index r.log
  teardown : ∀ reason, .teardown reason ∈ r'.log ↔ .teardown reason ∈ r.log

theorem Alike.refl (r : WorkerRun) : Alike r r where
  length := rfl
  reasons := fun _ => rfl
  counted := fun _ h => h
  remaining := Nat.le_refl _
  failFast := rfl
  aborted := rfl
  cancelled := rfl
  stop := fun _ => rfl
  teardown := fun _ => Iff.rfl

theorem Alike.trans {r₁ r₂ r₃ : WorkerRun} (h : Alike r₁ r₂) (h' : Alike r₂ r₃) : Alike r₁ r₃ where
  length := h'.length.trans h.length
  reasons := fun index => (h'.reasons index).trans (h.reasons index)
  counted := fun index hc => h'.counted index (h.counted index hc)
  remaining := h'.remaining.trans h.remaining
  failFast := h'.failFast.trans h.failFast
  aborted := h'.aborted.trans h.aborted
  cancelled := h'.cancelled.trans h.cancelled
  stop := fun index => (h'.stop index).trans (h.stop index)
  teardown := fun reason => (h'.teardown reason).trans (h.teardown reason)

/-- One worker changes, in what is neither a reason nor its count. -/
theorem alike_setWorker (r : WorkerRun) (index : Nat) {f : Worker → Worker}
    (hreasons : ∀ w, reasons (f w) = reasons w)
    (hcounted : ∀ w, w.counted = true → (f w).counted = true) : Alike r (r.setWorker index f) := by
  have hworker : ∀ other, (r.setWorker index f).worker other = r.worker other ∨
      (r.setWorker index f).worker other = f (r.worker other) := by
    intro other
    by_cases hlt : index < r.workers.length
    · rw [worker_setWorker hlt]
      by_cases heq : other = index
      · rw [if_pos heq, heq]
        exact .inr rfl
      · rw [if_neg heq]
        exact .inl rfl
    · rw [setWorker_of_le (by omega)]
      exact .inl rfl
  refine { Alike.refl r with length := setWorker_length, reasons := ?_, counted := ?_ }
  · intro other
    rcases hworker other with heq | heq
    · rw [heq]
    · rw [heq, hreasons]
  · intro other hc
    rcases hworker other with heq | heq
    · rw [heq]
      exact hc
    · rw [heq]
      exact hcounted _ hc

theorem alike_note (r : WorkerRun) {e : Event} (hmark : ∀ index, stopOf index e = none)
    (hteardown : ∀ reason, e ≠ .teardown reason) : Alike r (r.note e) :=
  { Alike.refl r with
    stop := fun index => firstStop_snoc (hmark index)
    teardown := fun reason => by
      simp [WorkerRun.note, Ne.symm (hteardown reason)] }

theorem alike_count (r : WorkerRun) (index : Nat) : Alike r (r.count index) := by
  have hworker := alike_setWorker r index (f := fun w => { w with counted := true })
    (fun _ => rfl) (fun _ _ => rfl)
  have hnote := alike_note (r.setWorker index fun w => { w with counted := true })
    (e := .counted index) (fun _ => rfl) (fun _ => nofun)
  exact { hworker.trans hnote with remaining := Nat.sub_le _ _ }

theorem alike_schedule (r : WorkerRun) (index : Nat) : Alike r (r.scheduleRetry index) :=
  { alike_setWorker r index
      (f := fun w => { w with awaitingRetry := true, attempt := w.attempt + 1 })
      (fun _ => rfl) (fun _ h => h) with }

theorem alike_ended (r : WorkerRun) (index : Nat) : Alike r (r.setWorker index Worker.endNow) :=
  alike_setWorker r index (fun _ => rfl) (fun _ h => h)

theorem Alike.shows (h : Alike r r') (hshows : r.Shows) : r'.Shows := by
  intro index
  rw [h.reasons, h.stop]
  exact hshows index

theorem Alike.clean (h : Alike r r') {first : Nat} (hclean : r.CleanFrom first) :
    r'.CleanFrom first := by
  intro index hlt hfirst hcounted
  rw [h.reasons]
  apply hclean index _ hfirst
  · by_contra hc
    rw [Bool.not_eq_false] at hc
    rw [h.counted index hc] at hcounted
    cases hcounted
  · rw [← h.length]
    exact hlt

theorem Alike.canAbort (h : Alike r r') : r'.CanAbort ↔ r.CanAbort := by
  unfold CanAbort
  rw [h.failFast, h.aborted, h.cancelled]

/-! ## A reason is given -/

theorem reasons_mark {w : Worker} (h : reasons w = []) (reason : StopReason) :
    reasons (w.mark reason) = [reason] := by
  have hnone : w.timedOut = false ∧ w.cancelled = false ∧ w.aborted = false := by
    unfold reasons at h
    cases htimedOut : w.timedOut <;> cases hcancelled : w.cancelled <;>
      cases haborted : w.aborted <;> simp_all
  obtain ⟨htimedOut, hcancelled, haborted⟩ := hnone
  cases reason <;> simp [reasons, Worker.mark, htimedOut, hcancelled, haborted]

theorem not_counted (h : Sound none r) (hcounted : (r.worker index).counted = false) :
    .counted index ∉ r.log := by
  have hcounts : r.log.count (.counted index) = (r.worker index).counted.toNat :=
    (h.ok index).counts
  rw [hcounted] at hcounts
  exact List.count_eq_zero.mp hcounts

theorem Shows.mark (h : r.Shows) (hlt : index < r.workers.length)
    (hopen : .counted index ∉ r.log) (hnone : reasons (r.worker index) = [])
    (reason : StopReason) : (r.mark index reason).Shows := by
  intro other
  change reasons ((r.setWorker index _).worker other) =
    (firstStop other (r.log ++ [.marked index reason])).toList
  by_cases heq : other = index
  · rw [heq, worker_setWorker_self hlt, reasons_mark hnone]
    have hfirst : firstStop index r.log = none := by
      have hshows := h index
      rw [hnone] at hshows
      simpa using hshows.symm
    rw [firstStop_marked hopen hfirst]
    rfl
  · rw [worker_setWorker_ne heq, firstStop_snoc (by simp [stopOf, Ne.symm heq])]
    exact h other

/-! ## A teardown that starts no other one -/

/-- No failure starts another teardown. -/
def Quiet (r : WorkerRun) : Prop := r.CanAbort → r.remaining ≤ 1

theorem Alike.quiet (h : Alike r r') (hquiet : r.Quiet) : r'.Quiet := by
  intro hcan
  exact h.remaining.trans (hquiet (h.canAbort.mp hcan))

/-- An account is about one worker and gives no reason, or it aborts the run. -/
theorem accountThen_split (abort : WorkerRun → WorkerRun) (r : WorkerRun) (index : Nat) :
    Alike r (accountThen abort r index) ∧
        (accountThen abort r index).retryQueue = r.retryQueue ∧
        (∀ other, other ≠ index → (accountThen abort r index).worker other = r.worker other) ∨
      accountThen abort r index = abort { r.count index with aborted := true } ∧
        Ended (r.worker index) ∧ r.remaining - 1 ≠ 0 ∧ r.CanAbort := by
  rcases accountThen_cases abort r index with
    ⟨heq, -⟩ | ⟨hended, ⟨heq, -⟩ | ⟨heq, -⟩ | ⟨heq, -⟩ | ⟨heq, hmore, haborts⟩⟩
  · rw [heq]
    exact .inl ⟨Alike.refl r, rfl, fun _ _ => rfl⟩
  · rw [heq]
    exact .inl ⟨alike_schedule r index, rfl, fun _ hne => worker_setWorker_ne hne⟩
  · rw [heq]
    exact .inl ⟨(alike_count r index).trans (alike_note _ (fun _ => rfl) fun _ => nofun), rfl,
      fun _ hne => worker_setWorker_ne hne⟩
  · rw [heq]
    exact .inl ⟨alike_count r index, rfl, fun _ hne => worker_setWorker_ne hne⟩
  · exact .inr ⟨heq, hended, hmore, haborts.1, haborts.2.1, haborts.2.2.1⟩

theorem Quiet.account (h : r.Quiet) (abort : WorkerRun → WorkerRun) (index : Nat) :
    Alike r (accountThen abort r index) ∧
      (accountThen abort r index).retryQueue = r.retryQueue ∧
      ∀ other, other ≠ index → (accountThen abort r index).worker other = r.worker other := by
  rcases accountThen_split abort r index with hsplit | ⟨-, -, hmore, hcan⟩
  · exact hsplit
  · have hlast := h hcan
    omega

/-- What the loops of a teardown keep, when the one over all workers stands at `first`. -/
structure Marking (reason : StopReason) (first : Nat) (r : WorkerRun) : Prop where
  sound : Sound none r
  force : r.InForce reason
  shows : r.Shows
  clean : r.CleanFrom first
  quiet : r.Quiet

section

variable {abort : WorkerRun → WorkerRun} {reason : StopReason} {first : Nat}

/-- One more worker is counted, and the others show what they showed. -/
theorem CleanFrom.settle (h : r.CleanFrom first) (hlength : r'.workers.length = r.workers.length)
    (hcounted : (r'.worker index).counted = true)
    (hmono : ∀ other, other ≠ index → (r.worker other).counted = true →
      (r'.worker other).counted = true)
    (hreasons : ∀ other, other ≠ index →
      reasons (r'.worker other) = reasons (r.worker other)) : r'.CleanFrom first := by
  intro other hless hfirst hopen
  have hne : other ≠ index := by
    rintro rfl
    rw [hcounted] at hopen
    cases hopen
  rw [hreasons other hne]
  apply h other (hlength ▸ hless) hfirst
  by_contra hc
  rw [hmono other hne (by simpa using hc)] at hopen
  cases hopen

/-- A worker is marked and accounted for. `r'` is the run in between. -/
theorem Marking.settle (h : Marking reason first r) (habort : Safe abort)
    (hsound : Sound (some index) r') (hforce : r'.InForce reason) (hshows : r'.Shows)
    (hquiet : r'.Quiet) (hlength : r'.workers.length = r.workers.length)
    (hworker : ∀ other, other ≠ index → r'.worker other = r.worker other)
    (hcomplete : (r'.worker index).complete = true) (hdone : r'.Done index) :
    Marking reason first (accountThen abort r' index) := by
  obtain ⟨haccount, -, -⟩ := hquiet.account abort index
  obtain ⟨hafter, hcalm⟩ := hsound.accountThen habort
  refine ⟨hafter, hforce.calm hcalm, haccount.shows hshows,
    h.clean.settle (haccount.length.trans hlength)
      (hsound.accountThen_counted habort hcomplete hdone) (fun other hne hc => ?_)
      fun other hne => ?_, haccount.quiet hquiet⟩
  · apply haccount.counted
    rw [hworker other hne]
    exact hc
  · rw [haccount.reasons, hworker other hne]

/-- A worker that never got a slot, or waits for one again, ends. -/
theorem Marking.finish (h : Marking reason 0 r) (habort : Safe abort)
    (hlt : index < r.workers.length) (hfresh : Fresh (r.worker index))
    (hidle : (r.view index).taken = false ∨ (r.view index).queued = true) {next : Nat}
    (hindex : index < next)
    (hnext : ∀ other, other ≠ index → (other < next ↔ other < r.nextToSpawn))
    (hle : next ≤ r.workers.length) :
    Marking reason 0 (WorkerRun.finish abort reason (r.takeNext next) index) := by
  have hsound := h.sound.ended hlt (.inl hidle) h.force hindex hnext hle
  have hnone := h.clean index hlt (Nat.zero_le _) hfresh.2.2.1
  have hmark : ((r.takeNext next).mark index reason).Shows :=
    h.shows.mark hlt (not_counted h.sound hfresh.2.2.1) hnone reason
  have hended := alike_ended ((r.takeNext next).mark index reason) index
  have hcalm := ended_calm (r.takeNext next) reason index
  have hforce : (r.takeNext next).InForce reason := by
    have hforce := h.force
    cases reason <;> exact hforce
  have hcomplete : (((r.takeNext next).ended reason index).worker index).complete = true :=
    complete_ended hlt
  have hdone : ((r.takeNext next).ended reason index).Done index := by
    have hworker : ((r.takeNext next).ended reason index).worker index =
        ((r.worker index).mark reason).endNow := worker_ended hlt
    refine .inr ⟨?_, ?_⟩
    · rw [hworker]
      cases reason <;> exact hfresh.2.2.2
    · unfold Stopped
      rw [hworker]
      cases reason with
      | Deadline => exact .inr (.inr rfl)
      | Cancel => exact .inl hforce
      | FailFast => exact .inr (.inl hforce)
  refine h.settle habort hsound (hforce.calm hcalm) (hended.shows hmark)
    (hended.quiet h.quiet) hcalm.length (fun other hne => ?_) hcomplete hdone
  exact congrArg View.worker (view_ended_ne (r.takeNext next) reason hne)

/-- The loop over the queue. Nobody clears the queue on the way. -/
theorem Marking.queueLoop (habort : Safe abort) (queue : List Nat) (r : WorkerRun)
    (h : Marking reason 0 r) (hnodup : queue.Nodup)
    (hqueue : ∀ index ∈ queue, index ∈ r.retryQueue ∧ Fresh (r.worker index)) :
    Marking reason 0 (queue.foldl (WorkerRun.finish abort reason) r) := by
  induction queue generalizing r with
  | nil => exact h
  | cons index queue ih =>
    obtain ⟨hin, hfresh⟩ := hqueue index (by simp)
    have hqueued : (r.view index).queued = true := by simpa [view] using hin
    have htaken : index < r.nextToSpawn := by
      simpa [view] using (h.sound.ok_none index).taken_of_queued hqueued
    have hlt := Nat.lt_of_lt_of_le htaken h.sound.next_le
    have hnext :=
      h.finish habort hlt hfresh (.inr hqueued) htaken (fun _ _ => Iff.rfl) h.sound.next_le
    have hquiet : (r.ended reason index).Quiet := h.quiet
    obtain ⟨-, hsame, hworker⟩ := hquiet.account abort index
    rw [List.nodup_cons] at hnodup
    rw [List.foldl_cons]
    refine ih _ hnext hnodup.2 fun other hother => ?_
    have hne : other ≠ index := fun heq => hnodup.1 (heq ▸ hother)
    obtain ⟨hin', hfresh'⟩ := hqueue other (by simp [hother])
    refine ⟨hsame ▸ hin', ?_⟩
    have hended : (r.ended reason index).worker other = r.worker other :=
      congrArg View.worker (view_ended_ne r reason hne)
    have hfinish : (WorkerRun.finish abort reason r index).worker other = r.worker other :=
      (hworker other hne).trans hended
    rw [hfinish]
    exact hfresh'

theorem Marking.pendingLoop (habort : Safe abort) (h : Marking reason 0 r) (fuel : Nat) :
    Marking reason 0 (Loop.run (WorkerRun.pendingBody abort reason) fuel r).1 := by
  apply Loop.run_induction (WorkerRun.pendingBody abort reason) (fun r' _ => Marking reason 0 r')
    _ fuel r [] h
  intro r₁ _ r₂ events hmarking hbody
  obtain ⟨hlt, rfl⟩ := pendingBody_some hbody
  have huntaken : (r₁.view r₁.nextToSpawn).taken = false := by simp [view]
  exact hmarking.finish habort hlt ((hmarking.sound.ok_none _).untaken huntaken).2.1
    (.inl huntaken) (Nat.lt_succ_self _) (fun other hne => by omega) hlt

/-- A backoff that ends with a reason, before its account. -/
theorem shows_unawaited (hshows : r.Shows) (hsound : Sound none r) (hlt : index < r.workers.length)
    (hcounted : (r.worker index).counted = false) (hnone : reasons (r.worker index) = []) :
    (r.unawaited reason index).Shows := by
  have halike := alike_setWorker r index (f := fun w => { w with awaitingRetry := false })
    (fun _ => rfl) (fun _ h => h)
  have hopen : .counted index ∉ r.log := not_counted hsound hcounted
  refine (halike.shows hshows).mark (by rw [setWorker_length]; exact hlt) hopen ?_ reason
  rw [halike.reasons, hnone]

theorem Marking.stopWorker (h : Marking reason index r) (habort : Safe abort)
    (hlt : index < r.workers.length) :
    Marking reason (index + 1) (WorkerRun.stopWorker abort reason r index) := by
  have hlater : ∀ {r' : WorkerRun}, Marking reason index r' → Marking reason (index + 1) r' :=
    fun h => { h with clean := fun other hless hfirst => h.clean other hless (by omega) }
  unfold WorkerRun.stopWorker
  dsimp only
  by_cases hcounted : (r.worker index).counted = true
  · rw [if_pos hcounted]
    exact hlater h
  rw [if_neg hcounted]
  rw [Bool.not_eq_true] at hcounted
  have hnone := h.clean index hlt (Nat.le_refl _) hcounted
  by_cases hawaiting : (r.worker index).awaitingRetry = true
  · rw [if_pos hawaiting]
    have hcomplete : (r.worker index).complete = true := (h.sound.ok_none index).awaiting hawaiting
    have hcalm : Calm r (r.unawaited reason index) := unawaited_calm h.force
    exact hlater (h.settle habort (h.sound.unawaited hcomplete h.force) (h.force.calm hcalm)
      (shows_unawaited h.shows h.sound hlt hcounted hnone) h.quiet hcalm.length
      (fun other hne => congrArg View.worker (view_unawaited_ne r reason hne))
      (hcalm.complete index hcomplete) (unawaited_done hlt h.force))
  rw [if_neg hawaiting]
  by_cases hcomplete : (r.worker index).complete = true
  · rw [if_pos hcomplete]
    exact hlater h
  rw [if_neg hcomplete]
  have hcalm := mark_calm r index reason
  refine ⟨h.sound.mark hlt reason, h.force.calm hcalm,
    h.shows.mark hlt (not_counted h.sound hcounted) hnone reason, ?_, h.quiet⟩
  intro other hless hfirst hopen
  have hworker : (r.mark index reason).worker other = r.worker other :=
    worker_setWorker_ne (by omega)
  rw [hworker] at hopen ⊢
  exact h.clean other (hcalm.length ▸ hless) (by omega) hopen

theorem Marking.stopLoop (habort : Safe abort) (h : Marking reason 0 r) (count : Nat)
    (hcount : count ≤ r.workers.length) :
    Marking reason count ((List.range count).foldl (WorkerRun.stopWorker abort reason) r) ∧
      ((List.range count).foldl (WorkerRun.stopWorker abort reason) r).workers.length =
        r.workers.length := by
  induction count with
  | zero => exact ⟨h, rfl⟩
  | succ count ih =>
    obtain ⟨hmarking, hlength⟩ := ih (by omega)
    rw [List.range_succ, List.foldl_append]
    have hlt : count < ((List.range count).foldl (WorkerRun.stopWorker abort reason)
        r).workers.length := by omega
    have hphase := (hmarking.sound.stopWorker habort hmarking.force hlt).1
    exact ⟨hmarking.stopWorker habort hlt, hphase.calm.length.trans hlength⟩

/-- A teardown that starts no other one gives each unfinished worker its one reason. -/
theorem teardownThen_shows (habort : Safe abort) (h : Sound none r)
    (hqueue : ∀ index ∈ r.retryQueue, Fresh (r.worker index)) (hshows : r.Shows) (hclean : r.Clean)
    (hforce : reason = .FailFast → r.aborted = true) (hquiet : (r.beginTeardown reason).Quiet) :
    (teardownThen abort reason r).Shows := by
  have hbegin := h.beginTeardown hforce
  have hfirst : ∀ index, firstStop index (r.beginTeardown reason).log = firstStop index r.log :=
    fun _ => firstStop_snoc rfl
  have hmarking : Marking reason 0 (r.beginTeardown reason) := by
    refine ⟨hbegin.sound, hbegin.force, fun index => ?_, hclean, hquiet⟩
    rw [hfirst]
    exact hshows index
  have hloop := hmarking.queueLoop habort r.retryQueue _ h.queue
    fun index hin => ⟨hin, hqueue index hin⟩
  have hclear := hbegin.sound.queueLoop habort hbegin.force
  have hcleared := (Marking.pendingLoop habort
    { hloop with sound := hclear.sound, force := hclear.force })
  unfold teardownThen
  have hdrain : ∀ r : WorkerRun, r.Shows → r.armDrain.Shows := by
    intro r hr
    unfold armDrain
    split_ifs <;> exact hr
  exact hdrain _ (Marking.stopLoop habort (hcleared _) _ (Nat.le_refl _)).1.shows

end

/-! ## A teardown in the middle of another one -/

/-- Everybody who is not counted backs off. -/
def BackingOff (r : WorkerRun) : Prop :=
  ∀ index < r.workers.length, (r.worker index).counted = false →
    (r.worker index).awaitingRetry = true

/-- A teardown counts everybody who backs off. -/
theorem counted_of_torn (hsound : Sound none r) (hafter : Sound none r') (hcalm : Calm r r')
    (htorn : r'.Torn) (hback : r.BackingOff) (hlt : index < r'.workers.length) :
    (r'.worker index).counted = true := by
  by_contra hcounted
  rw [Bool.not_eq_true] at hcounted
  rcases htorn.done index hlt with hc | ⟨hawaiting, -⟩
  · rw [hcounted] at hc
    cases hc
  have hopen : (r'.worker index).complete = false :=
    (hafter.ok_none index).settled hcounted hawaiting
  have hold : (r.worker index).counted = false := by
    by_contra hc
    rw [hcalm.counted index (by simpa using hc)] at hcounted
    cases hcounted
  have hcomplete : (r.worker index).complete = true :=
    (hsound.ok_none index).awaiting (hback index (hcalm.length ▸ hlt) hold)
  rw [hcalm.complete index hcomplete] at hopen
  cases hopen

/-- The run after the failure that aborts it. -/
def failed (r : WorkerRun) (index : Nat) : WorkerRun := { r.count index with aborted := true }

theorem Sound.abortable (h : Sound (some index) r) (hended : Ended (r.worker index))
    (hmore : r.remaining - 1 ≠ 0) : Sound none (r.failed index) := by
  have hlt := lt_of_complete hended.complete
  have hbooks := h.books.count (h.remaining_pos hended.counted hlt) index
  rw [if_neg hmore] at hbooks
  exact (h.counted hended.complete hended.awaiting hended.counted (.inl rfl) hbooks).of_aborted

theorem worker_failed_ne {other : Nat} (hne : other ≠ index) :
    (r.failed index).worker other = r.worker other := worker_setWorker_ne hne

theorem counted_failed (hlt : index < r.workers.length) :
    ((r.failed index).worker index).counted = true := by
  change ((r.setWorker index _).worker index).counted = true
  rw [worker_setWorker_self hlt]

/-- The abort of a run in which no unfinished worker has a reason. -/
theorem abortRest_shows (h : Sound none r) (haborted : r.aborted = true)
    (hqueue : ∀ index ∈ r.retryQueue, Fresh (r.worker index)) (hshows : r.Shows)
    (hclean : r.Clean) : r.abortRest.Shows := by
  refine teardownThen_shows safe_id h hqueue hshows hclean (fun _ => haborted) fun hcan => ?_
  have hnot : r.aborted = false := hcan.2.1
  rw [haborted] at hnot
  cases hnot

/-- What the loop over all workers keeps when nobody is at work. -/
structure Backing (reason : StopReason) (r : WorkerRun) : Prop where
  sound : Sound none r
  force : r.InForce reason
  shows : r.Shows
  clean : r.Clean
  queue : r.retryQueue = []
  back : r.BackingOff

theorem Backing.stopWorker {reason : StopReason} (h : Backing reason r)
    (hlt : index < r.workers.length) :
    Backing reason (stopWorker abortRest reason r index) := by
  unfold WorkerRun.stopWorker
  dsimp only
  by_cases hcounted : (r.worker index).counted = true
  · rw [if_pos hcounted]
    exact h
  rw [if_neg hcounted]
  rw [Bool.not_eq_true] at hcounted
  have hawaiting := h.back index hlt hcounted
  rw [if_pos hawaiting]
  have hnone := h.clean index hlt (Nat.zero_le _) hcounted
  have hcomplete : (r.worker index).complete = true := (h.sound.ok_none index).awaiting hawaiting
  have hsound := h.sound.unawaited hcomplete h.force
  have hcalm : Calm r (r.unawaited reason index) := unawaited_calm h.force
  have hshows : (r.unawaited reason index).Shows :=
    shows_unawaited h.shows h.sound hlt hcounted hnone
  have hworker : ∀ other, other ≠ index →
      (r.unawaited reason index).worker other = r.worker other :=
    fun other hne => congrArg View.worker (view_unawaited_ne r reason hne)
  have hover := hcalm.complete index hcomplete
  have hdone := unawaited_done hlt h.force
  obtain ⟨hafter, hrest⟩ := hsound.accountThen safe_abortRest
  have hcount := hsound.accountThen_counted safe_abortRest hover hdone
  change Backing reason (accountThen abortRest (r.unawaited reason index) index)
  rcases accountThen_split abortRest (r.unawaited reason index) index with
    ⟨halike, hqueue, hothers⟩ | ⟨heq, hended, hmore, -⟩
  · have hsame : ∀ other, other ≠ index →
        (accountThen abortRest (r.unawaited reason index) index).worker other = r.worker other :=
      fun other hne => (hothers other hne).trans (hworker other hne)
    refine ⟨hafter, h.force.calm (hcalm.trans hrest), halike.shows hshows, ?_,
      hqueue.trans h.queue, fun other hless hopen => ?_⟩
    · exact h.clean.settle (halike.length.trans hcalm.length) hcount
        (fun other hne hc => by rw [hsame other hne, hc]) fun other hne => by rw [hsame other hne]
    · have hne : other ≠ index := by
        rintro rfl
        rw [hcount] at hopen
        cases hopen
      rw [hsame other hne] at hopen ⊢
      exact h.back other ((halike.length.trans hcalm.length) ▸ hless) hopen
  -- The nested teardown finishes everybody else.
  · have hfailed := hsound.abortable hended hmore
    have hlength : ((r.unawaited reason index).failed index).workers.length = r.workers.length :=
      setWorker_length.trans hcalm.length
    have hsame : ∀ other, other ≠ index →
        ((r.unawaited reason index).failed index).worker other = r.worker other :=
      fun other hne => (worker_failed_ne hne).trans (hworker other hne)
    have hself : (((r.unawaited reason index).failed index).worker index).counted = true :=
      counted_failed (hcalm.length ▸ hlt)
    have hclean : ((r.unawaited reason index).failed index).Clean :=
      h.clean.settle hlength hself (fun other hne hc => by rw [hsame other hne, hc])
        fun other hne => by rw [hsame other hne]
    have hback : ((r.unawaited reason index).failed index).BackingOff := by
      intro other hless hopen
      have hne : other ≠ index := by
        rintro rfl
        rw [hself] at hopen
        cases hopen
      rw [hsame other hne] at hopen ⊢
      exact h.back other (hlength ▸ hless) hopen
    have hqueue : ((r.unawaited reason index).failed index).retryQueue = [] := h.queue
    have hnested : ((r.unawaited reason index).failed index).abortRest.Shows := by
      refine abortRest_shows hfailed rfl (fun other hin => ?_)
        ((alike_count _ index).shows hshows) hclean
      rw [hqueue] at hin
      cases hin
    obtain ⟨hsound', hcalm', htorn⟩ :=
      hfailed.teardownThen safe_id fun _ : StopReason.FailFast = .FailFast => rfl
    have hall : ∀ other < ((r.unawaited reason index).failed index).abortRest.workers.length,
        (((r.unawaited reason index).failed index).abortRest.worker other).counted = true :=
      fun other hless => counted_of_torn hfailed hsound' hcalm' htorn hback hless
    rw [heq]
    rw [heq] at hrest
    refine ⟨hsound', h.force.calm (hcalm.trans hrest), hnested, fun other hless _ hopen => ?_,
      htorn.queue, fun other hless hopen => ?_⟩
    · exact absurd ((hall other hless).symm.trans hopen) nofun
    · exact absurd ((hall other hless).symm.trans hopen) nofun

theorem Backing.stopLoop {reason : StopReason} (h : Backing reason r) (workers : List Nat)
    (hworkers : ∀ index ∈ workers, index < r.workers.length) :
    Backing reason (workers.foldl (WorkerRun.stopWorker abortRest reason) r) := by
  induction workers generalizing r with
  | nil => exact h
  | cons index workers ih =>
    have hlt := hworkers index (by simp)
    have hlength := (h.sound.stopWorker safe_abortRest h.force hlt).1.calm.length
    rw [List.foldl_cons]
    apply ih (h.stopWorker hlt)
    intro other hin
    rw [hlength]
    exact hworkers other (by simp [hin])

/-- Nobody waits for a slot when nobody is at work. -/
theorem Between.backing_off (h : Between r) (hslots : r.workers ≠ [] → 0 < r.concurrency)
    (hidle : ¬ ∃ index, r.AtWork index) :
    r.retryQueue = [] ∧ r.workers.length ≤ r.nextToSpawn ∧ r.BackingOff := by
  have hnone : r.inFlight = 0 := by
    by_contra hsome
    rw [h.steady.sound.inFlight] at hsome
    obtain ⟨w, hin, hrunning⟩ := List.countP_pos_iff.mp (Nat.pos_of_ne_zero hsome)
    obtain ⟨index, hlt, rfl⟩ := List.mem_iff_getElem.mp hin
    have hworker : r.worker index = r.workers[index] := List.getD_eq_getElem _ _ hlt
    rw [← hworker] at hrunning
    obtain ⟨htaken, hqueued, hopen⟩ := (h.steady.sound.ok_none index).alive hrunning
    exact hidle ⟨index, by simpa [view] using htaken, by simpa [view] using hqueued, hopen⟩
  have hfull : ¬ (r.retryQueue ≠ [] ∨ r.nextToSpawn < r.workers.length) := by
    intro hwaits
    have hsome : r.workers ≠ [] := by
      rintro hnil
      obtain ⟨index, hin⟩ : ∃ index, index ∈ r.retryQueue := by
        rcases hwaits with hqueue | hlt
        · exact List.exists_mem_of_ne_nil _ hqueue
        · simp [hnil] at hlt
      have htaken : index < r.nextToSpawn := by
        have hqueued : (r.view index).queued = true := by simpa [view] using hin
        simpa [view] using (h.steady.sound.ok_none index).taken_of_queued hqueued
      have hle := h.steady.sound.next_le
      simp only [hnil, List.length_nil] at hle
      omega
    have hfull := h.full hwaits
    have hslot := hslots hsome
    omega
  obtain ⟨hqueue, hnext⟩ := not_or.mp hfull
  rw [not_not] at hqueue
  refine ⟨hqueue, by omega, fun index hlt hcounted => ?_⟩
  by_contra hawaiting
  rw [Bool.not_eq_true] at hawaiting
  have hopen : (r.worker index).complete = false :=
    (h.steady.sound.ok_none index).settled hcounted hawaiting
  exact hidle ⟨index, by omega, by simp [hqueue], hopen⟩

/-- The loop over an empty queue. -/
theorem empty_queue (h : r.retryQueue = []) (f : WorkerRun → Nat → WorkerRun) :
    { r.retryQueue.foldl f r with retryQueue := [] } = r := by
  rw [h, List.foldl_nil]
  cases r
  simp only at h
  rw [h]

/-- A teardown that finds no unfinished worker with a reason gives each of them one reason. -/
theorem Between.teardown_shows {reason : StopReason} (h : Between r)
    (hslots : r.workers ≠ [] → 0 < r.concurrency)
    (hshows : r.Shows) (hclean : r.Clean) (hforce : reason ≠ .FailFast)
    (hspares : reason = .Deadline → r.CanAbort → (∃ index, r.AtWork index) → r.remaining ≤ 1) :
    (r.teardown reason).Shows := by
  by_cases hquiet : (r.beginTeardown reason).Quiet
  · exact teardownThen_shows safe_abortRest h.steady.sound h.steady.tidy.queue hshows hclean
      (fun heq => absurd heq hforce) hquiet
  -- Only the deadline can start an abort, and then nobody is at work.
  obtain ⟨⟨hfailFast, haborted, hcancelled⟩, hmore⟩ := Classical.not_imp.mp hquiet
  simp only [beginTeardown, Bool.or_eq_false_iff, decide_eq_false_iff_not] at hcancelled
  have hreason : reason = .Deadline := by
    cases reason
    · rfl
    · exact absurd rfl hcancelled.2
    · exact absurd rfl hforce
  have hidle : ¬ ∃ index, r.AtWork index :=
    fun hwork => hmore (hspares hreason ⟨hfailFast, haborted, hcancelled.1⟩ hwork)
  obtain ⟨hqueue, hnext, hback⟩ := h.backing_off hslots hidle
  have hbegin := h.steady.sound.beginTeardown fun heq => absurd heq hforce
  have hbacking : Backing reason (r.beginTeardown reason) := by
    refine ⟨hbegin.sound, hbegin.force, fun index => ?_, hclean, hqueue, hback⟩
    have hfirst : firstStop index (r.beginTeardown reason).log = firstStop index r.log :=
      firstStop_snoc rfl
    rw [hfirst]
    exact hshows index
  have hclear : { (r.beginTeardown reason).retryQueue.foldl (finish abortRest reason)
      (r.beginTeardown reason) with retryQueue := [] } = r.beginTeardown reason := by
    have hnil : (r.beginTeardown reason).retryQueue = [] := hqueue
    exact empty_queue hnil _
  have hpending : pendingBody abortRest reason (r.beginTeardown reason) = none := by
    unfold pendingBody
    rw [if_neg]
    exact Nat.not_lt.mpr hnext
  unfold WorkerRun.teardown teardownThen
  dsimp only
  rw [hclear, Loop.run_none hpending]
  have hdrain : ∀ r : WorkerRun, r.Shows → r.armDrain.Shows := by
    intro r hr
    unfold armDrain
    split_ifs <;> exact hr
  exact hdrain _ (hbacking.stopLoop _ fun index hin => List.mem_range.mp hin).shows

/-! ## Callbacks -/

/-- What a spared run keeps. -/
structure Shown (r : WorkerRun) : Prop where
  shows : r.Shows
  quiet : r.Clean ∨ r.Quiet
  fresh : (∀ reason, .teardown reason ∉ r.log) → ∀ index, reasons (r.worker index) = []

theorem Shown.alike (h : Shown r) (halike : Alike r r') : Shown r' where
  shows := halike.shows h.shows
  quiet := h.quiet.imp (fun hc => halike.clean hc) (fun hq => halike.quiet hq)
  fresh := fun hnone index => by
    rw [halike.reasons]
    exact h.fresh (fun reason hin => hnone reason ((halike.teardown reason).mpr hin)) index

theorem Torn.shown (h : r.Torn) (hshows : r.Shows) (hquiet : r.Quiet) : Shown r where
  shows := hshows
  quiet := .inr hquiet
  fresh := fun hnone => by
    obtain ⟨reason, hin⟩ := h.begun
    exact absurd hin (hnone reason)

theorem Shown.account (h : Shown r) (hsound : Sound (some index) r) (htidy : r.Tidy) :
    Shown (r.account index) := by
  unfold WorkerRun.account
  rcases accountThen_split abortRest r index with ⟨halike, -⟩ | ⟨heq, hended, hmore, hcan⟩
  · exact h.alike halike
  have hclean : r.Clean := by
    refine h.quiet.resolve_right fun hquiet => ?_
    have hlast := hquiet hcan
    omega
  have hfailed := hsound.abortable hended hmore
  obtain ⟨-, hcalm, htorn⟩ :=
    hfailed.teardownThen safe_id fun _ : StopReason.FailFast = .FailFast => rfl
  have hshows : (r.failed index).abortRest.Shows := by
    refine abortRest_shows hfailed rfl (fun other hin => ?_)
      ((alike_count r index).shows h.shows) ((alike_count r index).clean hclean)
    have hne : other ≠ index := fun heq => htidy.not_queued hended.complete (heq ▸ hin)
    rw [worker_failed_ne hne]
    exact htidy.queue other hin
  rw [heq]
  refine htorn.shown hshows fun hagain => ?_
  have haborted := hcalm.aborted rfl
  exact absurd (haborted.symm.trans hagain.2.1) nofun

/-- Less is left than before. -/
theorem remaining_le (h : Sound none r) (h' : Sound none r') (hcalm : Calm r r') :
    r'.remaining ≤ r.remaining := by
  have htotal := h.books.total
  have htotal' := h'.books.total
  have hlog : r.log.countP Event.isCounted ≤ r'.log.countP Event.isCounted :=
    hcalm.log.sublist.countP_le
  rw [hcalm.length] at htotal'
  omega

theorem Shown.teardown {reason : StopReason} (h : Shown r) (hbetween : Between r)
    (hslots : r.workers ≠ [] → 0 < r.concurrency) (hclean : r.Clean) (hforce : reason ≠ .FailFast)
    (hspares : reason = .Deadline → r.CanAbort → (∃ index, r.AtWork index) → r.remaining ≤ 1) :
    Shown (r.teardown reason) := by
  have hsound := hbetween.steady.sound
  obtain ⟨hafter, hcalm, htorn⟩ := hsound.teardown fun heq => absurd heq hforce
  refine htorn.shown (hbetween.teardown_shows hslots h.shows hclean hforce hspares) ?_
  intro hcan
  have hfailFast : r.failFast = true := by
    have hlimits := limits_teardown r reason
    simp only [limits, Prod.mk.injEq] at hlimits
    rw [← hlimits.2.2.2]
    exact hcan.1
  have haborted : r.aborted = false := by
    by_contra hnot
    rw [Bool.not_eq_false] at hnot
    exact absurd ((hcalm.aborted hnot).symm.trans hcan.2.1) (by decide)
  have hcancelled : r.cancelled = false := by
    by_contra hnot
    rw [Bool.not_eq_false] at hnot
    exact absurd ((hcalm.cancelled hnot).symm.trans hcan.2.2) (by decide)
  cases reason with
  | Cancel =>
    have hset : (r.teardown .Cancel).cancelled = true :=
      hsound.teardownThen_force safe_abortRest fun heq => absurd heq hforce
    exact absurd (hset.symm.trans hcan.2.2) (by decide)
  | FailFast => exact absurd rfl hforce
  | Deadline =>
    by_cases hwork : ∃ index, r.AtWork index
    · exact (remaining_le hsound hafter hcalm).trans
        (hspares rfl ⟨hfailFast, haborted, hcancelled⟩ hwork)
    · obtain ⟨-, -, hback⟩ := hbetween.backing_off hslots hwork
      have hnone : ((r.teardown .Deadline).workers.countP fun w => !w.counted) = 0 := by
        rw [Counts.countP_eq_zero_iff_getD {}]
        intro index hlt
        have hcounted := counted_of_torn hsound hafter hcalm htorn hback hlt
        change (!((r.teardown .Deadline).worker index).counted) = false
        rw [hcounted]
        rfl
      rw [hafter.remaining, hnone]
      exact Nat.zero_le _

theorem alike_exited (r : WorkerRun) (index : Nat) (waits : Waits) :
    Alike r (r.exited index waits) :=
  { alike_setWorker r index (f := Worker.reaped waits) (fun _ => rfl) (fun _ h => h) with }

theorem Shown.childExited (h : Shown r) (hsteady : Steady r)
    (hrunning : (r.worker index).running = true) (waits : Waits) :
    Shown (r.childExited index waits) :=
  (h.alike (alike_exited r index waits)).account (hsteady.sound.exited hrunning waits)
    (hsteady.tidy.exited hsteady.sound hrunning waits)

section

variable {queue : List Nat} {next : Nat}

theorem alike_spawning (r : WorkerRun) (queue : List Nat) (next index : Nat) :
    Alike r (r.spawning queue next index) := by
  have htaking : Alike r (r.taking queue next) := { Alike.refl r with }
  have hworker := alike_setWorker (r.taking queue next) index
    (f := fun w => { w with spawned := true }) (fun _ => rfl) (fun _ h => h)
  exact (htaking.trans hworker).trans (alike_note _ (fun _ => rfl) fun _ => nofun)

theorem alike_failing (r : WorkerRun) (queue : List Nat) (next index : Nat) (message : Bytes) :
    Alike r (r.failing queue next index message) :=
  (alike_spawning r queue next index).trans
    (alike_setWorker _ index (fun _ => rfl) (fun _ h => h))

theorem alike_starting (r : WorkerRun) (queue : List Nat) (next index : Nat) (stdinClosed : Bool) :
    Alike r (r.starting queue next index stdinClosed) := by
  have hworker := alike_setWorker (r.spawning queue next index) index
    (f := fun w => { w with running := true, stdinClosed := w.stdinClosed || stdinClosed })
    (fun _ => rfl) (fun _ h => h)
  exact (alike_spawning r queue next index).trans { hworker with }

theorem Shown.spawn (h : Shown r) (hsteady : Steady r) (ht : Takes r index queue next)
    (hfree : r.inFlight < r.concurrency) (start : Start) :
    Shown ((r.taking queue next).spawn index start) := by
  cases start with
  | failed message =>
    obtain ⟨hsound, htidy⟩ := hsteady.failing ht message
    exact (h.alike (alike_failing r queue next index message)).account hsound htidy
  | running stdinClosed => exact h.alike (alike_starting r queue next index stdinClosed)
  | gone stdinClosed waits =>
    obtain ⟨hstarting, hrunning⟩ := hsteady.starting ht hfree stdinClosed
    exact (h.alike (alike_starting r queue next index stdinClosed)).childExited hstarting hrunning
      waits

end

theorem Shown.fillSlots (h : Shown r) (hsteady : Steady r) (start : Nat → Start) :
    Shown (r.fillSlots start) := by
  unfold WorkerRun.fillSlots
  split_ifs
  · exact h
  have hloop : Steady (Loop.run (fillBody start) r.spawnable { r with filling := true }).1 ∧
      Shown (Loop.run (fillBody start) r.spawnable { r with filling := true }).1 := by
    apply Loop.run_induction (fillBody start) (fun r' _ => Steady r' ∧ Shown r') _ r.spawnable
      { r with filling := true } [] ⟨hsteady.filling true, h.alike { Alike.refl r with }⟩
    rintro r₁ _ r₂ events ⟨hsteady₁, hshown₁⟩ hbody
    obtain ⟨index, queue, next, ht, hfree, rfl⟩ := fillBody_some hsteady₁ hbody
    exact ⟨(hsteady₁.spawn ht hfree (start index)).1, hshown₁.spawn hsteady₁ ht hfree (start index)⟩
  exact hloop.2.alike { Alike.refl _ with }

theorem alike_closeStream (r : WorkerRun) (index : Nat) (pipe : Pipe) :
    Alike r (r.closeStream index pipe) := by
  unfold closeStream
  split_ifs
  · exact Alike.refl r
  · have hworker := alike_setWorker r index (f := fun w => w.close pipe)
      (fun _ => by cases pipe <;> rfl) (fun _ h => by cases pipe <;> exact h)
    exact { hworker with }

theorem Shown.closeStream (h : Shown r) (hsteady : Steady r) {pipe : Pipe}
    (hwatched : (index, pipe) ∈ r.watched) :
    Shown ((r.closeStream index pipe).account index) := by
  obtain ⟨htaken, hqueued, hopen⟩ := hsteady.watched hwatched
  have hsound := (hsteady.sound.owe hopen).closeStream htaken hqueued pipe
  exact (h.alike (alike_closeStream r index pipe)).account hsound
    (hsteady.tidy.closeStream hqueued pipe)

theorem Shown.onReadable (h : Shown r) (hbetween : Between r) {isStdout : Bool}
    (hwatched : (index, if isStdout then Pipe.Stdout else .Stderr) ∈ r.watched)
    (chunks : List (Bytes × SpoolAnswers)) (ending : ReadEnd) (hangup : Bool) :
    Shown (r.onReadable index isStdout chunks ending hangup) := by
  obtain ⟨htaken, hqueued, -⟩ := hbetween.steady.watched hwatched
  have hlt := Nat.lt_of_lt_of_le htaken hbetween.steady.sound.next_le
  have hbare := captureAll_bare r isStdout chunks
  obtain ⟨hsteady, -⟩ := hbetween.steady.output hlt hqueued hbare
  have halike : Alike r (r.setWorker index (r.captureAll isStdout chunks)) := by
    apply alike_setWorker
    · intro w
      have hreasons := congrArg reasons (hbare w)
      exact hreasons
    · intro w hcounted
      have hsame := congrArg Worker.counted (hbare w)
      exact hsame.trans hcounted
  have hshown := h.alike halike
  unfold WorkerRun.onReadable
  dsimp only
  by_cases hend : endOfStream ending hangup (ringOf (r.worker index) isStdout).length
      (ringOf ((r.setWorker index (r.captureAll isStdout chunks)).worker index) isStdout).length =
        true
  · rw [if_pos hend]
    exact hshown.closeStream hsteady hwatched
  · rw [if_neg hend]
    exact hshown

theorem Shown.onWritable (h : Shown r) (hbetween : Between r)
    (hwatched : (index, Pipe.Stdin) ∈ r.watched) (written : Bool) :
    Shown (r.onWritable index written) := by
  unfold WorkerRun.onWritable
  split_ifs with hwritten
  · exact h.closeStream hbetween.steady hwatched
  · exact h

theorem Shown.onExit (h : Shown r) (hbetween : Between r)
    (hrunning : (r.worker index).running = true) (waits : Waits) (start : Nat → Start) :
    Shown (r.onExit index waits start) :=
  (h.childExited hbetween.steady hrunning waits).fillSlots
    (hbetween.steady.childExited hrunning waits).1 start

theorem alike_closeAll (r : WorkerRun) (index : Nat) : Alike r (r.closeAll index) :=
  ((alike_closeStream _ _ _).trans (alike_closeStream _ _ _)).trans (alike_closeStream _ _ _)

theorem Shown.abandon (h : Shown r) (hdraining : Draining r) (hlt : index < r.workers.length)
    (waits : Nat → Waits) (start : Nat → Start) : Shown (abandon waits start r index) := by
  unfold WorkerRun.abandon
  by_cases hcomplete : (r.worker index).complete = true
  · rw [if_pos hcomplete]
    exact h
  rw [if_neg hcomplete]
  rw [Bool.not_eq_true] at hcomplete
  obtain ⟨htaken, hqueued⟩ := hdraining.at_work hlt
  obtain ⟨hsound, htidy, hcalm, hexited⟩ :=
    closeAll_spec (hdraining.steady.sound.owe hcomplete) hdraining.steady.tidy htaken hqueued
  have hshown := h.alike (alike_closeAll r index)
  change Shown (WorkerRun.account (if ((r.closeAll index).worker index).exited = true then
      r.closeAll index else (r.closeAll index).onExit index (waits index) start) index)
  by_cases hgone : ((r.closeAll index).worker index).exited = true
  · rw [if_pos hgone]
    exact hshown.account hsound htidy
  rw [if_neg hgone]
  rw [Bool.not_eq_true] at hgone
  obtain ⟨hclosed, hrunning⟩ := hdraining.closeAll hlt hcomplete hgone
  rw [hclosed.onExit hrunning (waits index) start]
  exact hshown.childExited hclosed.steady hrunning (waits index)

theorem Shown.onDrainExpired (h : Shown r) (hbetween : Between r) {due : List Timer}
    (hdue : r.due = .Drain :: due) (waits : Nat → Waits) (start : Nat → Start) :
    Shown ({ r with due }.onDrainExpired waits start) := by
  have hloop : Draining ({ r with due }.onDrainExpired waits start) ∧
      ({ r with due }.onDrainExpired waits start).workers.length = r.workers.length ∧
      Shown ({ r with due }.onDrainExpired waits start) := by
    unfold WorkerRun.onDrainExpired
    apply Trace.foldl_induction
      (P := fun r' => Draining r' ∧ r'.workers.length = r.workers.length ∧ Shown r')
    · exact ⟨hbetween.draining hdue, rfl, h.alike { Alike.refl r with }⟩
    · rintro pre index post heq ⟨hdraining, hlength, hshown⟩
      have hin : index ∈ List.range r.workers.length := by
        change List.range r.workers.length = _ at heq
        rw [heq]
        simp
      have hlt := List.mem_range.mp hin
      rw [← hlength] at hlt
      obtain ⟨hnext, hsame⟩ := hdraining.abandon hlt waits start
      exact ⟨hnext, hsame.trans hlength, hshown.abandon hdraining hlt waits start⟩
  exact hloop.2.2

theorem Shown.retry (h : Shown r) (hbetween : Between r) {due : List Timer}
    (hdue : r.due = .Retry index :: due) (start : Nat → Start) :
    Shown ({ r with due }.onRetry index start) := by
  have hretrying : Shown (r.retrying due index) := h.alike { Alike.refl r with }
  have htimers : (r.view index).timers ≠ 0 := by simp [view, hdue, List.count_append]
  unfold onRetry
  change Shown (if (r.worker index).counted = true then r.retrying due index else _)
  by_cases hcounted : (r.worker index).counted = true
  · rw [if_pos hcounted]
    exact hretrying
  rw [if_neg hcounted]
  obtain ⟨hawaiting, hcomplete, hlog⟩ :=
    hbetween.steady.backing_off htimers (by simpa using hcounted)
  have hcancelled : ¬ r.cancelled = true := by
    intro hcancelled
    obtain ⟨reason, hin⟩ := hbetween.steady.tidy.stopped hcancelled
    exact hlog reason hin
  dsimp only
  change Shown (if r.cancelled = true then _ else _)
  rw [if_neg hcancelled]
  -- The reset clears the reasons, and there were none.
  have hnone := h.fresh hlog
  have hothers : ∀ other, other ≠ index →
      ((r.retrying due index).requeued index).worker other = r.worker other :=
    fun other hne => congrArg View.worker (view_requeued_ne _ hne)
  have hrequeued : Shown ((r.retrying due index).requeued index) := by
    refine h.alike { Alike.refl r with length := setWorker_length, reasons := ?_, counted := ?_ }
    · intro other
      by_cases heq : other = index
      · have hself : ((r.retrying due index).requeued index).worker index =
            { r.worker index with awaitingRetry := false }.resetForRetry :=
          worker_requeued (lt_of_complete hcomplete)
        rw [heq, hself, hnone]
        rfl
      · rw [hothers other heq]
    · intro other hc
      have hne : other ≠ index := fun heq => hcounted (heq ▸ hc)
      rw [hothers other hne]
      exact hc
  have hfilled := hrequeued.fillSlots (hbetween.steady.requeued hdue hawaiting hcomplete hlog) start
  rw [requeued_eq] at hfilled
  exact hfilled

theorem Shown.fire (h : Shown r) (hbetween : Between r)
    (hslots : r.workers ≠ [] → 0 < r.concurrency)
    {waits : Nat → Waits} {start : Nat → Start} (hspares : r.Spares (.fire waits start)) :
    Shown (r.fire waits start) := by
  unfold WorkerRun.fire
  split
  · exact h
  · rename_i due heq
    obtain ⟨hclean, hlast⟩ := hspares (by simp [heq])
    have hpop : Shown { r with due } := h.alike { Alike.refl r with }
    exact hpop.teardown (hbetween.pop heq nofun) hslots hclean nofun fun _ => hlast
  · rename_i due heq
    exact h.onDrainExpired hbetween heq waits start
  · rename_i index due heq
    exact h.retry hbetween heq start

theorem Shown.step (h : Shown r) (hbetween : Between r)
    (hslots : r.workers ≠ [] → 0 < r.concurrency)
    {input : Input} (henabled : r.Enabled input) (hspares : r.Spares input) :
    Shown (r.step input) := by
  cases input with
  | readable index isStdout chunks ending hangup =>
    exact h.onReadable hbetween henabled chunks ending hangup
  | writable index written => exact h.onWritable hbetween henabled written
  | exit index waits start => exact h.onExit hbetween henabled.2 waits start
  | signal =>
    change Shown r.onCancel
    unfold onCancel
    by_cases hcancelled : r.cancelled = true
    · rw [if_pos hcancelled]
      exact h
    · rw [if_neg hcancelled]
      exact h.teardown hbetween hslots (hspares.resolve_left hcancelled) nofun nofun
  | collect batch => exact h.alike { Alike.refl r with }
  | fire waits start => exact h.fire hbetween hslots hspares

/-! ## Every run -/

theorem Spared.reachable {settings : Settings} (h : Spared settings r) : Reachable settings r := by
  induction h with
  | begin start => exact .begin start
  | step input _ henabled _ ih => exact .step input ih henabled

/-- A run has a slot when it has somebody to run. -/
theorem Reachable.slots {settings : Settings} (h : Reachable settings r) (hsome : r.workers ≠ []) :
    0 < r.concurrency := by
  have hlimits := h.between.2
  simp only [limits, Prod.mk.injEq] at hlimits
  obtain ⟨hlength, hconcurrency, -⟩ := hlimits
  have hpos : 0 < settings.clients.length := by
    rw [← List.length_pos_iff, hlength] at hsome
    simpa [idle] using hsome
  rw [hconcurrency]
  change 0 < if settings.concurrency = 0 then settings.clients.length else settings.concurrency
  split_ifs <;> omega

theorem Spared.shown {settings : Settings} (h : Spared settings r) : Shown r := by
  induction h with
  | begin start =>
    rw [begin_eq]
    have hnone : ∀ index, reasons ((idle settings).worker index) = [] := by
      intro index
      obtain ⟨clientId, hworker⟩ := worker_idle settings index
      rw [hworker]
      rfl
    exact Shown.fillSlots ⟨fun index => hnone index, .inl fun index _ _ _ => hnone index,
      fun _ => hnone⟩ (idle_steady settings) start
  | step input hspared henabled hspares ih =>
    exact ih.step hspared.reachable.between.1 hspared.reachable.slots henabled hspares

/-- The message of a result that shows one reason tells it. -/
theorem told_of_reasons {w : Worker} {reason : StopReason} (h : reasons w = [reason]) :
    (clientResult w).errorMessage = told reason := by
  have hflags : w.timedOut = (reason = .Deadline : Bool) ∧ w.cancelled = (reason = .Cancel : Bool) ∧
      w.aborted = (reason = .FailFast : Bool) := by
    unfold reasons at h
    cases htimedOut : w.timedOut <;> cases hcancelled : w.cancelled <;>
      cases haborted : w.aborted <;> cases reason <;> simp_all
  obtain ⟨htimedOut, hcancelled, haborted⟩ := hflags
  unfold clientResult classifyRemoteError
  dsimp only
  cases reason <;> simp [htimedOut, hcancelled, haborted, told]

/-- When each deadline and each signal spares the workers that another teardown left unfinished,
every worker ends with the reason of the first teardown that reached it, and its result says so. -/
theorem spared_workers_have_one_reason {settings : Settings} (h : Spared settings r) :
    OneReason r := by
  have hshown := h.shown
  refine ⟨fun index _ => hshown.shows index, fun index _ reason hfirst => ?_⟩
  apply told_of_reasons
  rw [hshown.shows index, hfirst]
  rfl

/-- Two workers, a deadline, and a failure aborts the run. -/
def hasty : Settings := { clients := ["a", "b"], timeoutSec := 1, failFast := true }

/-- There is nothing to wait for. -/
def noChild : Error := ⟨.NoSuchProcess, 10, "waitpid"⟩

/-- Every worker starts. -/
def anyStart (_ : Nat) : Start := .running true

/-- The first worker exits with 1. -/
def failedExit : Input :=
  .exit 0 { tryWait := .ok (some { kind := .Exited, code := 1 }), wait := .error noChild } anyStart

/-- A channel of the first worker ends. -/
def noOutput (isStdout : Bool) : Input := .readable 0 isStdout [] .Eof false

/-- The deadline comes while all run. -/
def deadlineFires : Input :=
  .fire (fun _ => { tryWait := .ok none, wait := .error noChild }) anyStart

/-- The first worker ends with a failure. -/
def failFirst (r : WorkerRun) : WorkerRun :=
  ((r.step failedExit).step (noOutput true)).step (noOutput false)

/-- The deadline kills both workers. -/
def killed : WorkerRun := ((begin hasty anyStart).step (.collect [.Deadline])).step deadlineFires

/-- The first worker fails, and the other one is aborted. -/
theorem an_aborted_worker_has_one_reason :
    OneReason (failFirst (begin hasty anyStart)) ∧
      reasons ((failFirst (begin hasty anyStart)).worker 1) = [.FailFast] := by
  have hbegin : Spared hasty (begin hasty anyStart) := .begin anyStart
  have hexit := hbegin.step failedExit (by decide) trivial
  have hstdout := hexit.step (noOutput true) (by decide) trivial
  exact ⟨spared_workers_have_one_reason
    (hstdout.step (noOutput false) (by decide) trivial), by decide⟩

/-- The exit of a worker that the deadline killed is a failure, and it aborts the other worker,
which the deadline has killed too. -/
theorem a_killed_worker_is_aborted :
    ¬ ∀ (settings : Settings) (r : WorkerRun), Reachable settings r → OneReason r := by
  intro hall
  have hbegin : Reachable hasty (begin hasty anyStart) := .begin anyStart
  have hdue := hbegin.step (.collect [.Deadline]) (by decide)
  have hkilled := hdue.step deadlineFires (by decide)
  have hexit := hkilled.step failedExit (by decide)
  have hstdout := hexit.step (noOutput true) (by decide)
  have hfailed : Reachable hasty (failFirst killed) :=
    hstdout.step (noOutput false) (by decide)
  have hshows := (hall _ _ hfailed).shows 1 (by decide)
  revert hshows
  decide

end psx.process.WorkerRun
