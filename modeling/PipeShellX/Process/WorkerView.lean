-- One worker of a run: where it is, and what each step of the run makes of it.
import PipeShellX.Process.WorkerRun

namespace psx.process.WorkerRun

open psx.os (Waits)
open psx.stream (SpoolAnswers)

/-! ## What a run knows of one worker -/

structure View where
  worker : Worker
  taken : Bool
  queued : Bool
  watched : Pipe → Bool
  timers : Nat
  spawns : Nat
  counts : Nat

def view (r : WorkerRun) (index : Nat) : View :=
  { worker := r.worker index
    taken := index < r.nextToSpawn
    queued := index ∈ r.retryQueue
    watched := fun pipe => (index, pipe) ∈ r.watched
    timers := (r.timers ++ r.due).count (.Retry index)
    spawns := r.log.count (.spawned index)
    counts := r.log.count (.counted index) }

/-- A worker without its output. -/
def bare (w : Worker) : Worker :=
  { w with stdoutData := [], stderrData := [], droppedBytes := 0, stdoutSpool := {},
           stderrSpool := {}, stdoutBack := {}, stderrBack := {} }

theorem capture_bare (outputCap : Nat) (policy : psx.stream.OverflowPolicy) (w : Worker)
    (isStdout : Bool) (chunk : Bytes) (answers : SpoolAnswers) :
    bare (w.capture outputCap policy isStdout chunk answers) = bare w := by
  unfold Worker.capture
  cases isStdout <;> rfl

theorem captureAll_bare (r : WorkerRun) (isStdout : Bool) (chunks : List (Bytes × SpoolAnswers))
    (w : Worker) : bare (r.captureAll isStdout chunks w) = bare w := by
  unfold captureAll
  induction chunks generalizing w with
  | nil => rfl
  | cons chunk chunks ih => rw [List.foldl_cons, ih, capture_bare]

/-- Nothing has happened in the attempt yet. -/
def Fresh (w : Worker) : Prop :=
  w.exited = false ∧ (∀ pipe, w.closed pipe = false) ∧ w.counted = false ∧ w.awaitingRetry = false

/-- The worker is where the run believes it to be. One that is `owed` has just ended and still
has to be accounted for. -/
structure Ok (owed : Prop) (maxRetries : Nat) (v : View) : Prop where
  untaken : v.taken = false → v.queued = false ∧ Fresh v.worker ∧ v.spawns = 0
  idle : v.taken = false ∨ v.queued = true →
    v.worker.running = false ∧ ∀ pipe, v.watched pipe = false
  armed : v.taken = true → v.queued = false →
    v.worker.running = !v.worker.exited ∧ ∀ pipe, v.watched pipe = !v.worker.closed pipe
  counted : v.worker.counted = true → v.worker.complete = true ∧ v.worker.awaitingRetry = false
  awaiting : v.worker.awaitingRetry = true → v.worker.complete = true
  debt : v.worker.complete = true →
    v.worker.counted = true ∨ v.worker.awaitingRetry = true ∨ owed
  once : v.timers ≤ 1
  timer : v.timers ≠ 0 → v.worker.counted = true ∨ v.worker.awaitingRetry = true ∨ owed
  attempts : v.worker.attempt ≤ maxRetries
  spawns : v.spawns ≤ v.worker.attempt + 1
  waits : v.worker.awaitingRetry = true ∨ v.queued = true → v.spawns ≤ v.worker.attempt
  counts : v.counts = v.worker.counted.toNat

namespace Ok

variable {owed : Prop} {maxRetries : Nat} {v : View}

theorem taken_of_queued (h : Ok owed maxRetries v) (hqueued : v.queued = true) :
    v.taken = true := by
  by_contra htaken
  have huntaken := (h.untaken (by simpa using htaken)).1
  rw [hqueued] at huntaken
  cases huntaken

/-- Somebody who owes nothing is counted, backs off or is not over. -/
theorem settled (h : Ok False maxRetries v) (hcounted : v.worker.counted = false)
    (hawaiting : v.worker.awaitingRetry = false) : v.worker.complete = false := by
  by_contra hcomplete
  rcases h.debt (by simpa using hcomplete) with hc | ha | hf
  · rw [hcounted] at hc
    cases hc
  · rw [hawaiting] at ha
    cases ha
  · exact hf

theorem no_timer (h : Ok False maxRetries v) (hcounted : v.worker.counted = false)
    (hawaiting : v.worker.awaitingRetry = false) : v.timers = 0 := by
  by_contra htimers
  rcases h.timer htimers with hc | ha | hf
  · rw [hcounted] at hc
    cases hc
  · rw [hawaiting] at ha
    cases ha
  · exact hf

theorem owe (h : Ok owed maxRetries v) : Ok True maxRetries v :=
  { h with
    debt := fun _ => .inr (.inr trivial)
    timer := fun _ => .inr (.inr trivial) }

/-- The account is closed without a change: nothing was owed after all. -/
theorem quit (h : Ok owed maxRetries v)
    (hdone : v.worker.counted = true ∨ v.worker.awaitingRetry = true ∨ v.worker.complete = false)
    (htimers : v.worker.complete = false → v.timers = 0) : Ok False maxRetries v := by
  refine { h with debt := fun hcomplete => ?_, timer := fun htimer => ?_ }
  · rcases hdone with hc | ha | hopen
    · exact .inl hc
    · exact .inr (.inl ha)
    · rw [hcomplete] at hopen
      cases hopen
  · rcases hdone with hc | ha | hopen
    · exact .inl hc
    · exact .inr (.inl ha)
    · exact absurd (htimers hopen) htimer

/-- Whoever is not over is neither counted nor backing off. -/
theorem not_over (h : Ok owed maxRetries v) (hopen : v.worker.complete = false) :
    v.worker.counted = false ∧ v.worker.awaitingRetry = false := by
  constructor
  · by_contra hcounted
    have hcomplete := (h.counted (by simpa using hcounted)).1
    simp [hopen] at hcomplete
  · by_contra hawaiting
    have hcomplete := h.awaiting (by simpa using hawaiting)
    simp [hopen] at hcomplete

/-- Whoever has a child is at work. -/
theorem alive (h : Ok owed maxRetries v) (hrunning : v.worker.running = true) :
    v.taken = true ∧ v.queued = false ∧ v.worker.complete = false := by
  have htaken : v.taken = true := by
    by_contra hnot
    have hidle := (h.idle (.inl (by simpa using hnot))).1
    simp [hrunning] at hidle
  have hqueued : v.queued = false := by
    by_contra hnot
    have hidle := (h.idle (.inr (by simpa using hnot))).1
    simp [hrunning] at hidle
  have hexited : v.worker.exited = false := by
    simpa [hrunning] using (h.armed htaken hqueued).1
  exact ⟨htaken, hqueued, by simp [Worker.complete, hexited]⟩

/-- Whoever is over has left the queue of the pending ones. -/
theorem taken_of_complete (h : Ok owed maxRetries v) (hcomplete : v.worker.complete = true) :
    v.taken = true := by
  by_contra htaken
  have hexited := (h.untaken (by simpa using htaken)).2.1.1
  simp [Worker.complete, hexited] at hcomplete

/-- Timers can go. -/
theorem fewer (h : Ok owed maxRetries v) {timers : Nat} (hle : timers ≤ v.timers) :
    Ok owed maxRetries { v with timers } :=
  { h with
    once := Nat.le_trans hle h.once
    timer := fun htimer => h.timer fun hzero => htimer (Nat.le_zero.mp (hzero ▸ hle)) }

theorem count (h : Ok owed maxRetries v) (hcomplete : v.worker.complete = true)
    (hawaiting : v.worker.awaitingRetry = false) (hcounted : v.worker.counted = false) :
    Ok False maxRetries
      { v with worker := { v.worker with counted := true }, counts := v.counts + 1 } := by
  have htaken := h.taken_of_complete hcomplete
  have hcounts := h.counts
  rw [hcounted] at hcounts
  exact
    { h with
      untaken := fun huntaken => by simp [htaken] at huntaken
      counted := fun _ => ⟨hcomplete, hawaiting⟩
      debt := fun _ => .inl rfl
      timer := fun _ => .inl rfl
      counts := by simp [hcounts] }

theorem schedule (h : Ok owed maxRetries v) (hcomplete : v.worker.complete = true)
    (hcounted : v.worker.counted = false) (htimers : v.timers = 0)
    (hattempt : v.worker.attempt < maxRetries) :
    Ok False maxRetries
      { v with
        worker := { v.worker with awaitingRetry := true, attempt := v.worker.attempt + 1 }
        timers := v.timers + 1 } := by
  have htaken := h.taken_of_complete hcomplete
  exact
    { h with
      untaken := fun huntaken => by simp [htaken] at huntaken
      counted := fun hc => by simp [hcounted] at hc
      awaiting := fun _ => hcomplete
      debt := fun _ => .inr (.inl rfl)
      once := by simp [htimers]
      timer := fun _ => .inr (.inl rfl)
      attempts := hattempt
      spawns := Nat.le_succ_of_le h.spawns
      waits := fun _ => h.spawns }

/-- Only the reason of a stop changes. -/
theorem mark (h : Ok owed maxRetries v) (reason : StopReason) :
    Ok owed maxRetries { v with worker := v.worker.mark reason } := by
  cases reason <;> exact { h with }

/-- A worker without a process ends where it is. -/
theorem endNow (h : Ok owed maxRetries v)
    (hidle : (v.taken = false ∨ v.queued = true) ∨ v.worker.complete = true) :
    Ok True maxRetries { v with worker := v.worker.endNow, taken := true } := by
  have harmed : v.queued = false →
      v.worker.running = false ∧ ∀ pipe, v.watched pipe = false := by
    intro hqueued
    rcases hidle with hidle | hcomplete
    · exact h.idle hidle
    obtain ⟨hrunning, hwatched⟩ := h.armed (h.taken_of_complete hcomplete) hqueued
    simp only [Worker.complete, Bool.and_eq_true] at hcomplete
    obtain ⟨⟨⟨hexited, hstdout⟩, hstderr⟩, hstdin⟩ := hcomplete
    refine ⟨by simp [hrunning, hexited], fun pipe => ?_⟩
    rw [hwatched pipe]
    cases pipe <;> simp [Worker.closed, hstdout, hstderr, hstdin]
  exact
    { h with
      untaken := fun htaken => by cases htaken
      idle := fun hidle => h.idle (.inr (hidle.resolve_left Bool.noConfusion))
      armed := fun _ hqueued => by
        obtain ⟨hrunning, hwatched⟩ := harmed hqueued
        refine ⟨hrunning, fun pipe => ?_⟩
        rw [hwatched pipe]
        cases pipe <;> rfl
      counted := fun hc => ⟨rfl, (h.counted hc).2⟩
      awaiting := fun _ => rfl
      debt := fun _ => .inr (.inr trivial)
      timer := fun _ => .inr (.inr trivial) }

/-- A backoff that is over early. -/
theorem unawait (h : Ok owed maxRetries v) :
    Ok True maxRetries { v with worker := { v.worker with awaitingRetry := false } } :=
  { h with
    untaken := fun htaken => by
      obtain ⟨hqueued, hfresh, hspawns⟩ := h.untaken htaken
      exact ⟨hqueued, ⟨hfresh.1, hfresh.2.1, hfresh.2.2.1, rfl⟩, hspawns⟩
    counted := fun hc => ⟨(h.counted hc).1, rfl⟩
    awaiting := fun ha => by cases ha
    debt := fun _ => .inr (.inr trivial)
    timer := fun _ => .inr (.inr trivial)
    waits := fun hwaits => h.waits (hwaits.imp (fun ha => by cases ha) fun hq => hq) }

/-- A queued worker that ended leaves the queue. -/
theorem unqueue (h : Ok owed maxRetries v)
    (hcomplete : v.queued = true → v.worker.complete = true) :
    Ok owed maxRetries { v with queued := false } := by
  by_cases hqueued : v.queued = true
  · obtain ⟨hrunning, hwatched⟩ := h.idle (.inr hqueued)
    have hall := hcomplete hqueued
    simp only [Worker.complete, Bool.and_eq_true] at hall
    obtain ⟨⟨⟨hexited, hstdout⟩, hstderr⟩, hstdin⟩ := hall
    have htaken := h.taken_of_queued hqueued
    exact
      { h with
        untaken := fun huntaken => by simp [htaken] at huntaken
        idle := fun hidle => by simp [htaken] at hidle
        armed := fun _ _ => by
          refine ⟨by simp [hrunning, hexited], fun pipe => ?_⟩
          simp only [hwatched pipe]
          cases pipe <;> simp [Worker.closed, hstdout, hstderr, hstdin]
        waits := fun hwaits => h.waits (hwaits.imp (fun ha => ha) fun hq => by cases hq) }
  · rw [Bool.not_eq_true] at hqueued
    rw [← hqueued]
    exact h

/-- What a worker is when a slot takes it. -/
theorem fresh (h : Ok False maxRetries v) (hidle : v.taken = false ∨ v.queued = true)
    (hqueue : v.queued = true → Fresh v.worker) :
    Fresh v.worker ∧ v.timers = 0 ∧ v.spawns ≤ v.worker.attempt := by
  have hfresh : Fresh v.worker := by
    rcases hidle with huntaken | hqueued
    · exact (h.untaken huntaken).2.1
    · exact hqueue hqueued
  refine ⟨hfresh, h.no_timer hfresh.2.2.1 hfresh.2.2.2, ?_⟩
  rcases hidle with huntaken | hqueued
  · rw [(h.untaken huntaken).2.2]
    exact Nat.zero_le _
  · exact h.waits (.inr hqueued)

/-- A spawn that failed. -/
theorem failed (h : Ok False maxRetries v) (hidle : v.taken = false ∨ v.queued = true)
    (hqueue : v.queued = true → Fresh v.worker) (message : Bytes) :
    Ok True maxRetries
      { v with
        worker := { v.worker with spawned := true }.failToStart message
        taken := true
        queued := false
        spawns := v.spawns + 1 } := by
  obtain ⟨hrunning, hwatched⟩ := h.idle hidle
  obtain ⟨hfresh, htimers, hspawns⟩ := h.fresh hidle hqueue
  exact
    { h with
      untaken := fun htaken => by cases htaken
      idle := fun hidle => by simp at hidle
      armed := fun _ _ => by
        refine ⟨hrunning, fun pipe => ?_⟩
        simp only [hwatched pipe]
        cases pipe <;> rfl
      counted := fun hc => by
        have hcounted := hfresh.2.2.1
        rw [show v.worker.counted = true from hc] at hcounted
        cases hcounted
      awaiting := fun _ => rfl
      debt := fun _ => .inr (.inr trivial)
      timer := fun _ => .inr (.inr trivial)
      spawns := Nat.succ_le_succ hspawns
      waits := fun hwaits => by
        have hawaiting := hfresh.2.2.2
        rcases hwaits with ha | hq
        · rw [show v.worker.awaitingRetry = true from ha] at hawaiting
          cases hawaiting
        · cases hq }

/-- A spawn that left a child and its pipes. -/
theorem started (h : Ok False maxRetries v) (hidle : v.taken = false ∨ v.queued = true)
    (hqueue : v.queued = true → Fresh v.worker) (stdinClosed : Bool) :
    Ok False maxRetries
      { v with
        worker :=
          { v.worker with
            spawned := true
            running := true
            stdinClosed := v.worker.stdinClosed || stdinClosed }
        taken := true
        queued := false
        watched := fun pipe => pipe ≠ .Stdin || !stdinClosed
        spawns := v.spawns + 1 } := by
  obtain ⟨⟨hexited, hclosed, hcounted, hawaiting⟩, htimers, hspawns⟩ := h.fresh hidle hqueue
  have hstdout : v.worker.stdoutClosed = false := hclosed .Stdout
  have hstderr : v.worker.stderrClosed = false := hclosed .Stderr
  have hstdin : v.worker.stdinClosed = false := hclosed .Stdin
  exact
    { h with
      untaken := fun htaken => by cases htaken
      idle := fun hidle => by simp at hidle
      armed := fun _ _ => by
        refine ⟨by simp [hexited], fun pipe => ?_⟩
        cases pipe <;> simp [Worker.closed, hstdout, hstderr, hstdin]
      counted := fun hc => by simp [hcounted] at hc
      awaiting := fun ha => by simp [hawaiting] at ha
      debt := fun hcomplete => by simp [Worker.complete, hexited] at hcomplete
      timer := fun htimer => absurd htimers htimer
      spawns := Nat.succ_le_succ hspawns
      waits := fun hwaits => by simp [hawaiting] at hwaits }

/-- A child that ran is reaped. -/
theorem reaped (h : Ok False maxRetries v) (hrunning : v.worker.running = true) (waits : Waits) :
    Ok True maxRetries { v with worker := v.worker.reaped waits } := by
  obtain ⟨htaken, hqueued, hopen⟩ := h.alive hrunning
  obtain ⟨hcounted, hawaiting⟩ := h.not_over hopen
  exact
    { h with
      untaken := fun huntaken => by simp [htaken] at huntaken
      idle := fun hidle => by simp [htaken, hqueued] at hidle
      armed := fun _ _ => ⟨rfl, (h.armed htaken hqueued).2⟩
      counted := fun hc => absurd (show v.worker.counted = true from hc) (by simp [hcounted])
      awaiting := fun ha =>
        absurd (show v.worker.awaitingRetry = true from ha) (by simp [hawaiting])
      debt := fun _ => .inr (.inr trivial)
      timer := fun _ => .inr (.inr trivial) }

/-- Who has an open pipe is at work. -/
theorem at_work (h : Ok False maxRetries v) {pipe : Pipe} (hwatched : v.watched pipe = true) :
    v.taken = true ∧ v.queued = false ∧ v.worker.closed pipe = false ∧
      v.worker.complete = false := by
  have htaken : v.taken = true := by
    by_contra hnot
    have hidle := (h.idle (.inl (by simpa using hnot))).2 pipe
    simp [hwatched] at hidle
  have hqueued : v.queued = false := by
    by_contra hnot
    have hidle := (h.idle (.inr (by simpa using hnot))).2 pipe
    simp [hwatched] at hidle
  have hclosed : v.worker.closed pipe = false := by
    simpa [hwatched] using (h.armed htaken hqueued).2 pipe
  refine ⟨htaken, hqueued, hclosed, ?_⟩
  cases pipe <;> simp_all [Worker.closed, Worker.complete]

/-- A pipe that is closed is no longer watched. -/
theorem close (h : Ok owed maxRetries v) (htaken : v.taken = true) (hqueued : v.queued = false)
    (pipe : Pipe) :
    Ok True maxRetries
      { v with
        worker := v.worker.close pipe
        watched := fun other => v.watched other && other ≠ pipe } := by
  have hcomplete : v.worker.complete = true → (v.worker.close pipe).complete = true := by
    intro hcomplete
    cases pipe <;> simp_all [Worker.close, Worker.complete]
  have hsame : (v.worker.close pipe).counted = v.worker.counted ∧
      (v.worker.close pipe).awaitingRetry = v.worker.awaitingRetry ∧
      (v.worker.close pipe).attempt = v.worker.attempt ∧
      (v.worker.close pipe).running = v.worker.running ∧
      (v.worker.close pipe).exited = v.worker.exited := by
    cases pipe <;> exact ⟨rfl, rfl, rfl, rfl, rfl⟩
  obtain ⟨hcounted, hawaiting, hattempt, hrunning, hexited⟩ := hsame
  exact
    { untaken := fun huntaken => by simp [htaken] at huntaken
      idle := fun hidle => by simp [htaken, hqueued] at hidle
      armed := fun _ _ => by
        obtain ⟨hrun, hwatched⟩ := h.armed htaken hqueued
        refine ⟨by simp [hrunning, hexited, hrun], fun other => ?_⟩
        simp only [hwatched other]
        cases pipe <;> cases other <;> simp [Worker.closed, Worker.close]
      counted := fun hc => by
        obtain ⟨hall, hnot⟩ := h.counted (hcounted ▸ hc)
        exact ⟨hcomplete hall, hawaiting.trans hnot⟩
      awaiting := fun ha => hcomplete (h.awaiting (hawaiting ▸ ha))
      debt := fun _ => .inr (.inr trivial)
      once := h.once
      timer := fun _ => .inr (.inr trivial)
      attempts := hattempt ▸ h.attempts
      spawns := hattempt ▸ h.spawns
      waits := fun hwaits => by
        simp only [hawaiting, hattempt] at hwaits ⊢
        exact h.waits hwaits
      counts := by simpa [hcounted] using h.counts }

/-- Output changes nothing else. -/
theorem of_bare (h : Ok owed maxRetries v) {w : Worker} (hbare : bare w = bare v.worker) :
    Ok owed maxRetries { v with worker := w } := by
  have hv : Ok owed maxRetries { v with worker := bare w } := by
    rw [hbare]
    exact { h with }
  exact { hv with }

/-- A failed attempt is forgotten, and the worker waits for a slot. -/
theorem requeue (h : Ok False maxRetries v) (hawaiting : v.worker.awaitingRetry = true)
    (htimers : v.timers = 0) (hqueued : v.queued = false) (htaken : v.taken = true) :
    Ok False maxRetries
      { v with
        worker := { v.worker with awaitingRetry := false }.resetForRetry
        queued := true } := by
  have hcomplete := h.awaiting hawaiting
  obtain ⟨hrun, hwatched⟩ := h.armed htaken hqueued
  simp only [Worker.complete, Bool.and_eq_true] at hcomplete
  obtain ⟨⟨⟨hexited, hstdout⟩, hstderr⟩, hstdin⟩ := hcomplete
  have hcounted : v.worker.counted = false := by
    by_contra hc
    have hnot := (h.counted (by simpa using hc)).2
    simp [hawaiting] at hnot
  exact
    { h with
      untaken := fun huntaken => by simp [htaken] at huntaken
      idle := fun _ => by
        refine ⟨by simp [Worker.resetForRetry, hrun, hexited], fun pipe => ?_⟩
        simp only [hwatched pipe]
        cases pipe <;> simp [Worker.closed, hstdout, hstderr, hstdin]
      armed := fun _ hq => by simp at hq
      counted := fun hc => by simp [Worker.resetForRetry] at hc
      awaiting := fun ha => by simp [Worker.resetForRetry] at ha
      debt := fun hall => by simp [Worker.resetForRetry, Worker.complete] at hall
      timer := fun htimer => absurd htimers htimer
      spawns := Nat.le_succ_of_le (h.waits (.inl hawaiting))
      waits := fun _ => h.waits (.inl hawaiting)
      counts := by
        have hcounts := h.counts
        simpa [hcounted, Worker.resetForRetry] using hcounts }

end Ok

end psx.process.WorkerRun
