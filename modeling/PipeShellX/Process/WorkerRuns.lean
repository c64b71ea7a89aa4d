-- Every run of workers keeps its books: whatever order spawns, ends of pipes, exits, timers and
-- signals come in, each worker is counted once and the run does not stall.
import PipeShellX.Process.WorkerSlots

namespace psx.process.WorkerRun

open psx.os (Waits)
open psx.stream (SpoolAnswers)

variable {r r' : WorkerRun} {index : Nat}

/-! ## A pipe ends -/

theorem Sound.owe (h : Sound none r) (hopen : (r.worker index).complete = false) :
    Sound (some index) r := by
  have hok := h.ok_none index
  obtain ⟨hcounted, hawaiting⟩ := hok.not_over hopen
  refine { h with ok := h.oks_some (.inl rfl) rfl (fun _ _ => rfl) hok.owe, owes := ?_ }
  intro other howed
  obtain rfl : index = other := by simpa using howed
  exact .inl (hok.no_timer hcounted hawaiting)

theorem Tidy.touch (h : r.Tidy) (hcalm : Calm r r') (hqueue : r'.retryQueue = r.retryQueue)
    (htimers : r'.timers = r.timers) (hdue : r'.due = r.due) (hlog : r'.log = r.log)
    (hcancelled : r'.cancelled = r.cancelled)
    (hworker : ∀ other, other ≠ index → r'.worker other = r.worker other)
    (hnot : index ∉ r.retryQueue)
    (hawaiting : (r'.worker index).awaitingRetry = true → (r.worker index).awaitingRetry = true) :
    r'.Tidy where
  queue := by
    intro other hin
    rw [hqueue] at hin
    rw [hworker other fun heq => hnot (heq ▸ hin)]
    exact h.queue other hin
  backoff := by
    intro other hother
    have hsame : (r'.view other).timers = (r.view other).timers := by
      unfold view
      rw [htimers, hdue]
    rw [hsame]
    apply h.backoff
    by_cases heq : other = index
    · rw [heq] at hother ⊢
      exact hawaiting hother
    · rwa [hworker other heq] at hother
  drain := by
    rw [htimers, hdue, hlog]
    exact h.drain
  stopped := by
    rw [hcancelled, hlog]
    exact h.stopped
  torn := by
    rw [hlog]
    intro hbegun
    exact (h.torn hbegun).calm hcalm

theorem closeStream_calm (r : WorkerRun) (index : Nat) (pipe : Pipe) :
    Calm r (r.closeStream index pipe) := by
  unfold closeStream
  split_ifs with hclosed
  · exact Calm.refl r
  · refine Calm.touch (f := fun w => w.close pipe) (fun _ => by cases pipe <;> rfl)
      (fun w hcomplete => ?_) (fun _ h => by cases pipe <;> exact h) (fun hlt hdone => ?_)
      rfl rfl rfl rfl rfl (Nat.le_refl _) rfl rfl rfl (List.prefix_refl _)
    · cases pipe <;> simp_all [Worker.close, Worker.complete]
    · have hworker : (r.setWorker index fun w => w.close pipe).worker index =
          (r.worker index).close pipe := worker_setWorker_self hlt
      unfold Done Stopped at hdone ⊢
      change ((r.setWorker index fun w => w.close pipe).worker index).counted = true ∨
        ((r.setWorker index fun w => w.close pipe).worker index).awaitingRetry = false ∧
          (r.cancelled = true ∨ r.aborted = true ∨
            ((r.setWorker index fun w => w.close pipe).worker index).timedOut = true)
      rw [hworker]
      cases pipe <;> exact hdone

theorem Sound.closeStream (h : Sound (some index) r) (htaken : index < r.nextToSpawn)
    (hqueued : index ∉ r.retryQueue) (pipe : Pipe) :
    Sound (some index) (r.closeStream index pipe) := by
  have hlt := Nat.lt_of_lt_of_le htaken h.next_le
  have hcalm := closeStream_calm r index pipe
  revert hcalm
  unfold WorkerRun.closeStream
  split_ifs with hclosed
  · exact fun _ => h
  intro hcalm
  have hok := h.ok_some.close (by simpa [view] using htaken) (by simpa [view] using hqueued) pipe
  have hself : (r.setWorker index fun w => w.close pipe).worker index =
      (r.worker index).close pipe := worker_setWorker_self hlt
  have hview : { r.setWorker index fun w => w.close pipe with
        watched := r.watched.filter (· ≠ (index, pipe)) }.view index =
      { r.view index with
        worker := (r.view index).worker.close pipe
        watched := fun other => (r.view index).watched other && other ≠ pipe } := by
    unfold view
    congr 1
    funext other
    simp [List.mem_filter]
  rw [← hview] at hok
  refine h.touch (f := fun w => w.close pipe) hlt (by cases pipe <;> rfl) (by cases pipe <;> rfl)
    rfl rfl rfl rfl h.next_le h.queue (h.books.of_eq rfl rfl setWorker_length)
    (h.oks_some (.inr rfl) rfl (fun other hne => ?_) hok) ?_
  · unfold view
    congr 1
    · exact worker_setWorker_ne hne
    · funext o
      simp [List.mem_filter, hne]
  · intro other howed
    obtain rfl : index = other := by simpa using howed
    rcases h.owes index rfl with htimers | ⟨hstopped, hcomplete⟩
    · exact .inl (by rw [hview]; exact htimers)
    · refine .inr ⟨?_, hcalm.complete index hcomplete⟩
      unfold Stopped at hstopped ⊢
      change r.cancelled = true ∨ r.aborted = true ∨
        ((r.setWorker index fun w => w.close pipe).worker index).timedOut = true
      rw [hself]
      cases pipe <;> exact hstopped

theorem Tidy.closeStream (h : r.Tidy) (hqueued : index ∉ r.retryQueue) (pipe : Pipe) :
    (r.closeStream index pipe).Tidy := by
  have hcalm := closeStream_calm r index pipe
  revert hcalm
  unfold WorkerRun.closeStream
  split_ifs with hclosed
  · exact fun _ => h
  intro hcalm
  refine h.touch hcalm rfl rfl rfl rfl rfl (fun _ hne => worker_setWorker_ne hne) hqueued ?_
  intro hawaiting
  change ((r.setWorker index fun w => w.close pipe).worker index).awaitingRetry = true at hawaiting
  by_cases hlt : index < r.workers.length
  · rw [worker_setWorker_self hlt] at hawaiting
    cases pipe <;> exact hawaiting
  · rwa [setWorker_of_le (by omega)] at hawaiting

/-! ## The callbacks -/

/-- What holds between two callbacks. -/
structure Between (r : WorkerRun) : Prop where
  steady : Steady r
  filling : r.filling = false
  full : r.Full

/-- A worker is accounted for at the end of a callback. -/
theorem Steady.account (hsound : Sound (some index) r) (htidy : r.Tidy) :
    Steady (r.account index) ∧ Calm r (r.account index) :=
  ⟨⟨hsound.account.1, htidy.account hsound⟩, hsound.account.2⟩

theorem Between.calm (h : Between r) (hsteady : Steady r') (hcalm : Calm r r') : Between r' :=
  ⟨hsteady, hcalm.filling.trans h.filling, h.full.calm hcalm⟩

/-- Who has a pipe that is watched. -/
theorem Steady.watched (h : Steady r) {pipe : Pipe} (hwatched : (index, pipe) ∈ r.watched) :
    index < r.nextToSpawn ∧ index ∉ r.retryQueue ∧ (r.worker index).complete = false := by
  have hok := h.sound.ok_none index
  have hview : (r.view index).watched pipe = true := by simpa [view] using hwatched
  obtain ⟨htaken, hqueued, -, hopen⟩ := hok.at_work hview
  exact ⟨by simpa [view] using htaken, by simpa [view] using hqueued, hopen⟩

theorem Steady.closeStream (h : Steady r) {pipe : Pipe} (hwatched : (index, pipe) ∈ r.watched) :
    Steady ((r.closeStream index pipe).account index) ∧
      Calm r ((r.closeStream index pipe).account index) := by
  obtain ⟨htaken, hqueued, hopen⟩ := h.watched hwatched
  have hsound := (h.sound.owe hopen).closeStream htaken hqueued pipe
  obtain ⟨hafter, hcalm⟩ := Steady.account hsound (h.tidy.closeStream hqueued pipe)
  exact ⟨hafter, (closeStream_calm r index pipe).trans hcalm⟩

/-- Output arrives, and nothing else changes. -/
theorem Steady.output (h : Steady r) (hlt : index < r.workers.length)
    (hqueued : index ∉ r.retryQueue) {f : Worker → Worker} (hbare : ∀ w, bare (f w) = bare w) :
    Steady (r.setWorker index f) ∧ Calm r (r.setWorker index f) := by
  have hsame : ∀ w, (f w).counted = w.counted ∧ (f w).running = w.running ∧
      (f w).complete = w.complete ∧ (f w).awaitingRetry = w.awaitingRetry ∧
      (f w).timedOut = w.timedOut := by
    intro w
    have hcounted := congrArg Worker.counted (hbare w)
    have hrunning := congrArg Worker.running (hbare w)
    have hcomplete := congrArg Worker.complete (hbare w)
    have hawaiting := congrArg Worker.awaitingRetry (hbare w)
    have htimedOut := congrArg Worker.timedOut (hbare w)
    exact ⟨hcounted, hrunning, hcomplete, hawaiting, htimedOut⟩
  obtain ⟨hcounted, hrunning, hcomplete, hawaiting, htimedOut⟩ := hsame (r.worker index)
  have hself : (r.setWorker index f).worker index = f (r.worker index) := worker_setWorker_self hlt
  have hcalm : Calm r (r.setWorker index f) := by
    refine Calm.touch (fun w => (hsame w).2.1) (fun w hc => by rw [(hsame w).2.2.1, hc])
      (fun w hc => by rw [(hsame w).1, hc]) (fun _ hdone => ?_) rfl rfl rfl rfl rfl
        (Nat.le_refl _) rfl rfl rfl (List.prefix_refl _)
    unfold Done Stopped at hdone ⊢
    rw [hself, hcounted, hawaiting, htimedOut]
    exact hdone
  have hok := (h.sound.ok_none index).of_bare (hbare (r.worker index))
  have hview : (r.setWorker index f).view index =
      { r.view index with worker := f (r.worker index) } := by
    unfold view
    rw [hself]
    rfl
  rw [← hview] at hok
  refine ⟨⟨?_, ?_⟩, hcalm⟩
  · refine h.sound.touch hlt hcounted hrunning rfl rfl rfl rfl h.sound.next_le h.sound.queue
      (h.sound.books.of_eq rfl rfl setWorker_length)
      (h.sound.oks_none (.inl rfl) rfl (fun other hne => ?_) hok) (fun _ howed => by cases howed)
    unfold view
    rw [worker_setWorker_ne hne]
    rfl
  · refine h.tidy.touch hcalm rfl rfl rfl rfl rfl (fun _ hne => worker_setWorker_ne hne) hqueued ?_
    rw [hself, hawaiting]
    exact fun h => h

theorem Between.onReadable (h : Between r) {isStdout : Bool}
    (hwatched : (index, if isStdout then Pipe.Stdout else .Stderr) ∈ r.watched)
    (chunks : List (Bytes × SpoolAnswers)) (ending : ReadEnd) (hangup : Bool) :
    Between (r.onReadable index isStdout chunks ending hangup) := by
  obtain ⟨htaken, hqueued, -⟩ := h.steady.watched hwatched
  have hlt := Nat.lt_of_lt_of_le htaken h.steady.sound.next_le
  obtain ⟨hsteady, hcalm⟩ := h.steady.output hlt hqueued (captureAll_bare r isStdout chunks)
  unfold WorkerRun.onReadable
  dsimp only
  obtain ⟨hafter, hrest⟩ := hsteady.closeStream hwatched
  by_cases hend : endOfStream ending hangup (ringOf (r.worker index) isStdout).length
      (ringOf ((r.setWorker index (r.captureAll isStdout chunks)).worker index) isStdout).length =
        true
  · rw [if_pos hend]
    exact h.calm hafter (hcalm.trans hrest)
  · rw [if_neg hend]
    exact h.calm hsteady hcalm

theorem Between.onWritable (h : Between r) (hwatched : (index, Pipe.Stdin) ∈ r.watched)
    (written : Bool) : Between (r.onWritable index written) := by
  unfold WorkerRun.onWritable
  split_ifs with hwritten
  · obtain ⟨hafter, hcalm⟩ := h.steady.closeStream hwatched
    exact h.calm hafter hcalm
  · exact h

theorem Between.onExit (h : Between r) (hrunning : (r.worker index).running = true) (waits : Waits)
    (start : Nat → Start) : Between (r.onExit index waits start) := by
  obtain ⟨hafter, hcalm⟩ := h.steady.childExited hrunning waits
  have hfilling : (r.childExited index waits).filling = false := by
    rw [hcalm.filling]
    exact h.filling
  obtain ⟨hsteady, hidle, hfull⟩ := hafter.fillSlots hfilling start
  exact ⟨hsteady, hidle, hfull⟩

theorem Between.teardown (h : Between r) {reason : StopReason} (hforce : reason ≠ .FailFast) :
    Between (r.teardown reason) := by
  obtain ⟨hsound, hcalm, htorn⟩ := h.steady.sound.teardown fun heq => absurd heq hforce
  exact ⟨⟨hsound, htorn.tidy hsound⟩, hcalm.filling.trans h.filling, htorn.full⟩

theorem Between.onCancel (h : Between r) : Between r.onCancel := by
  unfold WorkerRun.onCancel
  split_ifs with hcancelled
  · exact h
  · exact h.teardown nofun

/-! ## The timers -/

/-- Moving a batch from one list to another loses no timer. -/
theorem count_collect {timers batch : List Timer} {timer : Timer} (honce : timers.count timer ≤ 1)
    (hnodup : batch.Nodup) (hsubset : batch ⊆ timers) :
    (timers.filter (· ∉ batch) ++ batch).count timer = timers.count timer := by
  rw [List.count_append]
  by_cases hin : timer ∈ batch
  · have hbatch : batch.count timer = 1 := by rw [hnodup.count, if_pos hin]
    have hpos : 0 < timers.count timer := List.count_pos_iff.mpr (hsubset hin)
    have hgone : (timers.filter (· ∉ batch)).count timer = 0 := by
      rw [List.count_eq_zero]
      simp [hin]
    omega
  · have hbatch : batch.count timer = 0 := List.count_eq_zero.mpr hin
    have hsame : (timers.filter (· ∉ batch)).count timer = timers.count timer :=
      List.count_filter (by simpa using hin)
    omega

/-- Only the timers change, and for the workers they do not. -/
theorem Steady.retime (h : Steady r) {timers due : List Timer}
    (hcount : ∀ index, (timers ++ due).count (.Retry index) = (r.view index).timers)
    (hdrain : .Drain ∈ timers ++ due → .Drain ∈ r.timers ++ r.due) :
    Steady { r with timers, due } := by
  have hviews : ∀ index, { r with timers, due }.view index = r.view index := by
    intro index
    unfold view
    congr 1
    exact hcount index
  refine ⟨?_, ?_⟩
  · refine
      { h.sound with
        ok := fun index => ?_
        owes := fun _ howed => by cases howed
        books := h.sound.books.of_eq rfl rfl rfl }
    rw [hviews]
    exact h.sound.ok index
  · refine ⟨h.tidy.queue, fun index hawaiting => ?_, fun hin => h.tidy.drain (hdrain hin),
      h.tidy.stopped, ?_⟩
    · rw [hviews]
      exact h.tidy.backoff index hawaiting
    · intro hbegun
      exact { h.tidy.torn hbegun with }

theorem Between.collect (h : Between r) {batch : List Timer} (hdue : r.due = [])
    (hnodup : batch.Nodup) (hsubset : batch ⊆ r.timers) :
    Between { r with due := batch, timers := r.timers.filter (· ∉ batch) } := by
  refine ⟨h.steady.retime (fun index => ?_) (fun hin => ?_), h.filling, h.full⟩
  · have honce := (h.steady.sound.ok_none index).once
    have hview : (r.view index).timers = r.timers.count (.Retry index) := by simp [view, hdue]
    rw [hview] at honce ⊢
    exact count_collect honce hnodup hsubset
  · rw [List.mem_append] at hin ⊢
    rcases hin with hin | hin
    · exact .inl (List.mem_of_mem_filter hin)
    · exact .inl (hsubset hin)

/-- The first timer of the batch starts, and it is not a backoff timer. -/
theorem Between.pop (h : Between r) {timer : Timer} {due : List Timer} (hdue : r.due = timer :: due)
    (hretry : ∀ index, timer ≠ .Retry index) : Between { r with due } := by
  refine ⟨h.steady.retime (fun index => ?_) (fun hin => ?_), h.filling, h.full⟩
  · simp [view, hdue, List.count_append, hretry index]
  · rw [hdue, List.mem_append, List.mem_cons]
    rcases List.mem_append.mp hin with hin | hin
    · exact .inl hin
    · exact .inr (.inr hin)

/-! ## A retry -/

/-- The retry of a worker that still backs off: nothing was torn down in the meantime. -/
theorem Steady.backing_off (h : Steady r) (htimers : (r.view index).timers ≠ 0)
    (hcounted : (r.worker index).counted = false) :
    (r.worker index).awaitingRetry = true ∧ (r.worker index).complete = true ∧
      ∀ reason, .teardown reason ∉ r.log := by
  have hok := h.sound.ok_none index
  have hawaiting : (r.worker index).awaitingRetry = true := by
    rcases hok.timer htimers with hc | ha | hf
    · rw [show (r.worker index).counted = true from hc] at hcounted
      cases hcounted
    · exact ha
    · exact hf.elim
  have hcomplete : (r.worker index).complete = true := hok.awaiting hawaiting
  refine ⟨hawaiting, hcomplete, fun reason hin => ?_⟩
  rcases (h.tidy.torn ⟨reason, hin⟩).done index (lt_of_complete hcomplete) with hc | ⟨hnot, -⟩
  · rw [hcounted] at hc
    cases hc
  · rw [hawaiting] at hnot
    cases hnot

/-- What is left of the timer of a worker once it runs. -/
theorem pop_retry {due : List Timer} (hdue : r.due = .Retry index :: due)
    (honce : (r.view index).timers ≤ 1) :
    ({ r with due }.view index).timers = 0 ∧
      ∀ other, other ≠ index → { r with due }.view other = r.view other := by
  constructor
  · have hview : (r.view index).timers = ({ r with due }.view index).timers + 1 := by
      simp only [view, hdue, List.count_append, List.count_cons_self]
      omega
    omega
  · intro other hne
    have htimer : Timer.Retry index ≠ .Retry other := by simp [Ne.symm hne]
    unfold view
    rw [hdue]
    congr 1
    simp [List.count_append, htimer]

/-- The worker is reset and waits for a slot. -/
def requeued (r : WorkerRun) (index : Nat) : WorkerRun :=
  { r.setWorker index fun w => { w with awaitingRetry := false }.resetForRetry with
    retryQueue := r.retryQueue ++ [index] }

theorem view_requeued_ne (r : WorkerRun) {other : Nat} (hne : other ≠ index) :
    (r.requeued index).view other = r.view other := by
  unfold view requeued
  congr 1
  · exact worker_setWorker_ne hne
  · simp [hne]

theorem worker_requeued (hlt : index < r.workers.length) :
    (r.requeued index).worker index =
      { r.worker index with awaitingRetry := false }.resetForRetry :=
  worker_setWorker_self hlt

theorem Sound.requeued (h : Sound none r) (hawaiting : (r.worker index).awaitingRetry = true)
    (htimers : (r.view index).timers = 0) (hqueued : index ∉ r.retryQueue) :
    Sound none (r.requeued index) := by
  have hold := h.ok_none index
  have hcomplete : (r.worker index).complete = true := hold.awaiting hawaiting
  have hlt := lt_of_complete hcomplete
  have hok := hold.requeue hawaiting htimers (by simpa [view] using hqueued)
    (hold.taken_of_complete hcomplete)
  have hview : (r.requeued index).view index =
      { r.view index with
        worker := { (r.view index).worker with awaitingRetry := false }.resetForRetry
        queued := true } := by
    unfold view
    congr 1
    · exact worker_requeued hlt
    · simp [WorkerRun.requeued]
  rw [← hview] at hok
  have hcounted : (r.worker index).counted = false := by
    by_contra hc
    have hnot : (r.worker index).awaitingRetry = false :=
      (hold.counted (by simpa [view] using hc)).2
    rw [hawaiting] at hnot
    cases hnot
  refine h.touch (f := fun w => { w with awaitingRetry := false }.resetForRetry) hlt
    hcounted.symm rfl rfl rfl rfl rfl h.next_le ?_ (h.books.of_eq rfl rfl setWorker_length)
    (h.oks_none (.inl rfl) rfl (fun _ hne => view_requeued_ne r hne) hok)
    (fun _ howed => by cases howed)
  rw [WorkerRun.requeued, List.nodup_append]
  refine ⟨h.queue, List.nodup_cons.mpr ⟨List.not_mem_nil, List.nodup_nil⟩,
    fun a ha b hb heq => ?_⟩
  rw [List.mem_singleton] at hb
  exact hqueued (by rwa [← hb, ← heq])

/-- The timer of a worker runs, and its entry goes. -/
def retrying (r : WorkerRun) (due : List Timer) (index : Nat) : WorkerRun :=
  { r with due, retryTimers := r.retryTimers.filter (· ≠ index) }

theorem Sound.retrying (h : Sound none r) {due : List Timer} (hdue : r.due = .Retry index :: due) :
    Sound none (r.retrying due index) ∧ ((r.retrying due index).view index).timers = 0 ∧
      ∀ other, other ≠ index → (r.retrying due index).view other = r.view other := by
  obtain ⟨hzero, hothers⟩ := pop_retry hdue (h.ok_none index).once
  have hok := (h.ok_none index).fewer (Nat.zero_le _)
  rw [← hzero] at hok
  refine ⟨?_, hzero, hothers⟩
  exact
    { h with
      ok := h.oks_none (.inl rfl) rfl hothers hok
      owes := fun _ howed => by cases howed
      books := h.books.of_eq rfl rfl rfl }

theorem drain_retrying {due : List Timer} (hdue : r.due = .Retry index :: due)
    (hdrain : .Drain ∈ r.timers ++ due) : .Drain ∈ r.timers ++ r.due := by
  rw [List.mem_append] at hdrain
  rw [hdue, List.mem_append, List.mem_cons]
  exact hdrain.imp_right .inr

/-- The retry of a worker that a teardown has counted is void. -/
theorem Steady.void (h : Steady r) {due : List Timer} (hdue : r.due = .Retry index :: due)
    (hcounted : (r.worker index).counted = true) : Steady (r.retrying due index) := by
  obtain ⟨hsound, -, hothers⟩ := h.sound.retrying hdue
  refine ⟨hsound, h.tidy.queue, fun other hawaiting => ?_,
    fun hin => h.tidy.drain (drain_retrying hdue hin), h.tidy.stopped, fun hbegun => ?_⟩
  · by_cases heq : other = index
    · rw [heq] at hawaiting
      have hnot : (r.worker index).awaitingRetry = false :=
        ((h.sound.ok_none index).counted hcounted).2
      rw [show (r.worker index).awaitingRetry = true from hawaiting] at hnot
      cases hnot
    · rw [hothers other heq]
      exact h.tidy.backoff other hawaiting
  · exact { h.tidy.torn hbegun with }

/-- The worker goes back to the queue. -/
theorem Steady.requeued (h : Steady r) {due : List Timer} (hdue : r.due = .Retry index :: due)
    (hawaiting : (r.worker index).awaitingRetry = true)
    (hcomplete : (r.worker index).complete = true) (hlog : ∀ reason, .teardown reason ∉ r.log) :
    Steady ((r.retrying due index).requeued index) := by
  obtain ⟨hsound, hzero, hothers⟩ := h.sound.retrying hdue
  have hqueued := h.tidy.not_queued hcomplete
  have hlt := lt_of_complete hcomplete
  have hself : ((r.retrying due index).requeued index).worker index =
      { r.worker index with awaitingRetry := false }.resetForRetry := worker_requeued hlt
  have hworker : ∀ other, other ≠ index →
      ((r.retrying due index).requeued index).worker other = r.worker other :=
    fun _ hne => worker_setWorker_ne hne
  refine ⟨hsound.requeued hawaiting hzero hqueued, fun other hin => ?_, fun other hother => ?_,
    fun hin => h.tidy.drain (drain_retrying hdue hin), h.tidy.stopped, ?_⟩
  · by_cases heq : other = index
    · rw [heq, hself]
      refine ⟨rfl, fun pipe => ?_, rfl, rfl⟩
      cases pipe <;> rfl
    · rw [hworker other heq]
      apply h.tidy.queue
      simpa [WorkerRun.requeued, retrying, heq] using hin
  · by_cases heq : other = index
    · rw [heq, hself] at hother
      cases hother
    · rw [hworker other heq] at hother
      rw [view_requeued_ne _ heq, hothers other heq]
      exact h.tidy.backoff other hother
  · rintro ⟨reason, hin⟩
    exact absurd hin (hlog reason)

theorem requeued_eq (r : WorkerRun) (due : List Timer) (index : Nat) :
    (r.retrying due index).requeued index =
      { ((r.retrying due index).setWorker index fun w => { w with
                                                           awaitingRetry := false }).setWorker
          index Worker.resetForRetry with
        retryQueue := r.retryQueue ++ [index] } := by
  unfold WorkerRun.requeued setWorker
  rw [List.modify_modify_eq]
  rfl

theorem Between.retry (h : Between r) {due : List Timer} (hdue : r.due = .Retry index :: due)
    (start : Nat → Start) : Between ({ r with due }.onRetry index start) := by
  have htimers : (r.view index).timers ≠ 0 := by simp [view, hdue, List.count_append]
  unfold onRetry
  change Between (if (r.worker index).counted = true then r.retrying due index else _)
  by_cases hcounted : (r.worker index).counted = true
  · rw [if_pos hcounted]
    exact ⟨h.steady.void hdue hcounted, h.filling, h.full⟩
  rw [if_neg hcounted]
  obtain ⟨hawaiting, hcomplete, hlog⟩ :=
    h.steady.backing_off htimers (by simpa using hcounted)
  -- A cancelled run has counted everybody who backed off.
  have hcancelled : ¬ r.cancelled = true := by
    intro hcancelled
    obtain ⟨reason, hin⟩ := h.steady.tidy.stopped hcancelled
    exact hlog reason hin
  dsimp only
  change Between (if r.cancelled = true then _ else _)
  rw [if_neg hcancelled]
  have hsteady := h.steady.requeued hdue hawaiting hcomplete hlog
  rw [requeued_eq] at hsteady
  obtain ⟨hafter, hidle, hfull⟩ := hsteady.fillSlots h.filling start
  exact ⟨hafter, hidle, hfull⟩

/-! ## The end of the grace -/

theorem Torn.fillSlots (h : r.Torn) (hfilling : r.filling = false) (start : Nat → Start) :
    r.fillSlots start = r := by
  unfold WorkerRun.fillSlots
  rw [if_neg (by simp [hfilling]), h.spawnable_eq, Loop.run_zero]
  cases r
  simp only at hfilling
  rw [hfilling]

/-- What the loop of `onDrainExpired` keeps. -/
structure Draining (r : WorkerRun) : Prop where
  steady : Steady r
  filling : r.filling = false
  begun : ∃ reason, .teardown reason ∈ r.log

theorem Draining.torn (h : Draining r) : r.Torn := h.steady.tidy.torn h.begun

theorem Draining.calm (h : Draining r) (hsteady : Steady r') (hcalm : Calm r r') : Draining r' := by
  refine ⟨hsteady, hcalm.filling.trans h.filling, ?_⟩
  obtain ⟨reason, hin⟩ := h.begun
  exact ⟨reason, hcalm.log.subset hin⟩

/-- After a teardown a worker that is not over is at work. -/
theorem Draining.at_work (h : Draining r) (hlt : index < r.workers.length) :
    index < r.nextToSpawn ∧ index ∉ r.retryQueue := by
  refine ⟨Nat.lt_of_lt_of_le hlt h.torn.next, ?_⟩
  rw [h.torn.queue]
  exact List.not_mem_nil

/-- All pipes of a worker are closed. -/
def closeAll (r : WorkerRun) (index : Nat) : WorkerRun :=
  ((r.closeStream index .Stdout).closeStream index .Stderr).closeStream index .Stdin

theorem closeStream_fields (r : WorkerRun) (index : Nat) (pipe : Pipe) :
    (r.closeStream index pipe).nextToSpawn = r.nextToSpawn ∧
      (r.closeStream index pipe).retryQueue = r.retryQueue ∧
      ((r.closeStream index pipe).worker index).exited = (r.worker index).exited := by
  unfold closeStream
  split_ifs with hclosed
  · exact ⟨rfl, rfl, rfl⟩
  · refine ⟨rfl, rfl, ?_⟩
    change ((r.setWorker index fun w => w.close pipe).worker index).exited = _
    by_cases hlt : index < r.workers.length
    · rw [worker_setWorker_self hlt]
      cases pipe <;> rfl
    · rw [setWorker_of_le (by omega)]

theorem closeAll_spec (hsound : Sound (some index) r) (htidy : r.Tidy)
    (htaken : index < r.nextToSpawn) (hqueued : index ∉ r.retryQueue) :
    Sound (some index) (r.closeAll index) ∧ (r.closeAll index).Tidy ∧
      Calm r (r.closeAll index) ∧
      ((r.closeAll index).worker index).exited = (r.worker index).exited := by
  obtain ⟨hnext₁, hqueue₁, hexited₁⟩ := closeStream_fields r index .Stdout
  obtain ⟨hnext₂, hqueue₂, hexited₂⟩ :=
    closeStream_fields (r.closeStream index .Stdout) index .Stderr
  obtain ⟨-, -, hexited₃⟩ :=
    closeStream_fields ((r.closeStream index .Stdout).closeStream index .Stderr) index .Stdin
  have hsound₁ := hsound.closeStream htaken hqueued .Stdout
  rw [← hnext₁] at htaken
  have htidy₁ := htidy.closeStream hqueued .Stdout
  rw [← hqueue₁] at hqueued
  have hsound₂ := hsound₁.closeStream htaken hqueued .Stderr
  rw [← hnext₂] at htaken
  have htidy₂ := htidy₁.closeStream hqueued .Stderr
  rw [← hqueue₂] at hqueued
  refine ⟨hsound₂.closeStream htaken hqueued .Stdin, htidy₂.closeStream hqueued .Stdin, ?_,
    hexited₃.trans (hexited₂.trans hexited₁)⟩
  exact (closeStream_calm _ _ _).trans ((closeStream_calm _ _ _).trans (closeStream_calm _ _ _))

/-- A worker whose pipes were closed still runs when it has not exited. -/
theorem Draining.closeAll (h : Draining r) (hlt : index < r.workers.length)
    (hcomplete : (r.worker index).complete = false)
    (hgone : ((r.closeAll index).worker index).exited = false) :
    Draining (r.closeAll index) ∧ ((r.closeAll index).worker index).running = true := by
  obtain ⟨htaken, hqueued⟩ := h.at_work hlt
  obtain ⟨hsound, htidy, hcalm, hexited⟩ :=
    closeAll_spec (h.steady.sound.owe hcomplete) h.steady.tidy htaken hqueued
  have hopen : ((r.closeAll index).worker index).complete = false := by
    simp [Worker.complete, hgone]
  refine ⟨h.calm ⟨hsound.quit (.inr (.inr hopen)), htidy⟩ hcalm, ?_⟩
  have hold : (r.worker index).running = !(r.worker index).exited :=
    ((h.steady.sound.ok_none index).armed (by simpa [view] using htaken)
      (by simpa [view] using hqueued)).1
  rw [hcalm.running, hold, ← hexited, hgone]
  rfl

theorem Draining.childExited (h : Draining r) (hrunning : (r.worker index).running = true)
    (waits : Waits) :
    Draining (r.childExited index waits) ∧
      (r.childExited index waits).workers.length = r.workers.length := by
  obtain ⟨hafter, hrest⟩ := h.steady.childExited hrunning waits
  obtain ⟨reason, hin⟩ := h.begun
  refine ⟨⟨hafter, hrest.filling.trans h.filling, reason, hrest.log.subset hin⟩,
    hrest.length.trans ?_⟩
  change (r.setWorker index _).workers.length = _
  exact setWorker_length

/-- The exit of a worker that was given up has accounted for it. -/
theorem Draining.onExit (h : Draining r) (hrunning : (r.worker index).running = true)
    (waits : Waits) (start : Nat → Start) :
    (r.onExit index waits start).account index = r.childExited index waits := by
  obtain ⟨hexit, -⟩ := h.childExited hrunning waits
  unfold WorkerRun.onExit
  rw [hexit.torn.fillSlots hexit.filling start]
  exact hexit.steady.sound.accountThen_idle abortRest index

theorem Draining.abandon (h : Draining r) (hlt : index < r.workers.length) (waits : Nat → Waits)
    (start : Nat → Start) :
    Draining (abandon waits start r index) ∧
      (WorkerRun.abandon waits start r index).workers.length = r.workers.length := by
  unfold WorkerRun.abandon
  by_cases hcomplete : (r.worker index).complete = true
  · rw [if_pos hcomplete]
    exact ⟨h, rfl⟩
  rw [if_neg hcomplete]
  rw [Bool.not_eq_true] at hcomplete
  obtain ⟨htaken, hqueued⟩ := h.at_work hlt
  obtain ⟨hsound, htidy, hcalm, -⟩ :=
    closeAll_spec (h.steady.sound.owe hcomplete) h.steady.tidy htaken hqueued
  change Draining (WorkerRun.account (if ((r.closeAll index).worker index).exited = true then
      r.closeAll index else (r.closeAll index).onExit index (waits index) start) index) ∧
    (WorkerRun.account (if ((r.closeAll index).worker index).exited = true then
      r.closeAll index else (r.closeAll index).onExit index (waits index) start)
      index).workers.length = r.workers.length
  by_cases hgone : ((r.closeAll index).worker index).exited = true
  · rw [if_pos hgone]
    obtain ⟨hafter, hrest⟩ := Steady.account hsound htidy
    exact ⟨h.calm hafter (hcalm.trans hrest), (hcalm.trans hrest).length⟩
  rw [if_neg hgone]
  rw [Bool.not_eq_true] at hgone
  obtain ⟨hclosed, hrunning⟩ := h.closeAll hlt hcomplete hgone
  rw [hclosed.onExit hrunning (waits index) start]
  obtain ⟨hexit, hlength⟩ := hclosed.childExited hrunning (waits index)
  exact ⟨hexit, hlength.trans hcalm.length⟩

/-- The timer of the grace runs. -/
theorem Between.draining (h : Between r) {due : List Timer} (hdue : r.due = .Drain :: due) :
    Draining { r with due, drainTimer := false } := by
  have hpop := h.pop hdue nofun
  have hbegun : ∃ reason, .teardown reason ∈ r.log := by
    apply h.steady.tidy.drain
    simp [hdue]
  refine ⟨⟨?_, ?_⟩, h.filling, hbegun⟩
  · exact
      { hpop.steady.sound with
        owes := fun _ howed => by cases howed
        books := hpop.steady.sound.books.of_eq rfl rfl rfl }
  · exact
      { hpop.steady.tidy with
        torn := fun hb => { hpop.steady.tidy.torn hb with } }

theorem Between.drain (h : Between r) {due : List Timer} (hdue : r.due = .Drain :: due)
    (waits : Nat → Waits) (start : Nat → Start) :
    Between ({ r with due }.onDrainExpired waits start) := by
  have hbefore := h.draining hdue
  have hloop : Draining ({ r with due }.onDrainExpired waits start) ∧
      ({ r with due }.onDrainExpired waits start).workers.length = r.workers.length := by
    unfold onDrainExpired
    apply Trace.foldl_induction
      (P := fun r' => Draining r' ∧ r'.workers.length = r.workers.length)
    · exact ⟨hbefore, rfl⟩
    · rintro pre index post heq ⟨hdraining, hlength⟩
      have hin : index ∈ List.range r.workers.length := by
        change List.range r.workers.length = _ at heq
        rw [heq]
        simp
      have hlt := List.mem_range.mp hin
      rw [← hlength] at hlt
      obtain ⟨hnext, hsame⟩ := hdraining.abandon hlt waits start
      exact ⟨hnext, hsame.trans hlength⟩
  exact ⟨hloop.1.steady, hloop.1.filling, hloop.1.torn.full⟩

/-! ## Every run -/

theorem Between.fire (h : Between r) (waits : Nat → Waits) (start : Nat → Start) :
    Between (r.fire waits start) := by
  unfold WorkerRun.fire
  split
  · exact h
  · rename_i due heq
    exact (h.pop heq nofun).teardown nofun
  · rename_i due heq
    exact h.drain heq waits start
  · rename_i index due heq
    exact h.retry heq start

theorem Between.step (h : Between r) {input : Input} (henabled : r.Enabled input) :
    Between (r.step input) := by
  cases input with
  | readable index isStdout chunks ending hangup =>
    exact h.onReadable henabled chunks ending hangup
  | writable index written => exact h.onWritable henabled written
  | exit index waits start => exact h.onExit henabled.2 waits start
  | signal => exact h.onCancel
  | collect batch => exact h.collect henabled.1 henabled.2.1 henabled.2.2
  | fire waits start => exact h.fire waits start

/-! ## What a run is given -/

/-- What a run is given and never changes. -/
def limits (r : WorkerRun) : Nat × Nat × Nat × Bool :=
  (r.workers.length, r.concurrency, r.maxRetries, r.failFast)

@[simp] theorem limits_setWorker (r : WorkerRun) (index : Nat) (f : Worker → Worker) :
    (r.setWorker index f).limits = r.limits := by
  simp [limits, setWorker]

@[simp] theorem limits_mark (r : WorkerRun) (index : Nat) (reason : StopReason) :
    (r.mark index reason).limits = r.limits :=
  limits_setWorker r index _

theorem limits_count (r : WorkerRun) (index : Nat) : (r.count index).limits = r.limits :=
  limits_setWorker r index _

section

variable {abort : WorkerRun → WorkerRun} (habort : ∀ r, (abort r).limits = r.limits)
include habort

theorem limits_accountThen (r : WorkerRun) (index : Nat) :
    (accountThen abort r index).limits = r.limits := by
  rcases accountThen_cases abort r index with
    ⟨heq, -⟩ | ⟨-, ⟨heq, -⟩ | ⟨heq, -⟩ | ⟨heq, -⟩ | ⟨heq, -⟩⟩
  · rw [heq]
  · rw [heq]
    exact limits_setWorker r index _
  · rw [heq]
    exact limits_count r index
  · rw [heq]
    exact limits_count r index
  · rw [heq, habort]
    exact limits_count r index

theorem limits_finish (reason : StopReason) (r : WorkerRun) (index : Nat) :
    (finish abort reason r index).limits = r.limits := by
  unfold finish
  rw [limits_accountThen habort, limits_setWorker, limits_mark]

theorem limits_stopWorker (reason : StopReason) (r : WorkerRun) (index : Nat) :
    (stopWorker abort reason r index).limits = r.limits := by
  unfold stopWorker
  dsimp only
  split_ifs
  · rfl
  · rw [limits_accountThen habort, limits_mark, limits_setWorker]
  · rfl
  · exact limits_mark r index reason

theorem limits_teardownThen (reason : StopReason) (r : WorkerRun) :
    (teardownThen abort reason r).limits = r.limits := by
  have hqueue : ∀ (queue : List Nat) (r : WorkerRun),
      (queue.foldl (finish abort reason) r).limits = r.limits := by
    intro queue r
    apply Trace.foldl_induction (P := fun r' : WorkerRun => r'.limits = r.limits) rfl
    intro pre index post _ hsame
    rw [limits_finish habort, hsame]
  have hstop : ∀ (workers : List Nat) (r : WorkerRun),
      (workers.foldl (stopWorker abort reason) r).limits = r.limits := by
    intro workers r
    apply Trace.foldl_induction (P := fun r' : WorkerRun => r'.limits = r.limits) rfl
    intro pre index post _ hsame
    rw [limits_stopWorker habort, hsame]
  have hpending : ∀ (fuel : Nat) (r : WorkerRun),
      (Loop.run (pendingBody abort reason) fuel r).1.limits = r.limits := by
    intro fuel r
    apply Loop.run_induction (pendingBody abort reason) (fun r' _ => r'.limits = r.limits) _ fuel r
      [] rfl
    intro r₁ _ r₂ events hsame hbody
    obtain ⟨-, rfl⟩ := pendingBody_some hbody
    rw [limits_finish habort, ← hsame]
    rfl
  have hdrain : ∀ r : WorkerRun, r.armDrain.limits = r.limits := by
    intro r
    unfold armDrain
    split_ifs <;> rfl
  unfold teardownThen
  rw [hdrain, hstop, hpending]
  exact hqueue _ _

end

theorem limits_abortRest (r : WorkerRun) : r.abortRest.limits = r.limits :=
  limits_teardownThen (fun _ => rfl) _ r

@[simp] theorem limits_account (r : WorkerRun) (index : Nat) :
    (r.account index).limits = r.limits :=
  limits_accountThen limits_abortRest r index

@[simp] theorem limits_teardown (r : WorkerRun) (reason : StopReason) :
    (r.teardown reason).limits = r.limits :=
  limits_teardownThen limits_abortRest reason r

theorem limits_childExited (r : WorkerRun) (index : Nat) (waits : Waits) :
    (r.childExited index waits).limits = r.limits := by
  unfold childExited
  rw [limits_account]
  exact limits_setWorker r index _

theorem limits_started (r : WorkerRun) (index : Nat) (stdinClosed : Bool) :
    (r.started index stdinClosed).limits = r.limits :=
  limits_setWorker r index _

theorem limits_spawn (r : WorkerRun) (index : Nat) (start : Start) :
    (r.spawn index start).limits = r.limits := by
  have hbegin : ((r.setWorker index fun w => { w with spawned := true }).note
      (.spawned index)).limits = r.limits := limits_setWorker r index _
  unfold spawn
  cases start with
  | failed message =>
    dsimp only
    rw [limits_account, limits_setWorker, hbegin]
  | running stdinClosed =>
    dsimp only
    rw [limits_started, hbegin]
  | gone stdinClosed waits =>
    dsimp only
    rw [limits_childExited, limits_started, hbegin]

theorem limits_fillBody {start : Nat → Start} {events : List Event}
    (h : r.fillBody start = some (r', events)) : r'.limits = r.limits := by
  unfold fillBody at h
  by_cases hfree : r.inFlight < r.concurrency
  · rw [if_pos hfree] at h
    split at h
    · simp only [Option.some.injEq, Prod.mk.injEq] at h
      rw [← h.1, limits_spawn]
      rfl
    · by_cases hlt : r.nextToSpawn < r.workers.length
      · rw [if_pos hlt] at h
        simp only [Option.some.injEq, Prod.mk.injEq] at h
        rw [← h.1, limits_spawn]
        rfl
      · rw [if_neg hlt] at h
        cases h
  · rw [if_neg hfree] at h
    cases h

@[simp] theorem limits_fillSlots (r : WorkerRun) (start : Nat → Start) :
    (r.fillSlots start).limits = r.limits := by
  unfold fillSlots
  split_ifs
  · rfl
  have hloop : (Loop.run (fillBody start) r.spawnable { r with filling := true }).1.limits =
      r.limits := by
    apply Loop.run_induction (fillBody start) (fun r' _ => r'.limits = r.limits) _ r.spawnable
      { r with filling := true } [] rfl
    intro r₁ _ r₂ events hsame hbody
    rw [limits_fillBody hbody, hsame]
  exact hloop

@[simp] theorem limits_closeStream (r : WorkerRun) (index : Nat) (pipe : Pipe) :
    (r.closeStream index pipe).limits = r.limits := by
  unfold closeStream
  split_ifs
  · rfl
  · exact limits_setWorker r index _

theorem limits_onExit (r : WorkerRun) (index : Nat) (waits : Waits) (start : Nat → Start) :
    (r.onExit index waits start).limits = r.limits := by
  unfold onExit
  rw [limits_fillSlots, limits_childExited]

theorem limits_abandon (waits : Nat → Waits) (start : Nat → Start) (r : WorkerRun) (index : Nat) :
    (abandon waits start r index).limits = r.limits := by
  unfold abandon
  split_ifs
  · rfl
  · dsimp only
    rw [limits_account]
    split_ifs
    · simp
    · rw [limits_onExit]
      simp

theorem limits_onRetry (r : WorkerRun) (index : Nat) (start : Nat → Start) :
    (r.onRetry index start).limits = r.limits := by
  unfold onRetry
  dsimp only
  split_ifs
  · rfl
  · rw [limits_account, limits_setWorker, limits_setWorker]
    rfl
  · rw [limits_fillSlots]
    refine (limits_setWorker _ index Worker.resetForRetry).trans ?_
    rw [limits_setWorker]
    rfl

theorem limits_onDrainExpired (r : WorkerRun) (waits : Nat → Waits) (start : Nat → Start) :
    (r.onDrainExpired waits start).limits = r.limits := by
  unfold onDrainExpired
  refine Trace.foldl_induction (P := fun r' : WorkerRun => r'.limits = r.limits) ?_ ?_
  · rfl
  · intro pre index post _ hsame
    rw [limits_abandon, hsame]

theorem limits_step (r : WorkerRun) (input : Input) : (r.step input).limits = r.limits := by
  cases input with
  | readable index isStdout chunks ending hangup =>
    change (r.onReadable index isStdout chunks ending hangup).limits = r.limits
    unfold onReadable
    dsimp only
    split_ifs <;> simp
  | writable index written =>
    change (r.onWritable index written).limits = r.limits
    unfold onWritable
    split_ifs <;> simp
  | exit index waits start => exact limits_onExit r index waits start
  | signal =>
    change r.onCancel.limits = r.limits
    unfold onCancel
    split_ifs <;> simp
  | collect batch => rfl
  | fire waits start =>
    change (r.fire waits start).limits = r.limits
    unfold WorkerRun.fire
    split
    · rfl
    · rw [limits_teardown]
      rfl
    · rw [limits_onDrainExpired]
      rfl
    · rw [limits_onRetry]
      rfl

/-! ## Every run -/

/-- A run before anything is spawned. -/
def idle (settings : Settings) : WorkerRun :=
  { workers := settings.clients.map fun clientId => { clientId }
    concurrency :=
      if settings.concurrency = 0 then settings.clients.length else settings.concurrency
    outputCap := if settings.policy = .Block then 0 else settings.ringBytes
    outputPolicy := settings.policy
    cancellable := settings.cancellable
    failFast := settings.failFast
    maxRetries := settings.maxRetries
    remaining := settings.clients.length
    timers := if 0 < settings.timeoutSec then [.Deadline] else [] }

theorem worker_idle (settings : Settings) (index : Nat) :
    ∃ clientId, (idle settings).worker index = { clientId } := by
  unfold idle worker
  dsimp only
  by_cases hlt : index < settings.clients.length
  · refine ⟨settings.clients.getD index "", ?_⟩
    simp [List.getD_eq_getElem?_getD, hlt]
  · refine ⟨"", ?_⟩
    rw [List.getD_eq_default]
    simpa using hlt

theorem idle_steady (settings : Settings) : Steady (idle settings) := by
  have hretry : ∀ index, ((idle settings).view index).timers = 0 := by
    intro index
    unfold view idle
    dsimp only
    split_ifs <;> simp
  refine ⟨?_, ?_⟩
  · refine
      { ok := fun index => ?_
        owes := fun _ howed => by cases howed
        remaining := ?_
        inFlight := ?_
        bounded := Nat.zero_le _
        next_le := Nat.zero_le _
        queue := List.nodup_nil
        books := ⟨?_, ?_, Trace.Lawful.nil⟩ }
    · obtain ⟨clientId, hworker⟩ := worker_idle settings index
      have hw : ((idle settings).view index).worker = { clientId } := hworker
      have htimers := hretry index
      refine
        { untaken := fun _ => ⟨rfl, ?_, rfl⟩
          idle := fun _ => ⟨by rw [hw], fun _ => rfl⟩
          armed := fun htaken => by simp [view, idle] at htaken
          counted := fun hc => by simp [hw] at hc
          awaiting := fun ha => by simp [hw] at ha
          debt := fun hc => by simp [hw, Worker.complete] at hc
          once := by simp [htimers]
          timer := fun htimer => absurd htimers htimer
          attempts := by simp [hw]
          spawns := Nat.zero_le _
          waits := fun _ => Nat.zero_le _
          counts := by rw [hw]; rfl }
      rw [hw]
      refine ⟨rfl, fun pipe => ?_, rfl, rfl⟩
      cases pipe <;> rfl
    · simp [idle, List.countP_map, Function.comp_def]
    · simp [idle, List.countP_map, Function.comp_def]
    · simp [idle]
    · simp only [idle, List.length_map, List.count_nil]
      split_ifs <;> omega
  · refine ⟨by simp [idle], fun index hawaiting => ?_, fun hdrain => ?_, by simp [idle],
      by simp [idle]⟩
    · obtain ⟨clientId, hworker⟩ := worker_idle settings index
      simp [hworker] at hawaiting
    · simp only [idle, List.append_nil] at hdrain
      split_ifs at hdrain <;> simp at hdrain

theorem begin_eq (settings : Settings) (start : Nat → Start) :
    begin settings start = (idle settings).fillSlots start := rfl

/-- Whatever the reactor reports, and in whatever order, the books of the run are in order. -/
theorem Reachable.between {settings : Settings} (h : Reachable settings r) :
    Between r ∧ r.limits = (idle settings).limits := by
  induction h with
  | begin start =>
    rw [begin_eq]
    obtain ⟨hsteady, hfilling, hfull⟩ := (idle_steady settings).fillSlots rfl start
    exact ⟨⟨hsteady, hfilling, hfull⟩, limits_fillSlots _ start⟩
  | step input _ henabled ih =>
    exact ⟨ih.1.step henabled, (limits_step _ input).trans ih.2⟩

/-- The accounts of a run. -/
structure Accounted (settings : Settings) (r : WorkerRun) : Prop where
  total : r.workers.length = settings.clients.length
  remaining : r.remaining = r.workers.countP fun w => !w.counted
  once : ∀ index, r.log.count (.counted index) = (r.worker index).counted.toNat
  inFlight : r.inFlight = r.workers.countP fun w => w.running
  bounded : r.inFlight ≤
    if settings.concurrency = 0 then settings.clients.length else settings.concurrency
  spawns : ∀ index, r.log.count (.spawned index) ≤ 1 + settings.maxRetries
  lawful : Trace.Lawful (Allowed settings.clients.length) r.log
  stops : r.log.count .stop = if 0 < settings.clients.length ∧ r.remaining = 0 then 1 else 0
  live : (∃ index < r.workers.length, (r.worker index).counted = false) →
    (∃ index, (r.worker index).running = true) ∨ r.watched ≠ [] ∨
      ∃ index, .Retry index ∈ r.timers ++ r.due

/-- While somebody is not counted, something is still to come. -/
theorem Between.live (h : Between r) (hslots : 0 < r.concurrency) (hlt : index < r.workers.length)
    (hcounted : (r.worker index).counted = false) :
    (∃ index, (r.worker index).running = true) ∨ r.watched ≠ [] ∨
      ∃ index, .Retry index ∈ r.timers ++ r.due := by
  have hok := h.steady.sound.ok_none index
  by_cases hawaiting : (r.worker index).awaitingRetry = true
  · have htimers := h.steady.tidy.backoff index hawaiting
    exact .inr (.inr ⟨index, List.count_pos_iff.mp (Nat.pos_of_ne_zero htimers)⟩)
  rw [Bool.not_eq_true] at hawaiting
  have hopen : (r.worker index).complete = false := hok.settled hcounted hawaiting
  by_cases hwork : index < r.nextToSpawn ∧ index ∉ r.retryQueue
  · -- It is at work: its child runs, or one of its pipes is open.
    obtain ⟨hrun, hwatched⟩ :=
      hok.armed (by simpa [view] using hwork.1) (by simpa [view] using hwork.2)
    by_cases hexited : (r.worker index).exited = true
    · have hpipe : ∃ pipe, (r.worker index).closed pipe = false := by
        by_contra hall
        have hclosed : ∀ pipe, (r.worker index).closed pipe = true := by
          intro pipe
          by_contra hnot
          exact hall ⟨pipe, by simpa using hnot⟩
        have hstdout : (r.worker index).stdoutClosed = true := hclosed .Stdout
        have hstderr : (r.worker index).stderrClosed = true := hclosed .Stderr
        have hstdin : (r.worker index).stdinClosed = true := hclosed .Stdin
        simp [Worker.complete, hexited, hstdout, hstderr, hstdin] at hopen
      obtain ⟨pipe, hpipe⟩ := hpipe
      have hin : (index, pipe) ∈ r.watched := by
        have hview := hwatched pipe
        rw [show (r.view index).worker.closed pipe = false from hpipe] at hview
        simpa [view] using hview
      exact .inr (.inl (List.ne_nil_of_mem hin))
    · rw [Bool.not_eq_true] at hexited
      have hrunning : (r.worker index).running = !(r.worker index).exited := hrun
      rw [hexited] at hrunning
      exact .inl ⟨index, hrunning⟩
  · -- It waits for a slot, and all of them are taken.
    have hwaits : r.retryQueue ≠ [] ∨ r.nextToSpawn < r.workers.length := by
      by_cases hnext : index < r.nextToSpawn
      · have hqueued : index ∈ r.retryQueue := by
          by_contra hnot
          exact hwork ⟨hnext, hnot⟩
        exact .inl (List.ne_nil_of_mem hqueued)
      · exact .inr (by omega)
    have hfull := h.full hwaits
    have hpos : 0 < r.workers.countP fun w => w.running := by
      rw [← h.steady.sound.inFlight]
      omega
    obtain ⟨w, hin, hrunning⟩ := List.countP_pos_iff.mp hpos
    obtain ⟨other, hother, rfl⟩ := List.mem_iff_getElem.mp hin
    refine .inl ⟨other, ?_⟩
    unfold worker
    rw [List.getD_eq_getElem _ _ hother]
    exact hrunning

/-- Every run of workers keeps its accounts: each worker is counted once, the slots are never
overdrawn, nobody is spawned too often or after a teardown, the reactor is stopped when the last
worker is counted, and until then something is still to come. -/
theorem runs_are_accounted {settings : Settings} (h : Reachable settings r) :
    Accounted settings r := by
  obtain ⟨hbetween, hlimits⟩ := h.between
  obtain ⟨htotal, hconcurrency, hretries, -⟩ :
      r.workers.length = (idle settings).workers.length ∧
        r.concurrency = (idle settings).concurrency ∧
        r.maxRetries = (idle settings).maxRetries ∧ r.failFast = (idle settings).failFast := by
    simpa [limits] using hlimits
  have hlength : (idle settings).workers.length = settings.clients.length := by simp [idle]
  rw [hlength] at htotal
  have hsound := hbetween.steady.sound
  have hbooks := hsound.books
  refine
    { total := htotal
      remaining := hsound.remaining
      once := fun index => (hsound.ok index).counts
      inFlight := hsound.inFlight
      bounded := ?_
      spawns := fun index => ?_
      lawful := ?_
      stops := ?_
      live := ?_ }
  · have hbounded := hsound.bounded
    rw [hconcurrency] at hbounded
    exact hbounded
  · have hspawns := (hsound.ok index).spawns
    have hattempts := (hsound.ok index).attempts
    rw [hretries] at hattempts
    change r.log.count (.spawned index) ≤ (r.worker index).attempt + 1 at hspawns
    change (r.worker index).attempt ≤ settings.maxRetries at hattempts
    omega
  · rw [← htotal]
    exact hbooks.lawful
  · rw [← htotal]
    exact hbooks.stops
  · rintro ⟨index, hlt, hcounted⟩
    refine hbetween.live ?_ hlt hcounted
    rw [hconcurrency]
    change 0 < if settings.concurrency = 0 then settings.clients.length else settings.concurrency
    split_ifs <;> omega

/-- Two workers and one slot. -/
def pair : Settings := { clients := ["a", "b"], concurrency := 1, cancellable := true }

/-- The signal counts the worker without a slot and leaves the other one to its child. -/
theorem a_cancelled_run_is_accounted :
    Accounted pair ((begin pair fun _ => .running true).step .signal) ∧
      ((begin pair fun _ => .running true).step .signal).remaining = 1 :=
  ⟨runs_are_accounted (.step .signal (.begin fun _ => .running true) rfl), by decide⟩

end psx.process.WorkerRun
