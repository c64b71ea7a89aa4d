-- The slots of a run of workers: what a spawn and an exit make of the books, and that
-- `fillSlots` leaves no slot free that somebody waits for.
import PipeShellX.Process.WorkerRunLaws

namespace psx.process.WorkerRun

open psx.os (Waits)

variable {r r' : WorkerRun} {index : Nat}

/-! ## Between two steps of a callback -/

/-- What holds between two callbacks, and while slots are filled. -/
structure Tidy (r : WorkerRun) : Prop where
  queue : ∀ index ∈ r.retryQueue, Fresh (r.worker index)
  backoff : ∀ index, (r.worker index).awaitingRetry = true → (r.view index).timers ≠ 0
  drain : .Drain ∈ r.timers ++ r.due → ∃ reason, .teardown reason ∈ r.log
  stopped : r.cancelled = true → ∃ reason, .teardown reason ∈ r.log
  torn : (∃ reason, .teardown reason ∈ r.log) → r.Torn

/-- Whoever waits for a slot waits for good reason. -/
def Full (r : WorkerRun) : Prop :=
  r.retryQueue ≠ [] ∨ r.nextToSpawn < r.workers.length → r.concurrency ≤ r.inFlight

theorem Full.filling (h : r.Full) (filling : Bool) : { r with filling }.Full := h

theorem Torn.full (h : r.Torn) : r.Full := by
  rintro (hqueue | hnext)
  · exact absurd h.queue hqueue
  · exact absurd h.next (by omega)

theorem Torn.tidy (h : r.Torn) (hsound : Sound none r) : r.Tidy where
  queue := by simp [h.queue]
  backoff := by
    intro index hawaiting
    have hok := hsound.ok_none index
    have hlt := lt_of_complete (show (r.worker index).complete = true from hok.awaiting hawaiting)
    rcases h.done index hlt with hcounted | ⟨hnot, -⟩
    · have hnot := (hok.counted hcounted).2
      rw [show (r.worker index).awaitingRetry = false from hnot] at hawaiting
      cases hawaiting
    · rw [hnot] at hawaiting
      cases hawaiting
  drain := fun _ => h.begun
  stopped := fun _ => h.begun
  torn := fun _ => h

theorem Torn.calm (h : r.Torn) (hcalm : Calm r r') : r'.Torn where
  begun := by
    obtain ⟨reason, hin⟩ := h.begun
    exact ⟨reason, hcalm.log.subset hin⟩
  queue := by
    rcases hcalm.queue with heq | ⟨hnil, -⟩
    · rw [heq, h.queue]
    · exact hnil
  next := (Nat.le_of_eq hcalm.length).trans (h.next.trans hcalm.next)
  done := fun index hlt => hcalm.done index (h.done index (hcalm.length ▸ hlt))

/-- A worker that ended is not in the queue. -/
theorem Tidy.not_queued (h : r.Tidy) (hcomplete : (r.worker index).complete = true) :
    index ∉ r.retryQueue := by
  intro hqueued
  have hexited := (h.queue index hqueued).1
  simp [Worker.complete, hexited] at hcomplete

theorem Tidy.count (h : r.Tidy) (hcomplete : (r.worker index).complete = true)
    (hcalm : Calm r (r.count index)) : (r.count index).Tidy where
  queue := by
    intro other hqueued
    have hne : other ≠ index := fun heq => h.not_queued hcomplete (heq ▸ hqueued)
    have hworker : (r.count index).worker other = r.worker other := worker_setWorker_ne hne
    rw [hworker]
    exact h.queue other hqueued
  backoff := by
    intro other hawaiting
    have hlt := lt_of_complete hcomplete
    by_cases heq : other = index
    · rw [heq] at hawaiting ⊢
      rw [view_count_self hlt]
      have hworker : (r.count index).worker index = { r.worker index with counted := true } :=
        worker_setWorker_self hlt
      rw [hworker] at hawaiting
      exact h.backoff index hawaiting
    · rw [view_count_ne heq]
      have hworker : (r.count index).worker other = r.worker other := worker_setWorker_ne heq
      rw [hworker] at hawaiting
      exact h.backoff other hawaiting
  drain := by
    intro hdrain
    obtain ⟨reason, hin⟩ := h.drain hdrain
    exact ⟨reason, hcalm.log.subset hin⟩
  stopped := by
    intro hcancelled
    obtain ⟨reason, hin⟩ := h.stopped hcancelled
    exact ⟨reason, hcalm.log.subset hin⟩
  torn := by
    rintro ⟨reason, hin⟩
    have hold : .teardown reason ∈ r.log := by
      simpa [WorkerRun.count, WorkerRun.note, setWorker] using hin
    exact (h.torn ⟨reason, hold⟩).calm hcalm

theorem Tidy.stop (h : r.Tidy) : (r.note .stop).Tidy where
  queue := h.queue
  backoff := by
    intro other hawaiting
    rw [view_stop]
    exact h.backoff other hawaiting
  drain := by
    intro hdrain
    obtain ⟨reason, hin⟩ := h.drain hdrain
    exact ⟨reason, (note_calm r .stop).log.subset hin⟩
  stopped := by
    intro hcancelled
    obtain ⟨reason, hin⟩ := h.stopped hcancelled
    exact ⟨reason, (note_calm r .stop).log.subset hin⟩
  torn := by
    rintro ⟨reason, hin⟩
    have hold : .teardown reason ∈ r.log := by simpa [WorkerRun.note] using hin
    exact (h.torn ⟨reason, hold⟩).calm (note_calm r .stop)

theorem Tidy.schedule (h : r.Tidy) (hended : Ended (r.worker index)) (hgoes : ¬ r.Stopped index) :
    (r.scheduleRetry index).Tidy where
  queue := by
    intro other hqueued
    have hne : other ≠ index := fun heq => h.not_queued hended.complete (heq ▸ hqueued)
    rw [show (r.scheduleRetry index).worker other = r.worker other from worker_setWorker_ne hne]
    exact h.queue other hqueued
  backoff := by
    intro other hawaiting
    by_cases heq : other = index
    · rw [heq, view_schedule_self (lt_of_complete hended.complete)]
      exact Nat.succ_ne_zero _
    · rw [view_schedule_ne heq]
      have hworker : (r.scheduleRetry index).worker other = r.worker other :=
        worker_setWorker_ne heq
      rw [hworker] at hawaiting
      exact h.backoff other hawaiting
  drain := by
    intro hdrain
    apply h.drain
    simpa [scheduleRetry, setWorker] using hdrain
  stopped := h.stopped
  torn := by
    intro hbegun
    have hdone := (h.torn hbegun).done index (lt_of_complete hended.complete)
    rcases hdone with hcounted | ⟨-, hstopped⟩
    · rw [hended.counted] at hcounted
      cases hcounted
    · exact absurd hstopped hgoes

/-- What is left after the account of a worker. -/
theorem Tidy.account (h : r.Tidy) (hsound : Sound (some index) r) : (r.account index).Tidy := by
  unfold WorkerRun.account
  rcases accountThen_cases abortRest r index with ⟨heq, -⟩ | ⟨hended, hcase⟩
  · rw [heq]
    exact h
  have hcount := h.count hended.complete (count_calm r index)
  rcases hcase with ⟨heq, hgoes, -⟩ | ⟨heq, -⟩ | ⟨heq, -⟩ | ⟨heq, hmore, -⟩
  · rw [heq]
    exact h.schedule hended hgoes
  · rw [heq]
    exact hcount.stop
  · rw [heq]
    exact hcount
  · have hpos := hsound.remaining_pos hended.counted (lt_of_complete hended.complete)
    have hbooks := hsound.books.count hpos index
    rw [if_neg hmore] at hbooks
    rw [heq]
    have hcounted := (hsound.counted hended.complete hended.awaiting hended.counted (.inl rfl)
      hbooks).of_aborted
    obtain ⟨hafter, -, htorn⟩ :=
      hcounted.teardownThen safe_id fun _ : StopReason.FailFast = .FailFast => rfl
    exact htorn.tidy hafter

theorem Full.calm (h : r.Full) (hcalm : Calm r r') : r'.Full := by
  intro hwaits
  rw [hcalm.concurrency, hcalm.inFlight]
  apply h
  rcases hwaits with hqueue | hnext
  · rcases hcalm.queue with heq | ⟨hnil, -⟩
    · exact .inl (heq ▸ hqueue)
    · exact absurd hnil hqueue
  · have hle := hcalm.next
    rw [hcalm.length] at hnext
    exact .inr (by omega)

/-! ## A slot is filled -/

/-- What the run knows when `fillSlots` takes a worker: its queue and where it stands then. -/
def taking (r : WorkerRun) (queue : List Nat) (next : Nat) : WorkerRun :=
  { r with retryQueue := queue, nextToSpawn := next }

structure Takes (r : WorkerRun) (index : Nat) (queue : List Nat) (next : Nat) : Prop where
  lt : index < r.workers.length
  idle : (r.view index).taken = false ∨ (r.view index).queued = true
  mem : ∀ other, other ∈ queue ↔ other ∈ r.retryQueue ∧ other ≠ index
  nodup : queue.Nodup
  taken : index < next
  same : ∀ other, other ≠ index → (other < next ↔ other < r.nextToSpawn)
  le : next ≤ r.workers.length
  fewer : queue.length + (r.workers.length - next) < r.spawnable

theorem takes_queued (h : Sound none r) {queue : List Nat}
    (hqueue : r.retryQueue = index :: queue) :
    Takes r index queue r.nextToSpawn := by
  have hqueued : (r.view index).queued = true := by simp [view, hqueue]
  have htaken : index < r.nextToSpawn := by
    simpa [view] using (h.ok_none index).taken_of_queued hqueued
  have hnodup := h.queue
  rw [hqueue, List.nodup_cons] at hnodup
  refine
    { lt := Nat.lt_of_lt_of_le htaken h.next_le
      idle := .inr hqueued
      mem := fun other => ?_
      nodup := hnodup.2
      taken := htaken
      same := fun _ _ => Iff.rfl
      le := h.next_le
      fewer := by simp [spawnable, hqueue] }
  rw [hqueue, List.mem_cons]
  constructor
  · intro hin
    exact ⟨.inr hin, fun heq => hnodup.1 (heq ▸ hin)⟩
  · rintro ⟨heq | hin, hne⟩
    · exact absurd heq hne
    · exact hin

theorem takes_next (h : Sound none r) (hqueue : r.retryQueue = [])
    (hlt : r.nextToSpawn < r.workers.length) :
    Takes r r.nextToSpawn r.retryQueue (r.nextToSpawn + 1) where
  lt := hlt
  idle := .inl (by simp [view])
  mem := by simp [hqueue]
  nodup := h.queue
  taken := Nat.lt_succ_self _
  same := fun other hne => by omega
  le := hlt
  fewer := by
    simp only [spawnable]
    omega

/-- The spawn is under way. -/
def spawning (r : WorkerRun) (queue : List Nat) (next index : Nat) : WorkerRun :=
  ((r.taking queue next).setWorker index fun w => { w with spawned := true }).note (.spawned index)

section

variable {queue : List Nat} {next : Nat}

/-- Other workers do not notice that one is taken. -/
theorem view_taking (ht : Takes r index queue next) {other : Nat} (hne : other ≠ index)
    (hworker : r'.worker other = r.worker other) (hnext : r'.nextToSpawn = next)
    (hqueue : r'.retryQueue = queue) (htimers : r'.timers = r.timers) (hdue : r'.due = r.due)
    (hwatched : ∀ pipe, (other, pipe) ∈ r'.watched ↔ (other, pipe) ∈ r.watched)
    (hlog : r'.log = r.log ++ [.spawned index]) : r'.view other = r.view other := by
  have hspawned : Event.spawned index ≠ .spawned other := by simp [Ne.symm hne]
  unfold view
  rw [hworker, hnext, hqueue, htimers, hdue, hlog]
  congr 1
  · exact decide_eq_decide.mpr (ht.same other hne)
  · refine decide_eq_decide.mpr ((ht.mem other).trans ?_)
    simp [hne]
  · funext pipe
    exact decide_eq_decide.mpr (hwatched pipe)
  · simp [List.count_append, hspawned]
  · simp [List.count_append]

theorem spawning_books (h : r.Books) (hlog : ∀ reason, .teardown reason ∉ r.log) :
    (r.spawning queue next index).Books := by
  have hworker : ((r.taking queue next).setWorker index fun w => { w with
      spawned := true }).Books :=
    h.of_eq rfl rfl setWorker_length
  exact hworker.note Event.noConfusion rfl hlog

/-- The spawn failed. -/
def failing (r : WorkerRun) (queue : List Nat) (next index : Nat) (message : Bytes) : WorkerRun :=
  (r.spawning queue next index).setWorker index fun w => w.failToStart message

theorem failing_workers (r : WorkerRun) (queue : List Nat) (next index : Nat) (message : Bytes) :
    (r.failing queue next index message).workers =
      (r.setWorker index fun w => { w with spawned := true }.failToStart message).workers := by
  unfold failing spawning WorkerRun.note setWorker WorkerRun.taking
  exact List.modify_modify_eq _ _ _ _

theorem worker_failing (r : WorkerRun) (queue : List Nat) (next index : Nat) (message : Bytes)
    (other : Nat) :
    (r.failing queue next index message).worker other =
      (r.setWorker index fun w => { w with spawned := true }.failToStart message).worker other := by
  unfold worker
  rw [failing_workers]

theorem view_failing_ne (ht : Takes r index queue next) (message : Bytes) {other : Nat}
    (hne : other ≠ index) : (r.failing queue next index message).view other = r.view other :=
  view_taking ht hne ((worker_failing r queue next index message other).trans
    (worker_setWorker_ne hne)) rfl rfl rfl rfl (fun _ => Iff.rfl) rfl

theorem view_failing_self (ht : Takes r index queue next) (message : Bytes) :
    (r.failing queue next index message).view index =
      { r.view index with
        worker := { (r.view index).worker with spawned := true }.failToStart message
        taken := true
        queued := false
        spawns := (r.view index).spawns + 1 } := by
  have htaken := ht.taken
  have hnot : index ∉ queue := fun hin => ((ht.mem index).mp hin).2 rfl
  unfold view
  rw [worker_failing, worker_setWorker_self ht.lt]
  congr 1
  · simp [failing, spawning, WorkerRun.note, setWorker, taking, htaken]
  · simp [failing, spawning, WorkerRun.note, setWorker, taking, hnot]
  · simp [failing, spawning, WorkerRun.note, setWorker, taking, List.count_append]
  · simp [failing, spawning, WorkerRun.note, setWorker, taking, List.count_append]

theorem Sound.failing (h : Sound none r) (ht : Takes r index queue next)
    (hfresh : ∀ other ∈ r.retryQueue, Fresh (r.worker other))
    (hlog : ∀ reason, .teardown reason ∉ r.log) (message : Bytes) :
    Sound (some index) (r.failing queue next index message) := by
  have hqueued : (r.view index).queued = true → Fresh (r.worker index) :=
    fun hqueued => hfresh index (by simpa [view] using hqueued)
  have hok := (h.ok_none index).failed ht.idle hqueued message
  rw [← view_failing_self ht] at hok
  refine h.touch (f := fun w => { w with spawned := true }.failToStart message) ht.lt rfl rfl
    (failing_workers r queue next index message) rfl rfl rfl ht.le ht.nodup
    ((spawning_books h.books hlog).of_eq rfl rfl setWorker_length)
    (h.oks_some (.inl rfl) rfl (fun _ hne => view_failing_ne ht message hne) hok) ?_
  intro other howed
  obtain rfl : index = other := by simpa using howed
  obtain ⟨-, htimers, -⟩ := (h.ok_none index).fresh ht.idle hqueued
  rw [view_failing_self ht]
  exact .inl htimers

/-- The spawn left a child and its pipes. -/
def starting (r : WorkerRun) (queue : List Nat) (next index : Nat) (stdinClosed : Bool) :
    WorkerRun :=
  (r.spawning queue next index).started index stdinClosed

/-- What the start of a child makes of its worker. -/
def Started (stdinClosed : Bool) (w : Worker) : Worker :=
  { w with spawned := true, running := true, stdinClosed := w.stdinClosed || stdinClosed }

theorem starting_workers (r : WorkerRun) (queue : List Nat) (next index : Nat)
    (stdinClosed : Bool) :
    (r.starting queue next index stdinClosed).workers =
      (r.setWorker index (Started stdinClosed)).workers := by
  unfold starting spawning WorkerRun.started arm WorkerRun.note setWorker WorkerRun.taking
  exact List.modify_modify_eq _ _ _ _

theorem worker_starting (r : WorkerRun) (queue : List Nat) (next index : Nat)
    (stdinClosed : Bool) (other : Nat) :
    (r.starting queue next index stdinClosed).worker other =
      (r.setWorker index (Started stdinClosed)).worker other := by
  unfold worker
  rw [starting_workers]

theorem watched_starting (ht : Takes r index queue next) (hfresh : Fresh (r.worker index))
    (stdinClosed : Bool) :
    (r.starting queue next index stdinClosed).watched =
      r.watched ++ [(index, .Stdout), (index, .Stderr)] ++
        if stdinClosed then [] else [(index, .Stdin)] := by
  have hstdin : (r.worker index).stdinClosed = false := hfresh.2.1 .Stdin
  have hclosed : ((r.starting queue next index stdinClosed).worker index).stdinClosed =
      stdinClosed := by
    rw [worker_starting, worker_setWorker_self ht.lt]
    simp [Started, hstdin]
  have hall : (r.starting queue next index stdinClosed).watched =
      r.watched ++ [(index, .Stdout), (index, .Stderr)] ++
        if ((r.starting queue next index stdinClosed).worker index).stdinClosed
        then [] else [(index, .Stdin)] := rfl
  rw [hclosed] at hall
  exact hall

theorem view_starting_ne (ht : Takes r index queue next) (hfresh : Fresh (r.worker index))
    (stdinClosed : Bool) {other : Nat} (hne : other ≠ index) :
    (r.starting queue next index stdinClosed).view other = r.view other := by
  refine view_taking ht hne ((worker_starting r queue next index stdinClosed other).trans
    (worker_setWorker_ne hne)) rfl rfl rfl rfl (fun pipe => ?_) rfl
  rw [watched_starting ht hfresh]
  cases stdinClosed <;> simp [hne]

theorem view_starting_self (ht : Takes r index queue next) (hfresh : Fresh (r.worker index))
    (hunwatched : ∀ pipe, (r.view index).watched pipe = false) (stdinClosed : Bool) :
    (r.starting queue next index stdinClosed).view index =
      { r.view index with
        worker := Started stdinClosed (r.view index).worker
        taken := true
        queued := false
        watched := fun pipe => pipe ≠ .Stdin || !stdinClosed
        spawns := (r.view index).spawns + 1 } := by
  have htaken := ht.taken
  have hnot : index ∉ queue := fun hin => ((ht.mem index).mp hin).2 rfl
  have hnone : ∀ pipe, (index, pipe) ∉ r.watched := by simpa [view] using hunwatched
  unfold view
  rw [worker_starting, worker_setWorker_self ht.lt, watched_starting ht hfresh]
  congr 1
  · simp [starting, spawning, WorkerRun.started, arm, WorkerRun.note, setWorker, taking, htaken]
  · simp [starting, spawning, WorkerRun.started, arm, WorkerRun.note, setWorker, taking, hnot]
  · funext pipe
    have hpipe := hnone pipe
    cases pipe <;> cases stdinClosed <;> simp [hpipe]
  · simp [starting, spawning, WorkerRun.started, arm, WorkerRun.note, setWorker, taking]
  · simp [starting, spawning, WorkerRun.started, arm, WorkerRun.note, setWorker, taking,
      List.count_append]

theorem Sound.starting (h : Sound none r) (ht : Takes r index queue next)
    (hfresh : ∀ other ∈ r.retryQueue, Fresh (r.worker other))
    (hlog : ∀ reason, .teardown reason ∉ r.log) (hfree : r.inFlight < r.concurrency)
    (stdinClosed : Bool) : Sound none (r.starting queue next index stdinClosed) := by
  have hqueued : (r.view index).queued = true → Fresh (r.worker index) :=
    fun hqueued => hfresh index (by simpa [view] using hqueued)
  obtain ⟨hnew, -, -⟩ := (h.ok_none index).fresh ht.idle hqueued
  obtain ⟨hrunning, hunwatched⟩ := (h.ok_none index).idle ht.idle
  have hok := (h.ok_none index).started ht.idle hqueued stdinClosed
  change Ok False r.maxRetries { r.view index with
    worker := Started stdinClosed (r.view index).worker
    taken := true
    queued := false
    watched := fun pipe => pipe ≠ .Stdin || !stdinClosed
    spawns := (r.view index).spawns + 1 } at hok
  rw [← view_starting_self ht hnew hunwatched] at hok
  have hcounts := countP_setWorker_same (f := Started stdinClosed) (fun w => !w.counted) ht.lt rfl
  have hruns := countP_setWorker (f := Started stdinClosed) (fun w => w.running) ht.lt
  refine
    { ok := h.oks_none (.inl rfl) rfl
        (fun _ hne => view_starting_ne ht hnew stdinClosed hne) hok
      owes := fun _ howed => by cases howed
      remaining := ?_
      inFlight := ?_
      bounded := hfree
      next_le := ?_
      queue := ht.nodup
      books := (spawning_books h.books hlog).of_eq rfl rfl setWorker_length }
  · rw [starting_workers, hcounts]
    exact h.remaining
  · have hrun : (r.worker index).running = false := hrunning
    have hstart : (Started stdinClosed (r.worker index)).running = true := rfl
    rw [hrun, hstart] at hruns
    simp only [Bool.toNat_false, Bool.toNat_true, Nat.add_zero] at hruns
    rw [starting_workers, hruns, ← h.inFlight]
    rfl
  · rw [starting_workers, setWorker_length]
    exact ht.le

theorem Tidy.taking (h : r.Tidy) (ht : Takes r index queue next)
    (hlog : ∀ reason, .teardown reason ∉ r.log)
    (hworker : ∀ other, other ≠ index → r'.worker other = r.worker other)
    (hawaiting : (r'.worker index).awaitingRetry = false)
    (hviews : ∀ other, other ≠ index → r'.view other = r.view other)
    (hqueue : r'.retryQueue = queue) (htimers : r'.timers = r.timers) (hdue : r'.due = r.due)
    (hcancelled : r'.cancelled = r.cancelled) (hspawned : r'.log = r.log ++ [.spawned index]) :
    r'.Tidy where
  queue := by
    intro other hin
    rw [hqueue, ht.mem] at hin
    rw [hworker other hin.2]
    exact h.queue other hin.1
  backoff := by
    intro other hother
    by_cases heq : other = index
    · rw [heq, hawaiting] at hother
      cases hother
    · rw [hviews other heq]
      rw [hworker other heq] at hother
      exact h.backoff other hother
  drain := by
    intro hdrain
    rw [htimers, hdue] at hdrain
    obtain ⟨reason, hin⟩ := h.drain hdrain
    exact absurd hin (hlog reason)
  stopped := by
    intro hstopped
    rw [hcancelled] at hstopped
    obtain ⟨reason, hin⟩ := h.stopped hstopped
    exact absurd hin (hlog reason)
  torn := by
    rintro ⟨reason, hin⟩
    rw [hspawned] at hin
    exact absurd (by simpa using hin) (hlog reason)

/-! ## An exit -/

/-- A child is reaped, before its account. -/
def exited (r : WorkerRun) (index : Nat) (waits : Waits) : WorkerRun :=
  { r.setWorker index (Worker.reaped waits) with inFlight := r.inFlight - 1 }

theorem lt_of_running (h : (r.worker index).running = true) : index < r.workers.length := by
  by_contra hle
  rw [worker_of_le (by omega)] at h
  cases h

theorem view_exited_ne (r : WorkerRun) (waits : Waits) {other : Nat} (hne : other ≠ index) :
    (r.exited index waits).view other = r.view other := by
  unfold view exited
  congr 1
  exact worker_setWorker_ne hne

theorem Sound.exited (h : Sound none r) (hrunning : (r.worker index).running = true)
    (waits : Waits) : Sound (some index) (r.exited index waits) := by
  have hlt := lt_of_running hrunning
  have hold := h.ok_none index
  have hok := hold.reaped hrunning waits
  have hview : (r.exited index waits).view index =
      { r.view index with worker := (r.view index).worker.reaped waits } := by
    unfold view WorkerRun.exited
    congr 1
    exact worker_setWorker_self hlt
  obtain ⟨-, -, hover⟩ := hold.alive hrunning
  have hopen := hold.not_over hover
  rw [← hview] at hok
  have hruns := countP_setWorker (f := Worker.reaped waits) (fun w => w.running) hlt
  have hcounts := countP_setWorker_same (f := Worker.reaped waits) (fun w => !w.counted) hlt rfl
  rw [hrunning] at hruns
  have hinFlight := h.inFlight
  have hbounded := h.bounded
  refine
    { ok := h.oks_some (.inl rfl) rfl (fun _ hne => view_exited_ne r waits hne) hok
      owes := fun other howed => ?_
      remaining := h.remaining.trans hcounts.symm
      inFlight := ?_
      bounded := ?_
      next_le := h.next_le.trans (Nat.le_of_eq setWorker_length.symm)
      queue := h.queue
      books := h.books.of_eq rfl rfl setWorker_length }
  · obtain rfl : index = other := by simpa using howed
    rw [hview]
    exact .inl (hold.no_timer hopen.1 hopen.2)
  · change r.inFlight - 1 = (r.setWorker index _).workers.countP _
    have hgone : (Worker.reaped waits (r.worker index)).running = false := rfl
    rw [hgone] at hruns
    simp only [Bool.toNat_true, Bool.toNat_false] at hruns
    omega
  · change r.inFlight - 1 ≤ r.concurrency
    omega

theorem Tidy.exited (h : r.Tidy) (hsound : Sound none r)
    (hrunning : (r.worker index).running = true) (waits : Waits) :
    (r.exited index waits).Tidy := by
  have hlt := lt_of_running hrunning
  have hself : (r.exited index waits).worker index = (r.worker index).reaped waits :=
    worker_setWorker_self hlt
  have hother : ∀ other, other ≠ index → (r.exited index waits).worker other = r.worker other :=
    fun _ hne => worker_setWorker_ne hne
  obtain ⟨-, hqueued, hover⟩ := (hsound.ok_none index).alive hrunning
  have hopen := (hsound.ok_none index).not_over hover
  refine ⟨?_, ?_, h.drain, h.stopped, ?_⟩
  · intro other hin
    have hne : other ≠ index := by
      rintro rfl
      have hnot : other ∉ r.retryQueue := by simpa [view] using hqueued
      exact hnot hin
    rw [hother other hne]
    exact h.queue other hin
  · intro other hawaiting
    by_cases heq : other = index
    · rw [heq, hself] at hawaiting
      rw [show ((r.worker index).reaped waits).awaitingRetry = false from hopen.2] at hawaiting
      cases hawaiting
    · rw [hother other heq] at hawaiting
      rw [view_exited_ne r waits heq]
      exact h.backoff other hawaiting
  · intro hbegun
    obtain ⟨hold, hqueue, hnext, hdone⟩ := h.torn hbegun
    refine ⟨hold, hqueue, ?_, fun other hless => ?_⟩
    · exact (Nat.le_of_eq setWorker_length).trans hnext
    · have hless' : other < r.workers.length := by simpa [WorkerRun.exited] using hless
      by_cases heq : other = index
      · rw [heq] at hless' ⊢
        have hd := hdone index hless'
        unfold Stopped at hd ⊢
        rw [hself]
        exact hd
      · have hd := hdone other hless'
        unfold Stopped at hd ⊢
        rw [hother other heq]
        exact hd

/-- What a callback, or a part of one, keeps. -/
structure Steady (r : WorkerRun) : Prop where
  sound : Sound none r
  tidy : r.Tidy

theorem Steady.childExited (h : Steady r) (hrunning : (r.worker index).running = true)
    (waits : Waits) :
    Steady (r.childExited index waits) ∧
      Calm (r.exited index waits) (r.childExited index waits) := by
  have hsound := h.sound.exited hrunning waits
  have htidy := (h.tidy.exited h.sound hrunning waits).account hsound
  obtain ⟨hafter, hcalm⟩ := hsound.account
  exact ⟨⟨hafter, htidy⟩, hcalm⟩

theorem Calm.spawnable_le (h : Calm r r') : r'.spawnable ≤ r.spawnable := by
  unfold spawnable
  have hnext := h.next
  rw [h.length]
  rcases h.queue with heq | ⟨hnil, -⟩
  · rw [heq]
    omega
  · rw [hnil, List.length_nil]
    omega

theorem Torn.spawnable_eq (h : r.Torn) : r.spawnable = 0 := by
  unfold spawnable
  have hnext := h.next
  rw [h.queue, List.length_nil]
  omega

/-- Nothing was torn down while somebody can be taken. -/
theorem Steady.no_teardown (h : Steady r) (ht : Takes r index queue next) (reason : StopReason) :
    .teardown reason ∉ r.log := by
  intro hin
  have hzero := (h.tidy.torn ⟨reason, hin⟩).spawnable_eq
  have hfewer := ht.fewer
  omega

theorem Steady.fresh (h : Steady r) (ht : Takes r index queue next) : Fresh (r.worker index) :=
  ((h.sound.ok_none index).fresh ht.idle
    fun hqueued => h.tidy.queue index (by simpa [view] using hqueued)).1

/-- The spawn failed, and the worker is not accounted for yet. -/
theorem Steady.failing (h : Steady r) (ht : Takes r index queue next) (message : Bytes) :
    Sound (some index) (r.failing queue next index message) ∧
      (r.failing queue next index message).Tidy := by
  refine ⟨h.sound.failing ht h.tidy.queue (h.no_teardown ht) message,
    h.tidy.taking ht (h.no_teardown ht) (fun other hne => ?_) ?_
      (fun other hne => view_failing_ne ht message hne) rfl rfl rfl rfl rfl⟩
  · rw [worker_failing, worker_setWorker_ne hne]
  · rw [worker_failing, worker_setWorker_self ht.lt]
    exact (h.fresh ht).2.2.2

/-- The spawn left a child. -/
theorem Steady.starting (h : Steady r) (ht : Takes r index queue next)
    (hfree : r.inFlight < r.concurrency) (stdinClosed : Bool) :
    Steady (r.starting queue next index stdinClosed) ∧
      ((r.starting queue next index stdinClosed).worker index).running = true := by
  have hself : (r.starting queue next index stdinClosed).worker index =
      Started stdinClosed (r.worker index) := by
    rw [worker_starting, worker_setWorker_self ht.lt]
  refine ⟨⟨h.sound.starting ht h.tidy.queue (h.no_teardown ht) hfree stdinClosed,
    h.tidy.taking ht (h.no_teardown ht) (fun other hne => ?_) ?_
      (fun other hne => view_starting_ne ht (h.fresh ht) stdinClosed hne) rfl rfl rfl rfl rfl⟩, ?_⟩
  · rw [worker_starting, worker_setWorker_ne hne]
  · rw [hself]
    exact (h.fresh ht).2.2.2
  · rw [hself]
    rfl

/-- A worker that `fillSlots` takes. -/
theorem Steady.spawn (h : Steady r) (ht : Takes r index queue next)
    (hfree : r.inFlight < r.concurrency) (start : Start) :
    Steady ((r.taking queue next).spawn index start) ∧
      ((r.taking queue next).spawn index start).spawnable < r.spawnable := by
  have hspawnable : ∀ {r' : WorkerRun}, r'.workers.length = r.workers.length →
      r'.retryQueue = queue → r'.nextToSpawn = next → r'.spawnable < r.spawnable := by
    intro r' hlength hqueue hnext
    have hfewer := ht.fewer
    have hexpand : r'.spawnable = queue.length + (r.workers.length - next) := by
      unfold spawnable
      rw [hlength, hqueue, hnext]
    omega
  cases start with
  | failed message =>
    obtain ⟨hsound, htidy⟩ := h.failing ht message
    obtain ⟨hafter, hcalm⟩ := hsound.account
    have hless : (r.failing queue next index message).spawnable < r.spawnable := by
      refine hspawnable ?_ rfl rfl
      rw [failing_workers, setWorker_length]
    exact ⟨⟨hafter, htidy.account hsound⟩, Nat.lt_of_le_of_lt hcalm.spawnable_le hless⟩
  | running stdinClosed =>
    refine ⟨(h.starting ht hfree stdinClosed).1, hspawnable ?_ rfl rfl⟩
    change (r.starting queue next index stdinClosed).workers.length = _
    rw [starting_workers, setWorker_length]
  | gone stdinClosed waits =>
    obtain ⟨hstarting, hrunning⟩ := h.starting ht hfree stdinClosed
    obtain ⟨hafter, hcalm⟩ := hstarting.childExited hrunning waits
    have hless : ((r.starting queue next index stdinClosed).exited index waits).spawnable <
        r.spawnable := by
      refine hspawnable ?_ rfl rfl
      change ((r.starting queue next index stdinClosed).setWorker index _).workers.length = _
      rw [setWorker_length, starting_workers, setWorker_length]
    exact ⟨hafter, Nat.lt_of_le_of_lt hcalm.spawnable_le hless⟩

end

/-! ## The slots -/

theorem Steady.filling (h : Steady r) (filling : Bool) : Steady { r with filling } where
  sound :=
    { h.sound with
      owes := fun _ howed => by cases howed
      books := h.sound.books.of_eq rfl rfl rfl }
  tidy :=
    { h.tidy with
      torn := fun hbegun => { h.tidy.torn hbegun with } }

theorem fillBody_some {start : Nat → Start} {events : List Event} (h : Steady r)
    (hbody : r.fillBody start = some (r', events)) :
    ∃ index queue next, Takes r index queue next ∧ r.inFlight < r.concurrency ∧
      r' = (r.taking queue next).spawn index (start index) := by
  unfold fillBody at hbody
  by_cases hfree : r.inFlight < r.concurrency
  · rw [if_pos hfree] at hbody
    split at hbody
    · rename_i index queue hqueue
      simp only [Option.some.injEq, Prod.mk.injEq] at hbody
      exact ⟨index, queue, r.nextToSpawn, takes_queued h.sound hqueue, hfree, hbody.1.symm⟩
    · rename_i hqueue
      by_cases hlt : r.nextToSpawn < r.workers.length
      · rw [if_pos hlt] at hbody
        simp only [Option.some.injEq, Prod.mk.injEq] at hbody
        exact ⟨r.nextToSpawn, r.retryQueue, r.nextToSpawn + 1, takes_next h.sound hqueue hlt,
          hfree, hbody.1.symm⟩
      · rw [if_neg hlt] at hbody
        cases hbody
  · rw [if_neg hfree] at hbody
    cases hbody

theorem fillBody_none {start : Nat → Start} (h : r.fillBody start = none) : r.Full := by
  intro hwaits
  by_contra hfree
  unfold fillBody at h
  rw [if_pos (by omega)] at h
  split at h
  · cases h
  · rename_i hqueue
    rcases hwaits with hnil | hlt
    · exact hnil hqueue
    · rw [if_pos hlt] at h
      cases h

theorem Steady.fillLoop (h : Steady r) (start : Nat → Start) {fuel : Nat}
    (hfuel : r.spawnable ≤ fuel) :
    Steady (Loop.run (fillBody start) fuel r).1 ∧
      fillBody start (Loop.run (fillBody start) fuel r).1 = none := by
  apply Loop.run_ends spawnable Steady _ fuel h hfuel
  intro r₁ r₂ events hsteady hbody
  obtain ⟨index, queue, next, ht, hfree, rfl⟩ := fillBody_some hsteady hbody
  obtain ⟨hnext, hless⟩ := hsteady.spawn ht hfree (start index)
  exact ⟨hnext, hless⟩

/-- The slots are filled, or nobody is left to fill them. -/
theorem Steady.fillSlots (h : Steady r) (hfilling : r.filling = false) (start : Nat → Start) :
    Steady (r.fillSlots start) ∧ (r.fillSlots start).filling = false ∧
      (r.fillSlots start).Full := by
  obtain ⟨hsteady, hnone⟩ := (h.filling true).fillLoop start (Nat.le_refl r.spawnable)
  unfold WorkerRun.fillSlots
  rw [if_neg (by simp [hfilling])]
  exact ⟨hsteady.filling false, rfl, (fillBody_none hnone).filling false⟩

end psx.process.WorkerRun
