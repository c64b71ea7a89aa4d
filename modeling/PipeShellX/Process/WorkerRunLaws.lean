-- The books of a run of workers: what holds of each worker, of the counters and of the log, in
-- every state that a callback of the reactor leaves behind.
import PipeShellX.Counts
import PipeShellX.Process.WorkerView
import PipeShellX.Trace

namespace psx.process.WorkerRun

open psx.os (Waits)

/-! ## The log -/

/-- A worker is counted. -/
def Event.isCounted : Event → Bool
  | .counted _ => true
  | _ => false

/-- The reactor is stopped right after the last worker is counted, and no worker is spawned
after a teardown. -/
def Allowed (total : Nat) (pre : List Event) : Event → Prop
  | .stop => (∃ pre' index, pre = pre' ++ [.counted index]) ∧ pre.countP Event.isCounted = total
  | .spawned _ => ∀ reason, .teardown reason ∉ pre
  | _ => True

/-- The counts are right. -/
structure Books (r : WorkerRun) : Prop where
  total : r.log.countP Event.isCounted + r.remaining = r.workers.length
  stops : r.log.count .stop = if 0 < r.workers.length ∧ r.remaining = 0 then 1 else 0
  lawful : Trace.Lawful (Allowed r.workers.length) r.log

/-! ## The invariant -/

/-- A teardown reached the worker, or reaches it before anything else can happen to it. -/
def Stopped (r : WorkerRun) (index : Nat) : Prop :=
  r.cancelled = true ∨ r.aborted = true ∨ (r.worker index).timedOut = true

/-- What holds also between two steps of a callback. -/
structure Sound (owed : Option Nat) (r : WorkerRun) : Prop where
  ok : ∀ index, Ok (owed = some index) r.maxRetries (r.view index)
  owes : ∀ index, owed = some index →
    (r.view index).timers = 0 ∨ r.Stopped index ∧ (r.worker index).complete = true
  remaining : r.remaining = r.workers.countP fun w => !w.counted
  inFlight : r.inFlight = r.workers.countP fun w => w.running
  bounded : r.inFlight ≤ r.concurrency
  next_le : r.nextToSpawn ≤ r.workers.length
  queue : r.retryQueue.Nodup
  books : r.Books

/-- After a teardown nobody waits for a slot or for a retry. -/
structure Torn (r : WorkerRun) : Prop where
  begun : ∃ reason, .teardown reason ∈ r.log
  queue : r.retryQueue = []
  next : r.workers.length ≤ r.nextToSpawn
  done : ∀ index < r.workers.length, (r.worker index).counted = true ∨
    (r.worker index).awaitingRetry = false ∧ r.Stopped index

/-! ## One worker changes -/

section

variable {r : WorkerRun} {index : Nat} {f : Worker → Worker}

@[simp] theorem setWorker_length : (r.setWorker index f).workers.length = r.workers.length := by
  simp [setWorker]

theorem worker_setWorker (h : index < r.workers.length) (other : Nat) :
    (r.setWorker index f).worker other =
      if other = index then f (r.worker index) else r.worker other := by
  unfold setWorker worker
  rw [Counts.getD_modify f _ _ _ _ h]
  split_ifs with heq
  · rw [heq]
  · rfl

theorem worker_setWorker_self (h : index < r.workers.length) :
    (r.setWorker index f).worker index = f (r.worker index) := by
  rw [worker_setWorker h, if_pos rfl]

theorem worker_setWorker_ne {other : Nat} (h : other ≠ index) :
    (r.setWorker index f).worker other = r.worker other := by
  unfold setWorker worker
  rw [List.getD_eq_getElem?_getD, List.getD_eq_getElem?_getD, List.getElem?_modify_ne f _ h.symm]

/-- A count over the workers after one of them changed. -/
theorem countP_setWorker (p : Worker → Bool) (h : index < r.workers.length) :
    (r.setWorker index f).workers.countP p + (p (r.worker index)).toNat =
      r.workers.countP p + (p (f (r.worker index))).toNat :=
  Counts.countP_modify p f {} h

theorem countP_setWorker_same (p : Worker → Bool) (h : index < r.workers.length)
    (hsame : p (f (r.worker index)) = p (r.worker index)) :
    (r.setWorker index f).workers.countP p = r.workers.countP p := by
  have hcount := countP_setWorker (f := f) p h
  rw [hsame] at hcount
  omega

theorem setWorker_of_le (h : r.workers.length ≤ index) : r.setWorker index f = r := by
  unfold setWorker
  rw [List.modify_eq_self h]

/-- A worker that does not exist is as it would begin. -/
theorem worker_of_le (h : r.workers.length ≤ index) : r.worker index = {} := by
  unfold worker
  rw [List.getD_eq_default _ _ h]

theorem lt_of_complete (h : (r.worker index).complete = true) : index < r.workers.length := by
  by_contra hle
  rw [worker_of_le (by omega)] at h
  exact absurd h (by decide)

end

/-! ## The books -/

theorem Books.note {r : WorkerRun} (h : r.Books) {e : Event} (hstop : e ≠ .stop)
    (hcounted : e.isCounted = false) (hallowed : Allowed r.workers.length r.log e) :
    (r.note e).Books := by
  refine ⟨?_, ?_, h.lawful.snoc hallowed⟩
  · simpa [WorkerRun.note, hcounted] using h.total
  · have hnone : [e].count .stop = 0 := by simp [hstop]
    change (r.log ++ [e]).count .stop = _
    rw [List.count_append, hnone, Nat.add_zero]
    exact h.stops

theorem Books.of_eq {r r' : WorkerRun} (h : r.Books) (hlog : r'.log = r.log)
    (hremaining : r'.remaining = r.remaining) (hlength : r'.workers.length = r.workers.length) :
    r'.Books := by
  obtain ⟨htotal, hstops, hlawful⟩ := h
  rw [← hlog, ← hremaining, ← hlength] at htotal hstops
  rw [← hlog, ← hlength] at hlawful
  exact ⟨htotal, hstops, hlawful⟩

/-- The last worker is counted, or another one. -/
theorem Books.count {r : WorkerRun} (h : r.Books) (hpos : 0 < r.remaining) (index : Nat) :
    if r.remaining - 1 = 0 then ((r.count index).note .stop).Books else (r.count index).Books := by
  have htotal := h.total
  have hstops := h.stops
  rw [if_neg (by omega)] at hstops
  have hlawful : Trace.Lawful (Allowed r.workers.length) (r.log ++ [.counted index]) :=
    h.lawful.snoc trivial
  have hcounted : (r.log ++ [Event.counted index]).countP Event.isCounted =
      r.log.countP Event.isCounted + 1 := by
    simp [Event.isCounted]
  split_ifs with hlast
  · refine ⟨?_, ?_, ?_⟩
    · change ((r.log ++ [Event.counted index]) ++ [Event.stop]).countP Event.isCounted +
          (r.remaining - 1) =
        (r.setWorker index _).workers.length
      rw [List.countP_append, hcounted, setWorker_length]
      have hnone : [Event.stop].countP Event.isCounted = 0 := rfl
      omega
    · have hpositive : 0 < r.workers.length := by omega
      simp [WorkerRun.count, WorkerRun.note, setWorker, hlast, hpositive, hstops]
    · have hallowed : Allowed r.workers.length (r.log ++ [.counted index]) .stop := by
        refine ⟨⟨r.log, index, rfl⟩, ?_⟩
        rw [hcounted]
        omega
      simpa [WorkerRun.count, WorkerRun.note, setWorker] using hlawful.snoc hallowed
  · refine ⟨?_, ?_, ?_⟩
    · change (r.log ++ [Event.counted index]).countP Event.isCounted + (r.remaining - 1) =
        (r.setWorker index _).workers.length
      rw [hcounted, setWorker_length]
      omega
    · simp [WorkerRun.count, WorkerRun.note, setWorker, hlast, hstops]
    · simpa [WorkerRun.count, WorkerRun.note, setWorker] using hlawful

/-! ## One step at a time -/

section

variable {r r' : WorkerRun} {owed owed' : Option Nat} {index : Nat}

theorem view_note {e : Event} (h : ∀ other, e ≠ .spawned other ∧ e ≠ .counted other) (other : Nat) :
    (r.note e).view other = r.view other := by
  obtain ⟨hspawned, hcounted⟩ := h other
  unfold view WorkerRun.note
  congr 1
  · simp [List.count_append, hspawned]
  · simp [List.count_append, hcounted]

theorem Sound.ok_none (h : Sound none r) (index : Nat) : Ok False r.maxRetries (r.view index) := by
  simpa using h.ok index

theorem Sound.ok_some (h : Sound (some index) r) : Ok True r.maxRetries (r.view index) := by
  simpa using h.ok index

/-- What happens to one worker that ends up owing nothing. -/
theorem Sound.oks_none (h : Sound owed r) (howed : owed = none ∨ owed = some index)
    (hmax : r'.maxRetries = r.maxRetries)
    (hviews : ∀ other, other ≠ index → r'.view other = r.view other)
    (hok : Ok False r.maxRetries (r'.view index)) (other : Nat) :
    Ok (none = some other) r'.maxRetries (r'.view other) := by
  rw [hmax]
  by_cases heq : other = index
  · rw [heq]
    simpa using hok
  · have hother := h.ok other
    rw [hviews other heq]
    rcases howed with rfl | rfl
    · exact hother
    · simpa [Ne.symm heq] using hother

/-- What happens to one worker that ends up owing. -/
theorem Sound.oks_some (h : Sound owed r) (howed : owed = none ∨ owed = some index)
    (hmax : r'.maxRetries = r.maxRetries)
    (hviews : ∀ other, other ≠ index → r'.view other = r.view other)
    (hok : Ok True r.maxRetries (r'.view index)) (other : Nat) :
    Ok (some index = some other) r'.maxRetries (r'.view other) := by
  rw [hmax]
  by_cases heq : other = index
  · rw [heq]
    simpa using hok
  · have hother := h.ok other
    rw [hviews other heq]
    rcases howed with rfl | rfl
    · simpa [Ne.symm heq] using hother
    · exact hother

theorem Sound.remaining_pos (h : Sound owed r) (hcounted : (r.worker index).counted = false)
    (hlt : index < r.workers.length) : 0 < r.remaining := by
  by_contra hzero
  have hnone : (r.workers.countP fun w => !w.counted) = 0 := by
    rw [← h.remaining]
    omega
  have hall := (Counts.countP_eq_zero_iff_getD {}).mp hnone index hlt
  change (!(r.worker index).counted) = false at hall
  simp [hcounted] at hall

theorem view_count_ne {other : Nat} (h : other ≠ index) :
    (r.count index).view other = r.view other := by
  have hcounts : Event.counted index ≠ .counted other := by simp [Ne.symm h]
  unfold view count WorkerRun.note
  congr 1
  · exact worker_setWorker_ne h
  · simp [setWorker]
  · simp [setWorker, List.count_append, hcounts]

theorem view_count_self (h : index < r.workers.length) :
    (r.count index).view index =
      { r.view index with
        worker := { (r.view index).worker with counted := true }
        counts := (r.view index).counts + 1 } := by
  unfold view WorkerRun.count WorkerRun.note
  congr 1
  · exact worker_setWorker_self h
  · simp [setWorker]
  · simp [setWorker]

theorem count_uncounted (hlt : index < r.workers.length)
    (hcounted : (r.worker index).counted = false) :
    ((r.count index).workers.countP fun w => !w.counted) + 1 =
      r.workers.countP fun w => !w.counted := by
  have hcount := countP_setWorker (f := fun w => { w with counted := true })
    (fun w => !w.counted) hlt
  rw [hcounted] at hcount
  exact hcount

theorem count_running (hlt : index < r.workers.length) :
    ((r.count index).workers.countP fun w => w.running) = r.workers.countP fun w => w.running :=
  countP_setWorker_same (fun w => w.running) hlt rfl

theorem view_stop (other : Nat) : (r.note .stop).view other = r.view other :=
  view_note (fun _ => ⟨Event.noConfusion, Event.noConfusion⟩) other

/-- One more worker is counted, whether the reactor is stopped then or not. -/
theorem Sound.counted (h : Sound (some index) r) (hcomplete : (r.worker index).complete = true)
    (hawaiting : (r.worker index).awaitingRetry = false)
    (hcounted : (r.worker index).counted = false)
    (hr : r' = r.count index ∨ r' = (r.count index).note .stop) (hbooks : r'.Books) :
    Sound none r' := by
  have hlt := lt_of_complete hcomplete
  have hok := h.ok_some.count hcomplete hawaiting hcounted
  rw [← view_count_self hlt] at hok
  have hviews : ∀ other, r'.view other = (r.count index).view other := by
    intro other
    rcases hr with rfl | rfl
    · rfl
    · exact view_stop other
  have hfields : r'.workers = (r.count index).workers ∧ r'.remaining = r.remaining - 1 ∧
      r'.inFlight = r.inFlight ∧ r'.concurrency = r.concurrency ∧
      r'.nextToSpawn = r.nextToSpawn ∧ r'.retryQueue = r.retryQueue ∧
      r'.maxRetries = r.maxRetries := by
    rcases hr with rfl | rfl <;> exact ⟨rfl, rfl, rfl, rfl, rfl, rfl, rfl⟩
  obtain ⟨hworkers, hrem, hinFlight, hconcurrency, hnext, hqueue, hmax⟩ := hfields
  rw [← hviews] at hok
  refine
    { ok := h.oks_none (.inr rfl) hmax (fun other hne => ?_) hok
      owes := fun _ howed => by cases howed
      remaining := ?_
      inFlight := ?_
      bounded := by rw [hinFlight, hconcurrency]; exact h.bounded
      next_le := ?_
      queue := by rw [hqueue]; exact h.queue
      books := hbooks }
  · rw [hviews other, view_count_ne hne]
  · have hall := h.remaining
    have hone := count_uncounted hlt hcounted
    rw [hrem, hworkers]
    omega
  · rw [hinFlight, hworkers, count_running hlt]
    exact h.inFlight
  · rw [hnext, hworkers]
    change _ ≤ (r.setWorker index _).workers.length
    rw [setWorker_length]
    exact h.next_le

/-- One worker changes, and not in what the counters count. -/
theorem Sound.touch (h : Sound owed r) {f : Worker → Worker} (hlt : index < r.workers.length)
    (hcounted : (f (r.worker index)).counted = (r.worker index).counted)
    (hrunning : (f (r.worker index)).running = (r.worker index).running)
    (hworkers : r'.workers = (r.setWorker index f).workers)
    (hremaining : r'.remaining = r.remaining)
    (hinFlight : r'.inFlight = r.inFlight) (hconcurrency : r'.concurrency = r.concurrency)
    (hnext : r'.nextToSpawn ≤ r.workers.length) (hqueue : r'.retryQueue.Nodup) (hbooks : r'.Books)
    (hoks : ∀ other, Ok (owed' = some other) r'.maxRetries (r'.view other))
    (howes : ∀ other, owed' = some other →
      (r'.view other).timers = 0 ∨ r'.Stopped other ∧ (r'.worker other).complete = true) :
    Sound owed' r' := by
  refine
    { ok := hoks
      owes := howes
      remaining := ?_
      inFlight := ?_
      bounded := by rw [hinFlight, hconcurrency]; exact h.bounded
      next_le := by rw [hworkers, setWorker_length]; exact hnext
      queue := hqueue
      books := hbooks }
  · rw [hremaining, hworkers, countP_setWorker_same _ hlt (by rw [hcounted])]
    exact h.remaining
  · rw [hinFlight, hworkers, countP_setWorker_same _ hlt hrunning]
    exact h.inFlight

theorem view_schedule_ne {other : Nat} (h : other ≠ index) :
    (r.scheduleRetry index).view other = r.view other := by
  have htimer : Timer.Retry index ≠ .Retry other := by simp [Ne.symm h]
  unfold view scheduleRetry
  congr 1
  · exact worker_setWorker_ne h
  · simp [setWorker, List.count_append, htimer]

theorem view_schedule_self (h : index < r.workers.length) :
    (r.scheduleRetry index).view index =
      { r.view index with
        worker :=
          { (r.view index).worker with
            awaitingRetry := true
            attempt := (r.view index).worker.attempt + 1 }
        timers := (r.view index).timers + 1 } := by
  unfold view scheduleRetry
  congr 1
  · exact worker_setWorker_self h
  · simp [setWorker, List.count_append]
    omega

theorem Sound.schedule (h : Sound (some index) r) (hcomplete : (r.worker index).complete = true)
    (hcounted : (r.worker index).counted = false) (hgoes : ¬ r.Stopped index)
    (hattempt : (r.worker index).attempt < r.maxRetries) :
    Sound none (r.scheduleRetry index) := by
  have hlt := lt_of_complete hcomplete
  have htimers : (r.view index).timers = 0 := by
    rcases h.owes index rfl with htimers | ⟨hstopped, -⟩
    · exact htimers
    · exact absurd hstopped hgoes
  have hok := h.ok_some.schedule hcomplete hcounted htimers hattempt
  rw [← view_schedule_self hlt] at hok
  exact h.touch hlt rfl rfl rfl rfl rfl rfl h.next_le h.queue
    (h.books.of_eq rfl rfl setWorker_length)
    (h.oks_none (.inr rfl) rfl (fun _ hne => view_schedule_ne hne) hok)
    (fun _ howed => by cases howed)

/-- Nothing was owed after all. -/
theorem Sound.quit (h : Sound (some index) r)
    (hdone : (r.worker index).counted = true ∨ (r.worker index).awaitingRetry = true ∨
      (r.worker index).complete = false) : Sound none r := by
  refine { h with ok := ?_, owes := fun _ howed => by cases howed }
  refine h.oks_none (.inr rfl) rfl (fun _ _ => rfl) (h.ok_some.quit hdone ?_)
  intro hopen
  rcases h.owes index rfl with htimers | ⟨-, hcomplete⟩
  · exact htimers
  · rw [show (r.worker index).complete = false from hopen] at hcomplete
    cases hcomplete

/-! ## The account of one worker -/

/-- It is over, and nobody took note of it yet. -/
structure Ended (w : Worker) : Prop where
  complete : w.complete = true
  counted : w.counted = false
  awaiting : w.awaitingRetry = false

/-- The first final failure of a fail-fast run. -/
def Aborts (r : WorkerRun) (index : Nat) : Prop :=
  r.failFast = true ∧ r.aborted = false ∧ r.cancelled = false ∧
    (r.worker index).isFailure = true

/-- What `account` does. -/
theorem accountThen_cases (abort : WorkerRun → WorkerRun) (r : WorkerRun) (index : Nat) :
    accountThen abort r index = r ∧ ¬ Ended (r.worker index) ∨
    Ended (r.worker index) ∧
      (accountThen abort r index = r.scheduleRetry index ∧ ¬ r.Stopped index ∧
          (r.worker index).attempt < r.maxRetries ∨
        accountThen abort r index = (r.count index).note .stop ∧ r.remaining - 1 = 0 ∨
        accountThen abort r index = r.count index ∧ r.remaining - 1 ≠ 0 ∧ ¬ r.Aborts index ∨
        accountThen abort r index = abort { r.count index with aborted := true } ∧
          r.remaining - 1 ≠ 0 ∧ r.Aborts index) := by
  unfold accountThen
  dsimp only
  by_cases hquit : (r.worker index).counted = true ∨ (r.worker index).awaitingRetry = true ∨
      ¬ (r.worker index).complete = true
  · rw [if_pos hquit]
    refine .inl ⟨rfl, fun hended => ?_⟩
    obtain ⟨hcomplete, hcounted, hawaiting⟩ := hended
    simp [hcomplete, hcounted, hawaiting] at hquit
  rw [if_neg hquit]
  have hended : Ended (r.worker index) := by
    simp only [not_or, Bool.not_eq_true, Bool.not_eq_false] at hquit
    exact ⟨hquit.2.2, hquit.1, hquit.2.1⟩
  refine .inr ⟨hended, ?_⟩
  by_cases hretry : ¬ r.cancelled = true ∧ ¬ r.aborted = true ∧
      (r.worker index).attempt < r.maxRetries ∧ (r.worker index).retryable = true
  · rw [if_pos hretry]
    obtain ⟨hcancelled, haborted, hattempt, hretryable⟩ := hretry
    refine .inl ⟨rfl, ?_, hattempt⟩
    have htimedOut : (r.worker index).timedOut = false := by
      simp only [Worker.retryable, Bool.and_eq_true, Bool.not_eq_true'] at hretryable
      exact hretryable.1.1.1
    rintro (h | h | h)
    · exact hcancelled h
    · exact haborted h
    · rw [htimedOut] at h
      cases h
  rw [if_neg hretry]
  by_cases hlast : r.remaining - 1 = 0
  · rw [if_pos hlast]
    exact .inr (.inl ⟨rfl, hlast⟩)
  rw [if_neg hlast]
  by_cases habort : r.failFast = true ∧ ¬ r.aborted = true ∧ ¬ r.cancelled = true ∧
      (r.worker index).isFailure = true
  · rw [if_pos habort]
    simp only [Bool.not_eq_true] at habort
    exact .inr (.inr (.inr ⟨rfl, hlast, habort⟩))
  · rw [if_neg habort]
    refine .inr (.inr (.inl ⟨rfl, hlast, ?_⟩))
    simpa only [Aborts, Bool.not_eq_true] using habort

/-- Nobody has ended without being counted, or sent to back off. -/
theorem Sound.accountThen_idle (h : Sound none r) (abort : WorkerRun → WorkerRun) (index : Nat) :
    WorkerRun.accountThen abort r index = r := by
  rcases accountThen_cases abort r index with ⟨heq, -⟩ | ⟨⟨hcomplete, hcounted, hawaiting⟩, -⟩
  · exact heq
  · have hopen := (h.ok_none index).settled hcounted hawaiting
    rw [show (r.worker index).complete = false from hopen] at hcomplete
    cases hcomplete

/-! ## What an account and a teardown leave alone -/

/-- The worker is counted, or it is stopped and does not wait for a retry. -/
def Done (r : WorkerRun) (index : Nat) : Prop :=
  (r.worker index).counted = true ∨ (r.worker index).awaitingRetry = false ∧ r.Stopped index

/-- Nobody is spawned or reaped on the way from `r` to `r'`. -/
structure Calm (r r' : WorkerRun) : Prop where
  length : r'.workers.length = r.workers.length
  concurrency : r'.concurrency = r.concurrency
  inFlight : r'.inFlight = r.inFlight
  filling : r'.filling = r.filling
  due : r'.due = r.due
  next : r.nextToSpawn ≤ r'.nextToSpawn
  queue : r'.retryQueue = r.retryQueue ∨
    r'.retryQueue = [] ∧ ∀ index ∈ r.retryQueue, (r'.worker index).complete = true
  cancelled : r.cancelled = true → r'.cancelled = true
  aborted : r.aborted = true → r'.aborted = true
  running : ∀ index, (r'.worker index).running = (r.worker index).running
  complete : ∀ index, (r.worker index).complete = true → (r'.worker index).complete = true
  counted : ∀ index, (r.worker index).counted = true → (r'.worker index).counted = true
  done : ∀ index, r.Done index → r'.Done index
  log : r.log <+: r'.log

theorem Calm.refl (r : WorkerRun) : Calm r r where
  length := rfl
  concurrency := rfl
  inFlight := rfl
  filling := rfl
  due := rfl
  next := Nat.le_refl _
  queue := .inl rfl
  cancelled := fun h => h
  aborted := fun h => h
  running := fun _ => rfl
  complete := fun _ h => h
  counted := fun _ h => h
  done := fun _ h => h
  log := List.prefix_refl _

theorem Calm.trans {r₁ r₂ r₃ : WorkerRun} (h : Calm r₁ r₂) (h' : Calm r₂ r₃) : Calm r₁ r₃ where
  length := h'.length.trans h.length
  concurrency := h'.concurrency.trans h.concurrency
  inFlight := h'.inFlight.trans h.inFlight
  filling := h'.filling.trans h.filling
  due := h'.due.trans h.due
  next := h.next.trans h'.next
  queue := by
    rcases h.queue with heq | ⟨hnil, hall⟩
    · rw [← heq]
      exact h'.queue
    · refine .inr ⟨?_, fun index hin => h'.complete index (hall index hin)⟩
      rcases h'.queue with heq | ⟨hnil', -⟩
      · rw [heq, hnil]
      · exact hnil'
  cancelled := fun hc => h'.cancelled (h.cancelled hc)
  aborted := fun ha => h'.aborted (h.aborted ha)
  running := fun index => (h'.running index).trans (h.running index)
  complete := fun index hc => h'.complete index (h.complete index hc)
  counted := fun index hc => h'.counted index (h.counted index hc)
  done := fun index hd => h'.done index (h.done index hd)
  log := h.log.trans h'.log

/-- One worker changes, and nothing but the log, the timers and the reasons besides. -/
theorem Calm.touch {f : Worker → Worker}
    (hrunning : ∀ w, (f w).running = w.running)
    (hcomplete : ∀ w, w.complete = true → (f w).complete = true)
    (hcounted : ∀ w, w.counted = true → (f w).counted = true)
    (hdone : index < r.workers.length → r.Done index → r'.Done index)
    (hworkers : r'.workers = (r.setWorker index f).workers)
    (hconcurrency : r'.concurrency = r.concurrency) (hinFlight : r'.inFlight = r.inFlight)
    (hfilling : r'.filling = r.filling)
    (hdue : r'.due = r.due) (hnext : r.nextToSpawn ≤ r'.nextToSpawn)
    (hqueue : r'.retryQueue = r.retryQueue) (hcancelled : r'.cancelled = r.cancelled)
    (haborted : r'.aborted = r.aborted) (hlog : r.log <+: r'.log) : Calm r r' := by
  have hworker : ∀ other, r'.worker other = (r.setWorker index f).worker other := by
    intro other
    unfold worker
    rw [hworkers]
  refine
    { length := by rw [hworkers, setWorker_length]
      concurrency := hconcurrency
      inFlight := hinFlight
      filling := hfilling
      due := hdue
      next := hnext
      queue := .inl hqueue
      cancelled := by rw [hcancelled]; exact fun h => h
      aborted := by rw [haborted]; exact fun h => h
      running := fun other => ?_
      complete := fun other hc => ?_
      counted := fun other hc => ?_
      done := fun other hd => ?_
      log := hlog }
  all_goals
    by_cases hlt : index < r.workers.length
  · rw [hworker, worker_setWorker hlt]
    split_ifs with heq
    · rw [heq, hrunning]
    · rfl
  · rw [hworker, setWorker_of_le (by omega)]
  · rw [hworker, worker_setWorker hlt]
    split_ifs with heq
    · rw [heq] at hc
      exact hcomplete _ hc
    · exact hc
  · rw [hworker, setWorker_of_le (by omega)]
    exact hc
  · rw [hworker, worker_setWorker hlt]
    split_ifs with heq
    · rw [heq] at hc
      exact hcounted _ hc
    · exact hc
  · rw [hworker, setWorker_of_le (by omega)]
    exact hc
  · by_cases heq : other = index
    · rw [heq] at hd ⊢
      exact hdone hlt hd
    · unfold Done Stopped at hd ⊢
      rw [hworker, worker_setWorker_ne heq, hcancelled, haborted]
      exact hd
  · unfold Done Stopped at hd ⊢
    rw [hworker, setWorker_of_le (by omega), hcancelled, haborted]
    exact hd

theorem count_calm (r : WorkerRun) (index : Nat) : Calm r (r.count index) := by
  refine Calm.touch (f := fun w => { w with counted := true }) (fun _ => rfl) (fun _ h => h)
    (fun _ _ => rfl)
    (fun hlt _ => .inl ?_) rfl rfl rfl rfl rfl (Nat.le_refl _) rfl rfl rfl (List.prefix_append _ _)
  change ((r.setWorker index _).worker index).counted = true
  rw [worker_setWorker_self hlt]

theorem note_calm (r : WorkerRun) (e : Event) : Calm r (r.note e) :=
  { Calm.refl r with log := List.prefix_append _ _ }

theorem schedule_calm (hgoes : ¬ r.Stopped index) (hcounted : (r.worker index).counted = false) :
    Calm r (r.scheduleRetry index) := by
  refine Calm.touch (f := fun w => { w with awaitingRetry := true, attempt := w.attempt + 1 })
    (fun _ => rfl) (fun _ h => h) (fun _ h => h) (fun _ hdone => ?_) rfl rfl rfl rfl rfl
    (Nat.le_refl _) rfl rfl rfl (List.prefix_refl _)
  rcases hdone with hc | ⟨-, hstopped⟩
  · rw [hcounted] at hc
    cases hc
  · exact absurd hstopped hgoes

theorem aborted_calm (r : WorkerRun) : Calm r { r with aborted := true } :=
  { Calm.refl r with
    aborted := fun _ => rfl
    done := fun _ hdone => hdone.imp (fun h => h) fun h => ⟨h.1, .inr (.inl rfl)⟩ }

theorem Sound.of_aborted (h : Sound none r) : Sound none { r with aborted := true } :=
  { h with books := h.books.of_eq rfl rfl rfl, owes := fun _ howed => by cases howed }

/-- What a fail-fast abort is trusted with. -/
structure Safe (abort : WorkerRun → WorkerRun) : Prop where
  sound : ∀ r, Sound none r → r.aborted = true → Sound none (abort r)
  calm : ∀ r, Sound none r → r.aborted = true → Calm r (abort r)

theorem safe_id : Safe fun r => r where
  sound := fun _ h _ => h
  calm := fun r _ _ => Calm.refl r

theorem Sound.accountThen {abort : WorkerRun → WorkerRun} (habort : Safe abort)
    (h : Sound (some index) r) :
    Sound none (accountThen abort r index) ∧ Calm r (accountThen abort r index) := by
  rcases accountThen_cases abort r index with ⟨heq, hquit⟩ |
    ⟨⟨hcomplete, hcounted, hawaiting⟩, hcase⟩
  · rw [heq]
    refine ⟨h.quit ?_, Calm.refl r⟩
    by_contra hnot
    simp only [not_or, Bool.not_eq_true, Bool.not_eq_false] at hnot
    exact hquit ⟨hnot.2.2, hnot.1, hnot.2.1⟩
  have hbooks := h.books.count (h.remaining_pos hcounted (lt_of_complete hcomplete)) index
  rcases hcase with ⟨heq, hgoes, hattempt⟩ | ⟨heq, hlast⟩ | ⟨heq, hmore, -⟩ | ⟨heq, hmore, -⟩
  · rw [heq]
    exact ⟨h.schedule hcomplete hcounted hgoes hattempt, schedule_calm hgoes hcounted⟩
  · rw [if_pos hlast] at hbooks
    rw [heq]
    exact ⟨h.counted hcomplete hawaiting hcounted (.inr rfl) hbooks,
      (count_calm r index).trans (note_calm _ _)⟩
  · rw [if_neg hmore] at hbooks
    rw [heq]
    exact ⟨h.counted hcomplete hawaiting hcounted (.inl rfl) hbooks, count_calm r index⟩
  · rw [if_neg hmore] at hbooks
    rw [heq]
    have hsound := (h.counted hcomplete hawaiting hcounted (.inl rfl) hbooks).of_aborted
    exact ⟨habort.sound _ hsound rfl,
      ((count_calm r index).trans (aborted_calm _)).trans (habort.calm _ hsound rfl)⟩

/-- After its account a worker that was stopped is counted. -/
theorem Sound.accountThen_counted {abort : WorkerRun → WorkerRun} (habort : Safe abort)
    (h : Sound (some index) r) (hcomplete : (r.worker index).complete = true)
    (hdone : r.Done index) :
    ((WorkerRun.accountThen abort r index).worker index).counted = true := by
  have hlt := lt_of_complete hcomplete
  have hcount : ((r.count index).worker index).counted = true := by
    change ((r.setWorker index _).worker index).counted = true
    rw [worker_setWorker_self hlt]
  rcases accountThen_cases abort r index with ⟨heq, hquit⟩ | ⟨⟨-, hcounted, hawaiting⟩, hcase⟩
  · rw [heq]
    by_contra hnot
    rw [Bool.not_eq_true] at hnot
    rcases hdone with hc | ⟨hawaiting, -⟩
    · rw [hnot] at hc
      cases hc
    · exact hquit ⟨hcomplete, hnot, hawaiting⟩
  have hstopped : r.Stopped index := by
    rcases hdone with hc | ⟨-, hstopped⟩
    · rw [hcounted] at hc
      cases hc
    · exact hstopped
  have hbooks := h.books.count (h.remaining_pos hcounted hlt) index
  rcases hcase with ⟨-, hgoes, -⟩ | ⟨heq, -⟩ | ⟨heq, -⟩ | ⟨heq, hmore, -⟩
  · exact absurd hstopped hgoes
  · rw [heq]
    exact hcount
  · rw [heq]
    exact hcount
  · rw [if_neg hmore] at hbooks
    rw [heq]
    have hsound := (h.counted hcomplete hawaiting hcounted (.inl rfl) hbooks).of_aborted
    exact (habort.calm _ hsound rfl).counted index hcount

/-! ## The loops of a teardown -/

/-- The reason has taken hold of the run. -/
def InForce (r : WorkerRun) : StopReason → Prop
  | .Deadline => True
  | .Cancel => r.cancelled = true
  | .FailFast => r.aborted = true

theorem InForce.calm {reason : StopReason} (h : r.InForce reason) (hcalm : Calm r r') :
    r'.InForce reason := by
  cases reason
  · trivial
  · exact hcalm.cancelled h
  · exact hcalm.aborted h

theorem stopped_of_mark {reason : StopReason} (h : r.InForce reason)
    (hlt : index < r.workers.length) :
    (r.mark index reason).Stopped index := by
  cases reason with
  | Deadline =>
    refine .inr (.inr ?_)
    change ((r.setWorker index _).worker index).timedOut = true
    rw [worker_setWorker_self hlt]
    rfl
  | Cancel => exact .inl h
  | FailFast => exact .inr (.inl h)

theorem mark_calm (r : WorkerRun) (index : Nat) (reason : StopReason) :
    Calm r (r.mark index reason) := by
  refine Calm.touch (f := Worker.mark reason) (fun w => by cases reason <;> rfl)
    (fun w h => by cases reason <;> exact h) (fun w h => by cases reason <;> exact h)
    (fun hlt hdone => ?_) rfl rfl rfl rfl rfl (Nat.le_refl _)
    rfl rfl rfl (List.prefix_append _ _)
  have hworker : (r.mark index reason).worker index = (r.worker index).mark reason :=
    worker_setWorker_self hlt
  unfold Done Stopped at hdone ⊢
  rw [hworker]
  cases reason with
  | Deadline => exact hdone.imp (fun h => h) fun h => ⟨h.1, .inr (.inr rfl)⟩
  | Cancel => exact hdone
  | FailFast => exact hdone

/-- A worker without a process ends, before its account. -/
def ended (r : WorkerRun) (reason : StopReason) (index : Nat) : WorkerRun :=
  (r.mark index reason).setWorker index Worker.endNow

theorem ended_calm (r : WorkerRun) (reason : StopReason) (index : Nat) :
    Calm r (r.ended reason index) := by
  refine (mark_calm r index reason).trans (Calm.touch (f := Worker.endNow) (fun _ => rfl)
    (fun _ _ => rfl) (fun _ h => h)
    (fun hlt hdone => ?_) rfl rfl rfl rfl rfl (Nat.le_refl _) rfl rfl
    rfl (List.prefix_refl _))
  have hworker : (r.ended reason index).worker index =
      ((r.mark index reason).worker index).endNow :=
    worker_setWorker_self hlt
  unfold Done Stopped at hdone ⊢
  rw [hworker]
  exact hdone

theorem ended_workers (r : WorkerRun) (reason : StopReason) (index : Nat) :
    (r.ended reason index).workers =
      (r.setWorker index fun w => (w.mark reason).endNow).workers := by
  unfold ended WorkerRun.mark WorkerRun.note setWorker
  exact List.modify_modify_eq _ _ _ _

theorem worker_ended {reason : StopReason} (h : index < r.workers.length) :
    (r.ended reason index).worker index = ((r.worker index).mark reason).endNow := by
  have hworker : (r.ended reason index).worker index =
      (r.setWorker index fun w => (w.mark reason).endNow).worker index := by
    unfold worker
    rw [ended_workers]
  rw [hworker, worker_setWorker_self h]

theorem view_mark_ne (r : WorkerRun) (reason : StopReason) {other : Nat} (h : other ≠ index) :
    (r.mark index reason).view other = r.view other := by
  unfold WorkerRun.mark
  rw [view_note fun _ => ⟨Event.noConfusion, Event.noConfusion⟩]
  unfold view
  congr 1
  exact worker_setWorker_ne h

theorem view_ended_ne (r : WorkerRun) (reason : StopReason) {other : Nat} (h : other ≠ index) :
    (r.ended reason index).view other = r.view other := by
  refine Eq.trans ?_ (view_mark_ne r reason h)
  unfold ended view
  congr 1
  exact worker_setWorker_ne h

theorem books_mark (h : r.Books) (index : Nat) (reason : StopReason) :
    (r.mark index reason).Books := by
  have hworker : (r.setWorker index (Worker.mark reason)).Books :=
    h.of_eq rfl rfl setWorker_length
  exact hworker.note Event.noConfusion rfl trivial

/-- The loop over the pending workers takes the next one. -/
def takeNext (r : WorkerRun) (next : Nat) : WorkerRun := { r with nextToSpawn := next }

/-- A worker without a process owes its account when a teardown ended it. `next` is where the
loop over the pending workers stands then. -/
theorem Sound.ended {reason : StopReason} (h : Sound none r) (hlt : index < r.workers.length)
    (hidle : ((r.view index).taken = false ∨ (r.view index).queued = true) ∨
      (r.worker index).complete = true)
    (hforce : r.InForce reason) {next : Nat} (hindex : index < next)
    (hnext : ∀ other, other ≠ index → (other < next ↔ other < r.nextToSpawn))
    (hle : next ≤ r.workers.length) :
    Sound (some index) ((r.takeNext next).ended reason index) := by
  have hworker : ((r.takeNext next).ended reason index).worker index =
      ((r.worker index).mark reason).endNow := worker_ended hlt
  have hok := ((h.ok_none index).mark reason).endNow
    (hidle.imp (fun h => h) fun h => by cases reason <;> exact h)
  have hview : ((r.takeNext next).ended reason index).view index =
      { r.view index with
        worker := ((r.view index).worker.mark reason).endNow
        taken := true } := by
    unfold view
    congr 1
    · simp [WorkerRun.ended, WorkerRun.mark, WorkerRun.note, setWorker, takeNext, hindex]
    · simp [WorkerRun.ended, WorkerRun.mark, WorkerRun.note, setWorker, takeNext]
    · simp [WorkerRun.ended, WorkerRun.mark, WorkerRun.note, setWorker, takeNext]
  rw [← hview] at hok
  refine h.touch (f := fun w => (w.mark reason).endNow) hlt ?_ ?_ (ended_workers _ _ _) rfl rfl rfl
    hle h.queue ?_ (h.oks_some (.inl rfl) rfl (fun other hne => ?_) hok) ?_
  · cases reason <;> rfl
  · cases reason <;> rfl
  · have htaken : (r.takeNext next).Books := h.books.of_eq rfl rfl rfl
    exact (books_mark htaken index reason).of_eq rfl rfl setWorker_length
  · rw [view_ended_ne _ _ hne]
    unfold view takeNext
    congr 1
    exact decide_eq_decide.mpr (hnext other hne)
  · intro other howed
    obtain rfl : index = other := by simpa using howed
    refine .inr ⟨?_, by rw [hworker]; rfl⟩
    have hmarked : ((r.takeNext next).mark index reason).Stopped index :=
      stopped_of_mark (by cases reason <;> exact hforce) hlt
    unfold Stopped at hmarked ⊢
    rw [hworker]
    have hmark : ((r.takeNext next).mark index reason).worker index =
        (r.worker index).mark reason := worker_setWorker_self hlt
    rw [hmark] at hmarked
    exact hmarked

theorem Sound.mark (h : Sound owed r) (hlt : index < r.workers.length) (reason : StopReason) :
    Sound owed (r.mark index reason) := by
  have hview : (r.mark index reason).view index =
      { r.view index with worker := (r.view index).worker.mark reason } := by
    unfold WorkerRun.mark
    rw [view_note fun _ => ⟨Event.noConfusion, Event.noConfusion⟩]
    unfold view
    congr 1
    exact worker_setWorker_self hlt
  refine h.touch (f := Worker.mark reason) hlt (by cases reason <;> rfl) (by cases reason <;> rfl)
    rfl rfl rfl rfl h.next_le h.queue (books_mark h.books index reason) (fun other => ?_) ?_
  · by_cases heq : other = index
    · rw [heq, hview]
      exact (h.ok index).mark reason
    · rw [view_mark_ne r reason heq]
      exact h.ok other
  · intro other howed
    have hcalm := mark_calm r index reason
    rcases h.owes other howed with htimers | ⟨hstopped, hcomplete⟩
    · refine .inl ?_
      by_cases heq : other = index
      · rw [heq, hview]
        rw [heq] at htimers
        exact htimers
      · rw [view_mark_ne r reason heq]
        exact htimers
    · refine .inr ⟨?_, hcalm.complete other hcomplete⟩
      by_cases heq : other = index
      · rw [heq] at hstopped ⊢
        have hworker : (r.mark index reason).worker index = (r.worker index).mark reason :=
          worker_setWorker_self hlt
        unfold Stopped at hstopped ⊢
        rw [hworker]
        cases reason with
        | Deadline => exact .inr (.inr rfl)
        | Cancel => exact hstopped
        | FailFast => exact hstopped
      · unfold Stopped at hstopped ⊢
        rw [show (r.mark index reason).worker other = r.worker other from worker_setWorker_ne heq]
        exact hstopped

/-- A backoff is over because of a teardown. -/
def unawaited (r : WorkerRun) (reason : StopReason) (index : Nat) : WorkerRun :=
  (r.setWorker index fun w => { w with awaitingRetry := false }).mark index reason

theorem unawaited_workers (r : WorkerRun) (reason : StopReason) (index : Nat) :
    (r.unawaited reason index).workers =
      (r.setWorker index fun w => Worker.mark reason { w with
                                                       awaitingRetry := false }).workers := by
  unfold unawaited WorkerRun.mark WorkerRun.note setWorker
  exact List.modify_modify_eq _ _ _ _

theorem worker_unawaited {reason : StopReason} (h : index < r.workers.length) :
    (r.unawaited reason index).worker index =
      Worker.mark reason { r.worker index with awaitingRetry := false } := by
  have hworker : (r.unawaited reason index).worker index =
      (r.setWorker index fun w => Worker.mark reason { w with awaitingRetry := false }).worker
        index := by
    unfold worker
    rw [unawaited_workers]
  rw [hworker, worker_setWorker_self h]

theorem unawaited_stopped {reason : StopReason} (hlt : index < r.workers.length)
    (hforce : r.InForce reason) : (r.unawaited reason index).Stopped index := by
  unfold Stopped
  rw [worker_unawaited hlt]
  cases reason with
  | Deadline => exact .inr (.inr rfl)
  | Cancel => exact .inl hforce
  | FailFast => exact .inr (.inl hforce)

theorem view_unawaited_ne (r : WorkerRun) (reason : StopReason) {other : Nat} (h : other ≠ index) :
    (r.unawaited reason index).view other = r.view other := by
  refine Eq.trans (view_mark_ne _ reason h) ?_
  unfold view
  congr 1
  exact worker_setWorker_ne h

theorem view_unawaited_self (reason : StopReason) (hlt : index < r.workers.length) :
    (r.unawaited reason index).view index =
      { r.view index with
        worker := Worker.mark reason { (r.view index).worker with awaitingRetry := false } } := by
  unfold view
  congr 1
  · exact worker_unawaited hlt
  · simp [WorkerRun.unawaited, WorkerRun.mark, WorkerRun.note, setWorker]
  · simp [WorkerRun.unawaited, WorkerRun.mark, WorkerRun.note, setWorker]

theorem unawaited_done {reason : StopReason} (hlt : index < r.workers.length)
    (hforce : r.InForce reason) : (r.unawaited reason index).Done index := by
  refine .inr ⟨?_, unawaited_stopped hlt hforce⟩
  rw [worker_unawaited hlt]
  cases reason <;> rfl

theorem Sound.unawaited {reason : StopReason} (h : Sound none r)
    (hcomplete : (r.worker index).complete = true) (hforce : r.InForce reason) :
    Sound (some index) (r.unawaited reason index) := by
  have hlt := lt_of_complete hcomplete
  have hok := ((h.ok_none index).unawait).mark reason
  rw [← view_unawaited_self reason hlt] at hok
  refine h.touch (f := fun w => Worker.mark reason { w with awaitingRetry := false }) hlt
    (by cases reason <;> rfl) (by cases reason <;> rfl) (unawaited_workers _ _ _) rfl rfl rfl
    h.next_le h.queue ?_
    (h.oks_some (.inl rfl) rfl (fun _ hne => view_unawaited_ne r reason hne) hok) ?_
  · have hbooks : (r.setWorker index fun w => { w with awaitingRetry := false }).Books :=
      h.books.of_eq rfl rfl setWorker_length
    exact books_mark hbooks index reason
  · intro other howed
    obtain rfl : index = other := by simpa using howed
    refine .inr ⟨unawaited_stopped hlt hforce, ?_⟩
    rw [worker_unawaited hlt]
    cases reason <;> exact hcomplete

theorem unawaited_calm {reason : StopReason} (hforce : r.InForce reason) :
    Calm r (r.unawaited reason index) :=
  Calm.touch (f := fun w => Worker.mark reason { w with awaitingRetry := false })
    (fun _ => by cases reason <;> rfl) (fun _ h => by cases reason <;> exact h)
    (fun _ h => by cases reason <;> exact h) (fun hlt _ => unawaited_done hlt hforce)
    (unawaited_workers _ _ _) rfl rfl rfl rfl (Nat.le_refl _) rfl rfl rfl (List.prefix_append _ _)

/-! ## The phases of a teardown -/

/-- What a phase leaves. -/
structure Phase (reason : StopReason) (r r' : WorkerRun) : Prop where
  sound : Sound none r'
  calm : Calm r r'
  force : r'.InForce reason

theorem Phase.refl {reason : StopReason} (h : Sound none r) (hforce : r.InForce reason) :
    Phase reason r r :=
  ⟨h, Calm.refl r, hforce⟩

theorem Phase.trans {reason : StopReason} {r₁ r₂ r₃ : WorkerRun} (h : Phase reason r₁ r₂)
    (h' : Phase reason r₂ r₃) : Phase reason r₁ r₃ :=
  ⟨h'.sound, h.calm.trans h'.calm, h'.force⟩

theorem view_beginTeardown (r : WorkerRun) (reason : StopReason) (other : Nat) :
    ∃ timers ≤ (r.view other).timers,
      (r.beginTeardown reason).view other = { r.view other with timers } := by
  refine ⟨((r.beginTeardown reason).view other).timers, ?_, ?_⟩
  · simp only [view, beginTeardown, WorkerRun.note, List.count_append]
    have hfilter := (List.filter_sublist (p := fun timer : Timer =>
      ∀ index ∈ r.retryTimers, timer ≠ .Retry index) (l := r.timers)).count_le (.Retry other)
    omega
  · unfold view
    congr 1
    · simp [beginTeardown, WorkerRun.note]
    · simp [beginTeardown, WorkerRun.note]

theorem Sound.beginTeardown (h : Sound none r) {reason : StopReason}
    (hforce : reason = .FailFast → r.aborted = true) :
    Phase reason r (r.beginTeardown reason) := by
  have hbooks : (r.note (.teardown reason)).Books := h.books.note Event.noConfusion rfl trivial
  refine ⟨?_, ?_, ?_⟩
  · refine
      { h with
        ok := fun other => ?_
        owes := fun _ howed => by cases howed
        books := hbooks.of_eq rfl rfl rfl }
    obtain ⟨timers, hle, hview⟩ := view_beginTeardown r reason other
    rw [hview]
    exact (h.ok other).fewer hle
  · refine
      { Calm.refl r with
        cancelled := fun hc => ?_
        done := fun other hdone => ?_
        log := List.prefix_append _ _ }
    · simp [WorkerRun.beginTeardown, hc]
    · refine hdone.imp (fun h => h) fun hd => ⟨hd.1, hd.2.imp (fun hc => ?_) fun h => h⟩
      simp [WorkerRun.beginTeardown, hc]
  · cases reason with
    | Deadline => trivial
    | Cancel => simp [InForce, WorkerRun.beginTeardown]
    | FailFast => exact hforce rfl

theorem Sound.clearQueue (h : Sound none r) {reason : StopReason} (hforce : r.InForce reason)
    (hall : ∀ index ∈ r.retryQueue, (r.worker index).complete = true) :
    Phase reason r { r with retryQueue := [] } := by
  refine ⟨?_, { Calm.refl r with queue := .inr ⟨rfl, hall⟩ }, by cases reason <;> exact hforce⟩
  refine
    { h with
      ok := fun other => ?_
      owes := fun _ howed => by cases howed
      queue := List.nodup_nil
      books := h.books.of_eq rfl rfl rfl }
  have hok := (h.ok other).unqueue fun hqueued => hall other (by simpa [view] using hqueued)
  have hview : { r with retryQueue := [] }.view other = { r.view other with queued := false } := by
    unfold view
    congr 1
  rw [hview]
  exact hok

theorem complete_ended {reason : StopReason} (hlt : index < r.workers.length) :
    ((r.ended reason index).worker index).complete = true := by
  rw [worker_ended hlt]
  rfl

/-- A worker that waits for its slot ends, or one that had ended already. -/
theorem Sound.finish {abort : WorkerRun → WorkerRun} (habort : Safe abort) (h : Sound none r)
    {reason : StopReason} (hforce : r.InForce reason)
    (hidle : index ∈ r.retryQueue ∨ (r.worker index).complete = true) :
    Phase reason r (finish abort reason r index) ∧
      ((WorkerRun.finish abort reason r index).worker index).complete = true := by
  have hok := h.ok_none index
  have htaken : (r.view index).taken = true := by
    rcases hidle with hqueued | hcomplete
    · exact hok.taken_of_queued (by simpa [view] using hqueued)
    · exact hok.taken_of_complete hcomplete
  have hindex : index < r.nextToSpawn := by simpa [view] using htaken
  have hlt := Nat.lt_of_lt_of_le hindex h.next_le
  have hsound : Sound (some index) (r.ended reason index) :=
    h.ended hlt (hidle.imp_left fun hq => .inr (by simpa [view] using hq)) hforce hindex
      (fun _ _ => Iff.rfl) h.next_le
  obtain ⟨hafter, hcalm⟩ := hsound.accountThen habort
  have hall := (ended_calm r reason index).trans hcalm
  exact ⟨⟨hafter, hall, hforce.calm hall⟩, hcalm.complete index (complete_ended hlt)⟩

theorem Sound.pendingBody {abort : WorkerRun → WorkerRun} (habort : Safe abort) (h : Sound none r)
    {reason : StopReason} (hforce : r.InForce reason) (hlt : r.nextToSpawn < r.workers.length) :
    Phase reason r
        (WorkerRun.finish abort reason (r.takeNext (r.nextToSpawn + 1)) r.nextToSpawn) ∧
      r.nextToSpawn <
        (WorkerRun.finish abort reason (r.takeNext (r.nextToSpawn + 1)) r.nextToSpawn).nextToSpawn
      := by
  have huntaken : (r.view r.nextToSpawn).taken = false := by simp [view]
  have hsound := h.ended hlt (.inl (.inl huntaken)) hforce (Nat.lt_succ_self _)
    (fun other hne => by omega) hlt
  obtain ⟨hafter, hcalm⟩ := hsound.accountThen habort
  have htake : Calm r (r.takeNext (r.nextToSpawn + 1)) :=
    { Calm.refl r with next := Nat.le_succ _ }
  have hended := ended_calm (r.takeNext (r.nextToSpawn + 1)) reason r.nextToSpawn
  have hall := (htake.trans hended).trans hcalm
  exact ⟨⟨hafter, hall, hforce.calm hall⟩, (hended.trans hcalm).next⟩

theorem Sound.stopWorker {abort : WorkerRun → WorkerRun} (habort : Safe abort) (h : Sound none r)
    {reason : StopReason} (hforce : r.InForce reason) (hlt : index < r.workers.length) :
    Phase reason r (stopWorker abort reason r index) ∧
      (WorkerRun.stopWorker abort reason r index).Done index := by
  unfold WorkerRun.stopWorker
  dsimp only
  by_cases hcounted : (r.worker index).counted = true
  · rw [if_pos hcounted]
    exact ⟨Phase.refl h hforce, .inl hcounted⟩
  rw [if_neg hcounted]
  by_cases hawaiting : (r.worker index).awaitingRetry = true
  · rw [if_pos hawaiting]
    have hcomplete : (r.worker index).complete = true := (h.ok_none index).awaiting hawaiting
    obtain ⟨hafter, hcalm⟩ := (h.unawaited hcomplete hforce).accountThen habort
    have hall := (unawaited_calm hforce).trans hcalm
    exact ⟨⟨hafter, hall, hforce.calm hall⟩, hcalm.done index (unawaited_done hlt hforce)⟩
  rw [if_neg hawaiting]
  by_cases hcomplete : (r.worker index).complete = true
  · have hopen := (h.ok_none index).settled (by simpa [view] using hcounted)
      (by simpa [view] using hawaiting)
    rw [show (r.worker index).complete = false from hopen] at hcomplete
    cases hcomplete
  rw [if_neg hcomplete]
  have hcalm := mark_calm r index reason
  refine ⟨⟨h.mark hlt reason, hcalm, hforce.calm hcalm⟩, .inr ⟨?_, stopped_of_mark hforce hlt⟩⟩
  rw [show (r.mark index reason).worker index = _ from worker_setWorker_self hlt]
  rw [Bool.not_eq_true] at hawaiting
  cases reason <;> exact hawaiting

section

variable {abort : WorkerRun → WorkerRun} {reason : StopReason}

theorem Sound.queueLoop (habort : Safe abort) (h : Sound none r) (hforce : r.InForce reason) :
    Phase reason r
      { r.retryQueue.foldl (WorkerRun.finish abort reason) r with retryQueue := [] } := by
  have hidle : ∀ r' index, index ∈ r.retryQueue → Phase reason r r' →
      index ∈ r'.retryQueue ∨ (r'.worker index).complete = true := by
    intro r' index hin hphase
    rcases hphase.calm.queue with heq | ⟨-, hall⟩
    · exact .inl (heq ▸ hin)
    · exact .inr (hall index hin)
  have hloop : Phase reason r (r.retryQueue.foldl (WorkerRun.finish abort reason) r) ∧
      ∀ index ∈ r.retryQueue,
        ((r.retryQueue.foldl (WorkerRun.finish abort reason) r).worker index).complete = true := by
    apply Trace.foldl_reaches (P := fun r' => Phase reason r r')
      (Q := fun index r' => (r'.worker index).complete = true)
    · exact Phase.refl h hforce
    · intro r' index hin hphase
      obtain ⟨hnext, hcomplete⟩ :=
        hphase.sound.finish habort hphase.force (hidle r' index hin hphase)
      exact ⟨hphase.trans hnext, hcomplete⟩
    · intro r' index hin hphase other hcomplete
      obtain ⟨hnext, -⟩ := hphase.sound.finish habort hphase.force (hidle r' index hin hphase)
      exact hnext.calm.complete other hcomplete
  obtain ⟨hphase, hall⟩ := hloop
  refine hphase.trans (hphase.sound.clearQueue hphase.force fun index hin => ?_)
  rcases hphase.calm.queue with heq | ⟨hnil, -⟩
  · exact hall index (heq ▸ hin)
  · rw [hnil] at hin
    cases hin

theorem pendingBody_some {r' : WorkerRun} {events : List Event}
    (h : WorkerRun.pendingBody abort reason r = some (r', events)) :
    r.nextToSpawn < r.workers.length ∧
      r' = WorkerRun.finish abort reason (r.takeNext (r.nextToSpawn + 1)) r.nextToSpawn := by
  unfold WorkerRun.pendingBody at h
  split_ifs at h with hlt
  simp only [Option.some.injEq, Prod.mk.injEq] at h
  exact ⟨hlt, h.1.symm⟩

theorem pendingBody_none (h : WorkerRun.pendingBody abort reason r = none) :
    r.workers.length ≤ r.nextToSpawn := by
  unfold WorkerRun.pendingBody at h
  split_ifs at h with hlt
  omega

theorem Sound.pendingLoop (habort : Safe abort) (h : Sound none r) (hforce : r.InForce reason) :
    Phase reason r (Loop.run (WorkerRun.pendingBody abort reason) r.workers.length r).1 ∧
      (Loop.run (WorkerRun.pendingBody abort reason) r.workers.length r).1.workers.length ≤
        (Loop.run (WorkerRun.pendingBody abort reason) r.workers.length r).1.nextToSpawn := by
  have hloop := @Loop.run_ends _ _ (WorkerRun.pendingBody abort reason)
    (fun r' => r.workers.length - r'.nextToSpawn) (fun r' => Phase reason r r')
    (fun r₁ r₂ events hphase hbody => ?_) r.workers.length r (Phase.refl h hforce)
    (Nat.sub_le _ _)
  · exact ⟨hloop.1, pendingBody_none hloop.2⟩
  · obtain ⟨hlt, rfl⟩ := pendingBody_some hbody
    obtain ⟨hnext, hmore⟩ := hphase.sound.pendingBody habort hphase.force hlt
    have hlength := hphase.calm.length
    exact ⟨hphase.trans hnext, by omega⟩

theorem Sound.stopLoop (habort : Safe abort) (h : Sound none r) (hforce : r.InForce reason) :
    Phase reason r
        ((List.range r.workers.length).foldl (WorkerRun.stopWorker abort reason) r) ∧
      ∀ index < r.workers.length,
        ((List.range r.workers.length).foldl (WorkerRun.stopWorker abort reason) r).Done index := by
  have hloop : Phase reason r
        ((List.range r.workers.length).foldl (WorkerRun.stopWorker abort reason) r) ∧
      ∀ index ∈ List.range r.workers.length,
        ((List.range r.workers.length).foldl (WorkerRun.stopWorker abort reason) r).Done index := by
    apply Trace.foldl_reaches (P := fun r' => Phase reason r r')
      (Q := fun index r' => r'.Done index)
    · exact Phase.refl h hforce
    · intro r' index hin hphase
      have hlt : index < r'.workers.length := by
        rw [hphase.calm.length]
        exact List.mem_range.mp hin
      obtain ⟨hnext, hdone⟩ := hphase.sound.stopWorker habort hphase.force hlt
      exact ⟨hphase.trans hnext, hdone⟩
    · intro r' index hin hphase other hdone
      have hlt : index < r'.workers.length := by
        rw [hphase.calm.length]
        exact List.mem_range.mp hin
      exact (hphase.sound.stopWorker habort hphase.force hlt).1.calm.done other hdone
  exact ⟨hloop.1, fun index hlt => hloop.2 index (List.mem_range.mpr hlt)⟩

end

theorem Sound.armDrain (h : Sound none r) : Sound none r.armDrain := by
  unfold WorkerRun.armDrain
  split_ifs with harmed
  · exact h
  · refine
      { h with
        ok := fun other => ?_
        owes := fun _ howed => by cases howed
        books := h.books.of_eq rfl rfl rfl }
    have hview : { r with drainTimer := true, timers := r.timers ++ [Timer.Drain] }.view other =
        r.view other := by
      unfold view
      congr 1
      simp [List.count_append]
    rw [hview]
    exact h.ok other

theorem armDrain_calm (r : WorkerRun) : Calm r r.armDrain := by
  unfold WorkerRun.armDrain
  split_ifs with harmed
  · exact Calm.refl r
  · exact { Calm.refl r with }

/-- All the phases of a teardown: nobody waits for a slot or for a retry after it. -/
theorem Sound.teardownThen {abort : WorkerRun → WorkerRun} (habort : Safe abort)
    (h : Sound none r) {reason : StopReason} (hforce : reason = .FailFast → r.aborted = true) :
    Sound none (teardownThen abort reason r) ∧ Calm r (teardownThen abort reason r) ∧
      (WorkerRun.teardownThen abort reason r).Torn := by
  have hbegin := h.beginTeardown hforce
  have hqueue := hbegin.sound.queueLoop habort hbegin.force
  obtain ⟨hpending, hnext⟩ := hqueue.sound.pendingLoop habort hqueue.force
  obtain ⟨hstop, hdone⟩ := hpending.sound.stopLoop habort hpending.force
  have hnil := (hpending.calm.trans hstop.calm).trans (armDrain_calm _)
  have hlater := hstop.calm.trans (armDrain_calm _)
  have hall := hqueue.calm.trans hnil
  refine ⟨hstop.sound.armDrain, hbegin.calm.trans hall, ?_, ?_, ?_, ?_⟩
  · have hbegun : Event.teardown reason ∈ (r.beginTeardown reason).log := by
      simp [WorkerRun.beginTeardown, WorkerRun.note]
    exact ⟨reason, hall.log.subset hbegun⟩
  · rcases hnil.queue with heq | ⟨heq, -⟩ <;> exact heq
  · exact (Nat.le_of_eq hlater.length).trans (hnext.trans hlater.next)
  · intro index hlt
    exact (armDrain_calm _).done index (hdone index (Nat.lt_of_lt_of_eq hlt hlater.length))

theorem Sound.teardownThen_force {abort : WorkerRun → WorkerRun} (habort : Safe abort)
    (h : Sound none r) {reason : StopReason} (hforce : reason = .FailFast → r.aborted = true) :
    (WorkerRun.teardownThen abort reason r).InForce reason := by
  have hbegin := h.beginTeardown hforce
  have hqueue := hbegin.sound.queueLoop habort hbegin.force
  obtain ⟨hpending, -⟩ := hqueue.sound.pendingLoop habort hqueue.force
  obtain ⟨hstop, -⟩ := hpending.sound.stopLoop habort hpending.force
  exact hstop.force.calm (armDrain_calm _)

/-- A teardown is safe for an account to start. -/
theorem safe_abortRest : Safe abortRest where
  sound := fun _ h haborted => (h.teardownThen safe_id fun _ => haborted).1
  calm := fun _ h haborted => (h.teardownThen safe_id fun _ => haborted).2.1

theorem Sound.account (h : Sound (some index) r) :
    Sound none (r.account index) ∧ Calm r (r.account index) :=
  h.accountThen safe_abortRest

theorem Sound.teardown (h : Sound none r) {reason : StopReason}
    (hforce : reason = .FailFast → r.aborted = true) :
    Sound none (r.teardown reason) ∧ Calm r (r.teardown reason) ∧ (r.teardown reason).Torn :=
  h.teardownThen safe_abortRest hforce

end

end psx.process.WorkerRun
