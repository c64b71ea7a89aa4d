-- The two sources of child exits: the one that SIGCHLD drives through a pipe to itself
-- (child_exit.cpp), and the one that polls a descriptor for each child (child_exit_pidfd.cpp).
-- Children end, and the handler of the signal runs, at any time, also while a drain is under way.
import PipeShellX.Os.Errno
import PipeShellX.Runtime.Reactor
import PipeShellX.Trace
import Mathlib.Data.List.Perm.Basic
import Mathlib.Logic.Function.Basic

namespace psx.os

/-! ## Children -/

/-- A child as the kernel has it. -/
inductive Child
  | absent
  | running
  | zombie
  deriving DecidableEq

/-- What happens to children, and to the watch over them. -/
inductive ChildEvent
  | started (pid : ProcessId)
  | exited (pid : ProcessId)
  | reaped (pid : ProcessId)
  | watched (pid : ProcessId)
  | unwatched (pid : ProcessId)
  | reported (pid : ProcessId)
  deriving DecidableEq

/-- The child was started and has not exited since. -/
def Running (pid : ProcessId) (log : List ChildEvent) : Prop :=
  Trace.Since (· = .started pid) (· = .exited pid) log

/-- The child was watched, and neither unwatched nor reported since. -/
def Watching (pid : ProcessId) (log : List ChildEvent) : Prop :=
  Trace.Since (· = .watched pid) (fun e => e = .unwatched pid ∨ e = .reported pid) log

/-- A child is watched once, and reported once for a watch, when it is over. -/
def Allowed (log : List ChildEvent) : ChildEvent → Prop
  | .watched pid => ¬ Watching pid log
  | .unwatched pid => Watching pid log
  | .reported pid => Watching pid log ∧ ¬ Running pid log
  | _ => True

/-! ## The source that a signal drives -/

/-- How many bytes a pipe holds. -/
def pipeSize : Nat := 65536

/-- A byte more, if there is room. -/
def writeByte (bytes : Nat) : Nat := if bytes < pipeSize then bytes + 1 else bytes

/-- The children, the pipe and what is watched. A drain under way has children to look at, and those
that it found. -/
structure SignalDriven where
  children : ProcessId → Child := fun _ => .absent
  pending : Bool := false
  bytes : Nat := 0
  watched : List ProcessId := []
  scan : Option (List ProcessId × List ProcessId) := none
  reports : List (List ProcessId) := []
  log : List ChildEvent := []

/-- A child is watched; the pipe gets a byte, in case it has exited already. -/
def SignalDriven.watch (s : SignalDriven) (pid : ProcessId) : SignalDriven × Result Unit :=
  if pid ∈ s.watched then (s, .error ⟨.InvalidArgument, EINVAL, "child_exit.watch"⟩)
  else if s.children pid = .absent then (s, .error ⟨.NoSuchProcess, ECHILD, "child_exit.watch"⟩)
  else
    ({ s with
      watched := s.watched ++ [pid]
      bytes := if s.children pid = .zombie then writeByte s.bytes else s.bytes
      log := s.log ++ [.watched pid] }, .ok ())

/-- A child is not watched any more. -/
def SignalDriven.unwatch (s : SignalDriven) (pid : ProcessId) : SignalDriven × Result Unit :=
  if pid ∈ s.watched then
    ({ s with watched := s.watched.erase pid, log := s.log ++ [.unwatched pid] }, .ok ())
  else (s, .error ⟨.NotFound, ENOENT, "child_exit.unwatch"⟩)

/-- What can happen. A number is not given to a new child while it is watched. A drain looks at the
children in any order, one at a time, and nothing else uses the source until it is over. -/
inductive SourceCall
  | fork (pid : ProcessId)
  | exit (pid : ProcessId)
  | reap (pid : ProcessId)
  | deliver
  | watch (pid : ProcessId)
  | unwatch (pid : ProcessId)
  | drain (order : List ProcessId)
  | check
  deriving DecidableEq

/-- One call, of the source or of the kernel. -/
def SignalDriven.step (s : SignalDriven) : SourceCall → SignalDriven
  | .fork pid =>
    if s.children pid = .absent ∧ pid ∉ s.watched then
      { s with children := Function.update s.children pid .running, log := s.log ++ [.started pid] }
    else s
  | .exit pid =>
    if s.children pid = .running then
      { s with
        children := Function.update s.children pid .zombie
        pending := true
        log := s.log ++ [.exited pid] }
    else s
  | .reap pid =>
    if s.children pid = .zombie then
      { s with children := Function.update s.children pid .absent, log := s.log ++ [.reaped pid] }
    else s
  | .deliver =>
    { s with bytes := if s.pending then writeByte s.bytes else s.bytes, pending := false }
  | .watch pid => if s.scan = none then (s.watch pid).1 else s
  | .unwatch pid => if s.scan = none then (s.unwatch pid).1 else s
  | .drain order =>
    if s.scan = none ∧ order.Perm s.watched then { s with bytes := 0, scan := some (order, []) }
    else s
  | .check =>
    match s.scan with
    | none => s
    | some ([], exited) => { s with scan := none, reports := s.reports ++ [exited] }
    | some (pid :: rest, exited) =>
      if s.children pid = .running then { s with scan := some (rest, exited) }
      else
        { s with
          watched := s.watched.erase pid
          scan := some (rest, exited ++ [pid])
          log := s.log ++ [.reported pid] }

def SignalDriven.run (s : SignalDriven) (calls : List SourceCall) : SignalDriven :=
  calls.foldl SignalDriven.step s

/-! ## The source that polls -/

/-- How many events one `epoll_wait` returns at most. -/
def batchSize : Nat := 64

/-- What is watched. A drain under way has the children that it found. -/
structure Polled where
  children : ProcessId → Child := fun _ => .absent
  watched : List ProcessId := []
  drained : Option (List ProcessId) := none
  reports : List (List ProcessId) := []
  log : List ChildEvent := []

/-- A child is watched by a descriptor of its own. -/
def Polled.watch (s : Polled) (pid : ProcessId) : Polled × Result Unit :=
  if pid ∈ s.watched then (s, .error ⟨.InvalidArgument, EINVAL, "child_exit.watch"⟩)
  else if s.children pid = .absent then (s, .error ⟨.NoSuchProcess, ECHILD, "child_exit.watch"⟩)
  else ({ s with watched := s.watched ++ [pid], log := s.log ++ [.watched pid] }, .ok ())

/-- A child is not watched any more. -/
def Polled.unwatch (s : Polled) (pid : ProcessId) : Polled × Result Unit :=
  if pid ∈ s.watched then
    ({ s with watched := s.watched.erase pid, log := s.log ++ [.unwatched pid] }, .ok ())
  else (s, .error ⟨.NotFound, ENOENT, "child_exit.unwatch"⟩)

/-- What `epoll_wait` can say: some of the watched children that are over, and all of them when the
batch is not full. -/
def Polled.Ready (s : Polled) (events : List ProcessId) : Prop :=
  events.Nodup ∧ events.length ≤ batchSize ∧
    (∀ pid ∈ events, pid ∈ s.watched ∧ s.children pid ≠ .running) ∧
    (events.length < batchSize → ∀ pid ∈ s.watched, s.children pid ≠ .running → pid ∈ events)

instance decidable_ready (s : Polled) (events : List ProcessId) : Decidable (s.Ready events) :=
  inferInstanceAs (Decidable (_ ∧ _ ∧ _ ∧ _))

/-- What happens to a source that polls. -/
inductive PollCall
  | fork (pid : ProcessId)
  | exit (pid : ProcessId)
  | reap (pid : ProcessId)
  | watch (pid : ProcessId)
  | unwatch (pid : ProcessId)
  | drain
  | wait (events : List ProcessId)

/-- One call, of the source or of the kernel. -/
def Polled.step (s : Polled) : PollCall → Polled
  | .fork pid =>
    if s.children pid = .absent ∧ pid ∉ s.watched then
      { s with children := Function.update s.children pid .running, log := s.log ++ [.started pid] }
    else s
  | .exit pid =>
    if s.children pid = .running then
      { s with children := Function.update s.children pid .zombie, log := s.log ++ [.exited pid] }
    else s
  | .reap pid =>
    if s.children pid = .zombie then
      { s with children := Function.update s.children pid .absent, log := s.log ++ [.reaped pid] }
    else s
  | .watch pid => if s.drained = none then (s.watch pid).1 else s
  | .unwatch pid => if s.drained = none then (s.unwatch pid).1 else s
  | .drain => if s.drained = none then { s with drained := some [] } else s
  | .wait events =>
    match s.drained with
    | none => s
    | some exited =>
      if s.Ready events then
        { s with
          watched := s.watched.filter (· ∉ events)
          drained := if events.length < batchSize then none else some (exited ++ events)
          reports :=
            if events.length < batchSize then s.reports ++ [exited ++ events] else s.reports
          log := s.log ++ events.map .reported }
      else s

def Polled.run (s : Polled) (calls : List PollCall) : Polled := calls.foldl Polled.step s

/-- How often `epoll_wait` answered in a run. -/
def Polled.answers (s : Polled) : List PollCall → Nat
  | [] => 0
  | .wait events :: calls =>
    (if s.Ready events then 1 else 0) + (s.step (.wait events)).answers calls
  | call :: calls => (s.step call).answers calls

/-- A batch that `epoll_wait` can answer with. -/
def Polled.batch (s : Polled) : List ProcessId :=
  (s.watched.filter (s.children · ≠ .running)).take batchSize

/-! ## The log -/

theorem running_snoc {pid : ProcessId} {log : List ChildEvent} {e : ChildEvent} :
    Running pid (log ++ [e]) ↔ e = .started pid ∨ Running pid log ∧ e ≠ .exited pid := by
  unfold Running
  by_cases hstart : e = .started pid
  · simp only [hstart, true_or, iff_true]
    apply Trace.Since.start
    rfl
  · have h := @Trace.since_snoc _ (· = .started pid) (· = .exited pid) log e hstart
    rw [h]
    simp [hstart]

theorem watching_snoc {pid : ProcessId} {log : List ChildEvent} {e : ChildEvent} :
    Watching pid (log ++ [e]) ↔
      e = .watched pid ∨ Watching pid log ∧ e ≠ .unwatched pid ∧ e ≠ .reported pid := by
  unfold Watching
  by_cases hstart : e = .watched pid
  · simp only [hstart, true_or, iff_true]
    apply Trace.Since.start
    rfl
  · have h :=
      @Trace.since_snoc _ (· = .watched pid) (fun e => e = .unwatched pid ∨ e = .reported pid)
      log e hstart
    rw [h]
    simp [hstart, not_or]

theorem running_nil (pid : ProcessId) : ¬ Running pid [] := by
  simp [Running, Trace.Since]

theorem watching_nil (pid : ProcessId) : ¬ Watching pid [] := by
  simp [Watching, Trace.Since]

/-- What the log says of the children and of the watch is so. -/
structure Logged (children : ProcessId → Child) (watched : List ProcessId) (log : List ChildEvent) :
    Prop where
  nodup : watched.Nodup
  watching : ∀ pid, pid ∈ watched ↔ Watching pid log
  running : ∀ pid, children pid = .running ↔ Running pid log
  lawful : Trace.Lawful Allowed log

namespace Logged

variable {children : ProcessId → Child} {watched : List ProcessId} {log : List ChildEvent}
  {pid : ProcessId}

theorem fork (h : Logged children watched log) :
    Logged (Function.update children pid .running) watched (log ++ [.started pid]) := by
  refine ⟨h.nodup, fun p => ?_, fun p => ?_, h.lawful.snoc trivial⟩
  · simp [watching_snoc, h.watching]
  · rw [running_snoc, ← h.running, Function.update_apply]
    by_cases hp : p = pid
    · simp [hp]
    · simp [hp, Ne.symm hp]

theorem exit (h : Logged children watched log) :
    Logged (Function.update children pid .zombie) watched (log ++ [.exited pid]) := by
  refine ⟨h.nodup, fun p => ?_, fun p => ?_, h.lawful.snoc trivial⟩
  · simp [watching_snoc, h.watching]
  · rw [running_snoc, ← h.running, Function.update_apply]
    by_cases hp : p = pid
    · simp [hp]
    · simp [hp, Ne.symm hp]

theorem reap (h : Logged children watched log) (hzombie : children pid = .zombie) :
    Logged (Function.update children pid .absent) watched (log ++ [.reaped pid]) := by
  refine ⟨h.nodup, fun p => ?_, fun p => ?_, h.lawful.snoc trivial⟩
  · simp [watching_snoc, h.watching]
  · rw [running_snoc, ← h.running, Function.update_apply]
    by_cases hp : p = pid
    · simp [hp, hzombie]
    · simp [hp]

theorem watch (h : Logged children watched log) (hnew : pid ∉ watched) :
    Logged children (watched ++ [pid]) (log ++ [.watched pid]) := by
  refine ⟨?_, fun p => ?_, fun p => ?_, h.lawful.snoc ?_⟩
  · rw [List.nodup_append]
    simp_all [h.nodup]
    exact fun a ha heq => hnew (heq ▸ ha)
  · rw [watching_snoc, ← h.watching]
    simp only [List.mem_append, List.mem_singleton, ChildEvent.watched.injEq, ne_eq, reduceCtorEq,
      not_false_eq_true, and_self, and_true]
    rw [or_comm, eq_comm]
  · simp [running_snoc, h.running]
  · rw [Allowed, ← h.watching]
    exact hnew

theorem erase (h : Logged children watched log) (hin : pid ∈ watched) {e : ChildEvent}
    (he : e = .unwatched pid ∨ e = .reported pid ∧ children pid ≠ .running) :
    Logged children (watched.erase pid) (log ++ [e]) := by
  have hwatching := (h.watching pid).mp hin
  refine ⟨h.nodup.erase pid, fun p => ?_, fun p => ?_, h.lawful.snoc ?_⟩
  · rw [watching_snoc, ← h.watching, h.nodup.mem_erase_iff]
    rcases he with rfl | ⟨rfl, -⟩
    · simp only [reduceCtorEq, false_or, ne_eq, ChildEvent.unwatched.injEq,
        not_false_eq_true, and_true]
      rw [and_comm, eq_comm]
    · simp only [reduceCtorEq, false_or, ne_eq, ChildEvent.reported.injEq,
        not_false_eq_true, true_and]
      rw [and_comm, eq_comm]
  · rw [running_snoc, ← h.running]
    rcases he with rfl | ⟨rfl, -⟩ <;> simp
  · rcases he with rfl | ⟨rfl, hover⟩
    · exact hwatching
    · exact ⟨hwatching, fun hrun => hover ((h.running pid).mpr hrun)⟩

end Logged

theorem logged_start : Logged (fun _ => .absent) [] [] := by
  refine ⟨List.nodup_nil, fun pid => ?_, fun pid => ?_, Trace.Lawful.nil⟩
  · simp [watching_nil]
  · simp [running_nil]

/-! ## The signal's source over a run -/

/-- What keeps an exit from being lost: a child that is watched and over has a byte in the pipe, a
signal on its way, or a drain that has yet to look at it. -/
structure SignalDriven.Sound (s : SignalDriven) : Prop where
  logged : Logged s.children s.watched s.log
  scanned : ∀ rest exited, s.scan = some (rest, exited) → rest.Nodup ∧ rest ⊆ s.watched
  noted : ∀ pid ∈ s.watched, s.children pid ≠ .running →
    0 < s.bytes ∨ s.pending = true ∨ ∃ rest exited, s.scan = some (rest, exited) ∧ pid ∈ rest

namespace SignalDriven.Sound

variable {s : SignalDriven} {pid : ProcessId}

theorem writeByte_pos (bytes : Nat) : 0 < writeByte bytes := by
  unfold writeByte pipeSize
  split <;> omega

theorem fork (h : s.Sound) : (s.step (.fork pid)).Sound := by
  rw [step]
  split
  · rename_i hnew
    refine ⟨h.logged.fork, h.scanned, fun p hp hover => h.noted p hp ?_⟩
    have hne : p ≠ pid := by
      rintro rfl
      exact hnew.2 hp
    simpa [hne] using hover
  · exact h

theorem exit (h : s.Sound) : (s.step (.exit pid)).Sound := by
  rw [step]
  split
  · exact ⟨h.logged.exit, h.scanned, fun p hp hover => .inr (.inl rfl)⟩
  · exact h

theorem reap (h : s.Sound) : (s.step (.reap pid)).Sound := by
  rw [step]
  split
  · rename_i hzombie
    refine ⟨h.logged.reap hzombie, h.scanned, fun p hp hover => h.noted p hp ?_⟩
    by_cases hpid : p = pid
    · simp [hpid, hzombie]
    · simpa [hpid] using hover
  · exact h

theorem deliver (h : s.Sound) : (s.step .deliver).Sound := by
  refine ⟨h.logged, h.scanned, fun p hp hover => ?_⟩
  rcases h.noted p hp hover with hbytes | hpending | hscan
  · left
    rw [step]
    dsimp only
    split
    · apply writeByte_pos
    · exact hbytes
  · left
    simp [step, hpending, writeByte_pos]
  · exact .inr (.inr hscan)

theorem watch (h : s.Sound) (hscan : s.scan = none) : (s.watch pid).1.Sound := by
  rw [SignalDriven.watch]
  split
  · exact h
  · rename_i hnew
    split
    · exact h
    · rename_i hthere
      refine ⟨h.logged.watch hnew, fun rest exited hsome => ?_, fun p hp hover => ?_⟩
      · simp [hscan] at hsome
      · dsimp only at hp hover ⊢
        rcases List.mem_append.mp hp with hp | hp
        · rcases h.noted p hp hover with hbytes | hlater
          · left
            split
            · apply writeByte_pos
            · exact hbytes
          · exact .inr hlater
        · -- it had ended before the watch began, so no signal will tell of it
          rw [List.mem_singleton.mp hp] at hover
          have hzombie : s.children pid = .zombie := by
            cases hchild : s.children pid with
            | absent => exact absurd hchild hthere
            | running => exact absurd hchild hover
            | zombie => rfl
          left
          simp [hzombie, writeByte_pos]

theorem unwatch (h : s.Sound) (hscan : s.scan = none) : (s.unwatch pid).1.Sound := by
  rw [SignalDriven.unwatch]
  split
  · rename_i hin
    refine ⟨h.logged.erase hin (.inl rfl), fun rest exited hsome => ?_, fun p hp hover => ?_⟩
    · simp [hscan] at hsome
    · exact h.noted p (List.mem_of_mem_erase hp) hover
  · exact h

theorem drain (h : s.Sound) (order : List ProcessId) : (s.step (.drain order)).Sound := by
  rw [step]
  split
  · rename_i hfree
    refine ⟨h.logged, fun rest exited hsome => ?_, fun p hp hover => ?_⟩
    · simp only [Option.some.injEq, Prod.mk.injEq] at hsome
      obtain ⟨rfl, -⟩ := hsome
      exact ⟨hfree.2.nodup_iff.mpr h.logged.nodup, hfree.2.subset⟩
    · exact .inr (.inr ⟨order, [], rfl, hfree.2.mem_iff.mpr hp⟩)
  · exact h

theorem check (h : s.Sound) : (s.step .check).Sound := by
  rw [step]
  split
  · exact h
  · rename_i exited hscan
    refine ⟨h.logged, by simp, fun p hp hover => ?_⟩
    rcases h.noted p hp hover with hbytes | hpending | ⟨rest, found, hsome, hin⟩
    · exact .inl hbytes
    · exact .inr (.inl hpending)
    · rw [hscan] at hsome
      simp only [Option.some.injEq, Prod.mk.injEq] at hsome
      simp [← hsome.1] at hin
  · rename_i pid rest exited hscan
    obtain ⟨hnodup, hsub⟩ := h.scanned _ _ hscan
    rw [List.nodup_cons] at hnodup
    split
    · rename_i hrunning
      refine ⟨h.logged, fun rest' exited' hsome => ?_, fun p hp hover => ?_⟩
      · simp only [Option.some.injEq, Prod.mk.injEq] at hsome
        obtain ⟨rfl, -⟩ := hsome
        exact ⟨hnodup.2, fun p hp => hsub (List.mem_cons_of_mem _ hp)⟩
      · rcases h.noted p hp hover with hbytes | hpending | ⟨rest', found, hsome, hin⟩
        · exact .inl hbytes
        · exact .inr (.inl hpending)
        · rw [hscan] at hsome
          simp only [Option.some.injEq, Prod.mk.injEq] at hsome
          rw [← hsome.1] at hin
          rcases List.mem_cons.mp hin with rfl | hin
          · exact absurd hrunning hover
          · exact .inr (.inr ⟨rest, exited, rfl, hin⟩)
    · rename_i hover
      have hin : pid ∈ s.watched := hsub List.mem_cons_self
      refine ⟨h.logged.erase hin (.inr ⟨rfl, hover⟩), fun rest' exited' hsome => ?_,
        fun p hp hpover => ?_⟩
      · simp only [Option.some.injEq, Prod.mk.injEq] at hsome
        obtain ⟨rfl, -⟩ := hsome
        refine ⟨hnodup.2, fun p hp => ?_⟩
        rw [h.logged.nodup.mem_erase_iff]
        refine ⟨?_, hsub (List.mem_cons_of_mem _ hp)⟩
        rintro rfl
        exact hnodup.1 hp
      · rw [h.logged.nodup.mem_erase_iff] at hp
        rcases h.noted p hp.2 hpover with hbytes | hpending | ⟨rest', found, hsome, hfound⟩
        · exact .inl hbytes
        · exact .inr (.inl hpending)
        · rw [hscan] at hsome
          simp only [Option.some.injEq, Prod.mk.injEq] at hsome
          rw [← hsome.1] at hfound
          exact .inr (.inr ⟨rest, _, rfl, (List.mem_cons.mp hfound).resolve_left hp.1⟩)

theorem step (h : s.Sound) (call : SourceCall) : (s.step call).Sound := by
  cases call with
  | fork pid => exact h.fork
  | exit pid => exact h.exit
  | reap pid => exact h.reap
  | deliver => exact h.deliver
  | watch pid =>
    rw [SignalDriven.step]
    split
    · apply h.watch
      assumption
    · exact h
  | unwatch pid =>
    rw [SignalDriven.step]
    split
    · apply h.unwatch
      assumption
    · exact h
  | drain order => exact h.drain order
  | check => exact h.check

theorem run (h : s.Sound) (calls : List SourceCall) : (s.run calls).Sound := by
  induction calls generalizing s with
  | nil => exact h
  | cons call calls ih => exact ih (h.step call)

end SignalDriven.Sound

theorem SignalDriven.sound_start : ({} : SignalDriven).Sound :=
  ⟨logged_start, by simp, by simp⟩

/-! ## What the drains return -/

/-- The child that an event reports. -/
def reportedIn : ChildEvent → Option ProcessId
  | .reported pid => some pid
  | _ => none

/-- The children that were reported, in their order. -/
def returned (log : List ChildEvent) : List ProcessId := log.filterMap reportedIn

@[simp] theorem returned_append (a b : List ChildEvent) :
    returned (a ++ b) = returned a ++ returned b := by
  simp [returned]

@[simp] theorem returned_reported (pids : List ProcessId) :
    returned (pids.map .reported) = pids := by
  unfold returned
  rw [List.filterMap_map]
  apply List.filterMap_some

/-- The drains returned what was reported, and the one under way has the rest. -/
def Returns (reports : List (List ProcessId)) (sofar : List ProcessId)
    (log : List ChildEvent) : Prop :=
  returned log = reports.flatten ++ sofar

theorem Returns.keep {reports : List (List ProcessId)} {sofar : List ProcessId}
    {log : List ChildEvent} {e : ChildEvent} (h : Returns reports sofar log)
    (he : reportedIn e = none) :
    Returns reports sofar (log ++ [e]) := by
  unfold Returns at *
  rw [returned_append, h]
  simp [returned, he]

theorem Returns.close {reports : List (List ProcessId)} {sofar : List ProcessId}
    {log : List ChildEvent} (h : Returns reports sofar log) :
    Returns (reports ++ [sofar]) [] log := by
  unfold Returns at *
  simp [h]

theorem Returns.more {reports : List (List ProcessId)} {sofar : List ProcessId}
    {log : List ChildEvent} (h : Returns reports sofar log) (pids : List ProcessId) :
    Returns reports (sofar ++ pids) (log ++ pids.map .reported) := by
  unfold Returns at *
  rw [returned_append, returned_reported, h, List.append_assoc]

/-- What the scan under way has found. -/
def SignalDriven.sofar (s : SignalDriven) : List ProcessId := (s.scan.map Prod.snd).getD []

theorem SignalDriven.returns_step {s : SignalDriven} (h : Returns s.reports s.sofar s.log)
    (call : SourceCall) : Returns (s.step call).reports (s.step call).sofar (s.step call).log := by
  cases call with
  | fork pid | exit pid | reap pid =>
    rw [step]
    split
    · exact h.keep rfl
    · exact h
  | deliver => exact h
  | watch pid =>
    rw [step]
    split
    · rw [SignalDriven.watch]
      split
      · exact h
      · split
        · exact h
        · exact h.keep rfl
    · exact h
  | unwatch pid =>
    rw [step]
    split
    · rw [SignalDriven.unwatch]
      split
      · exact h.keep rfl
      · exact h
    · exact h
  | drain order =>
    rw [step]
    split
    · rename_i hfree
      simpa [sofar, hfree.1] using h
    · exact h
  | check =>
    rw [step]
    split
    · exact h
    · rename_i exited hscan
      apply Returns.close
      simpa [sofar, hscan] using h
    · rename_i pid rest exited hscan
      have hnow : Returns s.reports exited s.log := by simpa [sofar, hscan] using h
      split
      · exact hnow
      · exact hnow.more [pid]

theorem SignalDriven.returns_run {s : SignalDriven} (h : Returns s.reports s.sofar s.log)
    (calls : List SourceCall) :
    Returns (s.run calls).reports (s.run calls).sofar (s.run calls).log := by
  induction calls generalizing s with
  | nil => exact h
  | cons call calls ih => exact ih (returns_step h call)

/-- At any time between two drains, a child that is watched and over has made the handle readable,
or a signal is on its way that will. Children are reported when they are over, once for each watch,
and those that the drains returned are those reported. -/
theorem SignalDriven.no_exit_is_lost (calls : List SourceCall) :
    let s := ({} : SignalDriven).run calls
    (∀ pid, Watching pid s.log → ¬ Running pid s.log → s.scan = none →
      0 < s.bytes ∨ s.pending = true) ∧
    Trace.Lawful Allowed s.log ∧ (s.scan = none → s.reports.flatten = returned s.log) := by
  intro s
  have hsound : s.Sound := sound_start.run calls
  refine ⟨fun pid hwatch hover hfree => ?_, hsound.logged.lawful, fun hfree => ?_⟩
  · rw [← hsound.logged.watching] at hwatch
    rw [← hsound.logged.running] at hover
    rcases hsound.noted pid hwatch hover with hbytes | hpending | ⟨rest, exited, hscan, -⟩
    · exact .inl hbytes
    · exact .inr hpending
    · rw [hfree] at hscan
      cases hscan
  · have hreturns : Returns s.reports s.sofar s.log := returns_run (s := {}) rfl calls
    rw [hreturns, sofar, hfree]
    simp

/-! ## What a drain finds -/

/-- A drain found every child that was watched and over when it began, and none that was not
watched. -/
structure Found (children : ProcessId → Child) (watched exited : List ProcessId) : Prop where
  nodup : exited.Nodup
  sub : exited ⊆ watched
  all : ∀ pid ∈ watched, children pid ≠ .running → pid ∈ exited

/-- A drain that began with these children and this watch has found some, and has yet to look at
others. -/
structure Finding (children now : ProcessId → Child) (watched exited rest : List ProcessId) :
    Prop where
  nodup : exited.Nodup
  sub : exited ⊆ watched
  apart : exited.Disjoint rest
  left : rest ⊆ watched
  all : ∀ pid ∈ watched, children pid ≠ .running → pid ∈ exited ∨ pid ∈ rest ∧ now pid ≠ .running

namespace Finding

variable {children now : ProcessId → Child} {watched exited rest : List ProcessId} {pid : ProcessId}

/-- What is over stays over, since its number is not given to a new child. -/
theorem change (h : Finding children now watched exited rest) {later : ProcessId → Child}
    (hstay : ∀ p ∈ rest, now p ≠ .running → later p ≠ .running) :
    Finding children later watched exited rest := by
  refine ⟨h.nodup, h.sub, h.apart, h.left, fun p hp hover => ?_⟩
  rcases h.all p hp hover with hfound | ⟨hrest, hnow⟩
  · exact .inl hfound
  · exact .inr ⟨hrest, hstay p hrest hnow⟩

theorem found (h : Finding children now watched exited rest)
    (hnone : ∀ p ∈ rest, now p = .running) :
    Found children watched exited := by
  refine ⟨h.nodup, h.sub, fun p hp hover => ?_⟩
  rcases h.all p hp hover with hfound | ⟨hrest, hnow⟩
  · exact hfound
  · exact absurd (hnone p hrest) hnow

/-- A few of the rest are looked at; those of them that are over are found. -/
theorem look (h : Finding children now watched exited rest) {more later : List ProcessId}
    (hnodup : more.Nodup) (hmore : more ⊆ rest) (hlater : later ⊆ rest)
    (hapart : more.Disjoint later) (hover : ∀ p ∈ rest, p ∉ more → now p ≠ .running → p ∈ later) :
    Finding children now watched (exited ++ more) later := by
  refine ⟨?_, ?_, ?_, fun p hp => h.left (hlater hp), fun p hp hpover => ?_⟩
  · exact h.nodup.append hnodup fun p hexited hp => h.apart hexited (hmore hp)
  · intro p hp
    rcases List.mem_append.mp hp with hp | hp
    · exact h.sub hp
    · exact h.left (hmore hp)
  · intro p hp hrest
    rcases List.mem_append.mp hp with hp | hp
    · exact h.apart hp (hlater hrest)
    · exact hapart hp hrest
  · rcases h.all p hp hpover with hfound | ⟨hrest, hnow⟩
    · exact .inl (List.mem_append_left _ hfound)
    · by_cases hp : p ∈ more
      · exact .inl (List.mem_append_right _ hp)
      · exact .inr ⟨hover p hrest hp hnow, hnow⟩

end Finding

/-- Nothing but a look at a child moves a drain on. -/
theorem SignalDriven.step_other {t : SignalDriven} {call : SourceCall} (hcall : call ≠ .check) :
    (t.step call).reports = t.reports ∧ (t.scan ≠ none → (t.step call).scan = t.scan) := by
  cases call with
  | fork pid | exit pid | reap pid =>
    rw [step]
    split <;> exact ⟨rfl, fun _ => rfl⟩
  | deliver => exact ⟨rfl, fun _ => rfl⟩
  | watch pid | unwatch pid =>
    rw [step]
    split
    · rename_i hfree
      refine ⟨?_, fun hscan => absurd hfree hscan⟩
      simp only [SignalDriven.watch, SignalDriven.unwatch, apply_ite Prod.fst, apply_ite reports,
        ite_self]
    · exact ⟨rfl, fun _ => rfl⟩
  | drain order =>
    rw [step]
    split
    · rename_i hfree
      exact ⟨rfl, fun hscan => absurd hfree.1 hscan⟩
    · exact ⟨rfl, fun _ => rfl⟩
  | check => exact absurd rfl hcall

/-- A report that is in stays. -/
theorem SignalDriven.reports_step (t : SignalDriven) (call : SourceCall) :
    t.reports <+: (t.step call).reports := by
  by_cases hcall : call = .check
  · rw [hcall, step]
    split
    · exact List.prefix_rfl
    · exact List.prefix_append _ _
    · split <;> exact List.prefix_rfl
  · exact (step_other hcall).1 ▸ List.prefix_rfl

theorem SignalDriven.reports_run (t : SignalDriven) (calls : List SourceCall) :
    t.reports <+: (t.run calls).reports := by
  induction calls generalizing t with
  | nil => exact List.prefix_rfl
  | cons call calls ih => exact (t.reports_step call).trans (ih (t.step call))

/-- A drain that has `rest` to look at is over after as many looks, and one that finds no child
left. -/
theorem SignalDriven.scan_ends {t : SignalDriven} {rest exited : List ProcessId}
    (hscan : t.scan = some (rest, exited)) {calls : List SourceCall}
    (henough : rest.length < calls.count .check) :
    t.reports.length < (t.run calls).reports.length := by
  induction calls generalizing t rest exited with
  | nil => simp at henough
  | cons call calls ih =>
    by_cases hcall : call = .check
    · subst hcall
      rw [List.count_cons_self] at henough
      cases rest with
      | nil =>
        have hover : (t.step .check).reports = t.reports ++ [exited] := by simp [step, hscan]
        have hlater := ((t.step .check).reports_run calls).length_le
        rw [hover, List.length_append, List.length_singleton] at hlater
        exact hlater
      | cons pid rest =>
        have hlooked : ∃ found, (t.step .check).scan = some (rest, found) ∧
            (t.step .check).reports = t.reports := by
          rw [step, hscan]
          dsimp only
          split <;> exact ⟨_, rfl, rfl⟩
        obtain ⟨found, hnow, hsame⟩ := hlooked
        have hmore : rest.length < calls.count .check := by
          rw [List.length_cons] at henough
          omega
        rw [← hsame]
        exact ih hnow hmore
    · obtain ⟨hsame, hkeep⟩ := t.step_other hcall
      rw [List.count_cons_of_ne hcall] at henough
      rw [← hsame]
      exact ih ((hkeep (by simp [hscan])).trans hscan) henough

/-- Since a drain began in `s`: it is under way, or its report is in. -/
def SignalDriven.Drained (s t : SignalDriven) : Prop :=
  (∃ rest exited, t.scan = some (rest, exited) ∧ t.reports = s.reports ∧
    Finding s.children t.children s.watched exited rest) ∨
  ∃ exited, t.reports[s.reports.length]? = some exited ∧ Found s.children s.watched exited

theorem SignalDriven.drained_step {s t : SignalDriven} (ht : t.Sound) (h : Drained s t)
    (call : SourceCall) : Drained s (t.step call) := by
  rcases h with ⟨rest, exited, hscan, hreports, hfinding⟩ | ⟨exited, hreport, hfound⟩
  · obtain ⟨hnodup, hsub⟩ := ht.scanned _ _ hscan
    cases call with
    | fork pid =>
      left
      rw [step]
      split
      · rename_i hnew
        refine ⟨rest, exited, hscan, hreports, hfinding.change fun p hp hnow => ?_⟩
        have hne : p ≠ pid := by
          rintro rfl
          exact hnew.2 (hsub hp)
        simpa [hne] using hnow
      · exact ⟨rest, exited, hscan, hreports, hfinding⟩
    | exit pid | reap pid =>
      left
      rw [step]
      split
      · refine ⟨rest, exited, hscan, hreports, hfinding.change fun p hp hnow => ?_⟩
        dsimp only
        rw [Function.update_apply]
        split
        · simp
        · exact hnow
      · exact ⟨rest, exited, hscan, hreports, hfinding⟩
    | deliver => exact .inl ⟨rest, exited, hscan, hreports, hfinding⟩
    | watch pid | unwatch pid | drain order =>
      left
      simp only [step, hscan, reduceCtorEq, false_and, if_false]
      exact ⟨rest, exited, rfl, hreports, hfinding⟩
    | check =>
      rw [step, hscan]
      cases rest with
      | nil =>
        right
        refine ⟨exited, ?_, hfinding.found (by simp)⟩
        simp [hreports]
      | cons pid rest =>
        left
        rw [List.nodup_cons] at hnodup
        dsimp only
        split
        · rename_i hrunning
          refine ⟨rest, exited, rfl, hreports, ?_⟩
          have hlater : ∀ p ∈ pid :: rest, p ∉ ([] : List ProcessId) → t.children p ≠ .running →
              p ∈ rest := by
            intro p hp _ hnow
            rcases List.mem_cons.mp hp with rfl | hp
            · exact absurd hrunning hnow
            · exact hp
          have hlook :=
            hfinding.look List.nodup_nil (by simp) (List.subset_cons_self _ _) (by simp) hlater
          simpa using hlook
        · refine ⟨rest, exited ++ [pid], rfl, hreports, ?_⟩
          refine hfinding.look (List.nodup_singleton pid) (by simp) (by simp)
            (by simpa using hnodup.1)
            fun p hp hpid _ => ?_
          exact (List.mem_cons.mp hp).resolve_left (by simpa using hpid)
  · right
    obtain ⟨later, hlater⟩ := t.reports_step call
    refine ⟨exited, ?_, hfound⟩
    rw [← hlater, List.getElem?_append_left (List.getElem?_eq_some_iff.mp hreport).1]
    exact hreport

theorem SignalDriven.drained_run {s t : SignalDriven} (ht : t.Sound) (h : Drained s t)
    (calls : List SourceCall) : Drained s (t.run calls) := by
  induction calls generalizing t with
  | nil => exact h
  | cons call calls ih => exact ih (ht.step call) (drained_step ht h call)

/-- A drain that looks at the children one after the other ends, and returns every child that was
watched and over when it began, each once, and no other that was not watched, whatever ends or is
reaped meanwhile. -/
theorem SignalDriven.a_scan_finds_every_exit (before after : List SourceCall)
    (order : List ProcessId) (hfree : (({} : SignalDriven).run before).scan = none)
    (horder : order.Perm (({} : SignalDriven).run before).watched)
    (henough : order.length < after.count .check) :
    let s := ({} : SignalDriven).run before
    ∃ exited, (s.run (.drain order :: after)).reports[s.reports.length]? = some exited ∧
      Found s.children s.watched exited := by
  intro s
  have hsound : s.Sound := sound_start.run before
  have hscan : (s.step (.drain order)).scan = some (order, []) := by
    rw [step, if_pos ⟨hfree, horder⟩]
  have hsame : (s.step (.drain order)).reports = s.reports := (step_other (by simp)).1
  have hbegun : Drained s (s.step (.drain order)) := by
    refine .inl ⟨order, [], hscan, hsame, List.nodup_nil, by simp, by simp, horder.subset, ?_⟩
    intro pid hpid hover
    refine .inr ⟨horder.mem_iff.mpr hpid, ?_⟩
    rw [step, if_pos ⟨hfree, horder⟩]
    exact hover
  rcases drained_run (hsound.step _) hbegun after with ⟨rest, found, -, hnone, -⟩ | hover
  · -- it has looked at all of them, so its report cannot be missing
    have hends := scan_ends hscan henough
    rw [hnone, hsame] at hends
    exact absurd hends (Nat.lt_irrefl _)
  · exact hover

/-- Two children are watched; one ends before the drain and one while the drain is under way. -/
theorem SignalDriven.a_scan_finds_a_child :
    let s := ({} : SignalDriven).run [.fork 7, .watch 7, .fork 8, .watch 8, .exit 7, .deliver]
    ∃ exited,
      (s.run [.drain [8, 7], .check, .exit 8, .check, .check]).reports[s.reports.length]? =
        some exited ∧ Found s.children s.watched exited :=
  SignalDriven.a_scan_finds_every_exit [.fork 7, .watch 7, .fork 8, .watch 8, .exit 7, .deliver]
    [.check, .exit 8, .check, .check] [8, 7] (by decide) (by decide) (by decide)

/-! ## The source that polls over a run -/

theorem Polled.watch_cases (s : Polled) (pid : ProcessId) :
    (s.watch pid).1 = s ∨ pid ∉ s.watched ∧ (s.watch pid).1 =
      { s with watched := s.watched ++ [pid], log := s.log ++ [.watched pid] } := by
  rw [Polled.watch]
  split
  · exact .inl rfl
  · split
    · exact .inl rfl
    · exact .inr ⟨by assumption, rfl⟩

theorem Polled.unwatch_cases (s : Polled) (pid : ProcessId) :
    (s.unwatch pid).1 = s ∨ pid ∈ s.watched ∧ (s.unwatch pid).1 =
      { s with watched := s.watched.erase pid, log := s.log ++ [.unwatched pid] } := by
  rw [Polled.unwatch]
  split
  · exact .inr ⟨by assumption, rfl⟩
  · exact .inl rfl

/-- Several children, over and watched, are reported one after the other. -/
theorem Logged.batch {children : ProcessId → Child} {watched : List ProcessId}
    {log : List ChildEvent}
    (h : Logged children watched log) {events : List ProcessId} (hnodup : events.Nodup)
    (hover : ∀ pid ∈ events, pid ∈ watched ∧ children pid ≠ .running) :
    Logged children (watched.filter (· ∉ events)) (log ++ events.map .reported) := by
  induction events generalizing watched log with
  | nil => simpa using h
  | cons pid events ih =>
    rw [List.nodup_cons] at hnodup
    obtain ⟨hin, hpid⟩ := hover pid List.mem_cons_self
    have hfirst := h.erase hin (.inr ⟨rfl, hpid⟩)
    have hrest := ih hfirst hnodup.2 fun p hp => ?_
    · have hsame : (watched.erase pid).filter (· ∉ events) =
          watched.filter (· ∉ pid :: events) := by
        rw [h.nodup.erase_eq_filter, List.filter_filter]
        apply List.filter_congr
        intro p _
        by_cases hp : p = pid <;> simp [hp]
      rw [hsame] at hrest
      simpa using hrest
    · obtain ⟨hwatched, hpover⟩ := hover p (List.mem_cons_of_mem _ hp)
      refine ⟨(h.nodup.mem_erase_iff).mpr ⟨?_, hwatched⟩, hpover⟩
      rintro rfl
      exact hnodup.1 hp

theorem Polled.logged_step {s : Polled} (h : Logged s.children s.watched s.log) (call : PollCall) :
    Logged (s.step call).children (s.step call).watched (s.step call).log := by
  cases call with
  | fork pid =>
    rw [step]
    split
    · exact h.fork
    · exact h
  | exit pid =>
    rw [step]
    split
    · exact h.exit
    · exact h
  | reap pid =>
    rw [step]
    split
    · apply h.reap
      assumption
    · exact h
  | watch pid =>
    rw [step]
    split
    · rcases s.watch_cases pid with hsame | ⟨hnew, hwatch⟩
      · rw [hsame]
        exact h
      · rw [hwatch]
        exact h.watch hnew
    · exact h
  | unwatch pid =>
    rw [step]
    split
    · rcases s.unwatch_cases pid with hsame | ⟨hin, hunwatch⟩
      · rw [hsame]
        exact h
      · rw [hunwatch]
        exact h.erase hin (.inl rfl)
    · exact h
  | drain =>
    rw [step]
    split <;> exact h
  | wait events =>
    rw [step]
    split
    · exact h
    · split
      · rename_i hready
        exact h.batch hready.1 hready.2.2.1
      · exact h

theorem Polled.logged_run {s : Polled} (h : Logged s.children s.watched s.log)
    (calls : List PollCall) :
    Logged (s.run calls).children (s.run calls).watched (s.run calls).log := by
  induction calls generalizing s with
  | nil => exact h
  | cons call calls ih => exact ih (logged_step h call)

theorem Polled.returns_step {s : Polled} (h : Returns s.reports (s.drained.getD []) s.log)
    (call : PollCall) :
    Returns (s.step call).reports ((s.step call).drained.getD []) (s.step call).log := by
  cases call with
  | fork pid | exit pid | reap pid =>
    rw [step]
    split
    · exact h.keep rfl
    · exact h
  | watch pid =>
    rw [step]
    split
    · rcases s.watch_cases pid with hsame | ⟨-, hwatch⟩
      · rw [hsame]
        exact h
      · rw [hwatch]
        exact h.keep rfl
    · exact h
  | unwatch pid =>
    rw [step]
    split
    · rcases s.unwatch_cases pid with hsame | ⟨-, hunwatch⟩
      · rw [hsame]
        exact h
      · rw [hunwatch]
        exact h.keep rfl
    · exact h
  | drain =>
    rw [step]
    split
    · rename_i hfree
      simpa [hfree] using h
    · exact h
  | wait events =>
    rw [step]
    split
    · exact h
    · rename_i exited hdrained
      have hmore : Returns s.reports (exited ++ events) (s.log ++ events.map .reported) := by
        apply Returns.more
        simpa [hdrained] using h
      split
      · dsimp only
        split
        · exact hmore.close
        · exact hmore
      · exact h

theorem Polled.returns_run {s : Polled} (h : Returns s.reports (s.drained.getD []) s.log)
    (calls : List PollCall) :
    Returns (s.run calls).reports ((s.run calls).drained.getD []) (s.run calls).log := by
  induction calls generalizing s with
  | nil => exact h
  | cons call calls ih => exact ih (returns_step h call)

/-- `epoll_wait` always has an answer. -/
theorem Polled.ready_batch {s : Polled} (hnodup : s.watched.Nodup) : s.Ready s.batch := by
  refine ⟨(hnodup.filter _).sublist (List.take_sublist _ _), List.length_take_le _ _, ?_, ?_⟩
  · intro pid hpid
    simpa using List.mem_of_mem_take hpid
  · intro hlast pid hpid hover
    -- the batch was not cut
    have hall : s.batch = s.watched.filter (s.children · ≠ .running) := by
      apply List.take_of_length_le
      rw [batch, List.length_take] at hlast
      omega
    rw [hall]
    simp [hpid, hover]

/-- Nothing but a batch moves a drain on. -/
theorem Polled.step_other {t : Polled} {call : PollCall} (hcall : ∀ events, call ≠ .wait events) :
    (t.step call).reports = t.reports ∧
    (t.drained ≠ none → (t.step call).drained = t.drained ∧ (t.step call).watched = t.watched) := by
  cases call with
  | fork pid | exit pid | reap pid =>
    rw [step]
    split <;> exact ⟨rfl, fun _ => ⟨rfl, rfl⟩⟩
  | watch pid | unwatch pid =>
    rw [step]
    split
    · rename_i hfree
      refine ⟨?_, fun hdrained => absurd hfree hdrained⟩
      simp only [Polled.watch, Polled.unwatch, apply_ite Prod.fst, apply_ite reports, ite_self]
    · exact ⟨rfl, fun _ => ⟨rfl, rfl⟩⟩
  | drain =>
    rw [step]
    split
    · rename_i hfree
      exact ⟨rfl, fun hdrained => absurd hfree hdrained⟩
    · exact ⟨rfl, fun _ => ⟨rfl, rfl⟩⟩
  | wait events => exact absurd rfl (hcall events)

/-- A report that is in stays. -/
theorem Polled.reports_step (t : Polled) (call : PollCall) :
    t.reports <+: (t.step call).reports := by
  by_cases hcall : ∃ events, call = .wait events
  · obtain ⟨events, rfl⟩ := hcall
    rw [step]
    split
    · exact List.prefix_rfl
    · split
      · dsimp only
        split
        · exact List.prefix_append _ _
        · exact List.prefix_rfl
      · exact List.prefix_rfl
  · exact (t.step_other fun events heq => hcall ⟨events, heq⟩).1 ▸ List.prefix_rfl

theorem Polled.reports_run (t : Polled) (calls : List PollCall) :
    t.reports <+: (t.run calls).reports := by
  induction calls generalizing t with
  | nil => exact List.prefix_rfl
  | cons call calls ih => exact (t.reports_step call).trans (ih (t.step call))

/-- A full batch takes as many children off the watch. -/
theorem Polled.watched_wait {t : Polled} {events : List ProcessId} (hready : t.Ready events) :
    (t.watched.filter (· ∉ events)).length + events.length ≤ t.watched.length := by
  obtain ⟨hnodup, -, hover, -⟩ := hready
  have hsub : events.Subperm (t.watched.filter (· ∈ events)) := by
    apply List.subperm_of_subset hnodup
    intro pid hpid
    simp [hpid, (hover pid hpid).1]
  have hsplit := List.length_eq_length_filter_add (l := t.watched) (decide <| · ∈ events)
  have hlen := hsub.length_le
  simp only [← decide_not] at hsplit
  omega

/-- A drain is over when `epoll_wait` has answered once for each full batch of children, and once
more. -/
theorem Polled.drain_ends {t : Polled} {exited : List ProcessId}
    (hdrained : t.drained = some exited)
    {calls : List PollCall} (henough : t.watched.length / batchSize < t.answers calls) :
    t.reports.length < (t.run calls).reports.length := by
  induction calls generalizing t exited with
  | nil => simp [answers] at henough
  | cons call calls ih =>
    by_cases hcall : ∃ events, call = .wait events
    · obtain ⟨events, rfl⟩ := hcall
      rw [answers] at henough
      by_cases hready : t.Ready events
      · rw [if_pos hready] at henough
        by_cases hlast : events.length < batchSize
        · have hover : (t.step (.wait events)).reports = t.reports ++ [exited ++ events] := by
            simp [step, hdrained, hready, hlast]
          have hlater := ((t.step (.wait events)).reports_run calls).length_le
          rw [hover, List.length_append, List.length_singleton] at hlater
          exact hlater
        · have hsame : (t.step (.wait events)).reports = t.reports := by
            simp [step, hdrained, hready, hlast]
          have hnow : (t.step (.wait events)).drained = some (exited ++ events) := by
            simp [step, hdrained, hready, hlast]
          have hleft : (t.step (.wait events)).watched = t.watched.filter (· ∉ events) := by
            simp [step, hdrained, hready]
          rw [← hsame]
          apply ih hnow
          have hfewer := watched_wait hready
          rw [hleft]
          unfold batchSize at hlast henough ⊢
          omega
      · have hsame : t.step (.wait events) = t := by simp [step, hdrained, hready]
        rw [if_neg hready, hsame, Nat.zero_add] at henough
        rw [run, List.foldl_cons, hsame]
        exact ih hdrained henough
    · have hother : ∀ events, call ≠ .wait events := fun events heq => hcall ⟨events, heq⟩
      obtain ⟨hsame, hkeep⟩ := t.step_other hother
      obtain ⟨hnow, hwatched⟩ := hkeep (by simp [hdrained])
      rw [← hsame]
      apply ih (hnow.trans hdrained)
      rw [hwatched]
      cases call with
      | wait events => exact absurd rfl (hother events)
      | _ => exact henough

/-- Since a drain began in `s`: it is under way, or its report is in. -/
def Polled.Drained (s t : Polled) : Prop :=
  (∃ exited, t.drained = some exited ∧ t.reports = s.reports ∧
    Finding s.children t.children s.watched exited t.watched) ∨
  ∃ exited, t.reports[s.reports.length]? = some exited ∧ Found s.children s.watched exited

theorem Polled.drained_step {s t : Polled} (h : Drained s t) (call : PollCall) :
    Drained s (t.step call) := by
  rcases h with ⟨exited, hdrained, hreports, hfinding⟩ | ⟨exited, hreport, hfound⟩
  · cases call with
    | fork pid =>
      left
      rw [step]
      split
      · rename_i hnew
        refine ⟨exited, hdrained, hreports, hfinding.change fun p hp hnow => ?_⟩
        have hne : p ≠ pid := by
          rintro rfl
          exact hnew.2 hp
        simpa [hne] using hnow
      · exact ⟨exited, hdrained, hreports, hfinding⟩
    | exit pid | reap pid =>
      left
      rw [step]
      split
      · refine ⟨exited, hdrained, hreports, hfinding.change fun p hp hnow => ?_⟩
        dsimp only
        rw [Function.update_apply]
        split
        · simp
        · exact hnow
      · exact ⟨exited, hdrained, hreports, hfinding⟩
    | watch pid | unwatch pid | drain =>
      left
      simp only [step, hdrained, reduceCtorEq, if_false]
      exact ⟨exited, rfl, hreports, hfinding⟩
    | wait events =>
      rw [step, hdrained]
      dsimp only
      split
      · rename_i hready
        obtain ⟨hnodup, -, hover, hall⟩ := hready
        have hlook : Finding s.children t.children s.watched (exited ++ events)
            (t.watched.filter (· ∉ events)) := by
          refine hfinding.look hnodup (fun p hp => (hover p hp).1) (by simp)
            ?_ fun p hp hpnot _ => ?_
          · intro p hp hin
            simp [hp] at hin
          · simp [hp, hpnot]
        by_cases hlast : events.length < batchSize
        · right
          refine ⟨exited ++ events, by simp [hlast, hreports], hlook.found fun p hp => ?_⟩
          -- a batch that is not full has all that are over
          simp only [List.mem_filter, decide_eq_true_eq] at hp
          by_contra hpover
          exact hp.2 (hall hlast p hp.1 hpover)
        · left
          exact ⟨exited ++ events, by simp [hlast], by simp [hlast, hreports], hlook⟩
      · exact .inl ⟨exited, hdrained, hreports, hfinding⟩
  · right
    obtain ⟨later, hlater⟩ := t.reports_step call
    refine ⟨exited, ?_, hfound⟩
    rw [← hlater, List.getElem?_append_left (List.getElem?_eq_some_iff.mp hreport).1]
    exact hreport

theorem Polled.drained_run {s t : Polled} (h : Drained s t) (calls : List PollCall) :
    Drained s (t.run calls) := by
  induction calls generalizing t with
  | nil => exact h
  | cons call calls ih => exact ih (drained_step h call)

/-- At any time children were reported when they were over, once for each watch, the drains returned
those reported, and the one under way has the last of them. `epoll_wait` always has an answer, and a
drain that it answered once for each full batch, and once more, returns every child that was watched
and over when it began, each once, and no other that was not watched. -/
theorem Polled.a_poll_finds_every_exit (before after : List PollCall) :
    let s := ({} : Polled).run before
    Trace.Lawful Allowed s.log ∧ returned s.log = s.reports.flatten ++ s.drained.getD [] ∧
    s.Ready s.batch ∧
    (s.drained = none → s.watched.length / batchSize < (s.step .drain).answers after →
      ∃ exited, (s.run (.drain :: after)).reports[s.reports.length]? = some exited ∧
        Found s.children s.watched exited) := by
  intro s
  have hlogged : Logged s.children s.watched s.log := logged_run (s := {}) logged_start before
  refine ⟨hlogged.lawful, returns_run (s := {}) rfl before, ready_batch hlogged.nodup, ?_⟩
  intro hfree henough
  have hdrained : (s.step .drain).drained = some [] := by rw [step, if_pos hfree]
  have hwatched : (s.step .drain).watched = s.watched := by rw [step, if_pos hfree]
  have hsame : (s.step .drain).reports = s.reports := (step_other (by simp)).1
  have hbegun : Drained s (s.step .drain) := by
    refine .inl ⟨[], hdrained, hsame, List.nodup_nil, by simp, by simp, by simp [hwatched], ?_⟩
    intro pid hpid hover
    refine .inr ⟨hwatched ▸ hpid, ?_⟩
    rw [step, if_pos hfree]
    exact hover
  rcases drained_run hbegun after with ⟨found, -, hnone, -⟩ | hover
  · -- it was answered often enough, so its report cannot be missing
    rw [← hwatched] at henough
    have hends := drain_ends hdrained henough
    rw [hnone, hsame] at hends
    exact absurd hends (Nat.lt_irrefl _)
  · exact hover

/-- Of the two children that are watched one has ended, and the other ends while the drain is under
way. -/
theorem Polled.a_poll_finds_a_child :
    let s := ({} : Polled).run [.fork 7, .watch 7, .fork 8, .watch 8, .exit 7]
    ∃ exited, (s.run [.drain, .exit 8, .wait [7, 8]]).reports[s.reports.length]? = some exited ∧
      Found s.children s.watched exited :=
  (Polled.a_poll_finds_every_exit [.fork 7, .watch 7, .fork 8, .watch 8, .exit 7]
    [.exit 8, .wait [7, 8]]).2.2.2 (by decide) (by decide)

end psx.os
