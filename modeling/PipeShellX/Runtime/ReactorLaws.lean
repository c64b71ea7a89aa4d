-- When a handler of the reactor may run: while its registration stands. A removed
-- handle or child is never dispatched. A cancelled timer is not run either, unless the
-- round that cancels it has already collected it.
import PipeShellX.Trace
import PipeShellX.Runtime.Reactor

namespace psx.runtime

open Trace (Lawful Since)
open psx.os (ProcessId)

/-! ## Registrations -/

/-- `watch` gave the token, and no `unwatch` of it answered ok since. -/
def Watched (token : Token) (log : List Event) : Prop :=
  Since (· = .watch (.ok token)) (· = .unwatch token (.ok ())) log

/-- `watchChild` took the child; since then its handler did not run, and no `unwatchChild` of
it answered ok. -/
def ChildWatched (pid : ProcessId) (log : List Event) : Prop :=
  Since (· = .watchChild pid (.ok ()))
    (fun e => e = .unwatchChild pid (.ok ()) ∨ e = .runChild pid) log

/-- The event that gives a timer its id. -/
def Event.Adds (id : TimerId) (e : Event) : Prop := ∃ now delay, e = .after id now delay

/-- `after` gave the id; since then the handler did not run, and nobody called `cancel`. -/
def TimerStands (id : TimerId) (log : List Event) : Prop :=
  Since (Event.Adds id) (fun e => (∃ answer, e = .cancel id answer) ∨ e = .runTimer id) log

/-- A handler runs only while its registration stands. -/
def Allowed (log : List Event) : Event → Prop
  | .runIo token _ => Watched token log
  | .runChild pid => ChildWatched pid log
  | .runTimer id => TimerStands id log
  | _ => True

/-- What the reactor holds is registered, and timer ids are not given twice. -/
structure Inv (r : Reactor) (log : List Event) : Prop where
  io : ∀ token ∈ r.io, Watched token log
  children : ∀ pid ∈ r.childHandlers, ChildWatched pid log
  timers : ∀ id ∈ r.timers, TimerStands id log
  fresh : ∀ id ∈ r.timers, id < r.nextTimer

/-! ## One call -/

/-- What a call does to the maps of handlers, and what it answers. -/
inductive Call (r : Reactor) : Reactor → Event → Prop
  | watched : Call r { r with nextToken := r.nextToken + 1, io := r.io ++ [r.nextToken] }
      (.watch (.ok r.nextToken))
  | notWatched (nextToken : Token) (e : Error) : Call r { r with nextToken } (.watch (.error e))
  | modified (token : Token) (answer : Result Unit) : Call r r (.modify token answer)
  | unwatched (token : Token) (answer : Result Unit) :
      Call r { r with io := r.io.filter (· ≠ token) } (.unwatch token answer)
  | notUnwatched (token : Token) (e : Error) : Call r r (.unwatch token (.error e))
  | added (timerQueue : List TimerEntry) (now : TimePoint) (delay : Int) :
      Call r
        { r with nextTimer := r.nextTimer + 1, timers := r.timers ++ [r.nextTimer], timerQueue }
        (.after r.nextTimer now delay)
  | cancelled (timer : TimerId) (answer : Bool) :
      Call r { r with timers := r.timers.filter (· ≠ timer) } (.cancel timer answer)
  | childWatched (pid : ProcessId) :
      Call r { r with childHandlers := r.childHandlers ++ [pid] } (.watchChild pid (.ok ()))
  | childNotWatched (pid : ProcessId) (e : Error) : Call r r (.watchChild pid (.error e))
  | childUnwatched (pid : ProcessId) (answer : Result Unit) :
      Call r { r with childHandlers := r.childHandlers.filter (· ≠ pid) }
        (.unwatchChild pid answer)
  | childNotUnwatched (pid : ProcessId) (e : Error) : Call r r (.unwatchChild pid (.error e))
  | signalTaken (signalHandler : Bool) (answer : Result Unit) :
      Call r { r with signalHandler } (.onSignal answer)

theorem perform_call (r : Reactor) (a : Action) : Call r (r.perform a).1 (r.perform a).2 := by
  cases a with
  | watch nonBlocking added =>
    unfold Reactor.perform Reactor.watch
    cases nonBlocking with
    | error e => exact .notWatched r.nextToken e
    | ok _ =>
      cases added with
      | error e => exact .notWatched _ e
      | ok _ => exact .watched
  | modify token modified =>
    by_cases h : token ∈ r.io
    · simpa [Reactor.perform, Reactor.modify, h] using Call.modified token modified
    · simpa [Reactor.perform, Reactor.modify, h] using Call.modified token _
  | unwatch token removed =>
    by_cases h : token ∈ r.io
    · simpa [Reactor.perform, Reactor.unwatch, h] using Call.unwatched token removed
    · simpa [Reactor.perform, Reactor.unwatch, h] using Call.notUnwatched token _
  | after now delay => exact .added _ now delay
  | cancel timer => exact .cancelled timer _
  | watchChild pid watched =>
    by_cases h : pid ∈ r.childHandlers
    · simpa [Reactor.perform, Reactor.watchChild, h] using Call.childNotWatched pid _
    · cases watched with
      | error e => simpa [Reactor.perform, Reactor.watchChild, h] using Call.childNotWatched pid e
      | ok _ => simpa [Reactor.perform, Reactor.watchChild, h] using Call.childWatched pid
  | unwatchChild pid unwatched =>
    by_cases h : pid ∈ r.childHandlers
    · simpa [Reactor.perform, Reactor.unwatchChild, h] using Call.childUnwatched pid unwatched
    · simpa [Reactor.perform, Reactor.unwatchChild, h] using Call.childNotUnwatched pid _
  | onSignal =>
    cases h : r.signals with
    | false =>
      simpa [Reactor.perform, Reactor.onSignal, h] using Call.signalTaken r.signalHandler _
    | true =>
      have hset : r.perform .onSignal = ({ r with signalHandler := true }, .onSignal (.ok ())) := by
        simp [Reactor.perform, Reactor.onSignal, h]
      rw [hset]
      exact .signalTaken true (.ok ())

namespace Call

variable {r r' : Reactor} {e : Event} {log : List Event}

/-- A call is not the run of a handler. -/
theorem allowed (h : Call r r' e) : Allowed log e := by
  cases h <;> trivial

theorem nextTimer (h : Call r r' e) : r.nextTimer ≤ r'.nextTimer := by
  cases h <;> simp

theorem io (h : Call r r' e) (hlog : ∀ token ∈ r.io, Watched token log) :
    ∀ token ∈ r'.io, Watched token (log ++ [e]) := by
  intro token ht
  cases h with
  | watched =>
    rcases List.mem_append.mp ht with ht | ht
    · exact (hlog token ht).keep (by simp)
    · rw [List.mem_singleton.mp ht]
      exact Since.start log rfl
  | unwatched other answer =>
    obtain ⟨ht, hne⟩ : token ∈ r.io ∧ token ≠ other := by simpa using ht
    exact (hlog token ht).keep (by simp [Ne.symm hne])
  | _ => exact (hlog token ht).keep (by simp)

theorem children (h : Call r r' e) (hlog : ∀ pid ∈ r.childHandlers, ChildWatched pid log) :
    ∀ pid ∈ r'.childHandlers, ChildWatched pid (log ++ [e]) := by
  intro pid hp
  cases h with
  | childWatched other =>
    rcases List.mem_append.mp hp with hp | hp
    · exact (hlog pid hp).keep (by simp)
    · rw [List.mem_singleton.mp hp]
      exact Since.start log rfl
  | childUnwatched other answer =>
    obtain ⟨hp, hne⟩ : pid ∈ r.childHandlers ∧ pid ≠ other := by simpa using hp
    exact (hlog pid hp).keep (by simp [Ne.symm hne])
  | _ => exact (hlog pid hp).keep (by simp)

theorem timers (h : Call r r' e) (hlog : ∀ id ∈ r.timers, TimerStands id log) :
    ∀ id ∈ r'.timers, TimerStands id (log ++ [e]) := by
  intro id hid
  cases h with
  | added timerQueue now delay =>
    rcases List.mem_append.mp hid with hid | hid
    · exact (hlog id hid).keep (by simp)
    · rw [List.mem_singleton.mp hid]
      exact Since.start log ⟨now, delay, rfl⟩
  | cancelled other answer =>
    obtain ⟨hid, hne⟩ : id ∈ r.timers ∧ id ≠ other := by simpa using hid
    exact (hlog id hid).keep (by simp [Ne.symm hne])
  | _ => exact (hlog id hid).keep (by simp)

theorem fresh (h : Call r r' e) (hr : ∀ id ∈ r.timers, id < r.nextTimer) :
    ∀ id ∈ r'.timers, id < r'.nextTimer := by
  intro id hid
  cases h with
  | added timerQueue now delay =>
    rcases List.mem_append.mp hid with hid | hid
    · exact Nat.lt_succ_of_lt (hr id hid)
    · rw [List.mem_singleton.mp hid]
      exact Nat.lt_succ_self _
  | cancelled other answer => exact hr id (List.mem_of_mem_filter hid)
  | _ => exact hr id hid

theorem inv (h : Call r r' e) (hinv : Inv r log) : Inv r' (log ++ [e]) :=
  ⟨h.io hinv.io, h.children hinv.children, h.timers hinv.timers, h.fresh hinv.fresh⟩

/-- A timer that is not in the map, under an id that was given, does not come back. -/
theorem absent (h : Call r r' e) {id : TimerId} (hid : id < r.nextTimer)
    (hout : id ∉ r.timers) : id ∉ r'.timers := by
  cases h with
  | added timerQueue now delay => simp [hout, Nat.ne_of_lt hid]
  | cancelled other answer => simp [hout]
  | _ => exact hout

/-- An id that was given is not given again. -/
theorem not_added (h : Call r r' e) {id : TimerId} (hid : id < r.nextTimer) :
    ¬ e.Adds id := by
  rintro ⟨now, delay, rfl⟩
  cases h
  exact Nat.lt_irrefl _ hid

end Call

/-! ## One handler -/

/-- Nothing is taken back: the later log goes on where the earlier one ends. -/
def World.Grows (w w' : World) : Prop := ∃ log, w'.log = w.log ++ log

namespace World.Grows

theorem refl (w : World) : w.Grows w := ⟨[], by simp⟩

theorem trans {w w' w'' : World} (h : w.Grows w') (h' : w'.Grows w'') : w.Grows w'' := by
  obtain ⟨log, hlog⟩ := h
  obtain ⟨log', hlog'⟩ := h'
  exact ⟨log ++ log', by rw [hlog', hlog, List.append_assoc]⟩

theorem foldl {α : Type} {f : World → α → World} (hf : ∀ w x, World.Grows w (f w x)) (w : World)
    (xs : List α) : w.Grows (xs.foldl f w) := by
  induction xs generalizing w with
  | nil => exact refl w
  | cons x xs ih => exact (hf w x).trans (ih (f w x))

theorem note (w : World) (e : Event) : w.Grows (w.note e) := ⟨[e], rfl⟩

theorem acts (w : World) (as : List Action) : w.Grows (w.acts as) :=
  foldl (fun w a => ⟨[(w.reactor.perform a).2], rfl⟩) w as

theorem invoke (b : Handlers) (w : World) (e : Event) : w.Grows (w.invoke b e) :=
  (note w e).trans (acts _ _)

theorem lawful {w w' : World} (h : w.Grows w') (hlaw : Lawful Allowed w'.log) :
    Lawful Allowed w.log := by
  obtain ⟨log, hlog⟩ := h
  rw [hlog] at hlaw
  exact hlaw.of_append

end World.Grows

/-- The reactor is in order, and so far no handler ran without its registration. -/
structure Sound (w : World) : Prop where
  inv : Inv w.reactor w.log
  lawful : Lawful Allowed w.log

namespace World

theorem act_sound {w : World} (a : Action) (h : Sound w) : Sound (w.act a) := by
  have hcall := perform_call w.reactor a
  exact ⟨hcall.inv h.inv, h.lawful.snoc hcall.allowed⟩

theorem acts_sound {w : World} (as : List Action) (h : Sound w) : Sound (w.acts as) := by
  induction as generalizing w with
  | nil => exact h
  | cons a as ih => exact ih (act_sound a h)

/-- A handler may run when it is allowed and what the reactor holds survives the note. -/
theorem invoke_sound {b : Handlers} {w : World} {e : Event} (h : Lawful Allowed w.log)
    (he : Allowed w.log e) (hinv : Inv w.reactor (w.log ++ [e])) : Sound (w.invoke b e) :=
  acts_sound _ ⟨hinv, h.snoc he⟩

end World

/-- An event that is not the end of a registration that the reactor holds. -/
theorem Inv.keep {r : Reactor} {log : List Event} {e : Event} (h : Inv r log)
    (hio : ∀ token ∈ r.io, e ≠ .unwatch token (.ok ()))
    (hchildren : ∀ pid ∈ r.childHandlers, e ≠ .unwatchChild pid (.ok ()) ∧ e ≠ .runChild pid)
    (htimers : ∀ id ∈ r.timers, (∀ answer, e ≠ .cancel id answer) ∧ e ≠ .runTimer id) :
    Inv r (log ++ [e]) where
  io token ht := (h.io token ht).keep (hio token ht)
  children pid hp := (h.children pid hp).keep (by simpa [not_or] using hchildren pid hp)
  timers id hid := (h.timers id hid).keep (by simpa [not_or] using htimers id hid)
  fresh := h.fresh

/-! ## The dispatch of one round -/

namespace World

theorem poll_sound {w : World} (round : Round) (h : Sound w) : Sound (w.poll round) := by
  have hinv : Inv w.reactor.dropCancelled w.log :=
    ⟨h.inv.io, h.inv.children, h.inv.timers, h.inv.fresh⟩
  refine ⟨?_, h.lawful.snoc trivial⟩
  simp only [poll, note, Reactor.waitBudget_fst]
  exact hinv.keep (by simp) (by simp) (by simp)

variable {b : Handlers} {w : World}

theorem dispatchChild_sound (pid : ProcessId) (h : Sound w) : Sound (w.dispatchChild b pid) := by
  unfold dispatchChild
  split
  · rename_i hp
    have hinv : Inv { w.reactor with
        childHandlers := w.reactor.childHandlers.filter (· ≠ pid) } w.log :=
      ⟨h.inv.io, fun p hp => h.inv.children p (List.mem_of_mem_filter hp), h.inv.timers,
        h.inv.fresh⟩
    refine invoke_sound h.lawful (h.inv.children pid hp) (hinv.keep (by simp) ?_ (by simp))
    intro other hother
    obtain ⟨-, hne⟩ : other ∈ w.reactor.childHandlers ∧ other ≠ pid := by simpa using hother
    exact ⟨by simp, by simp [Ne.symm hne]⟩
  · exact h

theorem dispatchSignal_sound (signal : os.Signal) (h : Sound w) :
    Sound (w.dispatchSignal b signal) := by
  unfold dispatchSignal
  split
  · exact invoke_sound h.lawful trivial (h.inv.keep (by simp) (by simp) (by simp))
  · exact h

/-- What one turn keeps, a loop keeps. -/
theorem foldl_keeps {p : World → Prop} {α : Type} {f : World → α → World}
    (hf : ∀ w x, p w → p (f w x)) (xs : List α) (h : p w) : p (xs.foldl f w) :=
  List.foldlRecOn xs f h fun w hw x _ => hf w x hw

/-- What the handlers keep, an event keeps: those of the children and signals that its source
drains, and the one of its token if there is one. -/
theorem dispatch_keeps {p : World → Prop} (hchild : ∀ w pid, p w → p (w.dispatchChild b pid))
    (hsignal : ∀ w signal, p w → p (w.dispatchSignal b signal))
    (hio : ∀ token readiness, token ∈ w.reactor.io → p w → p (w.invoke b (.runIo token readiness)))
    (event : PollEvent) (h : p w) : p (w.dispatch b event) := by
  unfold dispatch dispatchChildren dispatchSignals
  split_ifs with _ _ htoken
  · split
    · exact h
    · exact foldl_keeps hchild _ h
  · split
    · exact h
    · exact foldl_keeps hsignal _ h
  · exact hio _ _ htoken h
  · exact h

theorem dispatch_sound (event : PollEvent) (h : Sound w) : Sound (w.dispatch b event) := by
  refine dispatch_keeps (fun _ => dispatchChild_sound) (fun _ => dispatchSignal_sound) ?_ event h
  intro token readiness htoken h
  exact invoke_sound h.lawful (h.inv.io _ htoken) (h.inv.keep (by simp) (by simp) (by simp))

/-! ## Timers that are due -/

/-- Timers that a round has collected: they are in the map no more, and their ids will not
be given again. -/
structure Batch (due : List TimerId) (r : Reactor) : Prop where
  nodup : due.Nodup
  absent : ∀ id ∈ due, id ∉ r.timers
  given : ∀ id ∈ due, id < r.nextTimer

theorem Batch.tail {id : TimerId} {due : List TimerId} {r : Reactor} (h : Batch (id :: due) r) :
    Batch due r :=
  ⟨h.nodup.of_cons, fun i hi => h.absent i (by simp [hi]), fun i hi => h.given i (by simp [hi])⟩

theorem acts_batch {due : List TimerId} (as : List Action) (h : Batch due w.reactor) :
    Batch due (w.acts as).reactor := by
  induction as generalizing w with
  | nil => exact h
  | cons a as ih =>
    have hcall := perform_call w.reactor a
    apply ih
    exact ⟨h.nodup, fun id hid => hcall.absent (h.given id hid) (h.absent id hid),
      fun id hid => Nat.lt_of_lt_of_le (h.given id hid) hcall.nextTimer⟩

/-- Among the calls of a handler, only its cancel ends a timer that was there before. -/
theorem acts_stands {id : TimerId} (as : List Action) (hid : id < w.reactor.nextTimer) :
    TimerStands id (w.acts as).log ↔ TimerStands id w.log ∧ .cancel id ∉ as := by
  induction as generalizing w with
  | nil => simp [acts]
  | cons a as ih =>
    have hcall := perform_call w.reactor a
    have hrest := ih (w := w.act a) (Nat.lt_of_lt_of_le hid hcall.nextTimer)
    have hone : TimerStands id (w.act a).log ↔ TimerStands id w.log ∧ a ≠ .cancel id := by
      unfold TimerStands act
      rw [Trace.since_snoc (hcall.not_added hid)]
      cases a <;> simp [Reactor.perform]
    rw [acts_cons, hrest, hone, List.mem_cons, not_or, and_assoc, ne_comm]

theorem invoke_stands {id other : TimerId} (hid : id < w.reactor.nextTimer) (hne : id ≠ other) :
    TimerStands id (w.invoke b (.runTimer other)).log ↔
      TimerStands id w.log ∧ .cancel id ∉ b (w.log ++ [.runTimer other]) := by
  have hnote : TimerStands id (w.note (.runTimer other)).log ↔ TimerStands id w.log := by
    unfold TimerStands note
    rw [Trace.since_snoc (by simp [Event.Adds])]
    simp [Ne.symm hne]
  exact (acts_stands (w := w.note (.runTimer other)) _ hid).trans (and_congr_left' hnote)

/-- While the collected timers run, no handler among them cancels one that is still to run. -/
def NoLateCancel (b : Handlers) : List TimerId → World → Prop
  | [], _ => True
  | id :: due, w =>
    (∀ later ∈ due, .cancel later ∉ b (w.log ++ [.runTimer id])) ∧
      NoLateCancel b due (w.invoke b (.runTimer id))

theorem fire_sound {due : List TimerId} (h : Sound w) (hdue : Batch due w.reactor)
    (hstand : ∀ id ∈ due, TimerStands id w.log) (hclean : NoLateCancel b due w) :
    Sound (w.fire b due) := by
  induction due generalizing w with
  | nil => exact h
  | cons id due ih =>
    obtain ⟨hcancel, hclean⟩ := hclean
    have hinv : Inv w.reactor (w.log ++ [.runTimer id]) := by
      refine h.inv.keep (by simp) (by simp) ?_
      intro other hother
      refine ⟨by simp, ?_⟩
      rintro heq
      cases heq
      exact hdue.absent id (by simp) hother
    have hrun : Sound (w.invoke b (.runTimer id)) :=
      invoke_sound h.lawful (hstand id (by simp)) hinv
    refine ih hrun (acts_batch _ hdue.tail) ?_ hclean
    intro later hlater
    have hne : later ≠ id := by
      rintro rfl
      exact (List.nodup_cons.mp hdue.nodup).1 hlater
    rw [invoke_stands (hdue.given later (by simp [hlater])) hne]
    exact ⟨hstand later (by simp [hlater]), hcancel later hlater⟩

/-- All collected timers run, so lawfully only when they all stand. -/
theorem stands_of_fire {due : List TimerId} (hdue : Batch due w.reactor)
    (h : Lawful Allowed (w.fire b due).log) : ∀ id ∈ due, TimerStands id w.log := by
  induction due generalizing w with
  | nil => simp
  | cons id due ih =>
    have hrest := ih (w := w.invoke b (.runTimer id)) (acts_batch _ hdue.tail) h
    intro other hother
    rcases List.mem_cons.mp hother with rfl | hlater
    · have hrun : (w.note (.runTimer other)).Grows (w.fire b (other :: due)) :=
        (Grows.acts _ _).trans (Grows.foldl (fun w id => Grows.invoke b w _) _ due)
      exact (hrun.lawful h).last
    · have hne : other ≠ id := by
        rintro rfl
        exact (List.nodup_cons.mp hdue.nodup).1 hlater
      exact ((invoke_stands (hdue.given other hother) hne).mp (hrest other hlater)).1

theorem clean_of_fire {due : List TimerId} (hdue : Batch due w.reactor)
    (h : Lawful Allowed (w.fire b due).log) : NoLateCancel b due w := by
  induction due generalizing w with
  | nil => trivial
  | cons id due ih =>
    have hbatch := acts_batch (w := w.note (.runTimer id)) (b (w.log ++ [.runTimer id])) hdue.tail
    refine ⟨?_, ih hbatch h⟩
    intro later hlater
    have hne : later ≠ id := by
      rintro rfl
      exact (List.nodup_cons.mp hdue.nodup).1 hlater
    have hstand := stands_of_fire hbatch h later hlater
    exact ((invoke_stands (hdue.given later (by simp [hlater])) hne).mp hstand).2

/-! ## Rounds and runs -/

theorem collect_batch (now : TimePoint) (h : Sound w) :
    Batch (w.due now) (w.collect now).reactor where
  nodup := Reactor.collectDue_nodup _ _ _
  absent := fun _ hid hleft => (Reactor.mem_left_collectDue hleft).2 hid
  given := fun id hid => h.inv.fresh id (Reactor.mem_of_collectDue hid)

theorem collect_sound (now : TimePoint) (h : Sound w) : Sound (w.collect now) where
  inv :=
    { io := h.inv.io
      children := h.inv.children
      timers := fun id hid => h.inv.timers id (Reactor.mem_left_collectDue hid).1
      fresh := fun id hid => h.inv.fresh id (Reactor.mem_left_collectDue hid).1 }
  lawful := h.lawful

/-- What a round has dispatched before its timers. -/
def dispatched (b : Handlers) (w : World) (round : Round) (ready : List PollEvent) : World :=
  ready.foldl (dispatch b) (w.poll round)

/-- In a round of the step, no handler of a due timer cancels another timer that the same
round has collected and not run yet. -/
def CleanStep (b : Handlers) (w : World) : Input → Prop
  | .act _ => True
  | .round round =>
    match round.ready with
    | .error _ => True
    | .ok ready =>
      NoLateCancel b ((w.dispatched b round ready).due round.fireAt)
        ((w.dispatched b round ready).collect round.fireAt)

/-- Every step of a run is clean. -/
def Clean (b : Handlers) : List Input → World → Prop
  | [], _ => True
  | input :: inputs, w => w.CleanStep b input ∧ Clean b inputs (w.step b input)

theorem dispatched_sound (round : Round) (ready : List PollEvent) (h : Sound w) :
    Sound (w.dispatched b round ready) :=
  foldl_keeps (fun _ event => dispatch_sound event) ready (poll_sound round h)

section

variable {round : Round} {ready : List PollEvent}

theorem step_failed {e : Error} (h : round.ready = .error e) :
    w.step b (.round round) = w.poll round := by
  simp [step, runOnce, h]

theorem step_round (h : round.ready = .ok ready) :
    w.step b (.round round) = (w.dispatched b round ready).fireDueTimers b round.fireAt := by
  simp [step, runOnce, h, dispatched]

theorem cleanStep_round (h : round.ready = .ok ready) :
    w.CleanStep b (.round round) ↔
      NoLateCancel b ((w.dispatched b round ready).due round.fireAt)
        ((w.dispatched b round ready).collect round.fireAt) := by
  simp [CleanStep, h]

end

theorem step_sound (input : Input) (h : Sound w) (hclean : w.CleanStep b input) :
    Sound (w.step b input) := by
  cases input with
  | act a => exact act_sound a h
  | round round =>
    cases hready : round.ready with
    | error e =>
      rw [step_failed hready]
      exact poll_sound round h
    | ok ready =>
      rw [cleanStep_round hready] at hclean
      rw [step_round hready]
      have hsound := dispatched_sound (b := b) round ready h
      apply fire_sound (collect_sound _ hsound) (collect_batch _ hsound) ?_ hclean
      intro id hid
      exact hsound.inv.timers id (Reactor.mem_of_collectDue hid)

theorem clean_of_step (input : Input) (h : Sound w) (hlaw : Lawful Allowed (w.step b input).log) :
    w.CleanStep b input := by
  cases input with
  | act a => trivial
  | round round =>
    cases hready : round.ready with
    | error e => simp [CleanStep, hready]
    | ok ready =>
      rw [step_round hready] at hlaw
      rw [cleanStep_round hready]
      exact clean_of_fire (collect_batch _ (dispatched_sound round ready h)) hlaw

theorem dispatchChild_grows (b : Handlers) (w : World) (pid : ProcessId) :
    w.Grows (w.dispatchChild b pid) := by
  unfold dispatchChild
  split_ifs
  · exact Grows.invoke b _ _
  · exact Grows.refl w

theorem dispatchSignal_grows (b : Handlers) (w : World) (signal : os.Signal) :
    w.Grows (w.dispatchSignal b signal) := by
  unfold dispatchSignal
  split_ifs
  · exact Grows.invoke b _ _
  · exact Grows.refl w

theorem dispatch_grows (b : Handlers) (w : World) (event : PollEvent) :
    w.Grows (w.dispatch b event) :=
  dispatch_keeps (fun w' pid h => h.trans (dispatchChild_grows b w' pid))
    (fun w' signal h => h.trans (dispatchSignal_grows b w' signal))
    (fun _ _ _ _ => Grows.invoke b w _) event (Grows.refl w)

theorem step_grows (b : Handlers) (w : World) (input : Input) : w.Grows (w.step b input) := by
  cases input with
  | act a => exact Grows.acts w [a]
  | round round =>
    have hpoll : w.Grows (w.poll round) := ⟨_, rfl⟩
    cases hready : round.ready with
    | error e =>
      rw [step_failed hready]
      exact hpoll
    | ok ready =>
      rw [step_round hready]
      have hdispatched : w.Grows (w.dispatched b round ready) :=
        hpoll.trans (Grows.foldl (dispatch_grows b) _ ready)
      exact hdispatched.trans (Grows.foldl (fun w id => Grows.invoke b w _) _ _)

theorem run_lawful_iff (inputs : List Input) (h : Sound w) :
    Lawful Allowed (w.run b inputs).log ↔ Clean b inputs w := by
  induction inputs generalizing w with
  | nil => exact iff_of_true h.lawful trivial
  | cons input inputs ih =>
    constructor
    · intro hlaw
      have hrest : (w.step b input).Grows ((w.step b input).run b inputs) :=
        Grows.foldl (step_grows b) _ inputs
      have hclean := clean_of_step input h (hrest.lawful hlaw)
      exact ⟨hclean, (ih (step_sound input h hclean)).mp hlaw⟩
    · rintro ⟨hclean, hrest⟩
      exact (ih (step_sound input h hclean)).mpr hrest

theorem create_sound (signals : Bool) : Sound (create signals) := by
  refine ⟨?_, Lawful.nil⟩
  cases signals <;> exact ⟨by simp [create, Reactor.create], by simp [create, Reactor.create],
    by simp [create, Reactor.create], by simp [create, Reactor.create]⟩

end World

/-- Whatever the handlers do, they run only while they are registered, but for one case: a
due timer that an earlier due timer of its round cancels is run all the same. -/
theorem handlers_run_while_registered (signals : Bool) (b : Handlers) (inputs : List World.Input) :
    Lawful Allowed ((World.create signals).run b inputs).log ↔
      World.Clean b inputs (World.create signals) :=
  World.run_lawful_iff inputs (World.create_sound signals)

/-- The handler of timer 1 cancels timer 2. -/
def cancelTheOther : Handlers := fun log =>
  if log.getLast? = some (.runTimer 1) then [.cancel 2] else []

/-- Two timers without delay, and one round. -/
def twoDue : List World.Input :=
  [.act (.after 0 0), .act (.after 0 0), .round ⟨none, 0, .ok [], 0⟩]

theorem a_cancelled_timer_runs :
    ((World.create false).run cancelTheOther twoDue).log =
        [.after 1 0 0, .after 2 0 0, .wait (some 0), .runTimer 1, .cancel 2 false, .runTimer 2] ∧
      ¬ Lawful Allowed ((World.create false).run cancelTheOther twoDue).log := by
  have hlog : ((World.create false).run cancelTheOther twoDue).log =
      [.after 1 0 0, .after 2 0 0, .wait (some 0), .runTimer 1, .cancel 2 false, .runTimer 2] := by
    decide
  refine ⟨hlog, ?_⟩
  rw [hlog]
  intro h
  have hstands : TimerStands 2 ([.after 1 0 0, .after 2 0 0, .wait (some 0), .runTimer 1] ++
      [.cancel 2 false]) := h _ (.runTimer 2) [] rfl
  exact ((Trace.since_snoc (by simp [Event.Adds])).mp hstands).2 (.inl ⟨false, rfl⟩)

end psx.runtime
