-- The reactor: a single-threaded event loop over handles, children, signals and
-- timers. What the operating system answers is an input, and so is the clock. The
-- handlers are one function: what they call, given everything that happened so far.
import Mathlib.Data.List.Sort
import PipeShellX.Result

namespace psx.os

/-- A handle's readiness: the bits of the C++ enumeration. -/
abbrev Readiness := UInt8

/-- What a process goes by. -/
abbrev ProcessId := Int

/-- Portable signals. -/
inductive Signal
  | Interrupt
  | Terminate
  | Hangup
  | WindowResize
  deriving DecidableEq, Repr

end psx.os

namespace psx.runtime

open psx.os (Readiness ProcessId Signal)

/-- What a watched descriptor goes by. -/
abbrev Token := Nat

/-- What a timer goes by. -/
abbrev TimerId := Nat

/-- A point of the steady clock, in nanoseconds. -/
abbrev TimePoint := Int

/-- The nanoseconds of a millisecond. -/
def nanosPerMilli : Int := 1000000

/-- A timer in the queue. -/
structure TimerEntry where
  deadline : TimePoint
  id : TimerId
  deriving DecidableEq, Repr

/-- `operator>`: the later deadline, then the larger id. -/
def TimerEntry.gt (a b : TimerEntry) : Bool :=
  a.deadline > b.deadline || (a.deadline = b.deadline && a.id > b.id)

/-- The fields of the reactor. A map from a key to a handler is the list of its keys, and
the priority queue is a list with its top first. -/
structure Reactor where
  /-- Options named signals, so that there is a signal source. -/
  signals : Bool := false
  io : List Token := []
  timers : List TimerId := []
  timerQueue : List TimerEntry := []
  childHandlers : List ProcessId := []
  signalHandler : Bool := false
  childToken : Token := 0
  signalToken : Token := 0
  nextToken : Token := 1
  nextTimer : TimerId := 1
  deriving DecidableEq, Repr

namespace Reactor

/-- The source of child exits takes the first token, a signal source the second. -/
def create (signals : Bool) : Reactor :=
  if signals then { signals, childToken := 1, signalToken := 2, nextToken := 3 }
  else { signals, childToken := 1, nextToken := 2 }

/-! ## Registration -/

/-- The handle is made non-blocking and then added to the poller; the token of a
registration that the poller refused is not used again. -/
def watch (r : Reactor) (nonBlocking added : Result Unit) : Reactor × Result Token :=
  match nonBlocking with
  | .error e => (r, .error e)
  | .ok () =>
    match added with
    | .error e => ({ r with nextToken := r.nextToken + 1 }, .error e)
    | .ok () =>
      ({ r with nextToken := r.nextToken + 1, io := r.io ++ [r.nextToken] }, .ok r.nextToken)

/-- A descriptor is watched for something else. -/
def modify (r : Reactor) (token : Token) (modified : Result Unit) : Reactor × Result Unit :=
  if token ∉ r.io then (r, .error ⟨.NotFound, 0, "reactor.modify"⟩) else (r, modified)

/-- A descriptor is not watched any more. -/
def unwatch (r : Reactor) (token : Token) (removed : Result Unit) : Reactor × Result Unit :=
  if token ∉ r.io then (r, .error ⟨.NotFound, 0, "reactor.unwatch"⟩)
  else ({ r with io := r.io.filter (· ≠ token) }, removed)

/-- `delay` is in milliseconds, and a negative one is none. -/
def after (r : Reactor) (now : TimePoint) (delay : Int) : Reactor × TimerId :=
  let id := r.nextTimer
  let deadline := now + max delay 0 * nanosPerMilli
  ({ r with
      nextTimer := id + 1
      timers := r.timers ++ [id]
      timerQueue := r.timerQueue.orderedInsert (fun a b => ¬ a.gt b) ⟨deadline, id⟩ }, id)

/-- The queue entry is skipped lazily. -/
def cancel (r : Reactor) (timer : TimerId) : Reactor × Bool :=
  ({ r with timers := r.timers.filter (· ≠ timer) }, timer ∈ r.timers)

/-- A child is watched. -/
def watchChild (r : Reactor) (pid : ProcessId) (watched : Result Unit) : Reactor × Result Unit :=
  if pid ∈ r.childHandlers then (r, .error ⟨.InvalidArgument, 0, "reactor.watchChild"⟩)
  else
    match watched with
    | .error e => (r, .error e)
    | .ok () => ({ r with childHandlers := r.childHandlers ++ [pid] }, .ok ())

/-- A child is not watched any more. -/
def unwatchChild (r : Reactor) (pid : ProcessId) (unwatched : Result Unit) :
    Reactor × Result Unit :=
  if pid ∉ r.childHandlers then (r, .error ⟨.NotFound, 0, "reactor.unwatchChild"⟩)
  else ({ r with childHandlers := r.childHandlers.filter (· ≠ pid) }, unwatched)

/-- Signals have a handler. -/
def onSignal (r : Reactor) : Reactor × Result Unit :=
  if r.signals = false then (r, .error ⟨.Unsupported, 0, "reactor.onSignal"⟩)
  else ({ r with signalHandler := true }, .ok ())

/-! ## The wait -/

/-- Cancelled timers leave the head of the queue, so that they do not shorten the wait. -/
def dropCancelled (r : Reactor) : Reactor :=
  { r with timerQueue := r.timerQueue.dropWhile fun entry => entry.id ∉ r.timers }

/-- The milliseconds from `now` to `deadline`, rounded up; none when it has passed. -/
def untilDeadline (deadline now : TimePoint) : Int :=
  if deadline ≤ now then 0 else (deadline - now + (nanosPerMilli - 1)) / nanosPerMilli

/-- How long the next wait may last: until the first timer at most. -/
def waitBudget (r : Reactor) (timeout : Option Int) (now : TimePoint) : Reactor × Option Int :=
  let r := r.dropCancelled
  match r.timerQueue with
  | [] => (r, timeout)
  | top :: _ =>
    match timeout with
    | none => (r, some (untilDeadline top.deadline now))
    | some budget => (r, some (min budget (untilDeadline top.deadline now)))

@[simp] theorem waitBudget_fst (r : Reactor) (timeout : Option Int) (now : TimePoint) :
    (r.waitBudget timeout now).1 = r.dropCancelled := by
  simp only [waitBudget]
  cases r.dropCancelled.timerQueue with
  | nil => rfl
  | cons top queue => cases timeout <;> rfl

/-! ## Due timers -/

/-- The timers that are due leave the queue; those that still have a handler give it up. -/
def collectDue (now : TimePoint) (timers : List TimerId) :
    List TimerEntry → List TimerId × List TimerEntry × List TimerId
  | [] => (timers, [], [])
  | top :: queue =>
    if top.deadline ≤ now then
      if top.id ∈ timers then
        let (timers, queue, due) := collectDue now (timers.filter (· ≠ top.id)) queue
        (timers, queue, top.id :: due)
      else collectDue now timers queue
    else (timers, top :: queue, [])

theorem mem_of_collectDue {now : TimePoint} {timers : List TimerId} {queue : List TimerEntry}
    {id : TimerId} (h : id ∈ (collectDue now timers queue).2.2) : id ∈ timers := by
  induction queue generalizing timers with
  | nil => simp [collectDue] at h
  | cons top queue ih =>
    unfold collectDue at h
    split at h
    · split at h
      · rename_i htop
        rcases List.mem_cons.mp h with rfl | h
        · exact htop
        · exact List.mem_of_mem_filter (ih h)
      · exact ih h
    · simp at h

/-- The handlers that are left are those that were not collected. -/
theorem mem_left_collectDue {now : TimePoint} {timers : List TimerId} {queue : List TimerEntry}
    {id : TimerId} (h : id ∈ (collectDue now timers queue).1) :
    id ∈ timers ∧ id ∉ (collectDue now timers queue).2.2 := by
  induction queue generalizing timers with
  | nil => simpa [collectDue] using h
  | cons top queue ih =>
    unfold collectDue at h ⊢
    split at h
    · split at h
      · rename_i hdue htop
        obtain ⟨hid, hout⟩ := ih h
        obtain ⟨hid, hne⟩ : id ∈ timers ∧ id ≠ top.id := by simpa using hid
        simp only [hdue, htop, if_true, List.mem_cons, not_or]
        exact ⟨hid, hne, hout⟩
      · rename_i hdue htop
        simp only [hdue, htop, if_true, if_false]
        exact ih h
    · rename_i hdue
      simp only [hdue, if_false]
      exact ⟨h, List.not_mem_nil⟩

theorem collectDue_nodup (now : TimePoint) (timers : List TimerId) (queue : List TimerEntry) :
    (collectDue now timers queue).2.2.Nodup := by
  induction queue generalizing timers with
  | nil => exact List.nodup_nil
  | cons top queue ih =>
    unfold collectDue
    split
    · split
      · refine List.nodup_cons.mpr ⟨?_, ih _⟩
        intro h
        simpa using mem_of_collectDue h
      · exact ih _
    · exact List.nodup_nil

end Reactor

/-! ## What happens -/

/-- A call into the reactor, with the answers of the operating system that it needs. -/
inductive Action
  | watch (nonBlocking added : Result Unit)
  | modify (token : Token) (modified : Result Unit)
  | unwatch (token : Token) (removed : Result Unit)
  | after (now : TimePoint) (delay : Int)
  | cancel (timer : TimerId)
  | watchChild (pid : ProcessId) (watched : Result Unit)
  | unwatchChild (pid : ProcessId) (unwatched : Result Unit)
  | onSignal
  deriving DecidableEq

/-- A call and its answer, a wait with its budget, or the run of a handler. -/
inductive Event
  | watch (answer : Result Token)
  | modify (token : Token) (answer : Result Unit)
  | unwatch (token : Token) (answer : Result Unit)
  | after (id : TimerId) (now : TimePoint) (delay : Int)
  | cancel (timer : TimerId) (answer : Bool)
  | watchChild (pid : ProcessId) (answer : Result Unit)
  | unwatchChild (pid : ProcessId) (answer : Result Unit)
  | onSignal (answer : Result Unit)
  | wait (budget : Option Int)
  | runIo (token : Token) (readiness : Readiness)
  | runChild (pid : ProcessId)
  | runSignal (signal : Signal)
  | runTimer (timer : TimerId)
  deriving DecidableEq

/-- One call of a handler or of the caller. -/
def Reactor.perform (r : Reactor) : Action → Reactor × Event
  | .watch nonBlocking added =>
    ((r.watch nonBlocking added).1, .watch (r.watch nonBlocking added).2)
  | .modify token modified =>
    ((r.modify token modified).1, .modify token (r.modify token modified).2)
  | .unwatch token removed =>
    ((r.unwatch token removed).1, .unwatch token (r.unwatch token removed).2)
  | .after now delay => ((r.after now delay).1, .after (r.after now delay).2 now delay)
  | .cancel timer => ((r.cancel timer).1, .cancel timer (r.cancel timer).2)
  | .watchChild pid watched =>
    ((r.watchChild pid watched).1, .watchChild pid (r.watchChild pid watched).2)
  | .unwatchChild pid unwatched =>
    ((r.unwatchChild pid unwatched).1, .unwatchChild pid (r.unwatchChild pid unwatched).2)
  | .onSignal => (r.onSignal.1, .onSignal r.onSignal.2)

/-- The reactor, and everything that happened to it. -/
structure World where
  reactor : Reactor
  log : List Event := []

/-- What the handlers call: the log ends with the handler that runs. -/
abbrev Handlers := List Event → List Action

namespace World

def note (w : World) (e : Event) : World := { w with log := w.log ++ [e] }

def act (w : World) (a : Action) : World :=
  { reactor := (w.reactor.perform a).1, log := w.log ++ [(w.reactor.perform a).2] }

def acts (w : World) (as : List Action) : World := as.foldl act w

@[simp] theorem acts_nil (w : World) : w.acts [] = w := rfl

@[simp] theorem acts_cons (w : World) (a : Action) (as : List Action) :
    w.acts (a :: as) = (w.act a).acts as := rfl

/-- A handler runs, and calls what it calls. -/
def invoke (b : Handlers) (w : World) (e : Event) : World :=
  (w.note e).acts (b (w.log ++ [e]))

/-! ## One round -/

/-- A child's handler is forgotten before it runs. -/
def dispatchChild (b : Handlers) (w : World) (pid : ProcessId) : World :=
  if pid ∈ w.reactor.childHandlers then
    { w with
      reactor.childHandlers := w.reactor.childHandlers.filter (· ≠ pid) }.invoke b (.runChild pid)
  else w

/-- The handlers of the children that have exited are called. -/
def dispatchChildren (b : Handlers) (w : World) (exited : Result (List ProcessId)) : World :=
  match exited with
  | .error _ => w
  | .ok exited => exited.foldl (dispatchChild b) w

/-- The handler of signals is called. -/
def dispatchSignal (b : Handlers) (w : World) (signal : Signal) : World :=
  if w.reactor.signalHandler then w.invoke b (.runSignal signal) else w

/-- The handler of signals is called for each of them. -/
def dispatchSignals (b : Handlers) (w : World) (received : Result (List Signal)) : World :=
  match received with
  | .error _ => w
  | .ok received => received.foldl (dispatchSignal b) w

/-- An event of the poller, with what the source drains if it is the one that is ready. -/
structure PollEvent where
  token : Token
  readiness : Readiness
  exited : Result (List ProcessId)
  received : Result (List Signal)

/-- The handler of an event is called. -/
def dispatch (b : Handlers) (w : World) (event : PollEvent) : World :=
  if event.token = w.reactor.childToken then w.dispatchChildren b event.exited
  else if w.reactor.signals ∧ event.token = w.reactor.signalToken then
    w.dispatchSignals b event.received
  else if event.token ∈ w.reactor.io then w.invoke b (.runIo event.token event.readiness)
  else w

/-- The timers whose handlers a round has collected. -/
def due (w : World) (now : TimePoint) : List TimerId :=
  (Reactor.collectDue now w.reactor.timers w.reactor.timerQueue).2.2

/-- The reactor once they are collected. -/
def collect (w : World) (now : TimePoint) : World :=
  let (timers, timerQueue, _) := Reactor.collectDue now w.reactor.timers w.reactor.timerQueue
  { w with reactor := { w.reactor with timers, timerQueue } }

/-- The handlers of the timers that are due are called. -/
def fire (b : Handlers) (due : List TimerId) (w : World) : World :=
  due.foldl (fun w id => w.invoke b (.runTimer id)) w

@[simp] theorem fire_nil (b : Handlers) (w : World) : w.fire b [] = w := rfl

@[simp] theorem fire_cons (b : Handlers) (id : TimerId) (due : List TimerId) (w : World) :
    w.fire b (id :: due) = (w.invoke b (.runTimer id)).fire b due := rfl

/-- The handlers of all due timers are collected, and then run. -/
def fireDueTimers (b : Handlers) (w : World) (now : TimePoint) : World :=
  (w.collect now).fire b (w.due now)

/-- The clock readings of a round, its timeout, and what the poller found. -/
structure Round where
  timeout : Option Int
  waitAt : TimePoint
  ready : Result (List PollEvent)
  fireAt : TimePoint

/-- The reactor waits. -/
def poll (w : World) (round : Round) : World :=
  let (reactor, budget) := w.reactor.waitBudget round.timeout round.waitAt
  { w with reactor }.note (.wait budget)

/-- One round: the reactor waits, calls the handlers of what is ready, and then those of the
timers. -/
def runOnce (b : Handlers) (w : World) (round : Round) : World × Result Unit :=
  match round.ready with
  | .error e => (w.poll round, .error e)
  | .ok ready => (((ready.foldl (dispatch b) (w.poll round))).fireDueTimers b round.fireAt, .ok ())

/-! ## Runs -/

/-- The owner calls the reactor, or has it run a round. -/
inductive Input
  | act (a : Action)
  | round (round : Round)

def step (b : Handlers) (w : World) : Input → World
  | .act a => w.act a
  | .round round => (w.runOnce b round).1

def run (b : Handlers) (w : World) (inputs : List Input) : World := inputs.foldl (step b) w

/-- A reactor at its creation. -/
def create (signals : Bool) : World := { reactor := Reactor.create signals }

end World

end psx.runtime
