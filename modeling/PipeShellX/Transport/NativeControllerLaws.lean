-- The counters of the native controller agree with its connections, whichever
-- connection ends and however: an exit, a failure, a cancel, or fail-fast in between.
import PipeShellX.Counts
import PipeShellX.Trace
import PipeShellX.Transport.NativeController

namespace psx.transport.NativeController

open Trace (Lawful Since)

/-! ## What may happen when -/

namespace Event

/-- A connection is started. -/
def isLaunch : Event → Bool
  | .launch _ => true
  | _ => false

/-- A connection is taken down. -/
def isRetired : Event → Bool
  | .retired _ => true
  | _ => false

/-- The results are handed over. -/
def isComplete : Event → Bool
  | .complete _ => true
  | _ => false

/-- A run is started. -/
def IsStart (e : Event) : Prop :=
  ∃ targets options onComplete, e = .start targets options onComplete

end Event

/-- How many targets may run at once. -/
def limitOf (targets : List Target) (options : Options) : Nat :=
  if options.concurrency = 0 then targets.length else options.concurrency

/-- The run was cancelled after its start. -/
def Cancelled (log : List Event) : Prop := Since (· = .cancel) Event.IsStart log

/-- Targets are launched in their order while a slot is free, the run is not cancelled, and,
under fail-fast, none has failed. The results are complete when every target is done and
every launched one retired. -/
def Allowed (log : List Event) : Event → Prop
  | .start .. => ∀ e ∈ log, ¬ e.IsStart
  | .launch index =>
    ∃ targets options onComplete, .start targets options onComplete ∈ log ∧
      index = log.countP Event.isLaunch ∧ index < targets.length ∧
      index < log.countP Event.isRetired + limitOf targets options ∧
      ¬ Cancelled log ∧
      (options.failFast → ∀ i result, .done i result ∈ log → result.failed = false)
  | .done index _ => ∀ result, .done index result ∉ log
  | .complete results =>
    ∃ targets options onComplete, .start targets options onComplete ∈ log ∧
      results.map (·.host) = targets.map (·.host) ∧
      (∀ i (h : i < results.length), .done i results[i] ∈ log) ∧
      log.countP Event.isLaunch = log.countP Event.isRetired ∧
      ∀ earlier, .complete earlier ∉ log
  | _ => True

/-! ## Connections that end -/

section

variable {c : NativeController} {index : Nat}

theorem conn_modify (f : Conn → Conn) (h : index < c.conns.length) (i : Nat) :
    (c.modify index f).conn i = if i = index then f (c.conn i) else c.conn i :=
  Counts.getD_modify f c.conns index i {} h

theorem conn_modify_self (f : Conn → Conn) (h : index < c.conns.length) :
    (c.modify index f).conn index = f (c.conn index) := by
  simp [conn_modify f h]

/-- An index past the end names a connection that nothing has happened to. -/
theorem conn_outside (h : c.conns.length ≤ index) : c.conn index = {} := by
  simp [conn, List.getD_eq_getElem?_getD, List.getElem?_eq_none h]

theorem conn_mem (h : index < c.conns.length) : c.conn index ∈ c.conns := by
  unfold conn
  rw [List.getD_eq_getElem _ _ h]
  exact List.getElem_mem h

theorem lt_of_active (h : (c.conn index).active) : index < c.conns.length := by
  by_contra hout
  rw [conn_outside (by omega)] at h
  simp at h

end

/-- What the end of a connection does to it. -/
structure Ends (f : Conn → Conn) : Prop where
  done : ∀ conn, (f conn).done = true
  active : ∀ conn, (f conn).active = conn.active
  wired : ∀ conn, (f conn).transport = conn.transport
  host : ∀ conn, (f conn).result.host = conn.result.host

theorem ends_exited (status : os.ExitStatus) : Ends (Conn.finished ∘ Conn.exited status) :=
  ⟨fun _ => rfl, fun _ => rfl, fun _ => rfl, fun _ => rfl⟩

theorem ends_failed (message : String) (kind : CancelKind) :
    Ends (Conn.finished ∘ Conn.failed message kind) :=
  ⟨fun _ => rfl, fun _ => rfl, fun _ => rfl, fun _ => rfl⟩

/-- A connection is done, and counted so. Its timer is not yet armed. -/
def ended (c : NativeController) (index : Nat) (f : Conn → Conn) : NativeController :=
  { c with
    conns := c.conns.modify index f
    remaining := c.remaining - 1
    log := c.log ++ [.done index (f (c.conn index)).result] }

/-- A connection that was launched is retired by a timer. -/
def arm (c : NativeController) (index : Nat) : NativeController :=
  if (c.conn index).active then { c with retireTimers := c.retireTimers ++ [index] } else c

section

variable (c : NativeController) (index : Nat)

@[simp] theorem arm_log : (arm c index).log = c.log := by
  unfold arm
  split <;> rfl

@[simp] theorem arm_options : (arm c index).options = c.options := by
  unfold arm
  split <;> rfl

@[simp] theorem arm_remaining : (arm c index).remaining = c.remaining := by
  unfold arm
  split <;> rfl

@[simp] theorem arm_cancelling : (arm c index).cancelling = c.cancelling := by
  unfold arm
  split <;> rfl

end

theorem completeIfReady_running {c : NativeController} (h : 0 < c.active) :
    c.completeIfReady = c := by
  have : c.active ≠ 0 := by omega
  simp [completeIfReady, this]

/-! ## The state of a run -/

/-- The counters agree with the connections. `owed` are the connections that are done but
whose timers are still to be armed. -/
structure Slots (owed : List Nat) (c : NativeController) : Prop where
  active : c.active = c.conns.countP (·.active)
  remaining : c.remaining = c.conns.countP (!·.done)
  bound : c.active ≤ c.limit
  next : c.nextToStart ≤ c.conns.length
  ahead : ∀ i, c.nextToStart ≤ i → (c.conn i).active = false ∧ ((c.conn i).done → c.cancelling)
  launched : ∀ i < c.nextToStart, (c.conn i).active ∨ (c.conn i).done
  wired : ∀ i, (c.conn i).transport → (c.conn i).active
  timers : ∀ i, i ∈ c.retireTimers ++ owed ↔ (c.conn i).active ∧ (c.conn i).done
  nodup : (c.retireTimers ++ owed).Nodup

/-- The log of a run that is not complete agrees with its state. -/
structure Told (targets : List Target) (options : Options) (onComplete : Bool)
    (c : NativeController) : Prop where
  started : c.started
  running : c.completed = false
  handler : c.onComplete = onComplete
  opts : c.options = options
  hosts : c.conns.map (·.result.host) = targets.map (·.host)
  begun : .start targets options onComplete ∈ c.log
  lawful : Lawful Allowed c.log
  launches : c.log.countP Event.isLaunch = c.nextToStart
  retired : c.log.countP Event.isRetired + c.active = c.nextToStart
  results : ∀ i < c.conns.length, (c.conn i).done → .done i (c.conn i).result ∈ c.log
  pending : ∀ i, (c.conn i).done = false → ∀ result, .done i result ∉ c.log
  cancels : Cancelled c.log → c.cancelling
  quiet : ∀ results, .complete results ∉ c.log

theorem Told.length {targets : List Target} {options : Options} {onComplete : Bool}
    {c : NativeController} (h : Told targets options onComplete c) :
    c.conns.length = targets.length := by
  simpa using congrArg List.length h.hosts

theorem Told.none_complete {targets : List Target} {options : Options} {onComplete : Bool}
    {c : NativeController} (h : Told targets options onComplete c) :
    c.log.countP Event.isComplete = 0 := by
  rw [List.countP_eq_zero]
  intro e he
  cases e with
  | complete results => exact absurd he (h.quiet results)
  | _ => simp [Event.isComplete]

/-- What the end of connections leaves alone. -/
structure Steady (c c' : NativeController) : Prop where
  active : c'.active = c.active
  next : c'.nextToStart = c.nextToStart
  filling : c'.filling = c.filling
  length : c'.conns.length = c.conns.length
  actives : ∀ i, (c'.conn i).active = (c.conn i).active
  dones : ∀ i, (c.conn i).done → (c'.conn i).done
  cancelling : c.cancelling → c'.cancelling

theorem Steady.refl (c : NativeController) : Steady c c :=
  ⟨rfl, rfl, rfl, rfl, fun _ => rfl, fun _ h => h, fun h => h⟩

theorem Steady.trans {a b c : NativeController} (h : Steady a b) (h' : Steady b c) :
    Steady a c where
  active := h'.active.trans h.active
  next := h'.next.trans h.next
  filling := h'.filling.trans h.filling
  length := h'.length.trans h.length
  actives i := (h'.actives i).trans (h.actives i)
  dones i hi := h'.dones i (h.dones i hi)
  cancelling hc := h'.cancelling (h.cancelling hc)

/-! ## One connection ends -/

section

variable {c : NativeController} {index : Nat} {f : Conn → Conn} {owed : List Nat}

theorem ended_conn (h : index < c.conns.length) (i : Nat) :
    (ended c index f).conn i = if i = index then f (c.conn i) else c.conn i :=
  conn_modify f h i

theorem ended_steady (hf : Ends f) (h : index < c.conns.length) : Steady c (ended c index f) where
  active := rfl
  next := rfl
  filling := rfl
  length := by simp [ended]
  actives i := by
    rw [ended_conn h]
    split
    · exact hf.active _
    · rfl
  dones i hi := by
    rw [ended_conn h]
    split
    · exact hf.done _
    · exact hi
  cancelling hc := hc

/-- The connections that are owed a timer once one more has ended. -/
def owes (c : NativeController) (index : Nat) (owed : List Nat) : List Nat :=
  if (c.conn index).active then index :: owed else owed

theorem ended_slots (hf : Ends f) (h : Slots owed c) (hi : index < c.conns.length)
    (hopen : (c.conn index).done = false) (hlive : (c.conn index).active ∨ c.cancelling) :
    Slots (owes c index owed) (ended c index f) := by
  have hsteady := ended_steady hf hi (c := c)
  have hnot : index ∉ c.retireTimers ++ owed := by
    intro hmem
    have := ((h.timers index).mp hmem).2
    simp [hopen] at this
  refine ⟨?_, ?_, ?_, ?_, ?_, ?_, ?_, ?_, ?_⟩
  · have hcount := Counts.countP_modify (·.active) f ({} : Conn) hi
    simp only [hf.active] at hcount
    have := h.active
    simp only [ended]
    omega
  · have hcount := Counts.countP_modify (!·.done) f ({} : Conn) hi
    have hdone : (c.conns.getD index {}).done = false := hopen
    simp only [hf.done, hdone, Bool.not_true, Bool.not_false, Bool.toNat_true,
      Bool.toNat_false] at hcount
    have := h.remaining
    simp only [ended]
    omega
  · simpa [ended, limit] using h.bound
  · simpa [ended] using h.next
  · intro i hnext
    obtain ⟨hactive, hdone⟩ := h.ahead i hnext
    refine ⟨(hsteady.actives i).trans hactive, ?_⟩
    rw [ended_conn hi]
    split
    · rename_i heq
      subst heq
      intro _
      exact hlive.resolve_left (by simp [hactive])
    · exact hdone
  · intro i hnext
    rcases h.launched i hnext with hactive | hdone
    · exact .inl ((hsteady.actives i).trans hactive)
    · exact .inr (hsteady.dones i hdone)
  · intro i hwired
    rw [hsteady.actives i]
    apply h.wired
    rw [ended_conn hi] at hwired
    split at hwired
    · rwa [hf.wired] at hwired
    · exact hwired
  · intro i
    rw [hsteady.actives i, ended_conn hi]
    by_cases heq : i = index
    · subst heq
      simp only [if_true, hf.done, and_true]
      cases hactive : (c.conn i).active with
      | false =>
        have hout : i ∉ c.retireTimers ++ owed := hnot
        simpa [owes, hactive, ended] using hout
      | true => simp [owes, hactive, ended]
    · rw [if_neg heq, ← h.timers i]
      unfold owes
      split <;> simp [ended, heq]
  · unfold owes
    split
    · have hmove : (c.retireTimers ++ index :: owed).Perm (index :: (c.retireTimers ++ owed)) :=
        List.perm_middle
      exact hmove.nodup_iff.mpr (List.nodup_cons.mpr ⟨hnot, h.nodup⟩)
    · exact h.nodup

theorem arm_steady (c : NativeController) (index : Nat) : Steady c (arm c index) := by
  unfold arm
  split
  · exact ⟨rfl, rfl, rfl, rfl, fun _ => rfl, fun _ hi => hi, fun hc => hc⟩
  · exact .refl c

theorem owes_steady {c' : NativeController} (h : Steady c c') (index : Nat) (owed : List Nat) :
    owes c' index owed = owes c index owed := by
  unfold owes
  rw [h.actives index]

theorem arm_slots (h : Slots (owes c index owed) c) : Slots owed (arm c index) := by
  unfold owes at h
  unfold arm
  split at h
  · rename_i hactive
    rw [if_pos hactive]
    refine ⟨h.active, h.remaining, h.bound, h.next, h.ahead, h.launched, h.wired, ?_, ?_⟩
    · intro i
      refine Iff.trans ?_ (h.timers i)
      simp
    · simpa using h.nodup
  · rename_i hidle
    rw [if_neg hidle]
    exact h

end

section

variable {targets : List Target} {options : Options} {onComplete : Bool}
  {c : NativeController} {index : Nat} {f : Conn → Conn} {owed : List Nat}

theorem ended_told (hf : Ends f) (h : Told targets options onComplete c)
    (hi : index < c.conns.length) (hopen : (c.conn index).done = false) :
    Told targets options onComplete (ended c index f) := by
  have hconn := ended_conn (f := f) hi
  refine ⟨h.started, h.running, h.handler, h.opts, ?_, ?_, ?_, ?_, ?_, ?_, ?_, ?_, ?_⟩
  · rw [← h.hosts]
    apply List.ext_getElem
    · simp [ended]
    · intro i hlen hlen'
      simp only [ended, List.getElem_map, List.getElem_modify]
      split
      · exact hf.host _
      · rfl
  · simp [ended, h.begun]
  · exact h.lawful.snoc (h.pending index hopen)
  · simpa [ended, Event.isLaunch] using h.launches
  · simpa [ended, Event.isRetired] using h.retired
  · intro i hlen hdone
    rw [hconn] at hdone ⊢
    split at hdone
    · rename_i heq
      subst heq
      simp [ended]
    · rename_i hne
      have := h.results i (by simpa [ended] using hlen) hdone
      rw [if_neg hne]
      simp [ended, this]
  · intro i hdone result
    rw [hconn] at hdone
    split at hdone
    · rw [hf.done] at hdone
      simp at hdone
    · rename_i hne
      simp [ended, h.pending i hdone result, hne]
  · intro hcancelled
    rcases Since.of_snoc hcancelled with ⟨hbefore, -⟩ | hnow
    · exact h.cancels hbefore
    · simp at hnow
  · intro results
    simpa [ended] using h.quiet results

theorem arm_told (h : Told targets options onComplete c) :
    Told targets options onComplete (arm c index) := by
  unfold arm
  split
  · exact { h with }
  · exact h

/-- What `finish` does to a connection that is not done, after the change `f` that leads to
it: the nested cancel of fail-fast comes before the timer is armed. -/
theorem finishWith_open (cancel : NativeController → NativeController)
    (hi : index < c.conns.length) (hopen : (f (c.conn index)).done = false) :
    finishWith (onConnDoneWith cancel) (c.modify index f) index =
      (arm
        (if c.options.failFast ∧ ¬ c.cancelling ∧
            ((Conn.finished ∘ f) (c.conn index)).result.failed then
          cancel (ended c index (Conn.finished ∘ f))
        else ended c index (Conn.finished ∘ f)) index).completeIfReady := by
  have hself := conn_modify_self f hi
  have hstate : (((c.modify index f).modify index Conn.finished).note
        (.done index (((c.modify index f).modify index Conn.finished).conn index).result)) =
      { ended c index (Conn.finished ∘ f) with remaining := c.remaining } := by
    have hself' : ((c.modify index f).modify index Conn.finished).conn index =
        Conn.finished ((c.modify index f).conn index) :=
      conn_modify_self Conn.finished (by simpa [modify] using hi)
    rw [hself', hself]
    simp [ended, modify, note, List.modify_modify_eq]
  have hresult : (ended c index (Conn.finished ∘ f)).conn index =
      (Conn.finished ∘ f) (c.conn index) := by simp [ended_conn hi]
  have hdone : onConnDoneWith cancel
        { ended c index (Conn.finished ∘ f) with remaining := c.remaining } index =
      (arm
        (if c.options.failFast ∧ ¬ c.cancelling ∧
            ((ended c index (Conn.finished ∘ f)).conn index).result.failed then
          cancel (ended c index (Conn.finished ∘ f))
        else ended c index (Conn.finished ∘ f)) index).completeIfReady := rfl
  unfold finishWith
  rw [hself, if_neg (by simp [hopen]), ← hresult, ← hdone, ← hstate]

/-- The counters and the log of a run that is not complete agree with its connections. -/
structure Running (targets : List Target) (options : Options) (onComplete : Bool)
    (owed : List Nat) (c : NativeController) : Prop where
  slots : Slots owed c
  told : Told targets options onComplete c

/-- Fail-fast has cancelled what it must, and a cancelled run has no target left to wait for. -/
structure Guarded (c : NativeController) : Prop where
  failFast : c.options.failFast → c.cancelling = false →
    ∀ i result, .done i result ∈ c.log → result.failed = false
  stopped : c.cancelling → c.remaining = 0

theorem Running.active_pos (h : Running targets options onComplete owed c)
    (hactive : (c.conn index).active) : 0 < c.active := by
  rw [h.slots.active, List.countP_pos_iff]
  exact ⟨c.conn index, conn_mem (lt_of_active hactive), hactive⟩

/-- Nothing is left to wait for exactly when every connection is done. -/
theorem Running.remaining_zero (h : Running targets options onComplete owed c) :
    c.remaining = 0 ↔ ∀ i < c.conns.length, (c.conn i).done := by
  have hcount := Counts.countP_eq_zero_iff_getD (p := fun conn => !conn.done) (l := c.conns) {}
  rw [h.slots.remaining, hcount]
  simp [conn]

theorem Running.ended (h : Running targets options onComplete owed c) (hf : Ends f)
    (hi : index < c.conns.length) (hopen : (c.conn index).done = false)
    (hlive : (c.conn index).active ∨ c.cancelling) :
    Running targets options onComplete (owes c index owed) (ended c index f) :=
  ⟨ended_slots hf h.slots hi hopen hlive, ended_told hf h.told hi hopen⟩

theorem Running.arm (h : Running targets options onComplete (owes c index owed) c) :
    Running targets options onComplete owed (arm c index) :=
  ⟨arm_slots h.slots, arm_told h.told⟩

/-! ## The cancellation of a run -/

/-- While the run is being cancelled, a connection is failed without further ado. -/
theorem failWith_cancelling (message : String) (kind : CancelKind)
    (hcancel : c.cancelling) (hactive : 0 < c.active) (hi : index < c.conns.length)
    (hopen : (c.conn index).done = false) :
    failWith (onConnDoneWith id) c index message kind =
      arm (ended c index (Conn.finished ∘ Conn.failed message kind)) index := by
  have hend := finishWith_open (f := Conn.failed message kind) id hi hopen
  rw [if_neg (by simp [hcancel])] at hend
  unfold failWith
  rw [if_neg (by simp [hopen]), hend]
  apply completeIfReady_running
  rw [(arm_steady _ index).active]
  exact hactive

/-- The loop of `cancel` ends the connections it passes over. -/
theorem cancelLoop_running (reason : String) (kind : CancelKind) (indices : List Nat)
    (h : Running targets options onComplete owed c) (hcancel : c.cancelling)
    (hactive : 0 < c.active) (hin : ∀ i ∈ indices, i < c.conns.length) :
    let c' := indices.foldl (fun c i =>
      if (c.conn i).done then c else failWith (onConnDoneWith id) c i reason kind) c
    Running targets options onComplete owed c' ∧ Steady c c' ∧ ∀ i ∈ indices, (c'.conn i).done := by
  induction indices generalizing c with
  | nil => exact ⟨h, .refl c, by simp⟩
  | cons i indices ih =>
    have hi := hin i (by simp)
    rw [List.foldl_cons]
    cases hopen : (c.conn i).done with
    | true =>
      obtain ⟨hrun, hsteady, hdone⟩ := ih h hcancel hactive fun j hj => hin j (by simp [hj])
      refine ⟨hrun, hsteady, ?_⟩
      intro j hj
      rcases List.mem_cons.mp hj with rfl | hj
      · exact hsteady.dones j hopen
      · exact hdone j hj
    | false =>
      rw [if_neg (by simp), failWith_cancelling reason kind hcancel hactive hi hopen]
      have hends := ends_failed reason kind
      have hstep := (ended_steady (c := c) hends hi).trans (arm_steady _ i)
      have howe := owes_steady (ended_steady (c := c) hends hi) i owed
      have hnext := h.ended hends hi hopen (.inr hcancel)
      rw [← howe] at hnext
      obtain ⟨hrun, hsteady, hdone⟩ := ih hnext.arm (hstep.cancelling hcancel)
        (by rw [hstep.active]; exact hactive)
        (fun j hj => by rw [hstep.length]; exact hin j (by simp [hj]))
      refine ⟨hrun, hstep.trans hsteady, ?_⟩
      intro j hj
      rcases List.mem_cons.mp hj with rfl | hj
      · apply hsteady.dones
        apply (arm_steady _ j).dones
        rw [ended_conn hi, if_pos rfl]
        exact hends.done _
      · exact hdone j hj

/-- A cancel of a run with an active connection ends every connection, and leaves the run
to the retire timers. -/
theorem cancel_running (reason : String) (kind : CancelKind)
    (h : Running targets options onComplete owed c) (hactive : 0 < c.active) :
    Running targets options onComplete owed (c.cancel reason kind) ∧
      Steady c (c.cancel reason kind) ∧ (c.cancel reason kind).cancelling ∧
      (c.cancel reason kind).remaining = 0 := by
  have hbegin : Running targets options onComplete owed
      ({ c with cancelling := true }.note .cancel) := by
    refine ⟨{ h.slots with ahead := fun i hi => ⟨(h.slots.ahead i hi).1, fun _ => rfl⟩ }, ?_⟩
    refine { h.told with
      begun := ?_, lawful := h.told.lawful.snoc trivial, launches := ?_, retired := ?_,
      results := ?_, pending := ?_, cancels := fun _ => rfl, quiet := ?_ }
    · simp [note, h.told.begun]
    · simpa [note, Event.isLaunch] using h.told.launches
    · simpa [note, Event.isRetired] using h.told.retired
    · intro i hi hdone
      exact List.mem_append_left _ (h.told.results i hi hdone)
    · intro i hdone result
      simpa [note] using h.told.pending i hdone result
    · intro results
      simpa [note] using h.told.quiet results
  obtain ⟨hrun, hsteady, hdone⟩ := cancelLoop_running reason (kindOf reason kind)
    (List.range c.conns.length) hbegin rfl hactive (by simp [note])
  have hall : c.cancel reason kind = (List.range c.conns.length).foldl (fun c i =>
      if (c.conn i).done then c else failWith (onConnDoneWith id) c i reason (kindOf reason kind))
      ({ c with cancelling := true }.note .cancel) := by
    unfold cancel cancelWith
    rw [if_neg (by simp [h.told.running])]
    exact completeIfReady_running (Nat.lt_of_lt_of_eq hactive hsteady.active.symm)
  rw [hall]
  refine ⟨hrun, ?_, hsteady.cancelling rfl, ?_⟩
  · exact ⟨hsteady.active, hsteady.next, hsteady.filling, hsteady.length, hsteady.actives,
      hsteady.dones, fun _ => hsteady.cancelling rfl⟩
  · rw [hrun.remaining_zero]
    intro i hi
    apply hdone
    rw [hsteady.length] at hi
    simpa [note] using hi

/-! ## Live connections -/

/-- A run between two calls of its callbacks. -/
structure Live (targets : List Target) (options : Options) (onComplete : Bool)
    (c : NativeController) : Prop where
  running : Running targets options onComplete [] c
  guarded : Guarded c

theorem Live.cancel (reason : String) (kind : CancelKind)
    (h : Live targets options onComplete c) (hactive : 0 < c.active) :
    Live targets options onComplete (c.cancel reason kind) ∧ Steady c (c.cancel reason kind) := by
  obtain ⟨hrun, hsteady, hcancel, hzero⟩ := cancel_running reason kind h.running hactive
  exact ⟨⟨hrun, ⟨fun _ hnot => absurd hcancel (by simp [hnot]), fun _ => hzero⟩⟩, hsteady⟩

/-- A connection that is not done keeps the run from having stopped. -/
theorem Live.not_cancelling (h : Live targets options onComplete c) (hi : index < c.conns.length)
    (hopen : (c.conn index).done = false) : c.cancelling = false := by
  by_contra hcancel
  have hzero := h.guarded.stopped (by simpa using hcancel)
  have := h.running.remaining_zero.mp hzero index hi
  simp [hopen] at this

/-- A live connection ends: by an exit, or by a failure. -/
theorem Live.finish (h : Live targets options onComplete c) (hactive : (c.conn index).active)
    (hopen : (c.conn index).done = false) (hf : Ends (Conn.finished ∘ f))
    (hchange : ∀ conn, (f conn).done = conn.done) :
    Live targets options onComplete ((c.modify index f).finish index) ∧
      Steady c ((c.modify index f).finish index) := by
  have hi := lt_of_active hactive
  have hlive := h.not_cancelling hi hopen
  have hsteady := ended_steady (c := c) hf hi
  have hended := h.running.ended hf hi hopen (.inl hactive)
  have hpos := h.running.active_pos hactive
  unfold NativeController.finish onConnDone
  rw [finishWith_open _ hi ((hchange _).trans hopen)]
  by_cases hfail : c.options.failFast = true ∧ ¬ c.cancelling = true ∧
      ((Conn.finished ∘ f) (c.conn index)).result.failed = true
  · -- fail-fast cancels the rest, and the timer is armed after that
    rw [if_pos hfail]
    obtain ⟨hrun, hcancelled, hcancel, hzero⟩ :=
      cancel_running "fail-fast" .FailFast hended (by rw [hsteady.active]; exact hpos)
    have hall := (hsteady.trans hcancelled).trans (arm_steady _ index)
    rw [← owes_steady (hsteady.trans hcancelled) index []] at hrun
    rw [completeIfReady_running (by rw [hall.active]; exact hpos)]
    refine ⟨⟨hrun.arm, ?_, ?_⟩, hall⟩
    · intro _ hnot
      simp [hcancel] at hnot
    · intro _
      rw [arm_remaining]
      exact hzero
  · rw [if_neg hfail]
    have hall := hsteady.trans (arm_steady _ index)
    rw [← owes_steady hsteady index []] at hended
    rw [completeIfReady_running (by rw [hall.active]; exact hpos)]
    refine ⟨⟨hended.arm, ?_, ?_⟩, hall⟩
    · intro hff _ i result hmem
      rw [arm_options] at hff
      rw [arm_log] at hmem
      rcases List.mem_append.mp hmem with hmem | hmem
      · exact h.guarded.failFast hff hlive i result hmem
      · obtain ⟨-, rfl⟩ : i = index ∧ result = ((Conn.finished ∘ f) (c.conn index)).result := by
          simpa using hmem
        by_contra hbad
        exact hfail ⟨hff, by simp [hlive], by simpa using hbad⟩
    · intro hcancel
      rw [arm_cancelling] at hcancel
      simp [NativeController.ended, hlive] at hcancel

theorem Live.fail (message : String) (kind : CancelKind)
    (h : Live targets options onComplete c) (hactive : (c.conn index).active) :
    Live targets options onComplete (c.fail index message kind) ∧
      Steady c (c.fail index message kind) := by
  unfold NativeController.fail failWith
  cases hopen : (c.conn index).done with
  | true =>
    have hsame : finishWith onConnDone c index = c := by simp [finishWith, hopen]
    simp only [if_true, hsame]
    exact ⟨h, .refl c⟩
  | false => exact h.finish hactive hopen (ends_failed message kind) fun _ => rfl

/-- A change to a connection that is not done, which leaves it so. -/
structure Touches (f : Conn → Conn) : Prop where
  done : ∀ conn, (f conn).done = conn.done
  active : ∀ conn, (f conn).active = conn.active
  host : ∀ conn, (f conn).result.host = conn.result.host

theorem touches_capture (options : Options) (data : Bytes) (channel : Channel)
    (answers : psx.stream.SpoolAnswers) : Touches (Conn.capture options data channel answers) := by
  refine ⟨?_, ?_, ?_⟩ <;> intro conn <;> cases channel <;> rfl

theorem touched_hosts {f : Conn → Conn} (hf : ∀ conn, (f conn).result.host = conn.result.host)
    (conns : List Conn) (index : Nat) :
    (conns.modify index f).map (·.result.host) = conns.map (·.result.host) := by
  apply List.ext_getElem
  · simp
  · intro i hlen hlen'
    simp only [List.getElem_map, List.getElem_modify]
    split
    · exact hf _
    · rfl

theorem Live.touch (h : Live targets options onComplete c) (hf : Touches f)
    (hi : index < c.conns.length) (hopen : (c.conn index).done = false)
    (hwired : (f (c.conn index)).transport → (c.conn index).active) :
    Live targets options onComplete (c.modify index f) ∧ Steady c (c.modify index f) := by
  have hconn := conn_modify f hi
  have hactive : ∀ i, ((c.modify index f).conn i).active = (c.conn i).active := by
    intro i
    rw [hconn]
    split
    · exact hf.active _
    · rfl
  have hdone : ∀ i, ((c.modify index f).conn i).done = (c.conn i).done := by
    intro i
    rw [hconn]
    split
    · exact hf.done _
    · rfl
  have hslots := h.running.slots
  have htold := h.running.told
  refine ⟨⟨⟨?_, ?_⟩, ⟨h.guarded.failFast, h.guarded.stopped⟩⟩, ?_⟩
  · refine ⟨?_, ?_, ?_, ?_, ?_, ?_, ?_, ?_, hslots.nodup⟩
    · have hcount := Counts.countP_modify (·.active) f ({} : Conn) hi
      simp only [hf.active] at hcount
      have := hslots.active
      simp only [modify]
      omega
    · have hcount := Counts.countP_modify (!·.done) f ({} : Conn) hi
      simp only [hf.done] at hcount
      have := hslots.remaining
      simp only [modify]
      omega
    · simpa [modify, limit] using hslots.bound
    · simpa [modify] using hslots.next
    · intro i hnext
      rw [hactive, hdone]
      exact hslots.ahead i hnext
    · intro i hnext
      rw [hactive, hdone]
      exact hslots.launched i hnext
    · intro i hwire
      rw [hactive]
      rw [hconn] at hwire
      split at hwire
      · rename_i heq
        subst heq
        exact hwired hwire
      · exact hslots.wired i hwire
    · intro i
      rw [hactive, hdone]
      exact hslots.timers i
  · refine { htold with hosts := ?_, results := ?_, pending := ?_ }
    · exact (touched_hosts hf.host c.conns index).trans htold.hosts
    · intro i hlen hend
      have hne : i ≠ index := by
        rintro rfl
        rw [hdone, hopen] at hend
        simp at hend
      rw [hdone] at hend
      rw [hconn, if_neg hne]
      exact htold.results i (by simpa [modify] using hlen) hend
    · intro i hend
      rw [hdone] at hend
      exact htold.pending i hend
  · exact ⟨rfl, rfl, rfl, by simp [modify], hactive, fun i hi => by rw [hdone]; exact hi,
      fun hc => hc⟩

/-- An event that only tells what happened to one connection. -/
def Event.Plain : Event → Prop
  | .opened .. | .consumed .. | .output .. => True
  | _ => False

theorem Event.Plain.spec {e : Event} (he : e.Plain) :
    e.isLaunch = false ∧ e.isRetired = false ∧ (∀ i result, .done i result ≠ e) ∧
      (∀ results, .complete results ≠ e) ∧ e ≠ .cancel ∧ ∀ log, Allowed log e := by
  cases e <;> simp_all [Event.Plain, Event.isLaunch, Event.isRetired, Allowed]

theorem Live.note {e : Event} (h : Live targets options onComplete c) (he : e.Plain) :
    Live targets options onComplete (c.note e) ∧ Steady c (c.note e) := by
  obtain ⟨hlaunch, hretired, hdone, hcomplete, hcancel, hallowed⟩ := he.spec
  have htold := h.running.told
  refine ⟨⟨⟨{ h.running.slots with }, ?_⟩, ⟨?_, h.guarded.stopped⟩⟩,
    ⟨rfl, rfl, rfl, rfl, fun _ => rfl, fun _ hi => hi, fun hc => hc⟩⟩
  · refine { htold with
      begun := List.mem_append_left _ htold.begun, lawful := htold.lawful.snoc (hallowed _),
      launches := ?_, retired := ?_, results := ?_, pending := ?_, cancels := ?_, quiet := ?_ }
    · simpa [NativeController.note, hlaunch] using htold.launches
    · simpa [NativeController.note, hretired] using htold.retired
    · intro i hi hend
      exact List.mem_append_left _ (htold.results i hi hend)
    · intro i hend result
      simpa [NativeController.note, hdone] using htold.pending i hend result
    · intro hcancelled
      rcases Since.of_snoc hcancelled with ⟨hbefore, -⟩ | hnow
      · exact htold.cancels hbefore
      · exact absurd hnow hcancel
    · intro results
      simpa [NativeController.note, hcomplete] using htold.quiet results
  · intro hff hnot i result hmem
    apply h.guarded.failFast hff hnot i result
    simpa [NativeController.note, hdone] using hmem

/-! ## Callbacks -/

theorem Live.cancels (calls : List (String × CancelKind))
    (h : Live targets options onComplete c) (hactive : 0 < c.active) :
    Live targets options onComplete (calls.foldl (fun c call => c.cancel call.1 call.2) c) ∧
      Steady c (calls.foldl (fun c call => c.cancel call.1 call.2) c) := by
  induction calls generalizing c with
  | nil => exact ⟨h, .refl c⟩
  | cons call calls ih =>
    obtain ⟨hlive, hsteady⟩ := h.cancel call.1 call.2 hactive
    obtain ⟨hlive', hsteady'⟩ := ih hlive (by rw [hsteady.active]; exact hactive)
    exact ⟨hlive', hsteady.trans hsteady'⟩

theorem Live.onData (bytes : Bytes) (channel : Channel) (answers : psx.stream.SpoolAnswers)
    (cancels : List (String × CancelKind)) (h : Live targets options onComplete c)
    (hactive : (c.conn index).active) :
    Live targets options onComplete (c.onData index bytes channel answers cancels) ∧
      Steady c (c.onData index bytes channel answers cancels) := by
  have hconsumed : ∃ c', c' = (if (c.conn index).session then
      c.note (.consumed index bytes.length) else c) ∧
      Live targets options onComplete c' ∧ Steady c c' := by
    refine ⟨_, rfl, ?_⟩
    split
    · exact h.note trivial
    · exact ⟨h, .refl c⟩
  obtain ⟨c', hc', hlive, hsteady⟩ := hconsumed
  unfold NativeController.onData
  simp only [← hc']
  split
  · exact ⟨hlive, hsteady⟩
  · rename_i hopen
    have hi : index < c'.conns.length := by
      rw [hsteady.length]
      exact lt_of_active hactive
    obtain ⟨htouched, htouch⟩ :=
      hlive.touch (touches_capture c'.options bytes channel answers) hi (by simpa using hopen)
        fun hwired => hlive.running.slots.wired index (by cases channel <;> exact hwired)
    obtain ⟨hnoted, hnote⟩ := htouched.note (e := .output _ bytes channel) trivial
    have hboth := (hsteady.trans htouch).trans hnote
    obtain ⟨hend, hcancels⟩ := hnoted.cancels cancels (by
      rw [hboth.active]
      exact h.running.active_pos hactive)
    exact ⟨hend, hboth.trans hcancels⟩

/-- A transport reports only for a connection that is active. -/
theorem Live.callback (call : Callback) (h : Live targets options onComplete c)
    (hactive : (c.conn index).active) :
    Live targets options onComplete (c.callback index call) ∧
      Steady c (c.callback index call) := by
  cases call with
  | ready =>
    unfold NativeController.callback
    simp only
    split
    · exact h.note trivial
    · exact ⟨h, .refl c⟩
  | data bytes channel answers cancels => exact h.onData bytes channel answers cancels hactive
  | exit status =>
    unfold NativeController.callback
    cases hopen : (c.conn index).done with
    | true => exact ⟨h, .refl c⟩
    | false => exact h.finish hactive hopen (ends_exited status) fun _ => rfl
  | error message => exact h.fail message .Other hactive

end

end psx.transport.NativeController
