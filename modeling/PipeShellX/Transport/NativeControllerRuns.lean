-- What holds of every run of the native controller: its counters agree with its
-- connections, no more targets run than may, and the results come exactly once.
import PipeShellX.Transport.NativeControllerLaws

namespace psx.transport.NativeController

open Trace (Lawful Since)

section

variable {targets : List Target} {options : Options} {onComplete : Bool}
  {c : NativeController} {index : Nat} {f : Conn → Conn} {owed : List Nat}

/-! ## Launches -/

/-- The connection takes its slot. -/
def begun (c : NativeController) : NativeController :=
  { c with
    nextToStart := c.nextToStart + 1
    conns := c.conns.modify c.nextToStart Conn.activated
    active := c.active + 1
    log := c.log ++ [.launch c.nextToStart] }

theorem limit_eq (h : Told targets options onComplete c) : c.limit = limitOf targets options := by
  unfold limit limitOf
  rw [h.opts, h.length]

theorem begun_conn (h : c.nextToStart < c.conns.length) (i : Nat) :
    (begun c).conn i = if i = c.nextToStart then (c.conn i).activated else c.conn i :=
  conn_modify Conn.activated h i

theorem Live.begun (h : Live targets options onComplete c) (hnext : c.nextToStart < c.conns.length)
    (hfree : c.active < c.limit) (hgo : c.cancelling = false) :
    Live targets options onComplete (begun c) := by
  have hslots := h.running.slots
  have htold := h.running.told
  have hconn := begun_conn hnext
  obtain ⟨hidle, hopen⟩ := hslots.ahead c.nextToStart (Nat.le_refl _)
  have hopen : (c.conn c.nextToStart).done = false := by
    by_contra hdone
    have := hopen (by simpa using hdone)
    simp [hgo] at this
  have hdone : ∀ i, ((NativeController.begun c).conn i).done = (c.conn i).done := by
    intro i
    rw [hconn]
    split <;> rfl
  refine ⟨⟨?_, ?_⟩, ?_, h.guarded.stopped⟩
  · refine ⟨?_, ?_, ?_, ?_, ?_, ?_, ?_, ?_, hslots.nodup⟩
    · have hcount := Counts.countP_modify (·.active) Conn.activated ({} : Conn) hnext
      have hoff : (c.conns.getD c.nextToStart {}).active = false := hidle
      simp only [hoff, Conn.activated, Bool.toNat_true, Bool.toNat_false] at hcount
      have := hslots.active
      simp only [NativeController.begun]
      omega
    · have hcount := Counts.countP_modify (!·.done) Conn.activated ({} : Conn) hnext
      simp only [Conn.activated] at hcount
      have := hslots.remaining
      simp only [NativeController.begun]
      omega
    · have hroom : c.active + 1 ≤ c.limit := hfree
      simpa [NativeController.begun, limit] using hroom
    · have hroom : c.nextToStart + 1 ≤ c.conns.length := hnext
      simpa [NativeController.begun] using hroom
    · intro i hi
      have hne : i ≠ c.nextToStart := by
        have : c.nextToStart + 1 ≤ i := hi
        omega
      rw [hconn, if_neg hne]
      exact hslots.ahead i (Nat.le_of_succ_le hi)
    · intro i hi
      rw [hconn]
      split
      · exact .inl rfl
      · have hlt : i < c.nextToStart + 1 := hi
        exact hslots.launched i (by omega)
    · intro i
      rw [hconn]
      split
      · exact fun _ => rfl
      · exact hslots.wired i
    · intro i
      rw [hdone, hconn]
      split
      · rename_i heq
        subst heq
        refine Iff.trans (hslots.timers c.nextToStart) ?_
        simp [hopen]
      · exact hslots.timers i
  · refine { htold with
      hosts := ?_
      begun := List.mem_append_left _ htold.begun, lawful := htold.lawful.snoc ?_,
      launches := ?_, retired := ?_, results := ?_, pending := ?_, cancels := ?_, quiet := ?_ }
    · exact (touched_hosts (f := Conn.activated) (fun _ => rfl) c.conns _).trans htold.hosts
    · have hretired := htold.retired
      rw [limit_eq htold] at hfree
      refine ⟨targets, options, onComplete, htold.begun, htold.launches.symm, ?_, ?_, ?_, ?_⟩
      · rw [← htold.length]
        exact hnext
      · omega
      · intro hcancelled
        simpa [hgo] using htold.cancels hcancelled
      · rw [← htold.opts]
        exact fun hff => h.guarded.failFast hff hgo
    · simpa [NativeController.begun, Event.isLaunch] using htold.launches
    · have := htold.retired
      simp [NativeController.begun, Event.isRetired]
      omega
    · intro i hi hend
      rw [hdone] at hend
      have hne : i ≠ c.nextToStart := by
        rintro rfl
        simp [hopen] at hend
      rw [hconn, if_neg hne]
      exact List.mem_append_left _
        (htold.results i (by simpa [NativeController.begun] using hi) hend)
    · intro i hend result
      rw [hdone] at hend
      simpa [NativeController.begun] using htold.pending i hend result
    · intro hcancelled
      rcases Since.of_snoc hcancelled with ⟨hbefore, -⟩ | hnow
      · exact htold.cancels hbefore
      · simp at hnow
    · intro results
      simpa [NativeController.begun] using htold.quiet results
  · intro hff hnot i result hmem
    apply h.guarded.failFast hff hnot i result
    simpa [NativeController.begun] using hmem

theorem launch_eq (network : Nat → Launch) :
    launch network { c with nextToStart := c.nextToStart + 1 } c.nextToStart =
      match network c.nextToStart with
      | .connectFailed message => (begun c).fail c.nextToStart ("connect: " ++ message) .Other
      | .tlsFailed message => (begun c).fail c.nextToStart ("tls: " ++ message) .Other
      | .started during failed =>
        let c' := during.foldl (fun c' call => c'.callback c.nextToStart call)
          ((begun c).modify c.nextToStart Conn.connected)
        match failed with
        | none => c'
        | some message => c'.fail c.nextToStart ("start: " ++ message) .Other := rfl

theorem Live.callbacks (calls : List Callback) (h : Live targets options onComplete c)
    (hactive : (c.conn index).active) :
    Live targets options onComplete (calls.foldl (fun c call => c.callback index call) c) ∧
      Steady c (calls.foldl (fun c call => c.callback index call) c) := by
  induction calls generalizing c with
  | nil => exact ⟨h, .refl c⟩
  | cons call calls ih =>
    obtain ⟨hlive, hsteady⟩ := h.callback call hactive
    obtain ⟨hlive', hsteady'⟩ := ih hlive (by rw [hsteady.actives]; exact hactive)
    exact ⟨hlive', hsteady.trans hsteady'⟩

/-- However a launch goes, it takes one slot and nothing more. -/
theorem Live.launch (network : Nat → Launch) (h : Live targets options onComplete c)
    (hnext : c.nextToStart < c.conns.length) (hfree : c.active < c.limit)
    (hgo : c.cancelling = false) :
    Live targets options onComplete
        (launch network { c with nextToStart := c.nextToStart + 1 } c.nextToStart) ∧
      Steady (NativeController.begun c)
        (launch network { c with nextToStart := c.nextToStart + 1 } c.nextToStart) := by
  have hlive := h.begun hnext hfree hgo
  have hactive : ((NativeController.begun c).conn c.nextToStart).active := by
    rw [begun_conn hnext, if_pos rfl]
    rfl
  rw [launch_eq]
  split
  · exact hlive.fail _ .Other hactive
  · exact hlive.fail _ .Other hactive
  · have hopen : ((NativeController.begun c).conn c.nextToStart).done = false := by
      rw [begun_conn hnext, if_pos rfl]
      by_contra hdone
      have := (h.running.slots.ahead _ (Nat.le_refl _)).2 (by simpa [Conn.activated] using hdone)
      simp [hgo] at this
    obtain ⟨hwired, hwire⟩ :=
      hlive.touch (f := Conn.connected) ⟨fun _ => rfl, fun _ => rfl, fun _ => rfl⟩
      (lt_of_active hactive) hopen fun _ => hactive
    rename_i during failed _
    obtain ⟨hcalled, hcalls⟩ := hwired.callbacks during (by rw [hwire.actives]; exact hactive)
    have hboth := hwire.trans hcalls
    cases failed with
    | none => exact ⟨hcalled, hboth⟩
    | some message =>
      obtain ⟨hfailed, hfail⟩ := hcalled.fail ("start: " ++ message) .Other
        (by rw [hboth.actives]; exact hactive)
      exact ⟨hfailed, hboth.trans hfail⟩

/-- No further target can be started. -/
def Filled (c : NativeController) : Prop :=
  c.cancelling ∨ c.nextToStart = c.conns.length ∨ c.active = c.limit

/-- The loop stops when nothing more can be started, and starts something if it can. -/
theorem Live.fill (network : Nat → Launch) (turns : Nat) (h : Live targets options onComplete c)
    (hturns : c.conns.length - c.nextToStart ≤ turns) :
    Live targets options onComplete (fill network turns c) ∧ Filled (fill network turns c) ∧
      c.active ≤ (fill network turns c).active ∧
      (¬ Filled c → c.active < (fill network turns c).active) := by
  have hnext := h.running.slots.next
  induction turns generalizing c with
  | zero =>
    have hlast : Filled c := .inr (.inl (by omega))
    exact ⟨h, hlast, Nat.le_refl _, fun hnot => absurd hlast hnot⟩
  | succ turns ih =>
    unfold NativeController.fill
    split
    · rename_i hgo
      obtain ⟨hnext, hfree, hgo⟩ := hgo
      obtain ⟨hlive, hsteady⟩ := h.launch network hnext hfree (by simpa using hgo)
      have hlen : (NativeController.begun c).conns.length = c.conns.length := by
        simp [NativeController.begun]
      have hturns' : (NativeController.begun c).conns.length -
          (NativeController.begun c).nextToStart ≤ turns := by
        rw [hlen]
        simp only [NativeController.begun]
        omega
      rw [← hsteady.length, ← hsteady.next] at hturns'
      obtain ⟨hfilled, hfull, hmore, -⟩ := ih hlive hturns' hlive.running.slots.next
      rw [hsteady.active] at hmore
      exact ⟨hfilled, hfull, Nat.le_of_succ_le hmore, fun _ => hmore⟩
    · rename_i hstop
      have hfilled : Filled c := by
        have hbound := h.running.slots.bound
        by_cases hcancel : c.cancelling = true
        · exact .inl hcancel
        · by_cases hlast : c.nextToStart = c.conns.length
          · exact .inr (.inl hlast)
          · refine .inr (.inr ?_)
            by_contra hfree
            exact hstop ⟨by omega, by omega, hcancel⟩
      exact ⟨h, hfilled, Nat.le_refl _, fun hnot => absurd hfilled hnot⟩

/-! ## Between two events -/

/-- A run between two events: it is not complete, and waits for a connection. -/
structure Waiting (targets : List Target) (options : Options) (onComplete : Bool)
    (c : NativeController) : Prop where
  live : Live targets options onComplete c
  nonempty : targets ≠ []
  filled : Filled c
  filling : c.filling = false
  active : 0 < c.active

/-- A complete run. -/
structure Over (targets : List Target) (options : Options) (onComplete : Bool)
    (c : NativeController) : Prop where
  started : c.started
  completed : c.completed
  begun : .start targets options onComplete ∈ c.log
  opts : c.options = options
  length : c.conns.length = targets.length
  active : c.active = 0
  remaining : c.remaining = 0
  idle : ∀ i, (c.conn i).active = false ∧ (c.conn i).transport = false
  done : ∀ i < c.conns.length, (c.conn i).done
  timers : c.retireTimers = []
  lawful : Lawful Allowed c.log
  told : c.log.countP Event.isComplete = onComplete.toNat

/-- When the slots cannot be filled and none is taken, every target is done. -/
theorem Live.all_done (h : Live targets options onComplete c) (hfilled : Filled c)
    (hnonempty : targets ≠ []) (hidle : c.active = 0) : c.remaining = 0 := by
  have hslots := h.running.slots
  have hlen : 0 < c.conns.length := by
    rw [h.running.told.length]
    exact List.length_pos_iff.mpr hnonempty
  have hlimit : 0 < c.limit := by
    unfold limit
    split <;> omega
  rcases hfilled with hcancel | hlast | hfull
  · exact h.guarded.stopped hcancel
  · rw [h.running.remaining_zero]
    intro i hi
    have hnone := hslots.active
    rw [hidle] at hnone
    have hoff : (c.conn i).active = false :=
      (Counts.countP_eq_zero_iff_getD (p := Conn.active) (l := c.conns) {}).mp hnone.symm i hi
    exact (hslots.launched i (by omega)).resolve_left (by simp [hoff])
  · omega

theorem Live.idle (h : Live targets options onComplete c) (hidle : c.active = 0) (i : Nat) :
    (c.conn i).active = false := by
  by_contra hactive
  have := h.running.active_pos (by simpa using hactive)
  omega

/-- The results may be handed over once nothing is left to wait for. -/
theorem Live.complete_allowed (h : Live targets options onComplete c) (hidle : c.active = 0)
    (hzero : c.remaining = 0) : Allowed c.log (.complete (c.conns.map (·.result))) := by
  have htold := h.running.told
  refine ⟨targets, options, onComplete, htold.begun, ?_, ?_, ?_, htold.quiet⟩
  · rw [← htold.hosts]
    simp
  · intro i hi
    have hlen : i < c.conns.length := by simpa using hi
    have hdone := h.running.remaining_zero.mp hzero i hlen
    have hresult := htold.results i hlen hdone
    simpa [conn, hlen] using hresult
  · have := htold.retired
    have := htold.launches
    omega

/-- The last step of every event: the run is complete, or it waits for a connection. -/
theorem Live.rest (h : Live targets options onComplete c) (hfilled : Filled c)
    (hfilling : c.filling = false) (hnonempty : targets ≠ []) :
    Waiting targets options onComplete c.completeIfReady ∨
      Over targets options onComplete c.completeIfReady := by
  by_cases hidle : c.active = 0
  · right
    have htold := h.running.told
    have hslots := h.running.slots
    have hzero := h.all_done hfilled hnonempty hidle
    have hdone := h.running.remaining_zero.mp hzero
    have hoff := h.idle hidle
    have hidles : ∀ i, (c.conn i).active = false ∧ (c.conn i).transport = false := by
      intro i
      refine ⟨hoff i, ?_⟩
      by_contra hwired
      have := hslots.wired i (by simpa using hwired)
      simp [hoff i] at this
    have htimers : c.retireTimers = [] := by
      apply List.eq_nil_iff_forall_not_mem.mpr
      intro i hi
      have := ((hslots.timers i).mp (by simpa using hi)).1
      simp [hoff i] at this
    have hnone := htold.none_complete
    unfold completeIfReady
    rw [if_neg (by simp [hidle, hzero, htold.running])]
    split
    · rename_i hhandler
      have hyes : onComplete = true := htold.handler.symm.trans hhandler
      refine ⟨htold.started, rfl, List.mem_append_left _ htold.begun, htold.opts, htold.length,
        hidle, hzero, hidles, hdone, htimers, ?_, ?_⟩
      · exact htold.lawful.snoc (h.complete_allowed hidle hzero)
      · simp [NativeController.note, hnone, hyes, Event.isComplete]
    · rename_i hhandler
      have hno : onComplete = false := htold.handler.symm.trans (by simpa using hhandler)
      refine ⟨htold.started, rfl, htold.begun, htold.opts, htold.length, hidle, hzero, hidles,
        hdone, htimers, htold.lawful, ?_⟩
      simpa [hno] using hnone
  · left
    rw [completeIfReady_running (by omega)]
    exact ⟨h, hnonempty, hfilled, hfilling, by omega⟩

/-! ## Events -/

theorem Live.fillSlots (network : Nat → Launch) (h : Live targets options onComplete c)
    (hfilling : c.filling = false) :
    Live targets options onComplete (c.fillSlots network) ∧ Filled (c.fillSlots network) ∧
      (c.fillSlots network).filling = false ∧
      (¬ Filled c → c.active < (c.fillSlots network).active) := by
  unfold NativeController.fillSlots
  by_cases hcancel : c.cancelling = true
  · rw [if_pos (by simp [hcancel])]
    exact ⟨h, .inl hcancel, hfilling, fun hnot => absurd (.inl hcancel) hnot⟩
  · rw [if_neg (by simp [hcancel, hfilling, h.running.told.running])]
    have hstart : Live targets options onComplete { c with filling := true } :=
      ⟨⟨{ h.running.slots with }, { h.running.told with }⟩, { h.guarded with }⟩
    obtain ⟨hlive, hfilled, -, hmore⟩ :=
      hstart.fill network (c.conns.length - c.nextToStart) (Nat.le_refl _)
    exact ⟨⟨⟨{ hlive.running.slots with }, { hlive.running.told with }⟩, { hlive.guarded with }⟩,
      hfilled, rfl, hmore⟩

/-- A retire timer frees the slot of a connection that is done. -/
def freed (c : NativeController) (index : Nat) : NativeController :=
  { c with
    conns := c.conns.modify index Conn.retired
    active := c.active - 1
    retireTimers := c.retireTimers.erase index
    log := c.log ++ [.retired index] }

theorem Live.freed (h : Live targets options onComplete c) (htimer : index ∈ c.retireTimers) :
    Live targets options onComplete (freed c index) := by
  have hslots := h.running.slots
  have htold := h.running.told
  obtain ⟨hactive, hend⟩ := (hslots.timers index).mp (by simpa using htimer)
  have hi := lt_of_active hactive
  have hconn : ∀ i, (NativeController.freed c index).conn i =
      if i = index then (c.conn i).retired else c.conn i := conn_modify Conn.retired hi
  have hdone : ∀ i, ((NativeController.freed c index).conn i).done = (c.conn i).done := by
    intro i
    rw [hconn]
    split <;> rfl
  have hnodup : c.retireTimers.Nodup := by simpa using hslots.nodup
  have hpos := h.running.active_pos hactive
  refine ⟨⟨?_, ?_⟩, ?_, h.guarded.stopped⟩
  · refine ⟨?_, ?_, ?_, ?_, ?_, ?_, ?_, ?_, ?_⟩
    · have hcount := Counts.countP_modify (·.active) Conn.retired ({} : Conn) hi
      have hon : (c.conns.getD index {}).active = true := hactive
      simp only [hon, Conn.retired, Bool.toNat_true, Bool.toNat_false] at hcount
      have := hslots.active
      simp only [NativeController.freed]
      omega
    · have hcount := Counts.countP_modify (!·.done) Conn.retired ({} : Conn) hi
      simp only [Conn.retired] at hcount
      have := hslots.remaining
      simp only [NativeController.freed]
      omega
    · have hbound := hslots.bound
      have hsame : (NativeController.freed c index).limit = c.limit := by
        simp [NativeController.freed, limit]
      rw [hsame]
      exact Nat.le_trans (Nat.sub_le _ _) hbound
    · simpa [NativeController.freed] using hslots.next
    · intro i hnext
      rw [hdone, hconn]
      refine ⟨?_, (hslots.ahead i hnext).2⟩
      split
      · rfl
      · exact (hslots.ahead i hnext).1
    · intro i hnext
      rw [hdone, hconn]
      split
      · rename_i heq
        exact .inr (heq ▸ hend)
      · exact hslots.launched i hnext
    · intro i
      rw [hconn]
      split
      · simp [Conn.retired]
      · exact hslots.wired i
    · intro i
      rw [hdone, hconn]
      simp only [NativeController.freed, List.append_nil, hnodup.mem_erase_iff]
      split
      · rename_i heq
        simp [heq, Conn.retired]
      · rename_i hne
        simpa [hne] using hslots.timers i
    · simpa [NativeController.freed] using hnodup.erase index
  · refine { htold with
      hosts := ?_
      begun := List.mem_append_left _ htold.begun, lawful := htold.lawful.snoc trivial,
      launches := ?_, retired := ?_, results := ?_, pending := ?_, cancels := ?_, quiet := ?_ }
    · exact (touched_hosts (f := Conn.retired) (fun _ => rfl) c.conns _).trans htold.hosts
    · simpa [NativeController.freed, Event.isLaunch] using htold.launches
    · have := htold.retired
      simp [NativeController.freed, Event.isRetired]
      omega
    · intro i hlen hfinished
      rw [hdone] at hfinished
      have hresult : ((NativeController.freed c index).conn i).result = (c.conn i).result := by
        rw [hconn]
        split <;> rfl
      rw [hresult]
      exact List.mem_append_left _
        (htold.results i (by simpa [NativeController.freed] using hlen) hfinished)
    · intro i hopen result
      rw [hdone] at hopen
      simpa [NativeController.freed] using htold.pending i hopen result
    · intro hcancelled
      rcases Since.of_snoc hcancelled with ⟨hbefore, -⟩ | hnow
      · exact htold.cancels hbefore
      · simp at hnow
    · intro results
      simpa [NativeController.freed] using htold.quiet results
  · intro hff hnot i result hmem
    apply h.guarded.failFast hff hnot i result
    simpa [NativeController.freed] using hmem

theorem retire_eq (network : Nat → Launch) (hactive : (c.conn index).active) :
    retire network { c with retireTimers := c.retireTimers.erase index } index =
      (if (freed c index).cancelling then freed c index
        else (freed c index).fillSlots network).completeIfReady := by
  have hon : (conn { c with retireTimers := c.retireTimers.erase index } index).active = true :=
    hactive
  unfold retire
  simp only [hon, if_true]
  rfl

theorem Waiting.retire (network : Nat → Launch) (h : Waiting targets options onComplete c)
    (htimer : index ∈ c.retireTimers) :
    Waiting targets options onComplete
        (NativeController.retire network
          { c with retireTimers := c.retireTimers.erase index } index) ∨
      Over targets options onComplete
        (NativeController.retire network
          { c with retireTimers := c.retireTimers.erase index } index) := by
  have hactive : (c.conn index).active :=
    ((h.live.running.slots.timers index).mp (by simpa using htimer)).1
  have hfreed := h.live.freed htimer
  rw [retire_eq network hactive]
  split
  · rename_i hcancel
    exact hfreed.rest (.inl hcancel) h.filling h.nonempty
  · obtain ⟨hlive, hfilled, hfilling, -⟩ := hfreed.fillSlots network h.filling
    exact hlive.rest hfilled hfilling h.nonempty

/-- An end of connections leaves the slots as full as they were. -/
theorem Filled.steady {c' : NativeController} (h : Filled c) (hsteady : Steady c c')
    (hrun : Told targets options onComplete c) (hrun' : Told targets options onComplete c') :
    Filled c' := by
  rcases h with hcancel | hlast | hfull
  · exact .inl (hsteady.cancelling hcancel)
  · exact .inr (.inl (by rw [hsteady.next, hsteady.length, hlast]))
  · exact .inr (.inr (by rw [hsteady.active, limit_eq hrun', hfull, limit_eq hrun]))

theorem Waiting.steady {c' : NativeController} (h : Waiting targets options onComplete c)
    (hlive : Live targets options onComplete c') (hsteady : Steady c c') :
    Waiting targets options onComplete c' where
  live := hlive
  nonempty := h.nonempty
  filled := h.filled.steady hsteady h.live.running.told hlive.running.told
  filling := hsteady.filling.trans h.filling
  active := by
    rw [hsteady.active]
    exact h.active

/-! ## Runs -/

/-- A controller that was not started. -/
structure Unstarted (c : NativeController) : Prop where
  started : c.started = false
  conns : c.conns = []
  timers : c.retireTimers = []
  active : c.active = 0
  remaining : c.remaining = 0
  handler : c.onComplete = false
  log : ∀ e ∈ c.log, e = .cancel

theorem Unstarted.lawful (h : Unstarted c) : Lawful Allowed c.log := by
  intro pre e post heq
  have : e = .cancel := h.log e (by simp [heq])
  subst this
  trivial

theorem Unstarted.cancel (h : Unstarted c) (reason : String) (kind : CancelKind) :
    Unstarted (c.cancel reason kind) := by
  unfold NativeController.cancel cancelWith
  split
  · exact h
  · have hnone : (NativeController.note { c with cancelling := true } .cancel).conns = [] := h.conns
    have hlog : ∀ e ∈ c.log ++ [Event.cancel], e = .cancel := by
      intro e he
      rcases List.mem_append.mp he with he | he
      · exact h.log e he
      · exact List.mem_singleton.mp he
    simp only [hnone, List.length_nil, List.range_zero, List.foldl_nil]
    unfold completeIfReady
    split
    · exact ⟨h.started, h.conns, h.timers, h.active, h.remaining, h.handler, hlog⟩
    · rw [if_neg (by simp [note, h.handler])]
      exact ⟨h.started, h.conns, h.timers, h.active, h.remaining, h.handler, hlog⟩

/-- The connection of a target that nothing has happened to. -/
def freshConn (target : Target) : Conn := { target, result := { host := target.host } }

/-- A controller whose targets are set up, and none is launched. -/
def prepared (c : NativeController) (targets : List Target) (command : List Bytes)
    (onComplete : Bool) (options : Options) : NativeController :=
  { c with
    started := true
    command
    onComplete
    options
    nextToStart := 0
    active := 0
    remaining := targets.length
    filling := false
    cancelling := false
    completed := false
    conns := targets.map freshConn
    log := c.log ++ [.start targets options onComplete] }

theorem prepared_conn (c : NativeController) (targets : List Target) (command : List Bytes)
    (onComplete : Bool) (options : Options) (i : Nat) :
    ((prepared c targets command onComplete options).conn i).active = false ∧
      ((prepared c targets command onComplete options).conn i).done = false ∧
      ((prepared c targets command onComplete options).conn i).transport = false := by
  unfold conn prepared
  rw [List.getD_eq_getElem?_getD, List.getElem?_map]
  cases targets[i]? <;> simp [freshConn]

/-- What the log of an unstarted controller, and its start, do not tell. -/
theorem Unstarted.silent (h : Unstarted c) {e : Event}
    (he : e ∈ c.log ++ [Event.start targets options onComplete]) :
    e = .cancel ∨ e = .start targets options onComplete := by
  rcases List.mem_append.mp he with he | he
  · exact .inl (h.log e he)
  · exact .inr (List.mem_singleton.mp he)

theorem Unstarted.start_allowed (h : Unstarted c) :
    Lawful Allowed (c.log ++ [Event.start targets options onComplete]) := by
  refine h.lawful.snoc ?_
  intro e he
  rw [h.log e he]
  simp [Event.IsStart]

theorem Unstarted.count (h : Unstarted c) (targets : List Target) (options : Options)
    (onComplete : Bool) {p : Event → Bool} (hcancel : p .cancel = false)
    (hstart : p (.start targets options onComplete) = false) :
    (c.log ++ [Event.start targets options onComplete]).countP p = 0 := by
  rw [List.countP_eq_zero]
  intro e he
  rcases h.silent he with rfl | rfl
  · simp [hcancel]
  · simp [hstart]

theorem Unstarted.prepared (h : Unstarted c) (targets : List Target) (command : List Bytes)
    (onComplete : Bool) (options : Options) :
    Live targets options onComplete (prepared c targets command onComplete options) := by
  have hconn := prepared_conn c targets command onComplete options
  refine ⟨⟨?_, ?_⟩, ?_, ?_⟩
  · refine ⟨?_, ?_, Nat.zero_le _, Nat.zero_le _, ?_, ?_, ?_, ?_, ?_⟩
    · have hnone : (targets.map freshConn).countP (·.active) = 0 := by
        rw [List.countP_eq_zero]
        intro conn hmem
        obtain ⟨target, -, rfl⟩ := List.mem_map.mp hmem
        simp [freshConn]
      exact hnone.symm
    · have hall : (targets.map freshConn).countP (!·.done) = targets.length := by
        rw [List.countP_map, List.countP_eq_length.mpr]
        intro target _
        simp [freshConn]
      exact hall.symm
    · intro i _
      exact ⟨(hconn i).1, by simp [(hconn i).2.1]⟩
    · intro i hi
      exact absurd hi (Nat.not_lt_zero i)
    · intro i
      simp [(hconn i).2.2]
    · intro i
      rw [(hconn i).1]
      simp [NativeController.prepared, h.timers]
    · simp [NativeController.prepared, h.timers]
  · refine ⟨rfl, rfl, rfl, rfl, ?_, List.mem_append_right _ (by simp), h.start_allowed,
      h.count _ _ _ rfl rfl, ?_, ?_, ?_, ?_, ?_⟩
    · simp [NativeController.prepared, freshConn]
    · have := h.count targets options onComplete (p := Event.isRetired) rfl rfl
      simpa [NativeController.prepared] using this
    · intro i _ hdone
      simp [(hconn i).2.1] at hdone
    · intro i _ result hmem
      rcases h.silent hmem with hnot | hnot <;> simp at hnot
    · intro hcancelled
      rcases Since.of_snoc hcancelled with ⟨-, hnot⟩ | hnow
      · exact absurd ⟨targets, options, onComplete, rfl⟩ hnot
      · simp at hnow
    · intro results hmem
      rcases h.silent hmem with hnot | hnot <;> simp at hnot
  · intro _ _ i result hmem
    rcases h.silent hmem with hnot | hnot <;> simp at hnot
  · intro hcancel
    simp [NativeController.prepared] at hcancel

/-- Some targets that are set up: the first of them are launched. -/
theorem Unstarted.begins (network : Nat → Launch) (h : Unstarted c) {targets : List Target}
    (hempty : targets ≠ []) (command : List Bytes) (onComplete : Bool) (options : Options) :
    Waiting targets options onComplete
      ((NativeController.prepared c targets command onComplete options).fillSlots network) := by
  have hprepared := h.prepared targets command onComplete options
  obtain ⟨hlive, hfilled, hfilling, hmore⟩ := hprepared.fillSlots network rfl
  have hlen : 0 < targets.length := List.length_pos_iff.mpr hempty
  have hroom : ¬ Filled (NativeController.prepared c targets command onComplete options) := by
    rintro (hcancel | hlast | hfull)
    · simp [NativeController.prepared] at hcancel
    · simp [NativeController.prepared] at hlast
      omega
    · simp only [NativeController.prepared, limit, List.length_map] at hfull
      split at hfull <;> omega
  exact ⟨hlive, hempty, hfilled, hfilling, Nat.lt_of_le_of_lt (Nat.zero_le _) (hmore hroom)⟩

/-- A start is refused, or the run waits for its first connections, or, without targets, it
is over at once. -/
theorem Unstarted.start (network : Nat → Launch) (h : Unstarted c) (targets : List Target)
    (command : List Bytes) (onComplete : Bool) (options : Options) :
    Unstarted (c.start network targets command onComplete options).1 ∨
      Waiting targets options onComplete (c.start network targets command onComplete options).1 ∨
      Over targets options onComplete (c.start network targets command onComplete options).1 := by
  unfold NativeController.start
  rw [if_neg (by simp [h.started])]
  split
  · exact .inl h
  · split
    · exact .inl h
    · refine .inr ?_
      by_cases hempty : targets = []
      · right
        subst hempty
        have hlog : Lawful Allowed (c.log ++ [Event.start [] options onComplete]) := h.start_allowed
        have hbegun : Event.start [] options onComplete ∈
            c.log ++ [.start [] options onComplete] := by
          simp
        have hidle : ∀ i, (c.conns.getD i {}).active = false ∧
            (c.conns.getD i {}).transport = false := by
          simp [h.conns]
        have hsilent : ∀ results, .complete results ∉ c.log ++ [.start [] options onComplete] := by
          intro results hmem
          rcases h.silent hmem with hnot | hnot <;> simp at hnot
        have hnone := h.count [] options onComplete (p := Event.isComplete) rfl rfl
        rw [if_pos rfl]
        cases onComplete with
        | false =>
          exact ⟨rfl, rfl, hbegun, rfl, by simp [note, h.conns], rfl, rfl, hidle,
            by simp [note, h.conns], h.timers, hlog, hnone⟩
        | true =>
          refine ⟨rfl, rfl, List.mem_append_left _ hbegun, rfl, by simp [note, h.conns], rfl, rfl,
            hidle, by simp [note, h.conns], h.timers, hlog.snoc ?_, ?_⟩
          · exact ⟨[], options, true, hbegun, rfl, by simp,
              (h.count _ _ _ rfl rfl).trans (h.count _ _ _ rfl rfl).symm, hsilent⟩
          · have hall := hnone
            simp [note, Event.isComplete] at hall ⊢
            exact hall
      · left
        rw [if_neg hempty]
        simp only [note, h.conns, List.nil_append]
        exact h.begins network hempty command onComplete options

end

/-- The states of a controller between two events. -/
inductive Phase (c : NativeController) : Prop
  | unstarted (h : Unstarted c)
  | waiting (targets : List Target) (options : Options) (onComplete : Bool)
      (h : Waiting targets options onComplete c)
  | ended (targets : List Target) (options : Options) (onComplete : Bool)
      (h : Over targets options onComplete c)

theorem start_again {c : NativeController} (network : Nat → Launch) (h : c.started)
    (targets : List Target) (command : List Bytes) (onComplete : Bool) (options : Options) :
    (c.start network targets command onComplete options).1 = c := by
  simp [start, h]

theorem Unstarted.step (network : Nat → Launch) (input : Input) {c : NativeController}
    (h : Unstarted c) : Phase (c.step network input) := by
  cases input with
  | start targets command onComplete options =>
    rcases h.start network targets command onComplete options with h | h | h
    · exact .unstarted h
    · exact .waiting _ _ _ h
    · exact .ended _ _ _ h
  | cancel reason kind => exact .unstarted (h.cancel reason kind)
  | callback index call =>
    have hnone : (c.conn index).transport = false := by simp [conn, h.conns]
    unfold NativeController.step
    simp only [hnone]
    exact .unstarted h
  | retire index =>
    unfold NativeController.step
    simp only [h.timers, List.not_mem_nil, if_false]
    exact .unstarted h

/-- Any event leaves a run of these targets waiting, or ends it. -/
theorem Waiting.next (network : Nat → Launch) (input : Input) {targets : List Target}
    {options : Options} {onComplete : Bool} {c : NativeController}
    (h : Waiting targets options onComplete c) :
    Waiting targets options onComplete (c.step network input) ∨
      Over targets options onComplete (c.step network input) := by
  unfold NativeController.step
  cases input with
  | start targets' command onComplete' options' =>
    simp only [start_again network h.live.running.told.started]
    exact .inl h
  | cancel reason kind =>
    obtain ⟨hlive, hsteady⟩ := h.live.cancel reason kind h.active
    exact .inl (h.steady hlive hsteady)
  | callback index call =>
    simp only
    split
    · rename_i hwired
      obtain ⟨hlive, hsteady⟩ := h.live.callback call (h.live.running.slots.wired index hwired)
      exact .inl (h.steady hlive hsteady)
    · exact .inl h
  | retire index =>
    simp only
    split
    · rename_i htimer
      exact h.retire network htimer
    · exact .inl h

theorem Waiting.step (network : Nat → Launch) (input : Input) {targets : List Target}
    {options : Options} {onComplete : Bool} {c : NativeController}
    (h : Waiting targets options onComplete c) : Phase (c.step network input) := by
  rcases h.next network input with h | h
  · exact .waiting _ _ _ h
  · exact .ended _ _ _ h

/-- Nothing happens to a run that is over. -/
theorem Over.step (network : Nat → Launch) (input : Input) {targets : List Target}
    {options : Options} {onComplete : Bool} {c : NativeController}
    (h : Over targets options onComplete c) : c.step network input = c := by
  unfold NativeController.step
  cases input with
  | start targets' command onComplete' options' => exact start_again network h.started _ _ _ _
  | cancel reason kind => simp [cancel, cancelWith, h.completed]
  | callback index call => simp [(h.idle index).2]
  | retire index => simp [h.timers]

theorem phase_step (network : Nat → Launch) (input : Input) {c : NativeController}
    (h : Phase c) : Phase (c.step network input) := by
  cases h with
  | unstarted h => exact h.step network input
  | waiting targets options onComplete h => exact h.step network input
  | ended targets options onComplete h =>
    rw [h.step network input]
    exact .ended _ _ _ h

theorem phase_run (network : Nat → Launch) (inputs : List Input) : Phase (run network inputs) := by
  have hfirst : Phase {} := .unstarted ⟨rfl, rfl, rfl, rfl, rfl, rfl, by simp⟩
  unfold run
  induction inputs using List.reverseRecOn with
  | nil => exact hfirst
  | append_singleton inputs input ih =>
    rw [List.foldl_append]
    exact phase_step network input ih

/-! ## The orchestration -/

/-- What a reader of the controller relies on between two events. -/
structure Orchestrated (c : NativeController) : Prop where
  lawful : Lawful Allowed c.log
  active : c.active = c.conns.countP (·.active)
  remaining : c.remaining = c.conns.countP (!·.done)
  bound : ∀ targets options onComplete, .start targets options onComplete ∈ c.log →
    c.active ≤ limitOf targets options
  waits : c.started → c.completed = false → ∃ i, (c.conn i).active
  timers : ∀ i, i ∈ c.retireTimers ↔ (c.conn i).active ∧ (c.conn i).done
  completed : c.started → (c.completed ↔ c.remaining = 0 ∧ c.active = 0)
  once : ∀ targets options onComplete, .start targets options onComplete ∈ c.log →
    c.log.countP Event.isComplete = (c.completed && onComplete).toNat

theorem start_unique {log : List Event} (h : Lawful Allowed log) :
    ∀ e ∈ log, ∀ e' ∈ log, e.IsStart → e'.IsStart → e = e' := by
  refine Lawful.induction (P := fun log => ∀ e ∈ log, ∀ e' ∈ log, e.IsStart → e'.IsStart → e = e')
    (by simp) ?_ h
  intro log e _ ih hallowed
  have hfirst : e.IsStart → ∀ e' ∈ log, ¬ e'.IsStart := by
    rintro ⟨targets, options, onComplete, rfl⟩
    exact hallowed
  intro a ha a' ha' hstart hstart'
  rw [List.mem_append, List.mem_singleton] at ha ha'
  rcases ha with ha | rfl
  · rcases ha' with ha' | rfl
    · exact ih a ha a' ha' hstart hstart'
    · exact absurd hstart (hfirst hstart' a ha)
  · rcases ha' with ha' | rfl
    · exact absurd hstart' (hfirst hstart a' ha')
    · rfl

section

variable {targets : List Target} {options : Options} {onComplete : Bool} {c : NativeController}

theorem same_start {targets' : List Target} {options' : Options} {onComplete' : Bool}
    (hlaw : Lawful Allowed c.log) (h : .start targets options onComplete ∈ c.log)
    (h' : .start targets' options' onComplete' ∈ c.log) :
    targets' = targets ∧ options' = options ∧ onComplete' = onComplete := by
  have := start_unique hlaw _ h' _ h ⟨_, _, _, rfl⟩ ⟨_, _, _, rfl⟩
  simpa using this

theorem Unstarted.orchestrated (h : Unstarted c) : Orchestrated c where
  lawful := h.lawful
  active := by simp [h.active, h.conns]
  remaining := by simp [h.remaining, h.conns]
  bound targets options onComplete hmem := by
    have := h.log _ hmem
    simp at this
  waits hstarted := by simp [h.started] at hstarted
  timers i := by simp [h.timers, conn, h.conns]
  completed hstarted := by simp [h.started] at hstarted
  once targets options onComplete hmem := by
    have := h.log _ hmem
    simp at this

theorem Waiting.orchestrated (h : Waiting targets options onComplete c) : Orchestrated c where
  lawful := h.live.running.told.lawful
  active := h.live.running.slots.active
  remaining := h.live.running.slots.remaining
  bound targets' options' onComplete' hmem := by
    obtain ⟨rfl, rfl, rfl⟩ := same_start h.live.running.told.lawful h.live.running.told.begun hmem
    rw [← limit_eq h.live.running.told]
    exact h.live.running.slots.bound
  waits _ _ := by
    have hpos := h.active
    rw [h.live.running.slots.active] at hpos
    obtain ⟨conn, hmem, hactive⟩ := List.countP_pos_iff.mp hpos
    obtain ⟨i, hi, rfl⟩ := List.mem_iff_getElem.mp hmem
    exact ⟨i, by simpa [NativeController.conn, hi] using hactive⟩
  timers i := by simpa using h.live.running.slots.timers i
  completed _ := by
    have := h.active
    simp only [h.live.running.told.running, Bool.false_eq_true, false_iff, not_and]
    omega
  once targets' options' onComplete' _ := by
    simp [h.live.running.told.none_complete, h.live.running.told.running]

theorem Over.orchestrated (h : Over targets options onComplete c) : Orchestrated c where
  lawful := h.lawful
  active := by
    rw [h.active, eq_comm]
    exact (Counts.countP_eq_zero_iff_getD (p := Conn.active) {}).mpr fun i _ => (h.idle i).1
  remaining := by
    rw [h.remaining, eq_comm]
    refine (Counts.countP_eq_zero_iff_getD (p := fun conn : Conn => !conn.done) {}).mpr ?_
    intro i hi
    have hdone : (c.conns.getD i {}).done = true := h.done i hi
    simp only [hdone, Bool.not_true]
  bound _ _ _ _ := by simp [h.active]
  waits _ hrunning := by simp [h.completed] at hrunning
  timers i := by simp [h.timers, (h.idle i).1]
  completed _ := by simp [h.completed, h.remaining, h.active]
  once targets' options' onComplete' hmem := by
    obtain ⟨rfl, rfl, rfl⟩ := same_start h.lawful h.begun hmem
    simp [h.told, h.completed]

end

/-- Whatever the network does, and in whatever order things happen, the counters of the
controller agree with its connections, the targets are launched in order within the limits,
a run that is not complete waits for a connection, and the results come exactly once. -/
theorem every_run_is_orchestrated (network : Nat → Launch) (inputs : List Input) :
    Orchestrated (run network inputs) := by
  cases phase_run network inputs with
  | unstarted h => exact h.orchestrated
  | waiting targets options onComplete h => exact h.orchestrated
  | ended targets options onComplete h => exact h.orchestrated

end psx.transport.NativeController
