-- When the timers of the reactor run. The queue keeps the entries of cancelled timers until they
-- come to its head, and the map of handlers says which of its entries still count.
import PipeShellX.Runtime.ReactorLaws
import Mathlib.Data.List.TakeWhile
import Mathlib.Data.Prod.Lex
import Mathlib.Data.Rat.Floor

namespace psx.runtime

open psx.os (ProcessId)

/-! ## What the log says of a timer -/

/-- How many timers are still to run. -/
def Reactor.pendingTimers (r : Reactor) : Nat := r.timers.length

/-- The timer that is given, cancelled or run. -/
def Event.timer : Event → Option TimerId
  | .after id _ _ => some id
  | .cancel id true => some id
  | .runTimer id => some id
  | _ => none

/-- The timers that `after` gave. -/
def given (log : List Event) : List TimerId :=
  log.filterMap fun
    | .after id _ _ => some id
    | _ => none

/-- The timers that ran. -/
def ran (log : List Event) : List TimerId :=
  log.filterMap fun
    | .runTimer id => some id
    | _ => none

/-- The timers that were neither cancelled nor run. -/
def waiting (log : List Event) : List TimerId :=
  (given log).filter fun id => .cancel id true ∉ log ∧ .runTimer id ∉ log

/-- The deadline that `after` computed for a timer. -/
def HasDeadline (log : List Event) (id : TimerId) (deadline : TimePoint) : Prop :=
  ∃ now delay, .after id now delay ∈ log ∧ deadline = now + max delay 0 * nanosPerMilli

theorem mem_given {log : List Event} {id : TimerId} :
    id ∈ given log ↔ ∃ deadline, HasDeadline log id deadline := by
  unfold given HasDeadline
  rw [List.mem_filterMap]
  constructor
  · rintro ⟨e, he, hid⟩
    cases e <;> simp only [Option.some.injEq, reduceCtorEq] at hid
    rename_i other now delay
    obtain rfl := hid
    exact ⟨_, now, delay, he, rfl⟩
  · rintro ⟨deadline, now, delay, he, -⟩
    exact ⟨_, he, rfl⟩

theorem mem_ran {log : List Event} {id : TimerId} : id ∈ ran log ↔ .runTimer id ∈ log := by
  unfold ran
  rw [List.mem_filterMap]
  constructor
  · rintro ⟨e, he, hid⟩
    cases e <;> simp only [Option.some.injEq, reduceCtorEq] at hid
    obtain rfl := hid
    exact he
  · intro he
    exact ⟨_, he, rfl⟩

theorem mem_waiting {log : List Event} {id : TimerId} :
    id ∈ waiting log ↔ id ∈ given log ∧ .cancel id true ∉ log ∧ .runTimer id ∉ log := by
  unfold waiting
  rw [List.mem_filter, decide_eq_true_eq]

theorem HasDeadline.grow {log : List Event} {id : TimerId} {deadline : TimePoint}
    (h : HasDeadline log id deadline) (later : List Event) :
    HasDeadline (log ++ later) id deadline := by
  obtain ⟨now, delay, he, hdeadline⟩ := h
  exact ⟨now, delay, List.mem_append_left _ he, hdeadline⟩

/-- A timer that is given once has one deadline. -/
theorem HasDeadline.unique {log : List Event} (hnodup : (given log).Nodup) {id : TimerId}
    {deadline deadline' : TimePoint} (h : HasDeadline log id deadline)
    (h' : HasDeadline log id deadline') : deadline = deadline' := by
  obtain ⟨now, delay, he, rfl⟩ := h
  obtain ⟨now', delay', he', rfl⟩ := h'
  have hsame : Event.after id now delay = .after id now' delay' := by
    induction log with
    | nil => cases he
    | cons e log ih =>
      have htail : (given log).Nodup := hnodup.sublist ((List.sublist_cons_self e log).filterMap _)
      have hfirst : ∀ now delay, Event.after id now delay ∈ log →
          ∀ now delay, e ≠ .after id now delay := by
        rintro now delay hin now' delay' rfl
        exact (List.nodup_cons.mp hnodup).1 (mem_given.mpr ⟨_, now, delay, hin, rfl⟩)
      rcases List.mem_cons.mp he with rfl | hlater
      · rcases List.mem_cons.mp he' with heq | hlater'
        · exact heq.symm
        · exact absurd rfl (hfirst _ _ hlater' _ _)
      · rcases List.mem_cons.mp he' with rfl | hlater'
        · exact absurd rfl (hfirst _ _ hlater _ _)
        · exact ih htail hlater hlater'
  cases hsame
  rfl

/-- An event that gives no timer. -/
theorem given_snoc {log : List Event} {e : Event} (h : ∀ id, ¬ e.Adds id) :
    given (log ++ [e]) = given log := by
  unfold given
  rw [List.filterMap_append]
  cases e with
  | after id now delay => exact absurd ⟨now, delay, rfl⟩ (h id)
  | _ => exact List.append_nil _

theorem ran_snoc {log : List Event} {e : Event} (h : ∀ id, e ≠ .runTimer id) :
    ran (log ++ [e]) = ran log := by
  unfold ran
  rw [List.filterMap_append]
  cases e with
  | runTimer id => exact absurd rfl (h id)
  | _ => exact List.append_nil _

theorem not_adds {e : Event} (h : e.timer = none) (id : TimerId) : ¬ e.Adds id := by
  rintro ⟨now, delay, rfl⟩
  cases h

/-- An event that is about no timer. -/
theorem waiting_snoc {log : List Event} {e : Event} (h : e.timer = none) :
    waiting (log ++ [e]) = waiting log := by
  have hcancel : ∀ id, e ≠ .cancel id true := by
    rintro id rfl
    cases h
  have hrun : ∀ id, e ≠ .runTimer id := by
    rintro id rfl
    cases h
  unfold waiting
  rw [given_snoc (not_adds h)]
  refine List.filter_congr fun id _ => ?_
  simp [Ne.symm (hcancel id), Ne.symm (hrun id)]

theorem mem_waiting_given {log : List Event} {id : TimerId} (hnew : ∀ e ∈ log, e.timer ≠ some id)
    (now : TimePoint) (delay : Int) {other : TimerId} :
    other ∈ waiting (log ++ [.after id now delay]) ↔ other ∈ waiting log ∨ other = id := by
  have hgiven : given (log ++ [.after id now delay]) = given log ++ [id] := by
    unfold given
    rw [List.filterMap_append]
    rfl
  rw [mem_waiting, mem_waiting, hgiven]
  simp only [List.mem_append, List.mem_singleton, reduceCtorEq, or_false]
  constructor
  · rintro ⟨hold | rfl, hends⟩
    · exact Or.inl ⟨hold, hends⟩
    · exact Or.inr rfl
  · rintro (⟨hold, hends⟩ | rfl)
    · exact ⟨Or.inl hold, hends⟩
    · exact ⟨Or.inr rfl, fun hin => hnew _ hin rfl, fun hin => hnew _ hin rfl⟩

/-- A timer that is cancelled, or runs. -/
theorem mem_waiting_ended {log : List Event} {e : Event} {id : TimerId}
    (h : e = .cancel id true ∨ e = .runTimer id) {other : TimerId} :
    other ∈ waiting (log ++ [e]) ↔ other ∈ waiting log ∧ other ≠ id := by
  have hgiven : given (log ++ [e]) = given log := by
    refine given_snoc fun other hadds => ?_
    obtain ⟨now, delay, rfl⟩ := hadds
    rcases h with h | h <;> cases h
  rw [mem_waiting, mem_waiting, hgiven]
  rcases h with rfl | rfl <;> simp [not_or] <;> tauto

/-! ## The queue -/

namespace TimerEntry

/-- Earlier deadlines first, and smaller ids first where they are the same. -/
def key (entry : TimerEntry) : ℤ ×ₗ ℕ := toLex (entry.deadline, entry.id)

theorem not_gt_iff {a b : TimerEntry} : ¬ a.gt b = true ↔ a.key ≤ b.key := by
  have hgt : a.gt b = true ↔ b.key < a.key := by
    unfold gt key
    rw [Prod.Lex.toLex_lt_toLex]
    simp only [Bool.or_eq_true, Bool.and_eq_true, decide_eq_true_eq]
    exact or_congr_right (and_congr_left' eq_comm)
  rw [hgt, not_lt]

theorem deadline_le {a b : TimerEntry} (h : ¬ a.gt b = true) : a.deadline ≤ b.deadline :=
  (Prod.Lex.toLex_le_toLex'.mp (not_gt_iff.mp h)).1

instance total_gt : Std.Total fun a b : TimerEntry => ¬ a.gt b = true where
  total a b := by
    rw [not_gt_iff, not_gt_iff]
    exact le_total _ _

instance trans_gt : IsTrans TimerEntry fun a b => ¬ a.gt b = true where
  trans a b c := by
    rw [not_gt_iff, not_gt_iff, not_gt_iff]
    exact le_trans

end TimerEntry

/-- The queue in its order, with one entry for a timer and one for each timer that has a handler. -/
structure InOrder (timers : List TimerId) (queue : List TimerEntry) : Prop where
  sorted : queue.Pairwise fun a b => ¬ a.gt b
  distinct : (queue.map TimerEntry.id).Nodup
  live : ∀ id ∈ timers, ∃ entry ∈ queue, entry.id = id

namespace InOrder

variable {timers : List TimerId} {queue : List TimerEntry}

theorem sub {timers' : List TimerId} (h : InOrder timers queue)
    (hsub : ∀ id ∈ timers', id ∈ timers) :
    InOrder timers' queue := { h with live := fun id hid => h.live id (hsub id hid) }

/-- A new timer. -/
theorem insert (h : InOrder timers queue) {entry : TimerEntry}
    (hnew : ∀ other ∈ queue, other.id ≠ entry.id) :
    InOrder (timers ++ [entry.id]) (queue.orderedInsert (fun a b => ¬ a.gt b) entry) where
  sorted := h.sorted.orderedInsert entry queue
  distinct := by
    have hperm := (List.perm_orderedInsert (fun a b : TimerEntry => ¬ a.gt b) entry queue).map
      TimerEntry.id
    rw [hperm.nodup_iff, List.map_cons, List.nodup_cons]
    refine ⟨fun hin => ?_, h.distinct⟩
    obtain ⟨other, hother, heq⟩ := List.mem_map.mp hin
    exact hnew other hother heq
  live id hid := by
    simp only [List.mem_orderedInsert]
    rcases List.mem_append.mp hid with hold | hlast
    · obtain ⟨other, hother, heq⟩ := h.live id hold
      exact ⟨other, Or.inr hother, heq⟩
    · exact ⟨entry, Or.inl rfl, (List.mem_singleton.mp hlast).symm⟩

/-- Entries without a handler leave the head. -/
theorem drop (h : InOrder timers queue) :
    InOrder timers (queue.dropWhile fun entry => entry.id ∉ timers) where
  sorted := h.sorted.sublist (List.dropWhile_sublist _)
  distinct := h.distinct.sublist ((List.dropWhile_sublist _).map _)
  live id hid := by
    obtain ⟨entry, hentry, rfl⟩ := h.live id hid
    refine ⟨entry, ?_, rfl⟩
    rw [← List.takeWhile_append_dropWhile (p := fun entry : TimerEntry =>
      decide (entry.id ∉ timers))
      (l := queue), List.mem_append] at hentry
    rcases hentry with hdropped | hkept
    · have hnone := List.mem_takeWhile_imp hdropped
      exact absurd hid (by simpa using hnone)
    · exact hkept

theorem tail {entry : TimerEntry} (h : InOrder timers (entry :: queue))
    (hgone : entry.id ∉ timers) :
    InOrder timers queue where
  sorted := (List.pairwise_cons.mp h.sorted).2
  distinct := (List.nodup_cons.mp h.distinct).2
  live id hid := by
    obtain ⟨other, hother, rfl⟩ := h.live id hid
    rcases List.mem_cons.mp hother with rfl | hlater
    · exact absurd hid hgone
    · exact ⟨other, hlater, rfl⟩

/-- What a round collects: the timers with a handler whose deadline is reached, in their order. -/
theorem collectDue_eq (h : InOrder timers queue) (now : TimePoint) :
    (Reactor.collectDue now timers queue).2.2 =
        (queue.filter fun entry => entry.id ∈ timers ∧ entry.deadline ≤ now).map TimerEntry.id ∧
      (Reactor.collectDue now timers queue).1 =
        timers.filter (· ∉ (Reactor.collectDue now timers queue).2.2) ∧
      InOrder (Reactor.collectDue now timers queue).1
        (Reactor.collectDue now timers queue).2.1 := by
  induction queue generalizing timers with
  | nil =>
    refine ⟨rfl, ?_, h⟩
    simp [Reactor.collectDue]
  | cons top queue ih =>
    unfold Reactor.collectDue
    by_cases hreached : top.deadline ≤ now
    · by_cases hlive : top.id ∈ timers
      · have hrest : InOrder (timers.filter (· ≠ top.id)) queue :=
          (h.sub fun id hid => List.mem_of_mem_filter hid).tail (by simp)
        obtain ⟨hdue, htimers, horder⟩ := ih hrest
        have hsame : queue.filter (fun entry => entry.id ∈ timers.filter (· ≠ top.id) ∧
              entry.deadline ≤ now) =
            queue.filter fun entry => entry.id ∈ timers ∧ entry.deadline ≤ now := by
          refine List.filter_congr fun entry hentry => ?_
          have hne : entry.id ≠ top.id := fun heq =>
            (List.nodup_cons.mp h.distinct).1 (heq ▸ List.mem_map_of_mem hentry)
          simp [hne]
        rw [if_pos hreached, if_pos hlive]
        refine ⟨?_, ?_, horder⟩
        · rw [List.filter_cons_of_pos (by simpa using ⟨hlive, hreached⟩), List.map_cons, ← hsame,
            ← hdue]
        · dsimp only
          rw [htimers, List.filter_filter]
          refine List.filter_congr fun id _ => ?_
          simp [not_or, Bool.and_comm]
      · rw [if_pos hreached, if_neg hlive, List.filter_cons_of_neg (by simp [hlive])]
        exact ih (h.tail hlive)
    · -- no later entry has an earlier deadline
      have hnone : (top :: queue).filter (fun entry => entry.id ∈ timers ∧ entry.deadline ≤ now) =
          [] := by
        refine List.filter_eq_nil_iff.mpr fun entry hentry => ?_
        have hlate : top.deadline ≤ entry.deadline := by
          rcases List.mem_cons.mp hentry with rfl | hlater
          · exact le_rfl
          · exact TimerEntry.deadline_le ((List.pairwise_cons.mp h.sorted).1 entry hlater)
        have hnot : ¬ entry.deadline ≤ now := fun hle => hreached (le_trans hlate hle)
        simp [hnot]
      rw [if_neg hreached, hnone]
      refine ⟨rfl, ?_, h⟩
      simp

/-- What stays of the queue is the end of it. -/
theorem collectDue_suffix (now : TimePoint) (timers : List TimerId) (queue : List TimerEntry) :
    (Reactor.collectDue now timers queue).2.1 <:+ queue := by
  induction queue generalizing timers with
  | nil => exact List.suffix_rfl
  | cons top queue ih =>
    unfold Reactor.collectDue
    split_ifs
    · exact (ih _).trans (List.suffix_cons top queue)
    · exact (ih _).trans (List.suffix_cons top queue)
    · exact List.suffix_rfl

end InOrder

/-! ## The invariant -/

/-- The handlers of the map are those of the timers that wait, but for the ones that a round has
collected and not run yet. -/
structure Timed (batch : List TimerId) (w : World) : Prop where
  fresh : ∀ e ∈ w.log, ∀ id, e.timer = some id → id < w.reactor.nextTimer
  once : (given w.log).Nodup
  ranOnce : (ran w.log).Nodup
  collected : ∀ id ∈ batch, id ∈ waiting w.log
  collected_nodup : batch.Nodup
  timers : ∀ id, id ∈ w.reactor.timers ↔ id ∈ waiting w.log ∧ id ∉ batch
  timers_nodup : w.reactor.timers.Nodup
  queued : ∀ entry ∈ w.reactor.timerQueue, HasDeadline w.log entry.id entry.deadline
  order : InOrder w.reactor.timers w.reactor.timerQueue

/-- The timers of both are the same. -/
structure SameTimers (r r' : Reactor) : Prop where
  timers : r'.timers = r.timers
  timerQueue : r'.timerQueue = r.timerQueue
  nextTimer : r'.nextTimer = r.nextTimer

theorem HasDeadline.lt {w : World} {batch : List TimerId} (h : Timed batch w) {id : TimerId}
    {deadline : TimePoint} (hid : HasDeadline w.log id deadline) : id < w.reactor.nextTimer := by
  obtain ⟨now, delay, hin, -⟩ := hid
  exact h.fresh _ hin id rfl

theorem Timed.waiting_lt {w : World} {batch : List TimerId} (h : Timed batch w) {id : TimerId}
    (hid : id ∈ waiting w.log) : id < w.reactor.nextTimer := by
  obtain ⟨deadline, hdeadline⟩ := mem_given.mp (mem_waiting.mp hid).1
  exact hdeadline.lt h

namespace Timed

variable {batch : List TimerId} {w : World}

/-- An event that is about no timer. -/
theorem keep (h : Timed batch w) {r : Reactor} (hr : SameTimers w.reactor r) {e : Event}
    (he : e.timer = none) : Timed batch { reactor := r, log := w.log ++ [e] } where
  fresh e' he' id hid := by
    rw [hr.nextTimer]
    rcases List.mem_append.mp he' with hold | hlast
    · exact h.fresh e' hold id hid
    · rw [List.mem_singleton.mp hlast, he] at hid
      cases hid
  once := by
    rw [given_snoc (not_adds he)]
    exact h.once
  ranOnce := by
    rw [ran_snoc]
    · exact h.ranOnce
    · rintro id rfl
      cases he
  collected := by
    rw [waiting_snoc he]
    exact h.collected
  collected_nodup := h.collected_nodup
  timers := by
    rw [waiting_snoc he, hr.timers]
    exact h.timers
  timers_nodup := by
    rw [hr.timers]
    exact h.timers_nodup
  queued := by
    rw [hr.timerQueue]
    exact fun entry hentry => (h.queued entry hentry).grow _
  order := by
    rw [hr.timers, hr.timerQueue]
    exact h.order

/-- A timer that is given. -/
theorem after (h : Timed batch w) (now : TimePoint) (delay : Int) :
    Timed batch (w.act (.after now delay)) := by
  have hnew : ∀ e ∈ w.log, e.timer ≠ some w.reactor.nextTimer := fun e he hid =>
    Nat.lt_irrefl _ (h.fresh e he _ hid)
  have hlt : ∀ id ∈ waiting w.log, id ≠ w.reactor.nextTimer := fun id hid =>
    Nat.ne_of_lt (h.waiting_lt hid)
  have hwaiting : ∀ id, id ∈ waiting (w.act (.after now delay)).log ↔
      id ∈ waiting w.log ∨ id = w.reactor.nextTimer := fun id => mem_waiting_given hnew now delay
  refine ⟨?_, ?_, ?_, ?_, h.collected_nodup, ?_, ?_, ?_, ?_⟩
  · intro e he id hid
    rcases List.mem_append.mp he with hold | hlast
    · exact Nat.lt_succ_of_lt (h.fresh e hold id hid)
    · rw [List.mem_singleton.mp hlast] at hid
      obtain rfl := Option.some.inj hid
      exact Nat.lt_succ_self _
  · have hgiven : given (w.act (.after now delay)).log = given w.log ++ [w.reactor.nextTimer] := by
      unfold given
      exact List.filterMap_append
    rw [hgiven]
    refine List.nodup_append.mpr ⟨h.once, List.nodup_singleton _, fun id hid other hother heq => ?_⟩
    obtain ⟨deadline, hdeadline⟩ := mem_given.mp hid
    rw [heq, List.mem_singleton.mp hother] at hdeadline
    exact Nat.lt_irrefl _ (hdeadline.lt h)
  · have hran : ran (w.act (.after now delay)).log = ran w.log := ran_snoc nofun
    rw [hran]
    exact h.ranOnce
  · exact fun id hid => (hwaiting id).mpr (Or.inl (h.collected id hid))
  · intro id
    have hnone : w.reactor.nextTimer ∉ batch := fun hin => hlt _ (h.collected _ hin) rfl
    have htimers : id ∈ (w.act (.after now delay)).reactor.timers ↔
        id ∈ w.reactor.timers ∨ id = w.reactor.nextTimer := by
      rw [← List.mem_singleton]
      exact List.mem_append
    rw [htimers, hwaiting, h.timers]
    constructor
    · rintro (⟨hold, hout⟩ | rfl)
      · exact ⟨Or.inl hold, hout⟩
      · exact ⟨Or.inr rfl, hnone⟩
    · rintro ⟨hold | rfl, hout⟩
      · exact Or.inl ⟨hold, hout⟩
      · exact Or.inr rfl
  · refine List.nodup_append.mpr ⟨h.timers_nodup, List.nodup_singleton _,
      fun id hid other hother => ?_⟩
    rw [List.mem_singleton.mp hother]
    exact hlt id ((h.timers id).mp hid).1
  · intro entry hentry
    rcases (List.mem_orderedInsert _).mp hentry with rfl | hold
    · exact ⟨now, delay, List.mem_append_right _ (List.mem_singleton_self _), rfl⟩
    · exact (h.queued entry hold).grow _
  · have hother : ∀ other ∈ w.reactor.timerQueue, other.id ≠
        (⟨now + max delay 0 * nanosPerMilli, w.reactor.nextTimer⟩ : TimerEntry).id :=
      fun other hother => Nat.ne_of_lt ((h.queued other hother).lt h)
    exact h.order.insert hother

/-- A timer that waits is cancelled or runs: its entry stays in the queue. -/
theorem ended (h : Timed batch w) {batch' : List TimerId} (hsub : batch'.Sublist batch) {e : Event}
    {id : TimerId} (he : e = .cancel id true ∨ e = .runTimer id) (hid : id ∈ waiting w.log)
    (hout : id ∉ batch') {timers : List TimerId} (hkept : timers.Sublist w.reactor.timers)
    (htimers : ∀ other, other ∈ timers ↔ other ∈ waiting w.log ∧ other ≠ id ∧ other ∉ batch') :
    Timed batch' { reactor := { w.reactor with timers }, log := w.log ++ [e] } := by
  have hadds : ∀ other, ¬ e.Adds other := by
    rintro other ⟨now, delay, rfl⟩
    rcases he with he | he <;> cases he
  refine ⟨?_, ?_, ?_, ?_, h.collected_nodup.sublist hsub, ?_, h.timers_nodup.sublist hkept, ?_,
    h.order.sub fun other hother => hkept.subset hother⟩
  · intro e' he' other hother
    rcases List.mem_append.mp he' with hold | hlast
    · exact h.fresh e' hold other hother
    · have htimer : e.timer = some id := by
        rcases he with rfl | rfl <;> rfl
      rw [List.mem_singleton.mp hlast, htimer] at hother
      obtain rfl := Option.some.inj hother
      exact h.waiting_lt hid
  · rw [given_snoc hadds]
    exact h.once
  · rcases he with rfl | rfl
    · rw [ran_snoc fun other => by simp]
      exact h.ranOnce
    · have hran : ran (w.log ++ [.runTimer id]) = ran w.log ++ [id] := by
        unfold ran
        exact List.filterMap_append
      rw [hran]
      refine List.nodup_append.mpr ⟨h.ranOnce, List.nodup_singleton _,
        fun other hother last hlast => ?_⟩
      rw [List.mem_singleton.mp hlast]
      rintro rfl
      exact (mem_waiting.mp hid).2.2 (mem_ran.mp hother)
  · intro other hother
    rw [mem_waiting_ended he]
    refine ⟨h.collected other (hsub.subset hother), ?_⟩
    rintro rfl
    exact hout hother
  · intro other
    rw [mem_waiting_ended he, htimers, and_assoc]
  · exact fun entry hentry => (h.queued entry hentry).grow _

theorem cancel (h : Timed batch w) {timer : TimerId} (hin : timer ∈ w.reactor.timers) :
    Timed batch (w.act (.cancel timer)) := by
  have hanswer : (w.reactor.perform (.cancel timer)).2 = .cancel timer true := by
    unfold Reactor.perform Reactor.cancel
    simp [hin]
  obtain ⟨hwaiting, hout⟩ := (h.timers timer).mp hin
  have hends := h.ended (List.Sublist.refl batch) (Or.inl hanswer) hwaiting hout
    (List.filter_sublist (p := fun other => decide (other ≠ timer))) ?_
  · exact hends
  · intro other
    rw [List.mem_filter, h.timers, decide_eq_true_eq]
    tauto

/-- The next timer of the batch. -/
theorem runTimer {id : TimerId} (h : Timed (id :: batch) w) :
    Timed batch (w.note (.runTimer id)) := by
  have hout : id ∉ batch := (List.nodup_cons.mp h.collected_nodup).1
  refine h.ended (List.sublist_cons_self id batch) (Or.inr rfl) (h.collected id List.mem_cons_self)
    hout (List.Sublist.refl _) fun other => ?_
  rw [h.timers, List.mem_cons, not_or]

end Timed

/-- A call that gives no timer and ends none. -/
theorem perform_same {r : Reactor} {a : Action} (hafter : ∀ now delay, a ≠ .after now delay)
    (hcancel : ∀ timer ∈ r.timers, a ≠ .cancel timer) :
    SameTimers r (r.perform a).1 ∧ (r.perform a).2.timer = none := by
  cases a with
  | watch nonBlocking added =>
    unfold Reactor.perform Reactor.watch
    cases nonBlocking with
    | error e => exact ⟨⟨rfl, rfl, rfl⟩, rfl⟩
    | ok _ =>
      cases added with
      | error e => exact ⟨⟨rfl, rfl, rfl⟩, rfl⟩
      | ok _ => exact ⟨⟨rfl, rfl, rfl⟩, rfl⟩
  | modify token modified =>
    refine ⟨?_, rfl⟩
    change SameTimers r (r.modify token modified).1
    unfold Reactor.modify
    split_ifs <;> exact ⟨rfl, rfl, rfl⟩
  | unwatch token removed =>
    refine ⟨?_, rfl⟩
    change SameTimers r (r.unwatch token removed).1
    unfold Reactor.unwatch
    split_ifs <;> exact ⟨rfl, rfl, rfl⟩
  | after now delay => exact absurd rfl (hafter now delay)
  | cancel timer =>
    have hout : timer ∉ r.timers := fun hin => hcancel timer hin rfl
    unfold Reactor.perform Reactor.cancel
    have hsame : r.timers.filter (· ≠ timer) = r.timers := by
      refine List.filter_eq_self.mpr fun other hother => ?_
      simpa using fun heq : other = timer => hout (heq ▸ hother)
    refine ⟨⟨hsame, rfl, rfl⟩, ?_⟩
    simp [hout, Event.timer]
  | watchChild pid watched =>
    refine ⟨?_, rfl⟩
    change SameTimers r (r.watchChild pid watched).1
    unfold Reactor.watchChild
    split_ifs
    · exact ⟨rfl, rfl, rfl⟩
    · cases watched <;> exact ⟨rfl, rfl, rfl⟩
  | unwatchChild pid unwatched =>
    refine ⟨?_, rfl⟩
    change SameTimers r (r.unwatchChild pid unwatched).1
    unfold Reactor.unwatchChild
    split_ifs <;> exact ⟨rfl, rfl, rfl⟩
  | onSignal =>
    refine ⟨?_, rfl⟩
    change SameTimers r r.onSignal.1
    unfold Reactor.onSignal
    split_ifs <;> exact ⟨rfl, rfl, rfl⟩

namespace World

variable {batch : List TimerId} {b : Handlers} {w : World}

theorem act_timed (a : Action) (h : Timed batch w) : Timed batch (w.act a) := by
  by_cases hafter : ∃ now delay, a = .after now delay
  · obtain ⟨now, delay, rfl⟩ := hafter
    exact h.after now delay
  · by_cases hcancel : ∃ timer ∈ w.reactor.timers, a = .cancel timer
    · obtain ⟨timer, hin, rfl⟩ := hcancel
      exact h.cancel hin
    · obtain ⟨hsame, hnone⟩ := perform_same (r := w.reactor)
        (fun now delay heq => hafter ⟨now, delay, heq⟩) fun timer hin heq =>
          hcancel ⟨timer, hin, heq⟩
      exact h.keep hsame hnone

theorem acts_timed (as : List Action) (h : Timed batch w) : Timed batch (w.acts as) := by
  induction as generalizing w with
  | nil => exact h
  | cons a as ih => exact ih (act_timed a h)

/-- A handler that is not a timer's. -/
theorem invoke_timed (h : Timed batch w) {w' : World} (e : Event) (he : e.timer = none)
    (hlog : w'.log = w.log) (hr : SameTimers w.reactor w'.reactor) :
    Timed batch (w'.invoke b e) := by
  have hnoted := h.keep hr he
  rw [← hlog] at hnoted
  exact acts_timed _ hnoted

/-- The timers of the batch run, whatever their handlers call. -/
theorem fire_timed (h : Timed batch w) : Timed [] (w.fire b batch) := by
  induction batch generalizing w with
  | nil => exact h
  | cons id batch ih => exact ih (acts_timed _ h.runTimer)

theorem drop_timed (h : Timed batch w) :
    Timed batch { w with reactor := w.reactor.dropCancelled } :=
  { h with
    queued := fun entry hentry => h.queued entry ((List.dropWhile_sublist _).subset hentry)
    order := h.order.drop }

theorem poll_timed (round : Round) (h : Timed batch w) : Timed batch (w.poll round) := by
  unfold poll
  have hnoted := (drop_timed h).keep ⟨rfl, rfl, rfl⟩
    (e := .wait (w.reactor.waitBudget round.timeout round.waitAt).2) rfl
  rw [← Reactor.waitBudget_fst w.reactor round.timeout round.waitAt] at hnoted
  exact hnoted

theorem dispatchChild_timed (pid : ProcessId) (h : Timed batch w) :
    Timed batch (w.dispatchChild b pid) := by
  unfold dispatchChild
  split_ifs
  · exact invoke_timed h (.runChild pid) rfl rfl ⟨rfl, rfl, rfl⟩
  · exact h

theorem dispatchSignal_timed (signal : os.Signal) (h : Timed batch w) :
    Timed batch (w.dispatchSignal b signal) := by
  unfold dispatchSignal
  split_ifs
  · exact invoke_timed h (.runSignal signal) rfl rfl ⟨rfl, rfl, rfl⟩
  · exact h

theorem dispatch_timed (event : PollEvent) (h : Timed batch w) : Timed batch (w.dispatch b event) :=
  dispatch_keeps (fun _ => dispatchChild_timed) (fun _ => dispatchSignal_timed)
    (fun token readiness _ h => invoke_timed h (.runIo token readiness) rfl rfl ⟨rfl, rfl,
      rfl⟩) event h

theorem dispatched_timed (round : Round) (ready : List PollEvent) (h : Timed batch w) :
    Timed batch (w.dispatched b round ready) :=
  foldl_keeps (fun _ event => dispatch_timed event) ready (poll_timed round h)

/-! ## Due timers -/

theorem mem_timers (h : Timed [] w) {id : TimerId} :
    id ∈ w.reactor.timers ↔ id ∈ waiting w.log := by
  rw [h.timers]
  exact and_iff_left List.not_mem_nil

/-- The timers that a round collects wait, and their deadline is reached. -/
theorem mem_due (h : Timed [] w) {now : TimePoint} {id : TimerId} :
    id ∈ w.due now ↔
      ∃ deadline, HasDeadline w.log id deadline ∧ deadline ≤ now ∧ id ∈ waiting w.log := by
  unfold due
  rw [(h.order.collectDue_eq now).1, List.mem_map]
  simp only [List.mem_filter, decide_eq_true_eq, mem_timers h]
  constructor
  · rintro ⟨entry, ⟨hentry, hwaiting, hreached⟩, rfl⟩
    exact ⟨entry.deadline, h.queued entry hentry, hreached, hwaiting⟩
  · rintro ⟨deadline, hdeadline, hreached, hwaiting⟩
    obtain ⟨entry, hentry, rfl⟩ := h.order.live id ((mem_timers h).mpr hwaiting)
    rw [hdeadline.unique h.once (h.queued entry hentry)] at hreached
    exact ⟨entry, ⟨hentry, hwaiting, hreached⟩, rfl⟩

/-- They run by their deadlines, and by their ids where these are the same. -/
theorem due_sorted (h : Timed [] w) (now : TimePoint) :
    (w.due now).Pairwise fun id id' => ∀ deadline deadline', HasDeadline w.log id deadline →
      HasDeadline w.log id' deadline' → deadline < deadline' ∨ deadline = deadline' ∧ id < id' := by
  unfold due
  rw [(h.order.collectDue_eq now).1, List.pairwise_map]
  have hboth : w.reactor.timerQueue.Pairwise fun a b => ¬ a.gt b = true ∧ a.id ≠ b.id :=
    h.order.sorted.and (List.pairwise_map.mp h.order.distinct)
  refine ((hboth.imp_of_mem ?_).sublist List.filter_sublist)
  intro entry entry' hentry hentry' hpair deadline deadline' hd hd'
  obtain rfl := hd.unique h.once (h.queued entry hentry)
  obtain rfl := hd'.unique h.once (h.queued entry' hentry')
  have hle := Prod.Lex.toLex_le_toLex.mp (TimerEntry.not_gt_iff.mp hpair.1)
  exact hle.imp_right fun heq => ⟨heq.1, lt_of_le_of_ne heq.2 hpair.2⟩

theorem collect_timed (now : TimePoint) (h : Timed [] w) : Timed (w.due now) (w.collect now) := by
  obtain ⟨-, htimers, horder⟩ := h.order.collectDue_eq now
  have hwaiting : ∀ id ∈ w.due now, id ∈ waiting w.log := fun id hid => by
    obtain ⟨deadline, -, -, hwaiting⟩ := (mem_due h).mp hid
    exact hwaiting
  have hmem : ∀ id, id ∈ (w.collect now).reactor.timers ↔
      id ∈ w.reactor.timers ∧ id ∉ w.due now := by
    intro id
    change id ∈ (Reactor.collectDue now w.reactor.timers w.reactor.timerQueue).1 ↔ _
    rw [htimers, List.mem_filter, decide_eq_true_eq]
    rfl
  refine ⟨h.fresh, h.once, h.ranOnce, hwaiting, Reactor.collectDue_nodup _ _ _,
    fun id => ?_, ?_, ?_,
    horder⟩
  · rw [hmem, mem_timers h]
    rfl
  · change (Reactor.collectDue now w.reactor.timers w.reactor.timerQueue).1.Nodup
    rw [htimers]
    exact h.timers_nodup.filter _
  · intro entry hentry
    exact h.queued entry ((InOrder.collectDue_suffix _ _ _).subset hentry)

theorem fireDueTimers_timed (now : TimePoint) (h : Timed [] w) : Timed [] (w.fireDueTimers b now) :=
  fire_timed (collect_timed now h)

theorem step_timed (input : Input) (h : Timed [] w) : Timed [] (w.step b input) := by
  cases input with
  | act a => exact act_timed a h
  | round round =>
    cases hready : round.ready with
    | error e =>
      rw [step_failed hready]
      exact poll_timed round h
    | ok ready =>
      rw [step_round hready]
      exact fireDueTimers_timed _ (dispatched_timed round ready h)

theorem run_timed (inputs : List Input) (h : Timed [] w) : Timed [] (w.run b inputs) := by
  induction inputs generalizing w with
  | nil => exact h
  | cons input inputs ih => exact ih (step_timed input h)

theorem create_timed (signals : Bool) : Timed [] (create signals) := by
  have hempty : (create signals).reactor.timers = [] ∧
      (create signals).reactor.timerQueue = [] := by
    cases signals <;> exact ⟨rfl, rfl⟩
  refine ⟨nofun, List.nodup_nil, List.nodup_nil, nofun, List.nodup_nil, ?_, ?_, ?_, ?_⟩
  · intro id
    rw [hempty.1]
    exact iff_of_false List.not_mem_nil fun hid => List.not_mem_nil hid.1
  · rw [hempty.1]
    exact List.nodup_nil
  · rw [hempty.2]
    exact nofun
  · rw [hempty.1, hempty.2]
    exact ⟨List.Pairwise.nil, List.nodup_nil, nofun⟩

/-! ## What runs in a round -/

theorem ran_act (a : Action) : ran (w.act a).log = ran w.log := by
  refine ran_snoc fun id => ?_
  cases a <;> exact nofun

theorem ran_acts (as : List Action) : ran (w.acts as).log = ran w.log := by
  induction as generalizing w with
  | nil => rfl
  | cons a as ih => exact ih.trans (ran_act a)

theorem ran_invoke {e : Event} (he : ∀ id, e ≠ .runTimer id) : ran (w.invoke b e).log = ran w.log :=
  (ran_acts _).trans (ran_snoc he)

theorem ran_dispatchChild (pid : ProcessId) : ran (w.dispatchChild b pid).log = ran w.log := by
  unfold dispatchChild
  split_ifs
  · exact ran_invoke nofun
  · rfl

theorem ran_dispatchSignal (signal : os.Signal) :
    ran (w.dispatchSignal b signal).log = ran w.log := by
  unfold dispatchSignal
  split_ifs
  · exact ran_invoke nofun
  · rfl

theorem ran_dispatch (event : PollEvent) : ran (w.dispatch b event).log = ran w.log :=
  dispatch_keeps (p := fun w' => ran w'.log = ran w.log)
    (fun _ pid h => (ran_dispatchChild pid).trans h)
    (fun _ signal h => (ran_dispatchSignal signal).trans h)
    (fun _ _ _ _ => ran_invoke nofun) event rfl

theorem ran_poll (round : Round) : ran (w.poll round).log = ran w.log := ran_snoc nofun

/-- No timer runs before the handlers of the other events did. -/
theorem ran_dispatched (round : Round) (ready : List PollEvent) :
    ran (w.dispatched b round ready).log = ran w.log :=
  foldl_keeps (p := fun w' => ran w'.log = ran w.log)
    (fun _ event h => (ran_dispatch event).trans h) ready (ran_poll round)

theorem ran_fire (due : List TimerId) : ran (w.fire b due).log = ran w.log ++ due := by
  induction due generalizing w with
  | nil => rw [fire_nil, List.append_nil]
  | cons id due ih =>
    have hone : ran (w.invoke b (.runTimer id)).log = ran w.log ++ [id] := by
      refine (ran_acts _).trans ?_
      unfold ran note
      exact List.filterMap_append
    rw [fire_cons, ih, hone, List.append_assoc, List.singleton_append]

/-- A round runs the timers that it collected, and what they add goes behind. -/
theorem fireDueTimers_spec (h : Timed [] w) (now : TimePoint) :
    ∃ later, (w.fireDueTimers b now).log = w.log ++ later ∧ ran later = w.due now ∧
      ∀ id ∈ given later, id ∉ w.due now := by
  obtain ⟨later, hlater⟩ : (w.collect now).Grows (w.fireDueTimers b now) :=
    Grows.foldl (fun w id => Grows.invoke b w _) _ _
  have hlog : (w.fireDueTimers b now).log = w.log ++ later := hlater
  refine ⟨later, hlog, ?_, fun id hid hdue => ?_⟩
  · have hran : ran (w.fireDueTimers b now).log = ran w.log ++ w.due now := ran_fire _
    rw [hlog] at hran
    unfold ran at hran ⊢
    rw [List.filterMap_append] at hran
    exact List.append_cancel_left hran
  · -- an id is given once
    have honce := (fireDueTimers_timed (b := b) now h).once
    rw [hlog] at honce
    unfold given at honce
    rw [List.filterMap_append] at honce
    obtain ⟨deadline, hdeadline, -⟩ := (mem_due h).mp hdue
    exact (List.nodup_append.mp honce).2.2 id (mem_given.mpr ⟨deadline, hdeadline⟩) id hid rfl

theorem ran_round {round : Round} {ready : List PollEvent} (h : round.ready = .ok ready) :
    ran (w.step b (.round round)).log = ran w.log ++
      (w.dispatched b round ready).due round.fireAt := by
  have hfire : ran ((w.dispatched b round ready).fireDueTimers b round.fireAt).log =
      ran (w.dispatched b round ready).log ++ (w.dispatched b round ready).due round.fireAt :=
        ran_fire _
  rw [step_round h, hfire, ran_dispatched]

/-! ## Rounds before -/

/-- A round of the run came to its timers at or after the deadline, when the timer was given. -/
def Reached (signals : Bool) (b : Handlers) (inputs : List Input) (id : TimerId)
    (deadline : TimePoint) : Prop :=
  ∃ before round ready behind, inputs = before ++ .round round :: behind ∧ round.ready = .ok ready ∧
    HasDeadline (((create signals).run b before).dispatched b round ready).log id deadline ∧
    deadline ≤ round.fireAt

section

variable {signals : Bool} {inputs : List Input} {id : TimerId} {deadline : TimePoint}

theorem run_append (inputs inputs' : List Input) :
    w.run b (inputs ++ inputs') = (w.run b inputs).run b inputs' := List.foldl_append

theorem Reached.later (h : Reached signals b inputs id deadline) (inputs' : List Input) :
    Reached signals b (inputs ++ inputs') id deadline := by
  obtain ⟨before, round, ready, behind, rfl, hrest⟩ := h
  refine ⟨before, round, ready, behind ++ inputs', ?_, hrest⟩
  rw [List.append_assoc, List.cons_append]

theorem round_timed (inputs : List Input) (round : Round) (ready : List PollEvent) :
    Timed [] (((create signals).run b inputs).dispatched b round ready) :=
  dispatched_timed round ready (run_timed inputs (create_timed signals))

/-- The timers that ran: a round before reached their deadline. -/
theorem reached_of_ran (h : id ∈ ran ((create signals).run b inputs).log) :
    ∃ deadline, Reached signals b inputs id deadline := by
  induction inputs using List.reverseRecOn with
  | nil => cases signals <;> cases h
  | append_singleton inputs input ih =>
    rw [run_append] at h
    change id ∈ ran (((create signals).run b inputs).step b input).log at h
    have hbefore : id ∈ ran ((create signals).run b inputs).log →
        ∃ deadline, Reached signals b (inputs ++ [input]) id deadline := fun hold => by
      obtain ⟨deadline, hreached⟩ := ih hold
      exact ⟨deadline, hreached.later _⟩
    cases input with
    | act a =>
      rw [show ran (((create signals).run b inputs).step b (.act a)).log = _ from ran_act a] at h
      exact hbefore h
    | round round =>
      cases hready : round.ready with
      | error e =>
        rw [step_failed hready, ran_poll] at h
        exact hbefore h
      | ok ready =>
        rw [ran_round hready, List.mem_append] at h
        rcases h with hold | hdue
        · exact hbefore hold
        · obtain ⟨deadline, hdeadline, hle, -⟩ := (mem_due (round_timed inputs round ready)).mp hdue
          exact ⟨deadline, inputs, round, ready, [], rfl, hready, hdeadline, hle⟩

theorem Grows.hasDeadline {w w' : World} (h : w.Grows w') (hd : HasDeadline w.log id deadline) :
    HasDeadline w'.log id deadline := by
  obtain ⟨later, hlater⟩ := h
  rw [hlater]
  exact hd.grow later

theorem Grows.mem {w w' : World} (h : w.Grows w') {e : Event} (he : e ∈ w.log) : e ∈ w'.log := by
  obtain ⟨later, hlater⟩ := h
  rw [hlater]
  exact List.mem_append_left _ he

/-- A timer that is not cancelled ran in the first round that reached its deadline, if any did. -/
theorem Reached.ran (h : Reached signals b inputs id deadline) :
    HasDeadline ((create signals).run b inputs).log id deadline ∧
      (.cancel id true ∉ ((create signals).run b inputs).log →
        .runTimer id ∈ ((create signals).run b inputs).log) := by
  obtain ⟨before, round, ready, behind, rfl, hready, hdeadline, hle⟩ := h
  have htimed : Timed [] (((create signals).run b before).dispatched b round ready) :=
    round_timed before round ready
  have hrun : (create signals).run b (before ++ .round round :: behind) =
      (((create signals).run b before).step b (.round round)).run b behind := by
    rw [run_append]
    rfl
  have hrest : ((((create signals).run b before).dispatched b round ready).fireDueTimers b
      round.fireAt).Grows ((create signals).run b (before ++ .round round :: behind)) := by
    rw [hrun, step_round hready]
    exact Grows.foldl (step_grows b) _ behind
  have hfire : (((create signals).run b before).dispatched b round ready).Grows
      ((((create signals).run b before).dispatched b round ready).fireDueTimers b
        round.fireAt) := by
    obtain ⟨later, hlater, -⟩ := fireDueTimers_spec (b := b) htimed round.fireAt
    exact ⟨later, hlater⟩
  refine ⟨(hfire.trans hrest).hasDeadline hdeadline, fun hcancel => ?_⟩
  by_cases hran : .runTimer id ∈ (((create signals).run b before).dispatched b round ready).log
  · exact (hfire.trans hrest).mem hran
  · have hwaiting : id ∈ waiting (((create signals).run b before).dispatched b round ready).log :=
      mem_waiting.mpr ⟨mem_given.mpr ⟨deadline, hdeadline⟩,
        fun hin => hcancel ((hfire.trans hrest).mem hin), hran⟩
    have hdue := (mem_due htimed).mpr ⟨deadline, hdeadline, hle, hwaiting⟩
    refine hrest.mem (mem_ran.mp ?_)
    rw [← step_round hready, ran_round hready]
    exact List.mem_append_right _ hdue

/-- What a round runs: the timers whose deadline it is the first to reach, unless they are cancelled
by then. -/
theorem mem_due_iff {round : Round} {ready : List PollEvent} :
    id ∈ (((create signals).run b inputs).dispatched b round ready).due round.fireAt ↔
      ∃ deadline,
        HasDeadline (((create signals).run b inputs).dispatched b round ready).log id deadline ∧
        deadline ≤ round.fireAt ∧
        .cancel id true ∉ (((create signals).run b inputs).dispatched b round ready).log ∧
        ¬ Reached signals b inputs id deadline := by
  have htimed : Timed [] (((create signals).run b inputs).dispatched b round ready) :=
    round_timed inputs round ready
  have hgrows : ((create signals).run b inputs).Grows
      (((create signals).run b inputs).dispatched b round ready) :=
    Grows.trans ⟨_, rfl⟩ (Grows.foldl (dispatch_grows b) _ ready)
  rw [mem_due htimed]
  refine exists_congr fun deadline => and_congr_right fun hdeadline => and_congr_right fun _ => ?_
  rw [mem_waiting]
  constructor
  · rintro ⟨-, hcancel, hrun⟩
    refine ⟨hcancel, fun hreached => hrun (hgrows.mem (hreached.ran.2 ?_))⟩
    exact fun hin => hcancel (hgrows.mem hin)
  · rintro ⟨hcancel, hnot⟩
    refine ⟨mem_given.mpr ⟨deadline, hdeadline⟩, hcancel, fun hrun => ?_⟩
    rw [← mem_ran, ran_dispatched] at hrun
    obtain ⟨deadline', hreached⟩ := reached_of_ran hrun
    have hsame := (hgrows.hasDeadline hreached.ran.1).unique htimed.once hdeadline
    exact hnot (hsame ▸ hreached)

end

end World

/-! ## The wait -/

/-- The time to a deadline, rounded up to a millisecond. -/
theorem untilDeadline_le (deadline now : TimePoint) :
    Reactor.untilDeadline deadline now ≤ max 0 ⌈((deadline - now : ℤ) : ℚ) /
      (nanosPerMilli : ℤ)⌉ := by
  unfold Reactor.untilDeadline
  split_ifs with hpassed
  · exact le_max_left _ _
  · refine le_max_of_le_right (Int.le_ceil_iff.mpr ?_)
    have hpos : (0 : ℚ) < (nanosPerMilli : ℤ) := by
      norm_num [nanosPerMilli]
    have hmul :=
      Int.ediv_mul_le (deadline - now + (nanosPerMilli - 1)) (b := nanosPerMilli) (by decide)
    have hlt : ((deadline - now + (nanosPerMilli - 1)) / nanosPerMilli - 1) * nanosPerMilli <
        deadline - now := by
      rw [sub_mul, one_mul]
      linarith
    rw [lt_div_iff₀ hpos]
    exact_mod_cast hlt

theorem untilDeadline_mono {deadline deadline' : TimePoint} (h : deadline ≤ deadline')
    (now : TimePoint) :
    Reactor.untilDeadline deadline now ≤ Reactor.untilDeadline deadline' now := by
  have hpos : 0 < nanosPerMilli := by decide
  unfold Reactor.untilDeadline
  split_ifs with hpassed hpassed' hpassed'
  · exact le_rfl
  · refine Int.ediv_nonneg ?_ hpos.le
    linarith [not_le.mp hpassed']
  · exact absurd (le_trans h hpassed') hpassed
  · refine Int.ediv_le_ediv hpos ?_
    linarith

/-- The wait ends in time for each timer that waits. -/
theorem waitBudget_le {w : World} (h : Timed [] w) (timeout : Option Int) (now : TimePoint)
    {id : TimerId} (hid : id ∈ waiting w.log) {deadline : TimePoint}
    (hdeadline : HasDeadline w.log id deadline) :
    ∃ budget, (w.reactor.waitBudget timeout now).2 = some budget ∧
      budget ≤ Reactor.untilDeadline deadline now := by
  have hdrop := World.drop_timed h
  obtain ⟨entry, hentry, rfl⟩ := hdrop.order.live id ((World.mem_timers hdrop).mpr hid)
  obtain rfl := hdeadline.unique h.once (hdrop.queued entry hentry)
  unfold Reactor.waitBudget
  change entry ∈ w.reactor.dropCancelled.timerQueue at hentry
  have hsorted := hdrop.order.sorted
  change w.reactor.dropCancelled.timerQueue.Pairwise _ at hsorted
  dsimp only
  cases hqueue : w.reactor.dropCancelled.timerQueue with
  | nil =>
    rw [hqueue] at hentry
    cases hentry
  | cons top queue =>
    rw [hqueue] at hentry hsorted
    have hle : top.deadline ≤ entry.deadline := by
      rcases List.mem_cons.mp hentry with rfl | hlater
      · exact le_rfl
      · exact TimerEntry.deadline_le ((List.pairwise_cons.mp hsorted).1 entry hlater)
    cases timeout with
    | none => exact ⟨_, rfl, untilDeadline_mono hle now⟩
    | some budget => exact ⟨_, rfl, (min_le_right _ _).trans (untilDeadline_mono hle now)⟩

/-- Without a timer that waits it is the caller's. -/
theorem waitBudget_idle {w : World} (h : Timed [] w) (timeout : Option Int) (now : TimePoint)
    (hnone : waiting w.log = []) : (w.reactor.waitBudget timeout now).2 = timeout := by
  have hempty : w.reactor.dropCancelled.timerQueue = [] := by
    refine List.dropWhile_eq_nil_iff.mpr fun entry _ => ?_
    rw [decide_eq_true_eq, World.mem_timers h, hnone]
    exact List.not_mem_nil
  unfold Reactor.waitBudget
  dsimp only
  rw [hempty]

/-- The map of handlers is as long as the timers that wait. -/
theorem pendingTimers_eq {w : World} (h : Timed [] w) :
    w.reactor.pendingTimers = (waiting w.log).length := by
  have hperm : w.reactor.timers.Perm (waiting w.log) :=
    (List.perm_ext_iff_of_nodup h.timers_nodup (h.once.filter _)).mpr fun _ => World.mem_timers h
  exact hperm.length_eq

/-- Whatever the handlers call, and whatever the clock says: no timer runs twice, and outside of its
rounds none runs. A round runs the timers whose deadline it is the first to reach, if they were
given and not cancelled when it came to its timers, by their deadlines and then their ids; one that
they add waits for another round. The map holds the timers that were neither cancelled nor run, and
the wait is no longer than the time to the deadline of any of them, rounded up to a millisecond. -/
theorem timers_are_exact (signals : Bool) (b : Handlers) (inputs : List World.Input) :
    let w := (World.create signals).run b inputs
    (ran w.log).Nodup ∧ w.reactor.pendingTimers = (waiting w.log).length ∧
      (∀ a, ran (w.step b (.act a)).log = ran w.log) ∧
      (∀ (round : World.Round) (e : Error), round.ready = .error e →
        ran (w.step b (.round round)).log = ran w.log) ∧
      (∀ (round : World.Round) (ready : List World.PollEvent), round.ready = .ok ready →
        ∃ later, (w.step b (.round round)).log = (w.dispatched b round ready).log ++ later ∧
          ran (w.dispatched b round ready).log = ran w.log ∧
          (∀ id, id ∈ ran later ↔
            ∃ deadline, HasDeadline (w.dispatched b round ready).log id deadline ∧
              deadline ≤ round.fireAt ∧ .cancel id true ∉ (w.dispatched b round ready).log ∧
              ¬ World.Reached signals b inputs id deadline) ∧
          ((ran later).Pairwise fun id id' => ∀ deadline deadline',
            HasDeadline (w.dispatched b round ready).log id deadline →
            HasDeadline (w.dispatched b round ready).log id' deadline' →
              deadline < deadline' ∨ deadline = deadline' ∧ id < id') ∧
          ∀ id ∈ given later, id ∉ ran later) ∧
      ∀ (timeout : Option Int) (now : TimePoint),
        (waiting w.log = [] → (w.reactor.waitBudget timeout now).2 = timeout) ∧
        ∀ id ∈ waiting w.log, ∀ deadline, HasDeadline w.log id deadline →
          ∃ budget, (w.reactor.waitBudget timeout now).2 = some budget ∧
            budget ≤ max 0 ⌈((deadline - now : ℤ) : ℚ) / (nanosPerMilli : ℤ)⌉ := by
  intro w
  have htimed : Timed [] w := World.run_timed inputs (World.create_timed signals)
  refine ⟨htimed.ranOnce, pendingTimers_eq htimed, fun a => World.ran_act a, ?_, ?_, ?_⟩
  · intro round e hready
    rw [World.step_failed hready]
    exact World.ran_poll round
  · intro round ready hready
    have hround : Timed [] (w.dispatched b round ready) := World.dispatched_timed round ready htimed
    obtain ⟨later, hlater, hran, hadded⟩ := World.fireDueTimers_spec (b := b) hround round.fireAt
    rw [World.step_round hready]
    refine ⟨later, hlater, World.ran_dispatched round ready, fun id => ?_, ?_, ?_⟩
    · rw [hran]
      exact World.mem_due_iff
    · rw [hran]
      exact World.due_sorted hround round.fireAt
    · rw [hran]
      exact hadded
  · intro timeout now
    refine ⟨waitBudget_idle htimed timeout now, fun id hid deadline hdeadline => ?_⟩
    obtain ⟨budget, hbudget, hle⟩ := waitBudget_le htimed timeout now hid hdeadline
    exact ⟨budget, hbudget, hle.trans (untilDeadline_le deadline now)⟩

/-- The handler of timer 1 adds a timer without delay and cancels timer 4. -/
def addsAndCancels : Handlers := fun log =>
  if log.getLast? = some (.runTimer 1) then [.after 5000000 0, .cancel 4] else []

/-- Four timers, and a round that reaches three of them. -/
def fourTimers : List World.Input :=
  [.act (.after 0 5), .act (.after 0 5), .act (.after 0 3), .act (.after 0 9),
    .round ⟨none, 0, .ok [], 5000000⟩]

theorem a_round_of_three :
    ((World.create false).run addsAndCancels fourTimers).log =
        [.after 1 0 5, .after 2 0 5, .after 3 0 3, .after 4 0 9, .wait (some 3), .runTimer 3,
          .runTimer 1, .after 5 5000000 0, .cancel 4 true, .runTimer 2] ∧
      ((World.create false).run addsAndCancels fourTimers).reactor.pendingTimers = 1 ∧
      ran (((World.create false).run addsAndCancels fourTimers).step addsAndCancels
          (.round ⟨none, 5000000, .error ⟨.Interrupted, 4, "poller.wait"⟩, 0⟩)).log = [3, 1, 2] ∧
      (((World.create false).run addsAndCancels fourTimers).step addsAndCancels
          (.round ⟨none, 5000000, .ok [], 5000001⟩)).log =
        (((World.create false).run addsAndCancels fourTimers).dispatched addsAndCancels
          ⟨none, 5000000, .ok [], 5000001⟩ []).log ++ [.runTimer 5] ∧
      ∃ deadline ≤ 5000001, ¬ World.Reached false addsAndCancels fourTimers 5 deadline := by
  have hlaws := timers_are_exact false addsAndCancels fourTimers
  have hlog : ((World.create false).run addsAndCancels fourTimers).log =
      [.after 1 0 5, .after 2 0 5, .after 3 0 3, .after 4 0 9, .wait (some 3), .runTimer 3,
        .runTimer 1, .after 5 5000000 0, .cancel 4 true, .runTimer 2] := by decide
  obtain ⟨-, hpending, -, hfailed, hround, -⟩ := hlaws
  have hstep : (((World.create false).run addsAndCancels fourTimers).step addsAndCancels
        (.round ⟨none, 5000000, .ok [], 5000001⟩)).log =
      (((World.create false).run addsAndCancels fourTimers).dispatched addsAndCancels
        ⟨none, 5000000, .ok [], 5000001⟩ []).log ++ [.runTimer 5] := by decide
  refine ⟨hlog, ?_, ?_, hstep, ?_⟩
  · rw [hpending, hlog]
    decide
  · rw [hfailed ⟨none, 5000000, .error ⟨.Interrupted, 4, "poller.wait"⟩, 0⟩ _ rfl, hlog]
    decide
  · obtain ⟨later, hlater, -, hran, -⟩ := hround ⟨none, 5000000, .ok [], 5000001⟩ [] rfl
    have hsame : [.runTimer 5] = later := List.append_cancel_left (hstep.symm.trans hlater)
    obtain ⟨deadline, -, hle, -, hfirst⟩ := (hran 5).mp (hsame ▸ List.mem_singleton_self 5)
    exact ⟨deadline, hle, hfirst⟩

end psx.runtime
