-- Whole runs of a local chain: the outcome is told once, when every child is accounted and the
-- final stdout is closed, and the stdin takes the bytes in the order in which they were given.
import PipeShellX.Pipeline.LocalRunnerLaws

namespace psx.pipeline.LocalRunner

open psx.os (ExitStatus Interest Waits)

variable {r r' : LocalRunner} {n : Nat}

/-! ## The outcome -/

/-- The outcome that an event tells. -/
def Event.told : Event → Option Outcome
  | .complete outcome => some outcome
  | _ => none

/-- Every child is accounted, and the final stdout is closed. -/
def Over (r : LocalRunner) : Prop :=
  r.finalClosed = true ∧ ∀ child ∈ r.children, child.exited = true

instance (r : LocalRunner) : Decidable r.Over := inferInstanceAs (Decidable (_ ∧ _))

/-- A chain of `n` stages that told its outcome if it is done, and whose end may still be
noticed. -/
structure Settling (r : LocalRunner) (n : Nat) : Prop where
  length : r.children.length = n
  counted : r.exitedCount = r.children.countP (·.exited)
  over_ : r.done = true → r.Over
  armed : r.onComplete = !r.done
  told : r.log.filterMap Event.told = if r.done then [r.outcome] else []

/-- A chain between two events. -/
structure Settled (r : LocalRunner) (n : Nat) : Prop extends Settling r n where
  noticed : r.Over → r.done = true

theorem Settling.all_exited (h : r.Settling n) :
    r.exitedCount = r.children.length ↔ ∀ child ∈ r.children, child.exited = true := by
  rw [h.counted, List.countP_eq_length]

/-- An event that tells nothing and leaves the children alone. -/
theorem Settling.aside (h : r.Settling n) (hchildren : r'.children = r.children)
    (hcount : r'.exitedCount = r.exitedCount) (hdone : r'.done = r.done)
    (hcallback : r'.onComplete = r.onComplete)
    (hclosed : r.finalClosed = true → r'.finalClosed = true)
    (hlog : ∃ more, r'.log = r.log ++ more ∧ more.filterMap Event.told = []) : r'.Settling n := by
  obtain ⟨more, hlog, hmore⟩ := hlog
  refine ⟨hchildren ▸ h.length, by rw [hcount, hchildren, h.counted], fun hd => ?_,
    by rw [hcallback, hdone, h.armed], ?_⟩
  · obtain ⟨hfinal, hall⟩ := h.over_ (hdone.symm.trans hd)
    exact ⟨hclosed hfinal, hchildren ▸ hall⟩
  · have houtcome : r'.outcome = r.outcome := by unfold outcome; rw [hchildren]
    rw [hlog, List.filterMap_append, hmore, List.append_nil, h.told, hdone, houtcome]

theorem Settled.aside (h : r.Settled n) (hchildren : r'.children = r.children)
    (hcount : r'.exitedCount = r.exitedCount) (hdone : r'.done = r.done)
    (hcallback : r'.onComplete = r.onComplete) (hclosed : r'.finalClosed = r.finalClosed)
    (hlog : ∃ more, r'.log = r.log ++ more ∧ more.filterMap Event.told = []) : r'.Settled n := by
  refine ⟨h.toSettling.aside hchildren hcount hdone hcallback (fun hc => hclosed.trans hc) hlog, ?_⟩
  rintro ⟨hfinal, hall⟩
  rw [hdone]
  exact h.noticed ⟨hclosed.symm.trans hfinal, hchildren ▸ hall⟩

theorem Settling.finishIfDone (h : r.Settling n) : r.finishIfDone.Settled n := by
  unfold LocalRunner.finishIfDone
  by_cases hwait : r.done ∨ ¬ r.finalClosed ∨ r.exitedCount ≠ r.children.length
  · rw [if_pos hwait]
    refine ⟨h, fun ⟨hfinal, hall⟩ => ?_⟩
    rcases hwait with hdone | hopen | hcount
    · exact hdone
    · exact absurd hfinal hopen
    · exact absurd (h.all_exited.mpr hall) hcount
  · rw [if_neg hwait]
    push Not at hwait
    obtain ⟨hdone, hfinal, hcount⟩ := hwait
    have hrunning : r.done = false := by simpa using hdone
    have hover : r.Over := ⟨hfinal, h.all_exited.mp hcount⟩
    have harmed : r.onComplete = true := by rw [h.armed, hrunning, Bool.not_false]
    have htold : r.log.filterMap Event.told = [] := by rw [h.told, hrunning]; rfl
    dsimp only
    rw [if_pos harmed]
    refine ⟨⟨h.length, h.counted, fun _ => hover, rfl, ?_⟩, fun _ => rfl⟩
    unfold note
    dsimp only
    rw [List.filterMap_append, htold]
    rfl

theorem Settling.closeFinal (h : r.Settling n) : r.closeFinal.Settled n := by
  unfold LocalRunner.closeFinal
  apply Settling.finishIfDone
  exact h.aside rfl rfl rfl rfl (fun _ => rfl) ⟨[], by simp, rfl⟩

theorem Settled.onChildExit (h : r.Settled n) {index : Nat} (hi : index < r.children.length)
    (waits : Waits) : (r.onChildExit index waits).Settled n := by
  unfold LocalRunner.onChildExit
  by_cases hexited : (r.child index).exited = true
  · rw [if_pos hexited]
    exact h
  · rw [if_neg hexited]
    apply Settling.finishIfDone
    have hrunning : r.done = false := by
      by_contra hdone
      have hall := (h.over_ (by simpa using hdone)).2 (r.child index) (by
        unfold child
        rw [List.getD_eq_getElem _ _ hi]
        exact List.getElem_mem hi)
      exact hexited hall
    have hcount := Counts.countP_modify (·.exited) (Child.reaped (waits.status {})) ({} : Child) hi
    have hwas : (r.children.getD index {}).exited = false := by simpa [child] using hexited
    simp only [hwas, Child.reaped, Bool.toNat_false, Bool.toNat_true] at hcount
    refine ⟨(List.length_modify ..).trans h.length, by rw [h.counted]; exact hcount.symm,
      fun hdone => ?_, h.armed, ?_⟩
    · exact absurd (hrunning.symm.trans hdone) Bool.false_ne_true
    · have htold := h.told
      rw [hrunning] at htold
      dsimp only
      rw [htold, hrunning]
      rfl

theorem Settled.cancel (h : r.Settled n) (wait : Nat → Result ExitStatus) :
    (r.cancel wait).Settled n := by
  unfold LocalRunner.cancel
  by_cases hdone : r.done = true
  · rw [if_pos hdone]
    exact h
  · rw [if_neg hdone]
    apply Settling.closeFinal
    have hrunning : r.done = false := by simpa using hdone
    have hsound : r.dropStdin.Sound := by
      refine follows_dropStdin.sound ⟨h.counted, fun outcome hmem => ?_⟩
      have hnone := h.told
      rw [hrunning] at hnone
      have hin : outcome ∈ r.log.filterMap Event.told := List.mem_filterMap.mpr ⟨_, hmem, rfl⟩
      rw [hnone] at hin
      cases hin
    refine ⟨List.length_mapIdx.trans h.length, (hsound.killAll wait).counted, fun hd => ?_,
      h.armed, ?_⟩
    · exact absurd (hrunning.symm.trans hd) nofun
    · have htold := h.told
      rw [hrunning] at htold
      have hmore : ∀ l : List Nat, (l.map Event.killed).filterMap Event.told = [] := by
        intro l
        simp [List.filterMap_map, Function.comp_def, Event.told]
      have hdropped : (if r.stdinOpen then [Event.dropped r.stdinBuffer, .closedStdin]
          else []).filterMap Event.told = [] := by
        split_ifs <;> rfl
      unfold killAll dropStdin
      dsimp only
      rw [List.filterMap_append, List.filterMap_append, htold, hdropped, hmore, hrunning]
      rfl

theorem Settled.rearm (h : r.Settled n) (disarmed rearmed : Bool) :
    (r.rearm disarmed rearmed).Settled n := by
  unfold LocalRunner.rearm
  split_ifs
  · exact h.aside rfl rfl rfl rfl rfl ⟨[], by simp, rfl⟩
  · exact h.closeFinal
  · exact h

theorem Settled.deliver (h : r.Settled n) (bytes : Bytes)
    (cancelled : Option (Nat → Result ExitStatus)) : (r.deliver bytes cancelled).Settled n := by
  unfold LocalRunner.deliver
  split_ifs
  · have hnoted : (r.note (.output bytes)).Settled n := h.aside rfl rfl rfl rfl rfl ⟨[_], rfl, rfl⟩
    cases cancelled with
    | none => exact hnoted
    | some wait => exact hnoted.cancel wait
  · exact h

theorem Settled.readFinal (h : r.Settled n) (disarmed rearmed : Bool) (reads : List Read)
    (bytesRead : Nat) : (LocalRunner.readFinal disarmed rearmed reads bytesRead r).Settled n := by
  induction reads generalizing r bytesRead with
  | nil => exact h.rearm disarmed rearmed
  | cons read reads ih =>
    unfold LocalRunner.readFinal
    split
    · exact h.closeFinal
    · have hdelivered := h.deliver ‹Bytes› read.cancelled
      extract_lets delivered
      split_ifs
      · exact hdelivered
      · exact hdelivered.rearm disarmed rearmed
      · exact ih hdelivered _
    · split_ifs
      · exact h.rearm disarmed rearmed
      · exact h.closeFinal

theorem Settled.onFinalReadable (h : r.Settled n) (disarmed rearmed : Bool) (reads : List Read) :
    (r.onFinalReadable disarmed rearmed reads).Settled n := by
  unfold LocalRunner.onFinalReadable
  split_ifs
  · exact h
  · have hdisarmed : { r with finalWatch := some .None }.Settled n :=
      h.aside rfl rfl rfl rfl rfl ⟨[], by simp, rfl⟩
    exact hdisarmed.readFinal ..
  · exact h.readFinal ..

theorem Settled.inwards (h : r.Settled n) (hin : Inwards r r')
    (hcallback : r'.onComplete = r.onComplete)
    (hclosed : r'.finalClosed = r.finalClosed) : r'.Settled n := by
  obtain ⟨more, hlog, hmore⟩ := hin.log
  refine h.aside hin.children hin.exitedCount hin.done hcallback hclosed ⟨more, hlog, ?_⟩
  rw [List.filterMap_eq_nil_iff]
  intro e he
  have hinward := hmore e he
  cases e <;> first | rfl | exact hinward.elim

/-! ## The stdin -/

/-- What an event takes from the buffer. -/
def Event.consumed : Event → Bytes
  | .wrote bytes | .dropped bytes => bytes
  | _ => []

/-- What an event writes to the first process. -/
def Event.written : Event → Bytes
  | .wrote bytes => bytes
  | _ => []

/-- The bytes that left the buffer, and those of them that the pipe took. -/
def taken (log : List Event) : Bytes := log.flatMap Event.consumed

/-- What was written to the first process. -/
def written (log : List Event) : Bytes := log.flatMap Event.written

theorem taken_append (a b : List Event) : taken (a ++ b) = taken a ++ taken b := List.flatMap_append

theorem written_append (a b : List Event) : written (a ++ b) = written a ++ written b :=
  List.flatMap_append

/-- The answer of a write to a pipe without a reader. -/
def Broken (write : Result Nat) : Prop := ∃ e, write = .error e ∧ e.cls ≠ .WouldBlock

/-- The stdin of a chain that was given some bytes. When all is `quiet`, none is dropped. -/
structure Fed (quiet : Prop) (r : LocalRunner) (given : Bytes) : Prop where
  account : taken r.log ++ r.stdinBuffer = given
  shut : r.stdinOpen = false → r.stdinBuffer = []
  closing : ∀ pre post, r.log = pre ++ .closedStdin :: post →
    r.stdinOpen = false ∧ taken pre = given
  ordered : written r.log <+: given
  whole : (∀ bytes, .dropped bytes ∉ r.log) → written r.log = taken r.log
  kept : quiet → ∀ bytes, .dropped bytes ∉ r.log

variable {quiet : Prop} {given : Bytes}

/-- While the stdin is open, nothing was closed yet. -/
theorem Fed.not_closed (h : Fed quiet r given) (hopen : r.stdinOpen = true) :
    .closedStdin ∉ r.log := by
  intro hmem
  obtain ⟨pre, post, heq⟩ := List.append_of_mem hmem
  exact absurd ((h.closing pre post heq).1.symm.trans hopen) nofun

/-- A change that the stdin has no part in. -/
structure Outwards (r r' : LocalRunner) : Prop where
  open_ : r'.stdinOpen = r.stdinOpen
  buffer : r'.stdinBuffer = r.stdinBuffer
  log : ∃ more, r'.log = r.log ++ more ∧ ∀ e ∈ more, ¬ e.Inward

theorem Outwards.refl (r : LocalRunner) : Outwards r r := ⟨rfl, rfl, [], by simp, by simp⟩

theorem Outwards.trans {a b c : LocalRunner} (h : Outwards a b) (h' : Outwards b c) :
    Outwards a c := by
  obtain ⟨first, hfirst, hout⟩ := h.log
  obtain ⟨second, hsecond, hout'⟩ := h'.log
  refine ⟨h'.open_.trans h.open_, h'.buffer.trans h.buffer, first ++ second, ?_, fun e he => ?_⟩
  · rw [hsecond, hfirst, List.append_assoc]
  · rcases List.mem_append.mp he with he | he
    · exact hout e he
    · exact hout' e he

theorem outward_bytes {more : List Event} (h : ∀ e ∈ more, ¬ e.Inward) :
    taken more = [] ∧ written more = [] := by
  constructor
  all_goals
    apply List.flatMap_eq_nil_iff.mpr
    intro e he
    have hout := h e he
    cases e <;> first | rfl | exact absurd trivial hout

theorem Fed.outwards (h : Fed quiet r given) (hout : Outwards r r') : Fed quiet r' given := by
  obtain ⟨more, hlog, hmore⟩ := hout.log
  obtain ⟨htaken, hwritten⟩ := outward_bytes hmore
  have hdropped : ∀ bytes, .dropped bytes ∈ r'.log ↔ .dropped bytes ∈ r.log := by
    intro bytes
    rw [hlog, List.mem_append, or_iff_left]
    exact fun hmem => hmore _ hmem trivial
  refine ⟨?_, fun hshut => ?_, fun pre post heq => ?_, ?_, fun hnone => ?_, fun hq bytes hmem => ?_⟩
  · rw [hlog, taken_append, htaken, List.append_nil, hout.buffer, h.account]
  · rw [hout.buffer, h.shut (hout.open_.symm.trans hshut)]
  · have hmem : .closedStdin ∈ r.log ++ more := by rw [← hlog, heq]; simp
    have hin : .closedStdin ∈ r.log := (List.mem_append.mp hmem).resolve_right fun hmem =>
      hmore _ hmem trivial
    obtain ⟨first, second, hsplit⟩ := List.append_of_mem hin
    obtain ⟨hshut, hgiven⟩ := h.closing first second hsplit
    refine ⟨hout.open_.trans hshut, ?_⟩
    rw [hlog] at heq
    rcases List.append_eq_append_iff.mp heq with ⟨mid, rfl, hmid⟩ | ⟨mid, hmid, hpost⟩
    · cases mid with
      | nil => exact absurd trivial (hmore .closedStdin (by rw [hmid]; simp))
      | cons x mid => exact absurd trivial (hmore .closedStdin (by rw [hmid]; simp))
    · cases mid with
      | nil => exact absurd trivial (hmore .closedStdin (by simp at hpost; simp [← hpost]))
      | cons x mid =>
        obtain ⟨rfl, -⟩ : Event.closedStdin = x ∧ post = mid ++ more := by simpa using hpost
        exact (h.closing pre mid hmid).2
  · rw [hlog, written_append, hwritten, List.append_nil]
    exact h.ordered
  · rw [hlog, written_append, taken_append, htaken, hwritten, h.whole fun bytes hmem =>
      hnone bytes ((hdropped bytes).mpr hmem)]
  · exact h.kept hq bytes ((hdropped bytes).mp hmem)

theorem outwards_finishIfDone : Outwards r r.finishIfDone := by
  unfold finishIfDone
  split_ifs
  · exact .refl r
  · extract_lets ended
    split_ifs
    · exact ⟨rfl, rfl, [_], rfl, by simp [Event.Inward]⟩
    · exact ⟨rfl, rfl, [], (List.append_nil _).symm, by simp⟩

theorem outwards_closeFinal : Outwards r r.closeFinal := by
  unfold closeFinal
  have hclosed : Outwards r { r with finalClosed := true, finalWatch := none } :=
    ⟨rfl, rfl, [], by simp, by simp⟩
  exact hclosed.trans outwards_finishIfDone

theorem outwards_onChildExit (index : Nat) (waits : Waits) :
    Outwards r (r.onChildExit index waits) := by
  unfold onChildExit
  split_ifs
  · exact .refl r
  · have hreaped : Outwards r { r with
        children := r.children.modify index (Child.reaped (waits.status {}))
        exitedCount := r.exitedCount + 1 } := ⟨rfl, rfl, [], by simp, by simp⟩
    exact hreaped.trans outwards_finishIfDone

theorem outwards_killAll (wait : Nat → Result ExitStatus) : Outwards r (r.killAll wait) := by
  refine ⟨rfl, rfl, _, rfl, fun e he => ?_⟩
  obtain ⟨index, -, rfl⟩ := List.mem_map.mp he
  simp [Event.Inward]

theorem outwards_rearm (disarmed rearmed : Bool) : Outwards r (r.rearm disarmed rearmed) := by
  unfold rearm
  split_ifs
  · exact ⟨rfl, rfl, [], by simp, by simp⟩
  · exact outwards_closeFinal
  · exact .refl r

/-! ### What a cancel drops -/

theorem Fed.dropStdin (h : Fed quiet r given) (hq : ¬ quiet) : Fed quiet r.dropStdin given := by
  unfold LocalRunner.dropStdin
  by_cases hopen : r.stdinOpen = true
  · rw [if_pos hopen]
    have hlast : taken (r.log ++ [.dropped r.stdinBuffer]) = given := by
      rw [taken_append, ← h.account]
      simp [taken, Event.consumed]
    refine ⟨?_, fun _ => rfl, fun pre post heq => ⟨rfl, ?_⟩, ?_, fun hnone => ?_, fun hquiet => ?_⟩
    · dsimp only
      rw [← h.account, taken_append]
      simp [taken, Event.consumed]
    · have hcut : r.log ++ [.dropped r.stdinBuffer] ++ [.closedStdin] =
          pre ++ .closedStdin :: post := by
        simpa using heq
      have hnew : Event.closedStdin ∉ r.log ++ [.dropped r.stdinBuffer] := by
        simpa using h.not_closed hopen
      rw [List.append_cons_inj_of_notMem hnew List.not_mem_nil] at hcut
      rw [← hcut.1, hlast]
    · dsimp only
      rw [written_append]
      simpa [written, Event.written] using h.ordered
    · exact absurd (by simp) (hnone r.stdinBuffer)
    · exact absurd hquiet hq
  · rw [if_neg hopen]
    have hshut : r.stdinOpen = false := by simpa using hopen
    have hempty := h.shut hshut
    have hout : Outwards r
        { r with stdinWatch := none, stdinOpen := false, stdinBuffer := [], log := r.log ++ [] } :=
      ⟨hshut.symm, hempty.symm, [], rfl, by simp⟩
    exact h.outwards hout

theorem Fed.cancel (h : Fed quiet r given) (hq : ¬ quiet) (wait : Nat → Result ExitStatus) :
    Fed quiet (r.cancel wait) given := by
  unfold LocalRunner.cancel
  split_ifs
  · exact h
  · exact (h.dropStdin hq).outwards ((outwards_killAll wait).trans outwards_closeFinal)

theorem Fed.readFinal (h : Fed quiet r given) (disarmed rearmed : Bool) {reads : List Read}
    (hq : (∃ read ∈ reads, read.cancelled ≠ none) → ¬ quiet) (bytesRead : Nat) :
    Fed quiet (LocalRunner.readFinal disarmed rearmed reads bytesRead r) given := by
  induction reads generalizing r bytesRead with
  | nil => exact h.outwards (outwards_rearm disarmed rearmed)
  | cons read reads ih =>
    have hrest : (∃ read ∈ reads, read.cancelled ≠ none) → ¬ quiet := fun ⟨one, hone, hcancel⟩ =>
      hq ⟨one, by simp [hone], hcancel⟩
    have hdelivered : ∀ bytes, Fed quiet (r.deliver bytes read.cancelled) given := by
      intro bytes
      unfold deliver
      split_ifs
      · have hnoted : Fed quiet (r.note (.output bytes)) given :=
          h.outwards ⟨rfl, rfl, [_], rfl, by simp [Event.Inward]⟩
        cases hcancel : read.cancelled with
        | none => exact hnoted
        | some wait => exact hnoted.cancel (hq ⟨read, by simp, by simp [hcancel]⟩) wait
      · exact h
    unfold LocalRunner.readFinal
    split
    · exact h.outwards outwards_closeFinal
    · extract_lets delivered
      split_ifs
      · exact hdelivered _
      · exact (hdelivered _).outwards (outwards_rearm disarmed rearmed)
      · exact ih (hdelivered _) hrest _
    · split_ifs
      · exact h.outwards (outwards_rearm disarmed rearmed)
      · exact h.outwards outwards_closeFinal

theorem Fed.onFinalReadable (h : Fed quiet r given) (disarmed rearmed : Bool) {reads : List Read}
    (hq : (∃ read ∈ reads, read.cancelled ≠ none) → ¬ quiet) :
    Fed quiet (r.onFinalReadable disarmed rearmed reads) given := by
  unfold LocalRunner.onFinalReadable
  split_ifs
  · exact h
  · have hdisarmed : Fed quiet { r with finalWatch := some .None } given :=
      h.outwards ⟨rfl, rfl, [], by simp, by simp⟩
    exact hdisarmed.readFinal disarmed rearmed hq 0
  · exact h.readFinal disarmed rearmed hq 0

/-! ### What a write takes -/

theorem Fed.wrote (h : Fed quiet r given) (hopen : r.stdinOpen = true)
    (hnone : ∀ bytes, .dropped bytes ∉ r.log) (count : Nat) : Fed quiet (r.wrote count) given := by
  have hwhole : written r.log = taken r.log := h.whole hnone
  have haccount : taken r.log ++ r.stdinBuffer.take count ++ r.stdinBuffer.drop count = given := by
    rw [List.append_assoc, List.take_append_drop, h.account]
  have htaken : taken (r.wrote count).log = taken r.log ++ r.stdinBuffer.take count := by
    simp [LocalRunner.wrote, note, taken, Event.consumed]
  have hwritten : written (r.wrote count).log = taken r.log ++ r.stdinBuffer.take count := by
    rw [← hwhole]
    simp [LocalRunner.wrote, note, written, Event.written]
  refine ⟨?_, fun hshut => ?_, fun pre post heq => ?_, ?_, fun _ => ?_, fun hq bytes hmem => ?_⟩
  · rw [htaken]
    exact haccount
  · exact absurd (hopen.symm.trans hshut) (by decide)
  · have hmem : .closedStdin ∈ (r.wrote count).log := by rw [heq]; simp
    exact absurd (by simpa [LocalRunner.wrote, note] using hmem) (h.not_closed hopen)
  · rw [hwritten]
    exact ⟨_, haccount⟩
  · rw [hwritten, htaken]
  · exact hnone bytes (by simpa [LocalRunner.wrote, note] using hmem)

/-- The pipe broke: the rest is dropped. -/
theorem Fed.drop (h : Fed quiet r given) (hopen : r.stdinOpen = true) (hq : ¬ quiet) :
    Fed quiet ({ r with stdinBuffer := [] }.note (.dropped r.stdinBuffer)) given := by
  unfold note
  refine ⟨?_, fun _ => rfl, fun pre post heq => ?_, ?_, fun hnone => ?_, fun hquiet => ?_⟩
  · rw [← h.account, taken_append]
    simp [taken, Event.consumed]
  · have hmem : Event.closedStdin ∈ r.log ++ [.dropped r.stdinBuffer] := by
      dsimp only at heq
      rw [heq]
      simp
    exact absurd (by simpa using hmem) (h.not_closed hopen)
  · rw [written_append]
    simpa [written, Event.written] using h.ordered
  · exact absurd (by simp) (hnone r.stdinBuffer)
  · exact absurd hquiet hq

/-- The end of the stdin, after the last byte. -/
theorem Fed.close (h : Fed quiet r given) (hopen : r.stdinOpen = true)
    (hempty : r.stdinBuffer = []) :
    Fed quiet ({ r with stdinWatch := none, stdinOpen := false }.note .closedStdin) given := by
  have haccount : taken r.log = given := by
    rw [← h.account, hempty, List.append_nil]
  unfold note
  refine ⟨?_, fun _ => hempty, fun pre post heq => ⟨rfl, ?_⟩, ?_, fun hnone => ?_,
    fun hquiet bytes hmem => ?_⟩
  · dsimp only
    rw [taken_append, haccount, hempty]
    simp [taken, Event.consumed]
  · dsimp only at heq
    rw [List.append_cons_inj_of_notMem (h.not_closed hopen) List.not_mem_nil] at heq
    rw [← heq.1, haccount]
  · rw [written_append]
    simpa [written, Event.written] using h.ordered
  · rw [written_append, taken_append, h.whole fun bytes hmem => hnone bytes (by simp [hmem])]
    simp [written, taken, Event.written, Event.consumed]
  · exact h.kept hquiet bytes (by simpa using hmem)

theorem Fed.writeLoop (h : Fed quiet r given) {writes : List (Result Nat)}
    (hstays : (∃ bytes, .dropped bytes ∈ r.log) → ∀ write ∈ writes, Broken write)
    (hq : (∃ write ∈ writes, Broken write) → ¬ quiet) :
    Fed quiet (LocalRunner.writeLoop writes r) given := by
  induction writes generalizing r with
  | nil => exact h
  | cons write writes ih =>
    unfold LocalRunner.writeLoop
    by_cases hidle : ¬ r.stdinOpen ∨ r.stdinBuffer = []
    · rw [if_pos hidle]
      exact h
    · rw [if_neg hidle]
      have hopen : r.stdinOpen = true := by
        by_contra hshut
        exact hidle (.inl hshut)
      split
      · exact h
      · rename_i count _
        have hnone : ∀ bytes, .dropped bytes ∉ r.log := by
          intro bytes hmem
          obtain ⟨e, he, -⟩ := hstays ⟨bytes, hmem⟩ (.ok count) (by simp)
          cases he
        refine ih (h.wrote hopen hnone count) (fun ⟨bytes, hmem⟩ => ?_) fun ⟨one, hone, hbroken⟩ =>
          hq ⟨one, by simp [hone], hbroken⟩
        exact absurd (by simpa [LocalRunner.wrote, note] using hmem) (hnone bytes)
      · rename_i e
        split_ifs with hblock
        · exact h
        · exact h.drop hopen (hq ⟨.error e, by simp, e, rfl, hblock⟩)

theorem Fed.drainStdin (h : Fed quiet r given) {writes : List (Result Nat)}
    (hstays : (∃ bytes, .dropped bytes ∈ r.log) → ∀ write ∈ writes, Broken write)
    (hq : (∃ write ∈ writes, Broken write) → ¬ quiet) : Fed quiet (r.drainStdin writes) given := by
  have hwritten := h.writeLoop hstays hq
  unfold LocalRunner.drainStdin
  extract_lets written
  split_ifs with hopen hempty
  · exact hwritten.close hopen hempty
  · exact hwritten.outwards ⟨rfl, rfl, [], (List.append_nil _).symm, by simp⟩
  · exact hwritten.outwards ⟨rfl, rfl, [], (List.append_nil _).symm, by simp⟩
  · exact hwritten

theorem drainStdin_shut (hshut : ¬ r.stdinOpen = true) (writes : List (Result Nat)) :
    r.drainStdin writes = r := by
  have hidle : LocalRunner.writeLoop writes r = r := by
    cases writes with
    | nil => rfl
    | cons write writes => exact if_pos (.inl hshut)
  unfold LocalRunner.drainStdin
  rw [hidle]
  exact if_pos hshut

/-- More bytes for an open stdin. -/
theorem Fed.give (h : Fed quiet r given) (hopen : r.stdinOpen = true) (bytes : Bytes) :
    Fed quiet { r with stdinBuffer := r.stdinBuffer ++ bytes } (given ++ bytes) := by
  refine ⟨?_, fun hshut => ?_, fun pre post heq => ?_, ?_, h.whole, h.kept⟩
  · rw [← h.account, List.append_assoc]
  · exact absurd (hopen.symm.trans hshut) nofun
  · have heq : r.log = pre ++ .closedStdin :: post := heq
    exact absurd (by rw [heq]; simp) (h.not_closed hopen)
  · exact h.ordered.trans (List.prefix_append given bytes)

/-! ## What an event keeps -/

/-- The answers of the pipe to the first stage. -/
def Input.writes : Input → List (Result Nat)
  | .stdinWritable writes | .writeStdin _ writes | .closeStdin writes => writes
  | _ => []

/-- The bytes that an event gives to the stdin. There is nobody to take them unless it is open. -/
def Input.gives (r : LocalRunner) : Input → Bytes
  | .writeStdin bytes _ => if r.stdinOpen then bytes else []
  | _ => []

/-- A write finds that nobody reads any more. -/
def Input.Breaks (input : Input) : Prop := ∃ write ∈ input.writes, Broken write

/-- The run is given up, from outside or by the handler of the output. -/
def Input.Cancels : Input → Prop
  | .cancel _ => True
  | .finalReadable _ _ reads => ∃ read ∈ reads, read.cancelled ≠ none
  | _ => False

/-- A pipe that broke stays broken. -/
def StaysBroken (r : LocalRunner) (input : Input) : Prop :=
  r.stdinOpen = true → (∃ bytes, .dropped bytes ∈ r.log) → ∀ write ∈ input.writes, Broken write

theorem Fed.step (h : Fed quiet r given) {input : Input} (hstays : r.StaysBroken input)
    (hq : input.Breaks ∨ input.Cancels → ¬ quiet) :
    Fed quiet (r.step input) (given ++ input.gives r) := by
  cases input with
  | finalReadable disarmed rearmed reads =>
    simp only [Input.gives, List.append_nil]
    exact h.onFinalReadable disarmed rearmed fun hcancel => hq (.inr hcancel)
  | childExit index waits =>
    simp only [Input.gives, List.append_nil]
    unfold LocalRunner.step
    dsimp only
    split_ifs
    · exact h.outwards (outwards_onChildExit index waits)
    · exact h
  | stdinWritable writes =>
    simp only [Input.gives, List.append_nil]
    unfold LocalRunner.step
    dsimp only
    by_cases hopen : r.stdinOpen = true
    · split_ifs
      · exact h.drainStdin (hstays hopen) fun hbroken => hq (.inl hbroken)
      · exact h
    · rw [drainStdin_shut hopen, ite_self]
      exact h
  | writeStdin bytes writes =>
    unfold LocalRunner.step LocalRunner.writeStdin Input.gives
    dsimp only
    by_cases hopen : r.stdinOpen = true
    · rw [if_neg (not_not_intro hopen), if_pos hopen]
      exact (h.give hopen bytes).drainStdin (hstays hopen) fun hbroken => hq (.inl hbroken)
    · rw [if_pos hopen, if_neg hopen, List.append_nil]
      exact h
  | closeStdin writes =>
    simp only [Input.gives, List.append_nil]
    unfold LocalRunner.step LocalRunner.closeStdin
    dsimp only
    by_cases hopen : r.stdinOpen = true
    · rw [if_neg (not_not_intro hopen)]
      have hpending : Fed quiet { r with stdinEndPending := true } given :=
        h.outwards ⟨rfl, rfl, [], (List.append_nil _).symm, by simp⟩
      exact hpending.drainStdin (hstays hopen) fun hbroken => hq (.inl hbroken)
    · rw [if_pos hopen]
      exact h
  | cancel wait =>
    simp only [Input.gives, List.append_nil]
    exact h.cancel (hq (.inr trivial)) wait

/-- The stdin has no part in the end of the chain. -/
theorem drainStdin_frame (writes : List (Result Nat)) :
    (r.drainStdin writes).onComplete = r.onComplete ∧
      (r.drainStdin writes).finalClosed = r.finalClosed := by
  have hloop : ∀ r : LocalRunner, (LocalRunner.writeLoop writes r).onComplete = r.onComplete ∧
      (LocalRunner.writeLoop writes r).finalClosed = r.finalClosed := by
    induction writes with
    | nil => exact fun r => ⟨rfl, rfl⟩
    | cons write writes ih =>
      intro r
      unfold LocalRunner.writeLoop
      split_ifs
      · exact ⟨rfl, rfl⟩
      · split
        · exact ⟨rfl, rfl⟩
        · exact ih _
        · split_ifs
          · exact ⟨rfl, rfl⟩
          · exact ⟨rfl, rfl⟩
  unfold LocalRunner.drainStdin
  extract_lets written
  split_ifs
  all_goals exact hloop r

theorem Settled.drainStdin (h : r.Settled n) (writes : List (Result Nat)) :
    (r.drainStdin writes).Settled n := by
  obtain ⟨hcallback, hclosed⟩ := drainStdin_frame (r := r) writes
  exact h.inwards (inwards_drainStdin writes) hcallback hclosed

theorem Settled.step (h : r.Settled n) (input : Input) : (r.step input).Settled n := by
  cases input with
  | finalReadable disarmed rearmed reads => exact h.onFinalReadable disarmed rearmed reads
  | childExit index waits =>
    unfold LocalRunner.step
    dsimp only
    split_ifs with hi
    · exact h.onChildExit hi waits
    · exact h
  | stdinWritable writes =>
    unfold LocalRunner.step
    dsimp only
    split_ifs
    · exact h.drainStdin writes
    · exact h
  | writeStdin bytes writes =>
    unfold LocalRunner.step LocalRunner.writeStdin
    dsimp only
    split_ifs
    · have hbuffered : { r with stdinBuffer := r.stdinBuffer ++ bytes }.Settled n :=
        h.aside rfl rfl rfl rfl rfl ⟨[], (List.append_nil _).symm, rfl⟩
      exact hbuffered.drainStdin writes
    · exact h
  | closeStdin writes =>
    unfold LocalRunner.step LocalRunner.closeStdin
    dsimp only
    split_ifs
    · have hpending : { r with stdinEndPending := true }.Settled n :=
        h.aside rfl rfl rfl rfl rfl ⟨[], (List.append_nil _).symm, rfl⟩
      exact hpending.drainStdin writes
    · exact h
  | cancel wait => exact h.cancel wait

/-! ## The start -/

theorem Starting.settled (h : r.Starting) (hcallback : r.onComplete = true) :
    r.Settled r.children.length := by
  have hnot : ¬ r.Over := fun ⟨hclosed, _⟩ => absurd (h.open_.symm.trans hclosed) nofun
  refine ⟨⟨rfl, h.counted, fun hdone => ?_, by rw [hcallback, h.running]; rfl, ?_⟩, fun hover =>
    absurd hover hnot⟩
  · exact absurd (h.running.symm.trans hdone) nofun
  · rw [h.running, if_neg Bool.false_ne_true, List.filterMap_eq_nil_iff]
    intro e he
    obtain ⟨index, argv, rfl⟩ := h.silent e he
    rfl

theorem Starting.fed (h : r.Starting) (hbuffer : r.stdinBuffer = []) : Fed quiet r [] := by
  have hspawned : ∀ e ∈ r.log, ¬ e.Inward := by
    intro e he
    obtain ⟨index, argv, rfl⟩ := h.silent e he
    simp [Event.Inward]
  obtain ⟨htaken, hwritten⟩ := outward_bytes hspawned
  refine ⟨by rw [htaken, hbuffer]; rfl, fun _ => hbuffer, fun pre post heq => ?_, ?_, fun _ => ?_,
    fun _ bytes hmem => ?_⟩
  · exact absurd trivial (hspawned .closedStdin (by rw [heq]; simp))
  · exact ⟨[], by rw [hwritten, List.append_nil]⟩
  · rw [hwritten, htaken]
  · exact hspawned _ hmem trivial

theorem spawnAll_frame (spawn : Nat → Result Unit) (stages : List Stage) :
    (spawnAll spawn stages r).1.onComplete = r.onComplete ∧
      (spawnAll spawn stages r).1.stdinBuffer = r.stdinBuffer ∧
      ((spawnAll spawn stages r).2 = .ok () →
        (spawnAll spawn stages r).1.children.length = r.children.length + stages.length) := by
  induction stages generalizing r with
  | nil => exact ⟨rfl, rfl, fun _ => rfl⟩
  | cons stage stages ih =>
    unfold spawnAll
    split
    · exact ⟨rfl, rfl, fun h => by cases h⟩
    · obtain ⟨hcallback, hbuffer, hlength⟩ :=
        ih (r := ({ r with children := r.children ++ [({} : Child)] }.note
        (.spawned r.children.length stage.argv)))
      refine ⟨hcallback, hbuffer, fun hok => ?_⟩
      rw [hlength hok]
      simp only [note, List.length_append, List.length_cons, List.length_nil]
      omega

theorem watchChildren_keeps (launch : Launch) {indices : List Nat} (h : r.Settled n)
    (hstart : r.Starting) (hindices : ∀ i ∈ indices, i < r.children.length) :
    (watchChildren launch indices r).1.Settled n ∧
      Outwards r (watchChildren launch indices r).1 := by
  induction indices generalizing r with
  | nil => exact ⟨h, .refl r⟩
  | cons i indices ih =>
    unfold watchChildren
    split
    · exact ih h hstart fun j hj => hindices j (by simp [hj])
    · split_ifs
      · have hi := hindices i (by simp)
        obtain ⟨hnext, hlength⟩ := hstart.onChildExit hi (launch.waits i)
        obtain ⟨hsettled, hout⟩ := ih (h.onChildExit hi (launch.waits i)) hnext
          fun j hj => hlength.symm ▸ hindices j (by simp [hj])
        exact ⟨hsettled, (outwards_onChildExit i (launch.waits i)).trans hout⟩
      · exact ⟨h, .refl r⟩

theorem spawnAll_new (spawn : Nat → Result Unit) (stages : List Stage)
    (h : ∀ child ∈ r.children, child = {}) : ∀ child ∈ (spawnAll spawn stages r).1.children,
    child = {} := by
  induction stages generalizing r with
  | nil => exact h
  | cons stage stages ih =>
    unfold spawnAll
    split
    · exact h
    · refine ih fun child hchild => ?_
      rcases List.mem_append.mp hchild with hold | hnew
      · exact h child hold
      · exact List.mem_singleton.mp hnew

/-- A chain before its children are watched. -/
structure Launched (r : LocalRunner) (stages : List Stage) : Prop where
  starting : r.Starting
  callback : r.onComplete = true
  buffer : r.stdinBuffer = []
  length : r.children.length = stages.length
  new : ∀ child ∈ r.children, child = {}

theorem run_watches {launch : Launch} {onOutput externalStdin : Bool} {stages : List Stage}
    (hrun : run launch { onOutput } stages true externalStdin = (r, .ok ())) :
    ∃ launched : LocalRunner, launched.Launched stages ∧
      watchChildren launch (List.range launched.children.length) launched = (r, .ok ()) := by
  have hnew : ({ onOutput } : LocalRunner).Starting := ⟨rfl, rfl, rfl, fun e he => by cases he⟩
  unfold run at hrun
  by_cases hstages : stages = []
  · rw [if_pos hstages] at hrun
    cases hrun
  · rw [if_neg hstages] at hrun
    dsimp only at hrun
    split at hrun
    · cases hrun
    · have hgiven : ({ onOutput, onComplete := true } : LocalRunner).Starting :=
        ⟨hnew.counted, hnew.running, hnew.open_, hnew.silent⟩
      have hspawned := hgiven.spawnAll launch.spawn stages
      have hframe :=
        spawnAll_frame (r := ({ onOutput, onComplete := true } : LocalRunner)) launch.spawn stages
      have hchildren := spawnAll_new (r := ({ onOutput, onComplete := true } : LocalRunner))
        launch.spawn stages (by simp)
      split at hrun
      · cases hrun
      · rename_i spawned heq
        rw [heq] at hspawned hframe hchildren
        obtain ⟨hcallback, hbuffer, hlength⟩ := hframe
        have hlength : spawned.children.length = stages.length := by simpa using hlength rfl
        split at hrun
        · cases hrun
        · refine ⟨{ (if externalStdin then spawned.openStdin launch else spawned) with
            finalWatch := some .Readable }, ?_, hrun⟩
          split_ifs
          · exact ⟨⟨hspawned.counted, hspawned.running, hspawned.open_, hspawned.silent⟩, hcallback,
              hbuffer, hlength, hchildren⟩
          · exact ⟨⟨hspawned.counted, hspawned.running, hspawned.open_, hspawned.silent⟩, hcallback,
              hbuffer, hlength, hchildren⟩

/-- A chain whose start succeeded. -/
theorem run_ok {launch : Launch} {onOutput externalStdin : Bool} {stages : List Stage}
    (hrun : run launch { onOutput } stages true externalStdin = (r, .ok ())) :
    r.Settled stages.length ∧ Fed quiet r [] := by
  obtain ⟨launched, h, hwatch⟩ := run_watches hrun
  have hkeeps := watchChildren_keeps launch (h.starting.settled h.callback) h.starting
    fun i (hi : i ∈ List.range launched.children.length) => List.mem_range.mp hi
  rw [hwatch] at hkeeps
  exact ⟨h.length ▸ hkeeps.1, (h.starting.fed h.buffer).outwards hkeeps.2⟩

/-! ## Whole runs -/

/-- The bytes that a run gives to a stdin that is open. -/
def accepted (r : LocalRunner) : List Input → Bytes
  | [] => []
  | input :: inputs => input.gives r ++ accepted (r.step input) inputs

/-- In every step of a run a pipe that broke stays broken. -/
def PipeStaysBroken (r : LocalRunner) : List Input → Prop
  | [] => True
  | input :: inputs => r.StaysBroken input ∧ PipeStaysBroken (r.step input) inputs

theorem foldl_keeps (h : r.Settled n) (hfed : Fed quiet r given) {inputs : List Input}
    (hstays : r.PipeStaysBroken inputs)
    (hq : ∀ input ∈ inputs, input.Breaks ∨ input.Cancels → ¬ quiet) :
    (inputs.foldl step r).Settled n ∧
      Fed quiet (inputs.foldl step r) (given ++ r.accepted inputs) := by
  induction inputs generalizing r given with
  | nil =>
    rw [accepted, List.append_nil]
    exact ⟨h, hfed⟩
  | cons input inputs ih =>
    rw [List.foldl_cons, accepted, ← List.append_assoc]
    apply ih (h.step input)
    · exact hfed.step hstays.1 (hq input (by simp))
    · exact hstays.2
    · exact fun later hlater => hq later (by simp [hlater])

/-- The outcome is told when the last child is accounted and the final stdout is closed, and only
then. The stdin takes a prefix of what it was given while it was open, all but the buffer unless
the pipe broke or the run was cancelled, and it is closed when nothing is left to write. -/
theorem the_chain_ends_once_and_takes_its_input {launch : Launch} {onOutput externalStdin : Bool}
    {stages : List Stage} (hrun : run launch { onOutput } stages true externalStdin = (r, .ok ()))
    (inputs : List Input) (hstays : r.PipeStaysBroken inputs) :
    let after := inputs.foldl step r
    after.log.filterMap Event.told = (if after.Over then [after.outcome] else []) ∧
      after.children.length = stages.length ∧
      after.exitedCount = after.children.countP (·.exited) ∧
      written after.log <+: r.accepted inputs ∧
      ((∀ input ∈ inputs, ¬ input.Breaks ∧ ¬ input.Cancels) →
        written after.log ++ after.stdinBuffer = r.accepted inputs) ∧
      taken after.log ++ after.stdinBuffer = r.accepted inputs ∧
      ∀ pre post, after.log = pre ++ .closedStdin :: post → taken pre = r.accepted inputs := by
  intro after
  have hstarted : r.Settled stages.length ∧
      Fed (∀ input ∈ inputs, ¬ input.Breaks ∧ ¬ input.Cancels) r [] := run_ok hrun
  obtain ⟨hsettled, hfed⟩ := hstarted
  obtain ⟨hdone, hafter⟩ := foldl_keeps hsettled hfed hstays fun input hmem hloud hquiet =>
    hloud.elim (hquiet input hmem).1 (hquiet input hmem).2
  have hover : after.done = true ↔ after.Over := ⟨hdone.over_, hdone.noticed⟩
  rw [List.nil_append] at hafter
  refine ⟨?_, hdone.length, hdone.counted, hafter.ordered, fun hquiet => ?_, hafter.account,
    fun pre post heq => (hafter.closing pre post heq).2⟩
  · rw [hdone.told]
    by_cases hended : after.Over
    · rw [if_pos (hover.mpr hended), if_pos hended]
    · rw [if_neg (mt hover.mp hended), if_neg hended]
  · rw [hafter.whole (hafter.kept hquiet)]
    exact hafter.account

/-- A chain that the system lets start. -/
def calmLaunch : Launch where
  pipe _ := .ok ()
  spawn _ := .ok ()
  stdinWatched := true
  finalWatched := .ok ()
  childWatched _ := .ok ()
  waits _ := ⟨.ok none, .ok {}⟩

/-- The pipe takes one byte of three, and then it breaks. -/
def brokenRun : List Input :=
  [.writeStdin [1, 2, 3] [.ok 1], .stdinWritable [.error ⟨.Closed, 32, "write"⟩],
    .finalReadable true true [{ result := .ok [9] }, { result := .ok [] }],
    .childExit 0 ⟨.ok (some ⟨.Exited, 3⟩), .ok {}⟩]

/-- One stage after its start. -/
def calm : LocalRunner where
  onComplete := true
  children := [{}]
  finalWatch := some .Readable
  stdinWatch := some .None
  stdinOpen := true
  log := [.spawned 0 [[104]]]

theorem a_broken_pipe_still_ends_the_chain :
    run calmLaunch {} [{ argv := [[104]] }] true true = (calm, .ok ()) ∧
      written (brokenRun.foldl step calm).log <+: [1, 2, 3] ∧
      (brokenRun.foldl step calm).log.filterMap Event.told = [⟨3, [3]⟩] := by
  have hrun : run calmLaunch {} [{ argv := [[104]] }] true true = (calm, .ok ()) := rfl
  have hstays : calm.PipeStaysBroken brokenRun := by
    refine ⟨fun _ ⟨bytes, hmem⟩ => ?_, fun _ _ write hmem => ?_, fun _ _ write hmem => ?_,
      fun _ _ write hmem => ?_, trivial⟩
    · simp [calm] at hmem
    · exact ⟨_, List.mem_singleton.mp hmem, by decide⟩
    · cases hmem
    · cases hmem
  have h := the_chain_ends_once_and_takes_its_input hrun brokenRun hstays
  have haccepted : calm.accepted brokenRun = [1, 2, 3] := by decide
  have hover : (brokenRun.foldl step calm).Over := by decide
  dsimp only at h
  rw [haccepted, if_pos hover] at h
  exact ⟨hrun, h.2.2.2.1, h.1.trans (by decide)⟩

/-- All bytes that a run offers, also to a stdin that is closed. -/
def offered (inputs : List Input) : Bytes :=
  inputs.flatMap fun
    | .writeStdin bytes _ => bytes
    | _ => []

/-- A write after the end of the stdin. -/
def lateWrite : List Input := [.closeStdin [], .writeStdin [1] []]

theorem a_write_after_the_end_is_ignored :
    run calmLaunch {} [{ argv := [[104]] }] true true = (calm, .ok ()) ∧
      (∀ input ∈ lateWrite, ¬ input.Breaks ∧ ¬ input.Cancels) ∧ offered lateWrite = [1] ∧
      written (lateWrite.foldl step calm).log ++ (lateWrite.foldl step calm).stdinBuffer = [] := by
  refine ⟨rfl, ?_, rfl, by decide⟩
  simp [lateWrite, Input.Breaks, Input.Cancels, Input.writes]

end psx.pipeline.LocalRunner
