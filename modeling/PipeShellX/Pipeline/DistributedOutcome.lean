-- What a remote chain delivers when no connection fails: the stdout of each stage reaches
-- the next one byte for byte, with an end after its exit, and the outcome is a function of
-- what the stages reported and of who was fenced.
import PipeShellX.Pipeline.DistributedRuns

namespace psx.pipeline.DistributedRunner

open psx.os (ExitStatus)
open psx.transport (Channel StreamId)
open Trace (Lawful)

variable {d d' : DistributedRunner} {n index : Nat} {given : Setup}

/-! ## What a log says of the data -/

namespace Event

/-- What the stdin of a stage is given, with the end flag. Data for stream 0 goes nowhere. -/
@[simp] def sends (index : Nat) : Event → Option (Bytes × Bool)
  | .sent i id bytes endStream => if i = index ∧ id ≠ 0 then some (bytes, endStream) else none
  | _ => none

/-- What a stage writes to its stdout, and its exit as an end. -/
@[simp] def arrivals (index : Nat) : Event → Option (Bytes × Bool)
  | .got i bytes .Stdout => if i = index then some (bytes, false) else none
  | .exited i _ => if i = index then some ([], true) else none
  | _ => none

/-- What an event gets of the output of a stage. -/
@[simp] def stdoutOf (index : Nat) : Event → Option Bytes
  | .got i bytes .Stdout => if i = index then some bytes else none
  | _ => none

/-- The stderr of any stage. -/
@[simp] def stderrOf : Event → Option Bytes
  | .got _ bytes .Stderr => some bytes
  | _ => none

/-- What an event hands to the caller of the output. -/
@[simp] def outputs : Event → Option Bytes
  | .output bytes => some bytes
  | _ => none

/-- What an event hands to the caller of standard error. -/
@[simp] def stderrs : Event → Option Bytes
  | .stderr bytes => some bytes
  | _ => none

end Event

/-- What was sent to a stage. -/
def sends (index : Nat) (log : List Event) : List (Bytes × Bool) :=
  log.filterMap (Event.sends index)

/-- What a stage wrote to its stdout, with its exit as an end. -/
def arrivals (index : Nat) (log : List Event) : List (Bytes × Bool) :=
  log.filterMap (Event.arrivals index)

/-- What was got of the output of a stage. -/
def stdoutOf (index : Nat) (log : List Event) : List Bytes := log.filterMap (Event.stdoutOf index)

/-- What was got of standard error. -/
def stderrOf (log : List Event) : List Bytes := log.filterMap Event.stderrOf

/-- What the caller was handed of the output. -/
def outputs (log : List Event) : List Bytes := log.filterMap Event.outputs

/-- What the caller was handed of standard error. -/
def stderrs (log : List Event) : List Bytes := log.filterMap Event.stderrs

/-- An event that none of these sees. -/
def Event.Unrouted : Event → Prop
  | .sent index .. => index = 0
  | .opened .. | .consumed .. | .null _ | .fenced _ | .complete _ | .cancelled => True
  | _ => False

/-- The data is routed: stdout into the next stdin, the last stdout to the output, and stderr
nowhere but to its own handler. -/
structure Routed (n : Nat) (given : Setup) (log : List Event) : Prop where
  stdin : ∀ i, i + 1 < n → sends (i + 1) log = arrivals i log
  output : outputs log = if given.onOutput then stdoutOf (n - 1) log else []
  stderr : stderrs log = if given.onStderr then stderrOf log else []

theorem Routed.start (n : Nat) (given : Setup) : Routed n given [] :=
  ⟨fun _ _ => rfl, by simp [outputs, stdoutOf], by simp [stderrs, stderrOf]⟩

section

variable {log more : List Event}

theorem Routed.unrouted (h : Routed n given log) (hmore : ∀ e ∈ more, e.Unrouted) :
    Routed n given (log ++ more) := by
  have hnone : ∀ {β : Type} (f : Event → Option β), (∀ e : Event, e.Unrouted → f e = none) →
      more.filterMap f = [] :=
        fun f hf => List.filterMap_eq_nil_iff.mpr fun e he => hf e (hmore e he)
  have hsends : ∀ i, more.filterMap (Event.sends (i + 1)) = [] := fun i => hnone _ fun e he => by
    cases e with
    | sent j id bytes endStream =>
      obtain rfl : j = 0 := he
      simp
    | _ => rfl
  have harrivals : ∀ i, more.filterMap (Event.arrivals i) = [] := fun i => hnone _ fun e he => by
    cases e <;> first | rfl | exact False.elim he
  have hstdout : ∀ i, more.filterMap (Event.stdoutOf i) = [] := fun i => hnone _ fun e he => by
    cases e <;> first | rfl | exact False.elim he
  have hstderr : more.filterMap Event.stderrOf = [] := hnone _ fun e he => by
    cases e <;> first | rfl | exact False.elim he
  have houtputs : more.filterMap Event.outputs = [] := hnone _ fun e he => by
    cases e <;> first | rfl | exact False.elim he
  have hstderrs : more.filterMap Event.stderrs = [] := hnone _ fun e he => by
    cases e <;> first | rfl | exact False.elim he
  refine ⟨fun i hi => ?_, ?_, ?_⟩
  · simpa [sends, arrivals, hsends, harrivals] using h.stdin i hi
  · simpa [outputs, stdoutOf, houtputs, hstdout] using h.output
  · simpa [stderrs, stderrOf, hstderrs, hstderr] using h.stderr

theorem Routed.data (h : Routed n given log) (hlen : d.conns.length = n) (hi : index < n)
    (hids : index + 1 < n → (d.conn (index + 1)).streamId ≠ 0) (hgiven : d.setup = given)
    (bytes : Bytes) (channel : Channel) (id : StreamId) (count : Nat) :
    Routed n given (log ++ ([.got index bytes channel, .consumed index id count] ++
      d.delivery index bytes channel)) := by
  have hout : d.onOutput = given.onOutput := by rw [← hgiven]; rfl
  have herr : d.onStderr = given.onStderr := by rw [← hgiven]; rfl
  cases channel with
  | Stderr =>
    have hdelivery : d.delivery index bytes .Stderr =
        if given.onStderr then [.stderr bytes] else [] := by
      rw [← herr]
      rfl
    rw [hdelivery]
    refine ⟨fun i hin => ?_, ?_, ?_⟩
    · have hsame := h.stdin i hin
      simp only [sends, arrivals] at hsame ⊢
      cases given.onStderr <;> simp [List.filterMap_cons, hsame]
    · have hsame := h.output
      simp only [outputs, stdoutOf] at hsame ⊢
      cases given.onStderr <;> simp [List.filterMap_cons, hsame]
    · have hsame := h.stderr
      simp only [stderrs, stderrOf] at hsame ⊢
      cases hhandler : given.onStderr <;> simp [List.filterMap_cons, hsame, hhandler]
  | Stdout =>
    have hdelivery : d.delivery index bytes .Stdout =
        if index + 1 < n then [.sent (index + 1) (d.conn (index + 1)).streamId bytes false]
        else if given.onOutput then [.output bytes] else [] := by
      simp [delivery, hlen, hout]
    rw [hdelivery]
    refine ⟨fun i hin => ?_, ?_, ?_⟩
    · have hsame := h.stdin i hin
      simp only [sends, arrivals] at hsame ⊢
      by_cases hnext : index + 1 < n
      · by_cases heq : index = i
        · subst heq
          simp [List.filterMap_cons, hnext, hids hnext, hsame]
        · simp [List.filterMap_cons, hnext, hsame, heq]
      · have hne : index ≠ i := by omega
        cases given.onOutput <;> simp [List.filterMap_cons, hnext, hsame, hne]
    · have hsame := h.output
      simp only [outputs, stdoutOf] at hsame ⊢
      by_cases hnext : index + 1 < n
      · have hne : index ≠ n - 1 := by omega
        simp [List.filterMap_cons, hnext, hsame, hne]
      · have heq : index = n - 1 := by omega
        rw [if_neg hnext]
        cases hhandler : given.onOutput <;>
          simp [List.filterMap_cons, hsame, ← heq, hhandler]
    · have hsame := h.stderr
      simp only [stderrs, stderrOf] at hsame ⊢
      by_cases hnext : index + 1 < n
      · simp [List.filterMap_cons, hnext, hsame]
      · cases given.onOutput <;> simp [List.filterMap_cons, hnext, hsame]

/-- The exit of the last stage ends no stdin. -/
theorem Routed.last (h : Routed n given log) (hi : n ≤ index + 1) (status : ExitStatus) :
    Routed n given (log ++ [.exited index status]) := by
  refine ⟨fun i hin => ?_, ?_, ?_⟩
  · have hsame := h.stdin i hin
    have hne : index ≠ i := by omega
    simp only [sends, arrivals] at hsame ⊢
    simp [List.filterMap_cons, hsame, hne]
  · simpa [outputs, stdoutOf, List.filterMap_cons] using h.output
  · simpa [stderrs, stderrOf, List.filterMap_cons] using h.stderr

/-- The exit of any other stage ends the stdin of the next. -/
theorem Routed.exit (h : Routed n given log) (index : Nat) (status : ExitStatus)
    (fences : List Event) (hfences : ∀ e ∈ fences, ∃ i, e = .fenced i) {id : StreamId}
    (hid : id ≠ 0) :
    Routed n given (log ++ .exited index status :: fences ++ [.sent (index + 1) id [] true]) := by
  have hnone : ∀ {β : Type} (f : Event → Option β), (∀ i, f (.fenced i) = none) →
      fences.filterMap f = [] := fun f hf => List.filterMap_eq_nil_iff.mpr fun e he => by
    obtain ⟨i, rfl⟩ := hfences e he
    exact hf i
  refine ⟨fun i hin => ?_, ?_, ?_⟩
  · have hsame := h.stdin i hin
    have hsends := hnone (Event.sends (i + 1)) fun _ => rfl
    have harrivals := hnone (Event.arrivals i) fun _ => rfl
    simp only [sends, arrivals] at hsame ⊢
    by_cases heq : index = i <;>
      simp [List.filterMap_cons, hsame, heq, hid, hsends, harrivals]
  · have houtputs := hnone Event.outputs fun _ => rfl
    have hstdout := hnone (Event.stdoutOf (n - 1)) fun _ => rfl
    simpa [outputs, stdoutOf, List.filterMap_cons, houtputs, hstdout] using h.output
  · have hstderrs := hnone Event.stderrs fun _ => rfl
    have hstderr := hnone Event.stderrOf fun _ => rfl
    simpa [stderrs, stderrOf, List.filterMap_cons, hstderrs, hstderr] using h.stderr

end

/-! ## The outcome as a function of the log -/

/-- The status that an event reports of a stage. -/
@[simp] def Event.reportOf (index : Nat) : Event → Option ExitStatus
  | .exited i status => if i = index then some status else none
  | _ => none

/-- The code that a stage counts with: the one that it reported, or that of a fenced stage. -/
def codeOf (log : List Event) (index : Nat) : Int :=
  match log.findSome? (Event.reportOf index) with
  | some status => toExitCode status
  | none => kFencedExitCode

/-- pipefail over what the stages reported. -/
def outcomeOf (n : Nat) (log : List Event) : Outcome :=
  let codes := (List.range n).map (codeOf log)
  { stageExitCodes := codes, exitCode := (codes.filter (· ≠ 0)).getLastD 0 }

theorem rightmostNonzero_eq (codes : List Int) :
    rightmostNonzero codes = (codes.filter (· ≠ 0)).getLastD 0 := by
  have hgeneral : ∀ last : Int,
      codes.foldl (fun last code => if code ≠ 0 then code else last) last =
        (codes.filter (· ≠ 0)).getLastD last := by
    induction codes with
    | nil => intro last; rfl
    | cons code codes ih =>
      intro last
      rw [List.foldl_cons, ih]
      by_cases hzero : code = 0
      · rw [if_neg (not_not.mpr hzero), List.filter_cons_of_neg (by simp [hzero])]
      · rw [if_pos hzero, List.filter_cons_of_pos (by simpa using hzero), List.getLastD_cons]
  exact hgeneral 0

theorem findSome_report {index : Nat} {log : List Event} {status : ExitStatus}
    (h : log.findSome? (Event.reportOf index) = some status) : .exited index status ∈ log := by
  obtain ⟨e, hmem, he⟩ := List.exists_of_findSome?_eq_some h
  cases e with
  | exited i status' =>
    simp only [Event.reportOf] at he
    split_ifs at he with heq
    cases he
    exact heq ▸ hmem
  | _ => cases he

theorem Stages.codeOf (h : Stages n d) (hexited : (d.conn index).exited = true) :
    (d.conn index).exitCode = DistributedRunner.codeOf d.log index := by
  unfold DistributedRunner.codeOf
  cases hreport : d.log.findSome? (Event.reportOf index) with
  | some status => exact (h.told index status (findSome_report hreport)).2.2
  | none =>
    rcases h.reason index hexited with hmem | ⟨status, hmem⟩
    · exact (h.gone index hmem).2.2
    · have hnone := List.findSome?_eq_none_iff.mp hreport _ hmem
      simp at hnone

theorem Stages.outcome (h : Stages n d) (hall : ∀ i < n, (d.conn i).exited = true) :
    d.outcome = outcomeOf n d.log := by
  have hcodes : d.conns.map (·.exitCode) = (List.range n).map (DistributedRunner.codeOf d.log) := by
    apply List.ext_getElem
    · simp [h.length]
    · intro i hlen hlen'
      have hi : i < d.conns.length := by simpa using hlen
      have hconn : d.conn i = d.conns[i] := List.getD_eq_getElem _ _ hi
      simp only [List.getElem_map, List.getElem_range]
      rw [← hconn]
      exact h.codeOf (hall i (h.length ▸ hi))
  unfold DistributedRunner.outcome outcomeOf
  rw [hcodes, rightmostNonzero_eq]

/-- The outcome itself does not change what it was made of. -/
theorem outcomeOf_tell (n : Nat) {log more : List Event}
    (hmore : ∀ e ∈ more, ∀ i, e.reportOf i = none) :
    outcomeOf n (log ++ more) = outcomeOf n log := by
  have hcodes : codeOf (log ++ more) = codeOf log := by
    funext i
    have hnone : more.findSome? (Event.reportOf i) = none :=
      List.findSome?_eq_none_iff.mpr fun e he => hmore e he i
    unfold codeOf
    rw [List.findSome?_append, hnone, Option.or_none]
  unfold outcomeOf
  rw [hcodes]

/-! ## What may happen when -/

/-- A stage is heard until it is over. It is fenced before it reports an exit, when a later
stage did or the run is cancelled, and from then on it adds nothing to the next stdin, or,
if it is the last one, to the output. -/
def Allowed (n : Nat) (log : List Event) : Event → Prop
  | .got index .. | .exited index _ =>
    .fenced index ∉ log ∧ ∀ status, .exited index status ∉ log
  | .fenced index =>
    (∀ status, .exited index status ∉ log) ∧
      ((∃ k status, index < k ∧ k < n ∧ .exited k status ∈ log) ∨ .cancelled ∈ log)
  | .sent index .. => index = 0 ∨ .fenced (index - 1) ∉ log
  | .output _ => .fenced (n - 1) ∉ log
  | _ => True

/-- An event that touches neither the data, nor who is over, nor the outcome. -/
def Event.Aside : Event → Prop
  | .sent index .. => index = 0
  | .opened .. | .consumed .. | .null _ => True
  | _ => False

theorem Event.Aside.spec {e : Event} (h : e.Aside) :
    e.Unrouted ∧ (∀ n log, Allowed n log e) ∧ e ≠ .cancelled := by
  cases e with
  | sent index id bytes endStream =>
    obtain rfl : index = 0 := h
    exact ⟨rfl, fun _ _ => .inl rfl, by simp⟩
  | opened => exact ⟨trivial, fun _ _ => trivial, by simp⟩
  | consumed => exact ⟨trivial, fun _ _ => trivial, by simp⟩
  | null => exact ⟨trivial, fun _ _ => trivial, by simp⟩
  | _ => exact False.elim h

theorem Event.Calm.aside {e : Event} (h : e.Calm) : e.Aside := by
  cases e <;> trivial

/-- A chain whose connections do not fail, in every state. -/
structure Delivers (n : Nat) (given : Setup) (d : DistributedRunner) : Prop where
  routed : Routed n given d.log
  lawful : Lawful (Allowed n) d.log
  ids : d.streamsOpen = true → ∀ i < n, (d.conn i).streamId ≠ 0
  stages : Stages n d
  down : Down d
  phase : (Going n given d ∧ (d.conn (n - 1)).exited = false ∧ .cancelled ∉ d.log) ∨
    (d.done = true ∧ (∀ i < n, (d.conn i).exited = true) ∧
      completes d.log = given.hears (outcomeOf n d.log))

/-- A step of a chain that is going on, which only adds events aside. -/
theorem Delivers.aside (h : Delivers n given d) (hlast : (d.conn (n - 1)).exited = false)
    (hcancelled : .cancelled ∉ d.log) (hgoing : Going n given d')
    (hexited : (d'.conn (n - 1)).exited = (d.conn (n - 1)).exited)
    (hids : d'.streamsOpen = true → ∀ i < n, (d'.conn i).streamId ≠ 0)
    (hlog : ∃ more, d'.log = d.log ++ more ∧ ∀ e ∈ more, e.Aside) : Delivers n given d' := by
  obtain ⟨more, hlog, hmore⟩ := hlog
  refine ⟨?_, ?_, hids, hgoing.stages, hgoing.down, .inl ⟨hgoing, hexited.trans hlast, ?_⟩⟩
  · rw [hlog]
    exact h.routed.unrouted fun e he => (hmore e he).spec.1
  · rw [hlog]
    refine h.lawful.extend fun pre e post heq => ?_
    exact (hmore e (by simp [heq])).spec.2.1 n _
  · rw [hlog, mem_tell fun hmem => (hmore _ hmem).spec.2.2 rfl]
    exact hcancelled

/-! ## The streams -/

theorem use_conns (d : DistributedRunner) (index : Nat) (e : Event) :
    (d.use index e).conns = d.conns := by
  unfold use
  split_ifs <;> rfl

theorem feedFirst_conns (d : DistributedRunner) : d.feedFirst.conns = d.conns := by
  unfold feedFirst sendData
  by_cases hexternal : d.externalStdin
  · rw [if_neg (not_not.mpr hexternal)]
    dsimp only
    split_ifs
    · rw [use_conns, use_conns]
    · rw [use_conns]
    · rw [use_conns]
    · rfl
  · rw [if_pos hexternal, use_conns]

/-- Every stage in `indices` has its stream once all are opened. -/
theorem opened_ids (opens : Nat → StreamId) (indices : List Nat) :
    (indices.foldl (openStream opens) d).conns.length = d.conns.length ∧
      ∀ i < d.conns.length, i ∈ indices ∨ (d.conn i).streamId = opens i →
        ((indices.foldl (openStream opens) d).conn i).streamId = opens i := by
  induction indices generalizing d with
  | nil => exact ⟨rfl, fun i _ h => by simpa using h⟩
  | cons j indices ih =>
    have hlen : (openStream opens d j).conns.length = d.conns.length := by
      simp [openStream, modify, use_conns]
    have hconn : ∀ i < d.conns.length, ((openStream opens d j).conn i).streamId =
        if i = j then opens i else (d.conn i).streamId := by
      intro i hi
      have hsame : ∀ e, (d.use j e).conn i = d.conn i := fun e => by
        simp only [conn, use_conns]
      by_cases hj : j < d.conns.length
      · unfold openStream
        rw [conn_modify _ (by rw [use_conns]; exact hj), hsame]
        split_ifs with heq
        · rw [heq]
          rfl
        · rfl
      · rw [if_neg (by omega)]
        unfold openStream modify
        rw [List.modify_eq_self (by rw [use_conns]; omega)]
        exact congrArg Conn.streamId (hsame _)
    obtain ⟨hlast, hids⟩ := ih (d := openStream opens d j)
    refine ⟨hlast.trans hlen, fun i hi h => hids i (hlen.symm ▸ hi) ?_⟩
    rw [hconn i hi]
    by_cases heq : i = j
    · exact .inr (if_pos heq)
    · rw [if_neg heq]
      rcases h with hmem | hid
      · exact .inl ((List.mem_cons.mp hmem).resolve_left heq)
      · exact .inr hid

theorem ready_ids (opens : Nat → StreamId) (hrunning : d.done = false)
    (hclosed : d.streamsOpen = false) (hopen : (d.onConnReady opens index).streamsOpen = true) :
    ∀ i < d.conns.length, ((d.onConnReady opens index).conn i).streamId = opens i := by
  intro i hi
  obtain ⟨r, hr⟩ : ∃ r, r = d.onConnReady opens index := ⟨_, rfl⟩
  rw [← hr] at hopen ⊢
  unfold onConnReady at hr
  rw [if_neg (by simp [hrunning])] at hr
  extract_lets cleared counted opened at hr
  by_cases hwait : counted.readyCount ≠ counted.conns.length
  · rw [if_pos hwait] at hr
    rw [hr, show counted.streamsOpen = d.streamsOpen from rfl, hclosed] at hopen
    cases hopen
  · rw [if_neg hwait] at hr
    have hlen : counted.conns.length = d.conns.length := by
      simp [counted, cleared, modify]
    have hids := (opened_ids (d := counted) opens (List.range counted.conns.length)).2 i
      (hlen.symm ▸ hi) (.inl (List.mem_range.mpr (hlen.symm ▸ hi)))
    have hsame : r.conn i = opened.conn i := by
      simp only [hr, conn, feedFirst_conns]
    rw [hsame]
    exact hids

/-- Feeding the first stage adds one event aside, whether its session is there or not. -/
theorem feed_aside (d : DistributedRunner) (bytes : Bytes) (endStream : Bool) :
    (d.sendData 0 bytes endStream).conns = d.conns ∧
      (d.sendData 0 bytes endStream).streamsOpen = d.streamsOpen ∧
      ∃ more, (d.sendData 0 bytes endStream).log = d.log ++ more ∧ ∀ e ∈ more, e.Aside := by
  unfold sendData use
  split_ifs
  · exact ⟨rfl, rfl, [.sent 0 (d.conn 0).streamId bytes endStream], rfl, by simp [Event.Aside]⟩
  · exact ⟨rfl, rfl, [.null 0], rfl, by simp [Event.Aside]⟩

/-! ## One step of a chain without errors -/

theorem fences_allowed {log : List Event} (hlog : Lawful (Allowed n) log)
    (htold : ∀ i < index, (d.conn i).exited = false → ∀ status, .exited i status ∉ log)
    (hcause : (∃ status, .exited index status ∈ log ∧ index < n) ∨ .cancelled ∈ log) :
    Lawful (Allowed n) (log ++ d.fences index) := by
  refine hlog.extend fun pre e post heq => ?_
  have hmem : e ∈ d.fences index := by simp [heq]
  obtain ⟨i, hlt, hrunning, rfl⟩ := mem_fences.mp hmem
  refine ⟨fun status htold' => ?_, ?_⟩
  · rcases List.mem_append.mp htold' with hold | hpre
    · exact htold i hlt hrunning status hold
    · have hfence : .exited i status ∈ d.fences index := by simp [heq, hpre]
      obtain ⟨j, -, -, hne⟩ := mem_fences.mp hfence
      cases hne
  · rcases hcause with ⟨status, hmem, hin⟩ | hmem
    · exact .inl ⟨index, status, hlt, hin, List.mem_append_left _ hmem⟩
    · exact .inr (List.mem_append_left _ hmem)

theorem fences_unrouted (d : DistributedRunner) (index : Nat) :
    ∀ e ∈ d.fences index, e.Unrouted := by
  intro e he
  obtain ⟨i, -, -, rfl⟩ := mem_fences.mp he
  trivial

theorem fence_streamId (conn : Conn) : conn.fence.streamId = conn.streamId := by
  unfold Conn.fence
  split_ifs <;> rfl

/-- The end of a run: whatever ended it, its log has one more outcome. -/
theorem delivers_finish {f : DistributedRunner} (hrouted : Routed n given f.log)
    (hlawful : Lawful (Allowed n) f.log)
    (hids : f.streamsOpen = true → ∀ i < n, (f.conn i).streamId ≠ 0)
    (hstages : Stages n f) (hdown : Down f) (hall : ∀ i < n, (f.conn i).exited = true)
    (hrunning : f.done = false) (hsetup : f.setup = given)
    (hsilent : ∀ outcome, .complete outcome ∉ f.log) :
    Delivers n given (f.finish f.outcome) := by
  obtain ⟨hdone, hheard⟩ := finish_ends hrunning hsetup hsilent f.outcome
  have hfinish := finish_running hrunning f.outcome
  obtain ⟨more, hlog, hmore⟩ : ∃ more, (f.finish f.outcome).log = f.log ++ more ∧
      ∀ e ∈ more, ∃ outcome, e = .complete outcome := by
    refine ⟨if f.onComplete then [.complete f.outcome] else [], by rw [hfinish], fun e he => ?_⟩
    split_ifs at he
    · exact ⟨_, List.mem_singleton.mp he⟩
    · cases he
  have hconn : ∀ i, (f.finish f.outcome).conn i = f.conn i := fun i => by rw [hfinish]; rfl
  refine ⟨?_, ?_, ?_, ?_, ?_, .inr ⟨hdone, fun i hi => ?_, ?_⟩⟩
  · rw [hlog]
    refine hrouted.unrouted fun e he => ?_
    obtain ⟨outcome, rfl⟩ := hmore e he
    trivial
  · rw [hlog]
    refine hlawful.extend fun pre e post heq => ?_
    obtain ⟨outcome, rfl⟩ := hmore e (by simp [heq])
    trivial
  · intro hopen i hi
    rw [hconn]
    rw [hfinish] at hopen
    exact hids hopen i hi
  · refine hstages.same (by rw [hfinish]) (fun i => by rw [hconn]) (fun i => by rw [hconn])
      (fun i => by rw [hconn]) (fun i => by rw [hconn]) ⟨more, hlog, fun e he => ?_⟩
    obtain ⟨outcome, rfl⟩ := hmore e he
    exact id
  · intro i k hlt hover
    rw [hconn] at hover ⊢
    exact hdown i k hlt hover
  · rw [hconn]
    exact hall i hi
  · rw [hheard, hlog, outcomeOf_tell n fun e he i => ?_, hstages.outcome hall]
    obtain ⟨outcome, rfl⟩ := hmore e he
    rfl

/-- Where the data of a stage goes is open to it until it is fenced. -/
theorem delivery_allowed {log : List Event} (hlen : d.conns.length = n) (hi : index < n)
    (hnone : .fenced index ∉ log) {bytes : Bytes} {channel : Channel} {e : Event}
    (he : e ∈ d.delivery index bytes channel) : Allowed n log e := by
  unfold delivery at he
  split_ifs at he with hstderr hhandler hin houtput
  · rw [List.mem_singleton.mp he]
    trivial
  · cases he
  · rw [List.mem_singleton.mp he]
    exact .inr hnone
  · rw [List.mem_singleton.mp he]
    have heq : n - 1 = index := by omega
    change .fenced (n - 1) ∉ log
    rwa [heq]
  · cases he

theorem Delivers.data (h : Delivers n given d) (hgoing : Going n given d)
    (hlast : (d.conn (n - 1)).exited = false) (hcancelled : .cancelled ∉ d.log)
    (hlive : d.live index = true) (bytes : Bytes) (channel : Channel) :
    Delivers n given (d.onData index bytes channel) := by
  obtain ⟨htransport, hopen, -, hexited⟩ := live_spec hlive
  have hi : index < n := hgoing.stages.length ▸ lt_of_live hlive
  have hnone : .fenced index ∉ d.log := fun hmem => by
    rw [(hgoing.stages.gone index hmem).2.1] at hexited
    cases hexited
  have hquiet : ∀ status, .exited index status ∉ d.log := fun status hmem => by
    rw [(hgoing.stages.told index status hmem).2.1] at hexited
    cases hexited
  have hdelivery := delivery_plain d index bytes channel
  have hplain : ∀ e ∈ [Event.got index bytes channel,
      .consumed index (d.conn index).streamId bytes.length] ++ d.delivery index bytes channel,
      e.Plain := by
    intro e he
    simp only [List.mem_append, List.mem_cons, List.not_mem_nil, or_false] at he
    rcases he with (rfl | rfl) | he
    · trivial
    · trivial
    · exact hdelivery e he
  have hnext := hgoing.tell hplain
  rw [hgoing.onData hlive]
  refine ⟨?_, ?_, h.ids, hnext.stages, hnext.down, .inl ⟨hnext, hlast, ?_⟩⟩
  · exact h.routed.data hgoing.stages.length hi (fun hin => h.ids hopen _ hin) hgoing.setup ..
  · have hgot : Allowed n d.log (.got index bytes channel) := ⟨hnone, hquiet⟩
    have htold : Lawful (Allowed n) (d.log ++ [.got index bytes channel,
        .consumed index (d.conn index).streamId bytes.length]) := by
      rw [← List.singleton_append, ← List.append_assoc]
      exact (h.lawful.snoc hgot).snoc trivial
    rw [← List.append_assoc]
    refine htold.extend fun pre e post heq => ?_
    refine delivery_allowed hgoing.stages.length hi (fun hmem => ?_) (by rw [heq]; simp)
    rcases List.mem_append.mp hmem with hmem | hmem
    · exact hnone (by simpa using hmem)
    · exact hdelivery (.fenced index) (by rw [heq]; simp [hmem])
  · rw [mem_tell fun hmem => ?_]
    · exact hcancelled
    · rcases List.mem_append.mp hmem with hmem | hmem
      · simp at hmem
      · unfold delivery at hmem
        split_ifs at hmem <;> simp at hmem

theorem overtaken_streamId (hi : index < d.conns.length) (status : ExitStatus) (i : Nat) :
    ((d.overtaken index status).conn i).streamId = (d.conn i).streamId := by
  rw [conn_overtaken hi]
  split_ifs
  · exact fence_streamId _
  · rfl
  · rfl

theorem Delivers.exit (h : Delivers n given d) (hgoing : Going n given d)
    (hlast : (d.conn (n - 1)).exited = false) (hcancelled : .cancelled ∉ d.log)
    (hlive : d.live index = true) (status : ExitStatus) :
    Delivers n given (d.onExit index status) := by
  obtain ⟨-, hopen, -, hexited⟩ := live_spec hlive
  have hlt : index < d.conns.length := lt_of_live hlive
  have hi : index < n := hgoing.stages.length ▸ hlt
  have hnone : .fenced index ∉ d.log := fun hmem => by
    rw [(hgoing.stages.gone index hmem).2.1] at hexited
    cases hexited
  have hquiet : ∀ i, (d.conn i).exited = false → ∀ status, .exited i status ∉ d.log :=
    fun i hrunning status hmem => by
      rw [(hgoing.stages.told i status hmem).2.1] at hrunning
      cases hrunning
  have hover := hgoing.overtaken hlive status
  have hlog := overtaken_log hlt status
  have hexit : Allowed n d.log (.exited index status) := ⟨hnone, hquiet index hexited⟩
  have hlawful : Lawful (Allowed n) (d.overtaken index status).log := by
    rw [hlog, ← List.singleton_append, ← List.append_assoc]
    refine fences_allowed (h.lawful.snoc hexit) (fun i hlt hrunning status' hmem => ?_)
      (.inl ⟨status, by simp, hi⟩)
    rcases List.mem_append.mp hmem with hmem | hmem
    · exact hquiet i hrunning status' hmem
    · have heq : i = index := by simp at hmem; exact hmem.1
      omega
  have hids : (d.overtaken index status).streamsOpen = true →
      ∀ i < n, ((d.overtaken index status).conn i).streamId ≠ 0 := by
    intro hopen i hin
    rw [overtaken_streamId hlt]
    exact h.ids hopen i hin
  rw [hgoing.onExit hlive]
  split_ifs with hnext
  · -- the next stage is told that its stdin has ended
    have hsent : Going n given ((d.overtaken index status).note
        (.sent (index + 1) (d.conn (index + 1)).streamId [] true)) :=
      hover.tell (by simp [Event.Plain])
    refine ⟨?_, ?_, hids, hsent.stages, hsent.down, .inl ⟨hsent, ?_, ?_⟩⟩
    · have hrouted := h.routed.exit index status (d.fences index)
        (fun e he => (mem_fences.mp he).imp fun i hi => hi.2.2) (h.ids hopen _ hnext)
      simpa [note, hlog] using hrouted
    · refine hlawful.snoc (.inr fun hmem => ?_)
      rw [hlog, List.mem_append, List.mem_cons] at hmem
      rcases hmem with hmem | hmem | hmem
      · exact hnone hmem
      · cases hmem
      · obtain ⟨j, hj, -, heq⟩ := mem_fences.mp hmem
        cases heq
        omega
    · rw [conn_note, conn_overtaken hlt, if_neg (by omega), if_neg (by omega)]
      exact hlast
    · intro hmem
      simp only [note, hlog, List.mem_append, List.mem_cons, List.not_mem_nil, or_false] at hmem
      rcases hmem with (hmem | hmem | hmem) | hmem
      · exact hcancelled hmem
      · cases hmem
      · obtain ⟨j, -, -, heq⟩ := mem_fences.mp hmem
        cases heq
      · cases hmem
  · refine delivers_finish ?_ hlawful hids hover.stages hover.down (fun i hin => ?_) hover.running
      hover.setup hover.silent
    · rw [hlog, ← List.singleton_append, ← List.append_assoc]
      exact (h.routed.last (by omega) status).unrouted (fences_unrouted d index)
    · rw [conn_overtaken hlt]
      split_ifs with hbefore heq
      · exact fence_is_exited _
      · rfl
      · omega

theorem Delivers.cancel (h : Delivers n given d) (hgoing : Going n given d) :
    Delivers n given d.cancel := by
  have hlen := hgoing.stages.length
  have hlog := abandoned_log d
  have hconn : ∀ i < n, d.abandoned.conn i = (d.conn i).fence := fun i hi =>
    conn_abandoned d (hlen.symm ▸ hi)
  have hnoted : Stages n (d.note .cancelled) := hgoing.stages.note trivial
  have hstages : Stages n d.abandoned := hnoted.fence (Nat.le_of_eq hlen)
  have hall : ∀ i < n, (d.abandoned.conn i).exited = true := fun i hi => by
    rw [hconn i hi]
    exact fence_is_exited _
  rw [hgoing.cancel]
  refine delivers_finish ?_ ?_ (fun hopen i hi => ?_) hstages (fun i k hlt hover => ?_) hall
    hgoing.running hgoing.setup fun outcome hmem => ?_
  · rw [hlog]
    refine h.routed.unrouted fun e he => ?_
    rcases List.mem_cons.mp he with rfl | he
    · trivial
    · exact fences_unrouted d _ e he
  · rw [hlog, ← List.singleton_append, ← List.append_assoc]
    refine fences_allowed (h.lawful.snoc trivial) (fun i _ hrunning status hmem => ?_)
      (.inr (by simp))
    have htold : .exited i status ∈ d.log := by simpa using hmem
    rw [(hgoing.stages.told i status htold).2.1] at hrunning
    cases hrunning
  · rw [hconn i hi, fence_streamId]
    exact h.ids hopen i hi
  · by_cases hk : k < n
    · exact hall i (by omega)
    · rw [conn_outside (by rw [hstages.length]; omega)] at hover
      cases hover
  · rw [hlog, List.mem_append, List.mem_cons] at hmem
    rcases hmem with hmem | hmem | hmem
    · exact hgoing.silent outcome hmem
    · cases hmem
    · obtain ⟨j, -, -, heq⟩ := mem_fences.mp hmem
      cases heq

/-- A connection error. -/
def Input.fails : Input → Bool
  | .error .. => true
  | _ => false

theorem Delivers.ready (h : Delivers n given d) (hgoing : Going n given d)
    (hlast : (d.conn (n - 1)).exited = false) (hcancelled : .cancelled ∉ d.log)
    {opens : Nat → StreamId} (hopens : ∀ i < n, opens i ≠ 0)
    (htransport : (d.conn index).transport = true) (hready : (d.conn index).ready = false) :
    Delivers n given (d.step opens (.ready index)) := by
  obtain ⟨hnext, hcalmly⟩ := hgoing.ready opens htransport hready
  refine h.aside hlast hcancelled hnext (hcalmly.exited (n - 1)) (fun hopen i hi => ?_) ?_
  · have hclosed := hgoing.closed htransport hready
    have hstep : d.step opens (.ready index) =
        (d.modify index fun conn => { conn with ready := true }).onConnReady opens index := by
      unfold step
      dsimp only
      rw [if_pos ⟨htransport, by simp [hready]⟩]
    rw [hstep] at hopen ⊢
    have hlt : i < (d.modify index fun conn => { conn with ready := true }).conns.length := by
      unfold modify
      rw [List.length_modify]
      exact hgoing.stages.length.symm ▸ hi
    have hid := ready_ids (d := d.modify index fun conn => { conn with ready := true }) opens
      hgoing.running hclosed hopen i hlt
    rw [hid]
    exact hopens i hi
  · obtain ⟨more, hlog, hcalm⟩ := hcalmly.log
    exact ⟨more, hlog, fun e he => (hcalm e he).aside⟩

/-- Feeding the first stage from outside. -/
theorem Delivers.feed (h : Delivers n given d) (hgoing : Going n given d)
    (hlast : (d.conn (n - 1)).exited = false) (hcancelled : .cancelled ∉ d.log)
    (hopen : d.streamsOpen = true) (bytes : Bytes) (endStream : Bool) :
    Delivers n given (d.sendData 0 bytes endStream) := by
  obtain ⟨hconns, -, hlog⟩ := feed_aside d bytes endStream
  have hconn : ∀ i, (d.sendData 0 bytes endStream).conn i = d.conn i := fun i => by
    simp only [conn, hconns]
  refine h.aside hlast hcancelled (hgoing.feed hopen bytes endStream).1 (by rw [hconn])
    (fun _ i hi => ?_) hlog
  rw [hconn]
  exact h.ids hopen i hi

/-- Once the run is done, nothing is left to hear. -/
theorem Delivers.ended (h : Delivers n given d) (hdone : d.done = true)
    (hall : ∀ i < n, (d.conn i).exited = true)
    (hheard : completes d.log = given.hears (outcomeOf n d.log)) (opens : Nat → StreamId)
    (input : Input) : Delivers n given (d.step opens input) := by
  have hdead : ∀ index, d.live index = false := by
    intro index
    by_contra hlive
    have hlive : d.live index = true := by simpa using hlive
    obtain ⟨-, -, -, hexited⟩ := live_spec hlive
    rw [hall index (h.stages.length ▸ lt_of_live hlive)] at hexited
    cases hexited
  unfold step
  cases input with
  | ready index =>
    dsimp only
    split_ifs
    · have hmarked : Calmly d (d.modify index fun conn => { conn with ready := true }) :=
        calmly_modify index ⟨rfl, rfl, rfl, rfl⟩
      unfold onConnReady
      rw [if_pos (hmarked.done.trans hdone)]
      refine ⟨h.routed, h.lawful, fun hopen i hi => ?_, h.stages.calmly hmarked,
        h.down.calmly hmarked, .inr ⟨hmarked.done.trans hdone, fun i hi => ?_, hheard⟩⟩
      · by_cases hin : index < d.conns.length
        · rw [conn_modify _ hin]
          split_ifs
          · exact h.ids hopen i hi
          · exact h.ids hopen i hi
        · have hsame : (d.modify index fun conn => { conn with ready := true }).conns = d.conns :=
            List.modify_eq_self (Nat.le_of_not_lt hin)
          simp only [conn, hsame]
          exact h.ids hopen i hi
      · rw [hmarked.exited]
        exact hall i hi
    · exact h
  | data index bytes channel =>
    dsimp only
    rw [if_neg (by simp [hdead])]
    exact h
  | exit index status =>
    dsimp only
    rw [if_neg (by simp [hdead])]
    exact h
  | error index message =>
    dsimp only
    unfold onConnError
    rw [if_pos hdone, ite_self]
    exact h
  | writeStdin bytes =>
    dsimp only
    unfold writeStdin
    rw [if_pos (.inr hdone)]
    exact h
  | closeStdin =>
    dsimp only
    unfold closeStdin
    rw [if_pos (.inr hdone)]
    exact h
  | cancel =>
    dsimp only
    unfold DistributedRunner.cancel
    rw [if_pos hdone]
    exact h

theorem Delivers.step (h : Delivers n given d) {opens : Nat → StreamId}
    (hopens : ∀ i < n, opens i ≠ 0) {input : Input} (hfails : input.fails = false) :
    Delivers n given (d.step opens input) := by
  rcases h.phase with ⟨hgoing, hlast, hcancelled⟩ | ⟨hdone, hall, hheard⟩
  · cases input with
    | ready index =>
      by_cases hguard : (d.conn index).transport = true ∧ (d.conn index).ready = false
      · exact h.ready hgoing hlast hcancelled hopens hguard.1 hguard.2
      · unfold DistributedRunner.step
        dsimp only
        rw [if_neg (by simpa using hguard)]
        exact h
    | data index bytes channel =>
      unfold DistributedRunner.step
      dsimp only
      split_ifs with hlive
      · exact h.data hgoing hlast hcancelled hlive bytes channel
      · exact h
    | exit index status =>
      unfold DistributedRunner.step
      dsimp only
      split_ifs with hlive
      · exact h.exit hgoing hlast hcancelled hlive status
      · exact h
    | error index message => cases hfails
    | writeStdin bytes =>
      unfold DistributedRunner.step writeStdin
      dsimp only
      split_ifs with hguard hopen
      · exact h
      · exact h.feed hgoing hlast hcancelled hopen bytes false
      · exact h.aside hlast hcancelled (hgoing.quiet ⟨calmly_same rfl rfl rfl, rfl, rfl, rfl⟩) rfl
          h.ids ⟨[], by simp, by simp⟩
    | closeStdin =>
      unfold DistributedRunner.step closeStdin
      dsimp only
      have hended : Going n given { d with stdinEndPending := true } :=
        hgoing.quiet ⟨calmly_same rfl rfl rfl, rfl, rfl, rfl⟩
      have hpending : Delivers n given { d with stdinEndPending := true } :=
        h.aside hlast hcancelled hended rfl h.ids ⟨[], by simp, by simp⟩
      split_ifs with hguard hopen
      · exact h
      · exact hpending.feed hended hlast hcancelled hopen [] true
      · exact hpending
    | cancel => exact h.cancel hgoing
  · exact h.ended hdone hall hheard opens input

/-! ## What a chain without errors delivers -/

theorem Fresh.delivers (h : Fresh n given d) : Delivers n given d := by
  have hgoing := h.going
  refine ⟨?_, ?_, fun hopen => ?_, hgoing.stages, hgoing.down, .inl ⟨hgoing, ?_, ?_⟩⟩
  · rw [h.log]
    exact .start n given
  · rw [h.log]
    exact .nil
  · rw [h.streamsOpen] at hopen
    cases hopen
  · exact hgoing.early h.streamsOpen (n - 1)
  · simp [h.log]

theorem history_delivers {launch : Nat → Launch} {opens : Nat → StreamId} (given : Setup)
    {stages : List RemoteStage} {inputs : List Input} (hstages : stages ≠ [])
    (hlaunch : ∀ i < stages.length, launch i = .started none none)
    (hopens : ∀ i < stages.length, opens i ≠ 0) (hfails : ∀ input ∈ inputs, input.fails = false) :
    Delivers stages.length given (history launch opens given stages inputs) := by
  induction inputs using List.reverseRecOn with
  | nil =>
    unfold history steps run
    rw [if_neg hstages]
    have hfresh := connect_all stages.length (Fresh.start given stages)
      (by rwa [Nat.zero_add])
    rw [Nat.zero_add] at hfresh
    exact hfresh.delivers
  | append_singleton inputs input ih =>
    rw [history_snoc]
    exact (ih fun input hmem => hfails input (by simp [hmem])).step hopens
      (hfails input (by simp))

/-- What a chain of `n` stages has made of what its stages reported. -/
structure Outcomes (n : Nat) (given : Setup) (log : List Event) : Prop where
  /-- A stage is given the stdout of the one before it, and an end for its exit. -/
  stdin : ∀ i, i + 1 < n → sends (i + 1) log = arrivals i log
  output : outputs log = if given.onOutput then stdoutOf (n - 1) log else []
  /-- The stderr of the stages goes to its handler and nowhere else. -/
  stderr : stderrs log = if given.onStderr then stderrOf log else []
  lawful : Lawful (Allowed n) log
  fenced : ∀ i k status, i < k → .exited k status ∈ log →
    .fenced i ∈ log ∨ ∃ status', .exited i status' ∈ log
  ended : (∃ status, .exited (n - 1) status ∈ log) ∨ .cancelled ∈ log →
    completes log = given.hears (outcomeOf n log)
  silent : ¬ ((∃ status, .exited (n - 1) status ∈ log) ∨ .cancelled ∈ log) → completes log = []

theorem Delivers.outcomes (h : Delivers n given d) (hpos : 0 < n) : Outcomes n given d.log := by
  refine ⟨h.routed.stdin, h.routed.output, h.routed.stderr, h.lawful, fun i k status hlt hmem => ?_,
    fun hover => ?_, fun hnot => ?_⟩
  · exact h.stages.reason i (h.down i k hlt (h.stages.told k status hmem).2.1)
  · rcases h.phase with ⟨-, hlast, hcancelled⟩ | ⟨-, -, hheard⟩
    · rcases hover with ⟨status, hmem⟩ | hmem
      · rw [(h.stages.told (n - 1) status hmem).2.1] at hlast
        cases hlast
      · exact absurd hmem hcancelled
    · exact hheard
  · rcases h.phase with ⟨hgoing, -, -⟩ | ⟨-, hall, -⟩
    · exact completes_nil hgoing.silent
    · rw [not_or] at hnot
      have hlt := Nat.sub_lt hpos Nat.one_pos
      rcases h.stages.reason (n - 1) (hall (n - 1) hlt) with hmem | hexit
      · -- the last stage is fenced by a cancel only
        obtain ⟨pre, post, heq⟩ := List.append_of_mem hmem
        rcases (h.lawful pre _ post heq).2 with ⟨k, status, hlt, hk, -⟩ | hcancelled
        · omega
        · exact absurd (by rw [heq]; simp [hcancelled]) hnot.2
      · exact absurd hexit hnot.1

/-- When every connection comes up, every stream opens and none fails, the stages are routed
and fenced as a chain, in every order of events, and the outcome is heard once, made of what
the stages reported and of who was fenced. -/
theorem a_chain_without_errors_delivers (launch : Nat → Launch) (opens : Nat → StreamId)
    (given : Setup) (stages : List RemoteStage) (inputs : List Input) (hstages : stages ≠ [])
    (hlaunch : ∀ i < stages.length, launch i = .started none none)
    (hopens : ∀ i < stages.length, opens i ≠ 0) (hfails : ∀ input ∈ inputs, input.fails = false) :
    Outcomes stages.length given (history launch opens given stages inputs).log :=
  (history_delivers given hstages hlaunch hopens hfails).outcomes (List.length_pos_iff.mpr hstages)

/-- The second stage exits first, which fences the one before it. -/
theorem a_chain_with_a_fence_delivers :
    let stages : List RemoteStage := [⟨[[121]]⟩, ⟨[[104]]⟩]
    let inputs : List Input := [.ready 0, .ready 1, .data 0 [121, 10] .Stdout,
      .data 0 [120] .Stderr, .data 1 [121] .Stdout, .exit 1 ⟨.Exited, 2⟩]
    let log := (history (fun _ => .started none none) (fun _ => 1) ⟨true, true, true, false⟩
      stages inputs).log
    Outcomes 2 ⟨true, true, true, false⟩ log ∧ sends 1 log = [([121, 10], false)] ∧
      outputs log = [[121]] ∧ completes log = [⟨2, [137, 2], ""⟩] :=
  ⟨a_chain_without_errors_delivers _ (fun _ => 1) _ [⟨[[121]]⟩, ⟨[[104]]⟩] _ (by simp)
    (fun _ _ => rfl) (fun _ _ => by decide) (by decide), by decide, by decide,
    by decide⟩

end psx.pipeline.DistributedRunner
