-- How often a worker is tried (process_manager.cpp, `account`, `retryable`, `onRetry`). An attempt
-- is judged by the part of its stderr that is retained, so a capture that lets go of the diagnostic
-- of ssh ends the retries.
import PipeShellX.Process.Capture
import PipeShellX.Process.WorkerRunLaws

namespace psx.process

open psx.os (ExitStatus)
open psx.stream (OverflowPolicy)
open psx.transport (Channel)

/-- How an attempt goes: the worker cannot be started, or its child sends its output and exits. -/
inductive Outcome
  | failed (message : Bytes)
  | exited (status : ExitStatus) (chunks : List Chunk)

namespace Worker

variable (policy : OverflowPolicy) (ringBytes : Nat)

/-- The output of an attempt, chunk after chunk. -/
def captured (w : Worker) (chunks : List Chunk) : Worker :=
  chunks.foldl (fun w chunk => w.capture (outputCap policy ringBytes) policy
    (chunk.channel = .Stdout) chunk.bytes chunk.answers) w

/-- The worker when its attempt is over. -/
def attempted (w : Worker) : Outcome → Worker
  | .failed message => w.failToStart message
  | .exited status chunks =>
    { (w.captured policy ringBytes chunks).endNow with status := some status }

/-- What `account` makes of a worker that is complete, while the run goes on. -/
def accounted (maxRetries : Nat) (w : Worker) : Worker :=
  if w.attempt < maxRetries ∧ w.retryable then
    { w with awaitingRetry := true, attempt := w.attempt + 1 }
  else { w with counted := true }

/-- What `onRetry` makes of a worker that backed off. -/
def again (w : Worker) : Worker := { w with awaitingRetry := false }.resetForRetry

/-- One attempt after the other. There is room for `left` more behind the next one. -/
def tries (maxRetries : Nat) (outcome : Nat → Outcome) : Nat → Worker → Worker
  | 0, w => (w.attempted policy ringBytes (outcome w.attempt)).accounted maxRetries
  | left + 1, w =>
    let w := (w.attempted policy ringBytes (outcome w.attempt)).accounted maxRetries
    if w.awaitingRetry then tries maxRetries outcome left w.again else w

/-- A worker at the end of its attempts, the `n`-th of which goes as `outcome n` says. -/
def tried (maxRetries : Nat) (outcome : Nat → Outcome) : Worker :=
  tries policy ringBytes maxRetries outcome maxRetries {}

end Worker

/-- `account` does this to a worker in every run that was not stopped. -/
theorem WorkerRun.account_accounted {r : WorkerRun} {index : Nat}
    (h : WorkerRun.Ended (r.worker index)) (hcancelled : r.cancelled = false)
    (haborted : r.aborted = false) :
    ∃ r' : WorkerRun, r'.worker index = (r.worker index).accounted r.maxRetries ∧
      (r.account index = r' ∨ r.account index = r'.note .stop ∨
        r.account index = abortRest { r' with aborted := true }) := by
  have hlt := WorkerRun.lt_of_complete h.complete
  have hopen : ¬ ((r.worker index).counted = true ∨ (r.worker index).awaitingRetry = true ∨
      ¬ (r.worker index).complete = true) := by
    simp [h.complete, h.counted, h.awaiting]
  by_cases hretry : (r.worker index).attempt < r.maxRetries ∧ (r.worker index).retryable = true
  · have hall : ¬ r.cancelled = true ∧ ¬ r.aborted = true ∧
        (r.worker index).attempt < r.maxRetries ∧ (r.worker index).retryable = true :=
      ⟨by simp [hcancelled], by simp [haborted], hretry⟩
    refine ⟨r.scheduleRetry index, (WorkerRun.worker_setWorker_self hlt).trans (if_pos hretry).symm,
      Or.inl ?_⟩
    unfold WorkerRun.account WorkerRun.accountThen
    dsimp only
    rw [if_neg hopen, if_pos hall]
  · refine ⟨r.count index, (WorkerRun.worker_setWorker_self hlt).trans (if_neg hretry).symm, ?_⟩
    unfold WorkerRun.account WorkerRun.accountThen
    dsimp only
    rw [if_neg hopen, if_neg fun hall => hretry hall.2.2]
    split_ifs
    · exact Or.inr (Or.inl rfl)
    · exact Or.inr (Or.inr rfl)
    · exact Or.inl rfl

/-! ## What is seen of an attempt -/

/-- The part of a stream that stays in memory. -/
def retained (policy : OverflowPolicy) (ringBytes : Nat) (text : Bytes) : Bytes :=
  if policy = .Block ∨ ringBytes = 0 then text
  else if policy = .DropNewest then text.take ringBytes
  else text.rtake ringBytes

namespace Outcome

/-- ssh itself failed, with this on its stderr. -/
def diagnostic : Outcome → Option Bytes
  | .failed _ => none
  | .exited status chunks =>
    if status.kind = .Exited ∧ status.code.toInt = 255 then some (received .Stderr chunks) else none

/-- A transient failure, by all of its stderr. -/
def Transient (outcome : Outcome) : Prop :=
  ∃ text ∈ outcome.diagnostic, isRetryableSshFailure text = true

/-- What is retained of its stderr shows a transient failure. -/
def Shows (policy : OverflowPolicy) (ringBytes : Nat) (outcome : Outcome) : Prop :=
  ∃ text ∈ outcome.diagnostic, isRetryableSshFailure (retained policy ringBytes text) = true

/-- The exit code that the run takes an attempt for. -/
def exitCode : Outcome → Int
  | .failed message => if message ≠ [] then 127 else -1
  | .exited status _ => if status.kind = .Exited then status.code.toInt else -1

end Outcome

theorem keptOf_ring (policy : OverflowPolicy) (ringBytes : Nat) (chunks : List Chunk)
    (channel : Channel) : (keptOf policy ringBytes chunks channel).ring =
      retained policy ringBytes (received channel chunks) := by
  unfold retained
  by_cases hnone : policy = .Block ∨ ringBytes = 0
  · rw [if_pos hnone, keptOf_everything hnone]
  · rw [if_neg hnone]
    obtain ⟨hpolicy, hring⟩ := not_or.mp hnone
    unfold keptOf
    rw [outputCap, if_neg hpolicy]
    cases policy with
    | Block => exact absurd rfl hpolicy
    | DropNewest =>
      rw [run_dropNewest hring]
      rfl
    | DropOldest =>
      rw [run_dropOldest hring]
      rfl
    | Spool =>
      obtain ⟨evicted, taken, hrun⟩ := run_spool hring (ofChannel channel chunks)
      rw [hrun.ring]
      rfl

theorem retained_part (policy : OverflowPolicy) (ringBytes : Nat) (text : Bytes) :
    retained policy ringBytes text <:+: text := by
  unfold retained
  split_ifs
  · exact List.infix_rfl
  · exact (List.take_prefix _ _).isInfix
  · exact (List.drop_suffix _ _).isInfix

/-- A part of a text has no needle that the text does not have. -/
theorem isRetryable_of_infix {part text : Bytes} (h : part <:+: text)
    (hpart : isRetryableSshFailure part = true) : isRetryableSshFailure text = true := by
  have hlower : toLowerCopy part <:+: toLowerCopy text := h.map _
  have hany : ∀ needles, containsAny (toLowerCopy part) needles = true →
      containsAny (toLowerCopy text) needles = true := by
    intro needles hneedles
    obtain ⟨needle, hneedle, hin⟩ := List.any_eq_true.mp hneedles
    refine List.any_eq_true.mpr ⟨needle, hneedle, ?_⟩
    exact decide_eq_true ((of_decide_eq_true hin).trans hlower)
  unfold isRetryableSshFailure at hpart ⊢
  rw [Bool.or_eq_true] at hpart ⊢
  exact hpart.imp (hany _) (hany _)

/-- An attempt that what is retained shows to be transient is transient. -/
theorem Outcome.Shows.transient {policy : OverflowPolicy} {ringBytes : Nat} {outcome : Outcome}
    (h : outcome.Shows policy ringBytes) : outcome.Transient := by
  obtain ⟨text, htext, hshown⟩ := h
  exact ⟨text, htext, isRetryable_of_infix (retained_part policy ringBytes text) hshown⟩

/-! ## One attempt -/

section

variable (policy : OverflowPolicy) (ringBytes : Nat) {w : Worker}

theorem Worker.captured_bare (w : Worker) (chunks : List Chunk) :
    WorkerRun.bare (w.captured policy ringBytes chunks) = WorkerRun.bare w := by
  unfold Worker.captured
  induction chunks generalizing w with
  | nil => rfl
  | cons chunk chunks ih => rw [List.foldl_cons, ih, WorkerRun.capture_bare]

/-- Nothing is left of an earlier attempt. -/
def Worker.Untried (w : Worker) : Prop := w.resetForRetry = w

theorem Worker.captured_attempt (w : Worker) (chunks : List Chunk) :
    (w.captured policy ringBytes chunks).attempt = w.attempt := by
  have hbare := congrArg Worker.attempt (w.captured_bare policy ringBytes chunks)
  exact hbare

theorem Worker.captured_failureMessage (h : w.Untried) (chunks : List Chunk) :
    (w.captured policy ringBytes chunks).failureMessage = [] := by
  have hbare := congrArg Worker.failureMessage (w.captured_bare policy ringBytes chunks)
  exact hbare.trans (congrArg Worker.failureMessage h).symm

theorem Worker.captured_timedOut (h : w.Untried) (chunks : List Chunk) :
    (w.captured policy ringBytes chunks).timedOut = false := by
  have hbare := congrArg Worker.timedOut (w.captured_bare policy ringBytes chunks)
  exact hbare.trans (congrArg Worker.timedOut h).symm

theorem Worker.captured_stderrData (h : w.Untried) (chunks : List Chunk) :
    (w.captured policy ringBytes chunks).stderrData =
      retained policy ringBytes (received .Stderr chunks) := by
  have hempty : w.Holds {} {} := by
    rw [← h]
    exact ⟨rfl, rfl, rfl, rfl, rfl, rfl, rfl⟩
  exact (captures_hold policy ringBytes chunks hempty).stderrRing.trans
    (keptOf_ring policy ringBytes chunks .Stderr)

theorem Worker.attempted_attempt (w : Worker) (outcome : Outcome) :
    (w.attempted policy ringBytes outcome).attempt = w.attempt := by
  cases outcome with
  | failed message => rfl
  | exited status chunks => exact w.captured_attempt policy ringBytes chunks

theorem Worker.attempted_awaitingRetry (h : w.Untried) (outcome : Outcome) :
    (w.attempted policy ringBytes outcome).awaitingRetry = false := by
  have hnot : w.awaitingRetry = false := (congrArg Worker.awaitingRetry h).symm
  cases outcome with
  | failed message => exact hnot
  | exited status chunks =>
    have hbare := congrArg Worker.awaitingRetry (w.captured_bare policy ringBytes chunks)
    exact hbare.trans hnot

theorem Worker.attempted_exitCode (h : w.Untried) (outcome : Outcome) :
    (w.attempted policy ringBytes outcome).exitCode = outcome.exitCode := by
  cases outcome with
  | failed message =>
    have hstatus : w.status = none := (congrArg Worker.status h).symm
    unfold Worker.attempted Worker.exitCode
    dsimp only [Worker.failToStart]
    rw [hstatus]
    rfl
  | exited status chunks =>
    exact if_neg (not_not_intro (Worker.captured_failureMessage policy ringBytes h chunks))

theorem Worker.retryable_iff (w : Worker) : w.retryable = true ↔ w.timedOut = false ∧
    w.failureMessage = [] ∧ w.exitCode = 255 ∧ isRetryableSshFailure w.stderrData = true := by
  simp [Worker.retryable, and_assoc]

/-- An attempt is tried again by what is retained of it. -/
theorem Worker.attempted_retryable (h : w.Untried) (outcome : Outcome) :
    (w.attempted policy ringBytes outcome).retryable = true ↔ outcome.Shows policy ringBytes := by
  rw [Worker.retryable_iff, Worker.attempted_exitCode policy ringBytes h]
  cases outcome with
  | failed message =>
    refine iff_of_false ?_ (by simp [Outcome.Shows, Outcome.diagnostic])
    rintro ⟨-, hmessage, hcode, -⟩
    have hmessage : message = [] := hmessage
    simp [Outcome.exitCode, hmessage] at hcode
  | exited status chunks =>
    have hmessage := Worker.captured_failureMessage policy ringBytes h chunks
    have htimedOut := Worker.captured_timedOut policy ringBytes h chunks
    have hstderr := Worker.captured_stderrData policy ringBytes h chunks
    change (w.captured policy ringBytes chunks).timedOut = false ∧
      (w.captured policy ringBytes chunks).failureMessage = [] ∧ _ ∧
      isRetryableSshFailure (w.captured policy ringBytes chunks).stderrData = true ↔ _
    rw [hmessage, htimedOut, hstderr]
    unfold Outcome.Shows Outcome.diagnostic Outcome.exitCode
    by_cases hkind : status.kind = .Exited
    · by_cases h255 : status.code.toInt = 255
      · simp [hkind, h255]
      · simp [hkind, h255]
    · simp [hkind]

end

/-! ## All attempts -/

/-- The attempts end at the `n`-th. -/
structure EndsAt (policy : OverflowPolicy) (ringBytes maxRetries : Nat) (outcome : Nat → Outcome)
    (start n : Nat) (w : Worker) : Prop where
  attempt : w.attempt = n
  awaiting : w.awaitingRetry = false
  counted : w.counted = true
  exitCode : w.exitCode = (outcome n).exitCode
  before : ∀ k, start ≤ k → k < n → k < maxRetries ∧ (outcome k).Shows policy ringBytes
  last : ¬ (n < maxRetries ∧ (outcome n).Shows policy ringBytes)

section

variable {policy : OverflowPolicy} {ringBytes maxRetries : Nat} {outcome : Nat → Outcome}
  {w : Worker}

theorem accounts_iff (h : w.Untried) :
    (w.attempted policy ringBytes (outcome w.attempt)).attempt < maxRetries ∧
        (w.attempted policy ringBytes (outcome w.attempt)).retryable = true ↔
      w.attempt < maxRetries ∧ (outcome w.attempt).Shows policy ringBytes := by
  rw [Worker.attempted_attempt, Worker.attempted_retryable policy ringBytes h]

theorem ends_here (h : w.Untried)
    (hlast : ¬ (w.attempt < maxRetries ∧ (outcome w.attempt).Shows policy ringBytes)) :
    EndsAt policy ringBytes maxRetries outcome w.attempt w.attempt
      ((w.attempted policy ringBytes (outcome w.attempt)).accounted maxRetries) := by
  unfold Worker.accounted
  rw [if_neg (mt (accounts_iff h).mp hlast)]
  exact ⟨w.attempted_attempt policy ringBytes _,
    Worker.attempted_awaitingRetry policy ringBytes h _, rfl,
    Worker.attempted_exitCode policy ringBytes h _,
    fun k hle hlt => absurd hle (Nat.not_le_of_lt hlt), hlast⟩

/-- The next attempt starts with nothing of this one. -/
theorem goes_on (h : w.Untried)
    (hmore : w.attempt < maxRetries ∧ (outcome w.attempt).Shows policy ringBytes) :
    ((w.attempted policy ringBytes (outcome w.attempt)).accounted maxRetries).awaitingRetry = true ∧
      ((w.attempted policy ringBytes (outcome w.attempt)).accounted maxRetries).attempt =
        w.attempt + 1 := by
  unfold Worker.accounted
  rw [if_pos ((accounts_iff h).mpr hmore)]
  exact ⟨rfl, congrArg (· + 1) (w.attempted_attempt policy ringBytes _)⟩

/-- The induction is over the attempts that are left. -/
theorem tries_end {left : Nat} (h : w.Untried) (hleft : w.attempt + left = maxRetries) :
    ∃ n, EndsAt policy ringBytes maxRetries outcome w.attempt n
      (w.tries policy ringBytes maxRetries outcome left) := by
  induction left generalizing w with
  | zero => exact ⟨w.attempt, ends_here h fun hmore => absurd hmore.1 (by omega)⟩
  | succ left ih =>
    unfold Worker.tries
    dsimp only
    by_cases hmore : w.attempt < maxRetries ∧ (outcome w.attempt).Shows policy ringBytes
    · obtain ⟨hawaiting, hattempt⟩ := goes_on h hmore
      rw [if_pos hawaiting]
      generalize (w.attempted policy ringBytes (outcome w.attempt)).accounted maxRetries = w'
        at hattempt ⊢
      have hagain : w'.again.attempt = w.attempt + 1 := hattempt
      obtain ⟨n, hend⟩ := ih (w := w'.again) rfl (by omega)
      refine ⟨n, { hend with before := fun k hle hlt => ?_ }⟩
      rcases Nat.eq_or_lt_of_le hle with rfl | hlater
      · exact hmore
      · exact hend.before k (by omega) hlt
    · have hend := ends_here h hmore
      rw [if_neg (by rw [hend.awaiting]; decide)]
      exact ⟨w.attempt, hend⟩

end

theorem tried_end (policy : OverflowPolicy) (ringBytes maxRetries : Nat) (outcome : Nat → Outcome) :
    ∃ n, EndsAt policy ringBytes maxRetries outcome 0 n
      (Worker.tried policy ringBytes maxRetries outcome) :=
  tries_end (w := {}) rfl (Nat.zero_add _)

/-! ## Every capture -/

section

variable (maxRetries : Nat) (outcome : Nat → Outcome)

/-- As many attempts, and the same exit code at the end. -/
def Same (policy : OverflowPolicy) (ringBytes : Nat) (policy' : OverflowPolicy) (ringBytes' : Nat) :
    Prop :=
  (Worker.tried policy ringBytes maxRetries outcome).attempt =
      (Worker.tried policy' ringBytes' maxRetries outcome).attempt ∧
    (Worker.tried policy ringBytes maxRetries outcome).exitCode =
      (Worker.tried policy' ringBytes' maxRetries outcome).exitCode

variable {maxRetries outcome}

theorem same_of_ends {policy policy' : OverflowPolicy} {ringBytes ringBytes' n : Nat}
    (h : EndsAt policy ringBytes maxRetries outcome 0 n
      (Worker.tried policy ringBytes maxRetries outcome))
    (h' : EndsAt policy' ringBytes' maxRetries outcome 0 n
      (Worker.tried policy' ringBytes' maxRetries outcome)) :
    Same maxRetries outcome policy ringBytes policy' ringBytes' :=
  ⟨h.attempt.trans h'.attempt.symm, h.exitCode.trans h'.exitCode.symm⟩

theorem shows_block {outcome : Outcome} : outcome.Shows .Block 0 ↔ outcome.Transient := by
  unfold Outcome.Shows Outcome.Transient retained
  simp

/-- Against the capture of everything: each attempt that has a retry to spare and fails for a
moment, like all before it, still shows that in what is retained of it. -/
theorem same_as_block (policy : OverflowPolicy) (ringBytes : Nat) :
    Same maxRetries outcome policy ringBytes .Block 0 ↔
      ∀ k < maxRetries, (∀ j ≤ k, (outcome j).Transient) → (outcome k).Shows policy ringBytes := by
  obtain ⟨n, hend⟩ := tried_end policy ringBytes maxRetries outcome
  obtain ⟨m, hall⟩ := tried_end .Block 0 maxRetries outcome
  constructor
  · rintro ⟨hattempt, -⟩ k hk htransient
    rw [hend.attempt, hall.attempt] at hattempt
    have hlater : k < m := by
      by_contra hle
      refine hall.last ⟨by omega, shows_block.mpr (htransient m (by omega))⟩
    exact (hend.before k (Nat.zero_le k) (by omega)).2
  · intro hshows
    suffices hsame : n = m by
      subst hsame
      exact same_of_ends hend hall
    rcases Nat.lt_trichotomy n m with hlt | heq | hgt
    · -- the whole text went on behind the last attempt
      have hbefore := fun j (hj : j ≤ n) => (hall.before j (Nat.zero_le j) (by omega))
      have hmore := hshows n (hbefore n (Nat.le_refl n)).1 fun j hj =>
        shows_block.mp (hbefore j hj).2
      exact absurd ⟨(hbefore n (Nat.le_refl n)).1, hmore⟩ hend.last
    · exact heq
    · have hmore := hend.before m (Nat.zero_le m) hgt
      exact absurd ⟨hmore.1, shows_block.mpr hmore.2.transient⟩ hall.last

/-- One byte is no diagnostic. -/
theorem not_retryable_byte {text : Bytes} (h : text.length ≤ 1) :
    isRetryableSshFailure text = false := by
  have hlong : ∀ needle ∈ kUnreachableNeedles ++ kConnectionNeedles, 1 < (bytes needle).length := by
    decide +kernel
  have hnone : ∀ needle ∈ kUnreachableNeedles ++ kConnectionNeedles,
      contains (toLowerCopy text) needle = false := by
    intro needle hneedle
    refine decide_eq_false fun hin => ?_
    have hlength := hin.length_le
    have hlower : (toLowerCopy text).length = text.length := List.length_map _
    have := hlong needle hneedle
    omega
  unfold isRetryableSshFailure containsAny
  rw [← List.any_append]
  exact List.any_eq_false.mpr fun needle hneedle => by simp [hnone needle hneedle]

/-- The retries see the ring: a policy retries as the whole capture does exactly if what it retains
of each transient failure still shows it, and all policies and ring sizes retry alike exactly if
there is no retry to spare for a transient first attempt. -/
theorem the_retries_see_the_ring (maxRetries : Nat) (outcome : Nat → Outcome) :
    (∀ policy ringBytes, Same maxRetries outcome policy ringBytes .Block 0 ↔
      ∀ k < maxRetries, (∀ j ≤ k, (outcome j).Transient) → (outcome k).Shows policy ringBytes) ∧
    ((∀ policy ringBytes policy' ringBytes',
        Same maxRetries outcome policy ringBytes policy' ringBytes') ↔
      ¬ (0 < maxRetries ∧ (outcome 0).Transient)) := by
  refine ⟨fun policy ringBytes => same_as_block policy ringBytes, fun hsame => ?_, fun hnone => ?_⟩
  · rintro ⟨hpos, htransient⟩
    have hshows := (same_as_block .DropOldest 1).mp (hsame .DropOldest 1 .Block 0) 0 hpos
      fun j hj => by rwa [Nat.le_zero.mp hj]
    obtain ⟨text, -, hshown⟩ := hshows
    have hbyte : (retained .DropOldest 1 text).length ≤ 1 := by
      change (text.rtake 1).length ≤ 1
      rw [List.length_rtake]
      omega
    rw [not_retryable_byte hbyte] at hshown
    cases hshown
  · intro policy ringBytes policy' ringBytes'
    have hfirst : ∀ policy ringBytes, EndsAt policy ringBytes maxRetries outcome 0 0
        (Worker.tried policy ringBytes maxRetries outcome) := by
      intro policy ringBytes
      obtain ⟨n, hend⟩ := tried_end policy ringBytes maxRetries outcome
      rcases Nat.eq_zero_or_pos n with rfl | hpos
      · exact hend
      · have hmore := hend.before 0 (Nat.le_refl 0) hpos
        exact absurd ⟨hmore.1, hmore.2.transient⟩ hnone
    exact same_of_ends (hfirst policy ringBytes) (hfirst policy' ringBytes')

/-- ssh is refused twice, and the ring has room for the last four bytes of what it says. -/
theorem a_small_ring_stops_the_retries :
    ¬ ∀ (maxRetries : Nat) (outcome : Nat → Outcome) (policy : OverflowPolicy) (ringBytes : Nat)
      (policy' : OverflowPolicy) (ringBytes' : Nat),
      Same maxRetries outcome policy ringBytes policy' ringBytes' := by
  intro h
  have hsame := (h 1 (fun _ => .exited ⟨.Exited, 255⟩
    [⟨.Stderr, bytes "connection refused", {}⟩]) .DropOldest 4 .Block 0).1
  exact absurd hsame (by decide +kernel)

end

end psx.process
