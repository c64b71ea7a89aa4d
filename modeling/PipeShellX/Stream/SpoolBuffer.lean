-- What happens on overflow, and the spill file of the Spool policy (spool_buffer.hpp): a temporary
-- file that is written at its end and read from an offset on. It may not open, and every seek,
-- write and read of it may fail; the answers of the operating system are part of a call.
import PipeShellX.BufferedFile
import PipeShellX.Result

namespace psx.stream

/-- What a bounded buffer does with bytes that it has no room for. -/
inductive OverflowPolicy
  | Block
  | DropNewest
  | DropOldest
  | Spool
  deriving DecidableEq, Repr

/-- The bytes that appends took, the part of them that was read, and whether a failed append has
poisoned the file. `file` is none until the first append opens it. -/
structure SpoolBuffer where
  file : Option (BufferedFile UInt8) := none
  size : Nat := 0
  readOffset : Nat := 0
  failed : Bool := false
  deriving DecidableEq

/-- What the operating system answers to an append: whether a file opens, and how far the flush
that is part of the seek and the write got if they failed. -/
structure AppendAnswers where
  opened : Bool := true
  sought : Option Nat := none
  written : Option Nat := none
  deriving DecidableEq

/-- What it answers to a read: how far the flush got if it or the seek failed, and how many bytes
came before an error. -/
structure ReadAnswers where
  sought : Option Nat := none
  given : Option Nat := none
  deriving DecidableEq

/-- What it answers while a chunk is captured: to the two appends that this may take, and to the
read of the whole spool, which comes after the last chunk. -/
structure SpoolAnswers where
  first : AppendAnswers := {}
  second : AppendAnswers := {}
  back : ReadAnswers := {}
  deriving DecidableEq

/-- Nothing fails when the spool seeks, flushes or reads. A file may still not open, and a write may
still fail. -/
def SpoolAnswers.Returns (answers : SpoolAnswers) : Prop :=
  answers.first.sought = none ∧ answers.second.sought = none ∧ answers.back = {}

namespace SpoolBuffer

/-- The file, or a new one. -/
def stdio (s : SpoolBuffer) : BufferedFile UInt8 := s.file.getD {}

/-- False when the caller has to drop the bytes. -/
def append (s : SpoolBuffer) (bytes : Bytes) (answers : AppendAnswers := {}) :
    SpoolBuffer × Bool :=
  if bytes = [] then (s, true)
  else if s.failed then (s, false)
  else if s.file.isNone ∧ ¬ answers.opened then ({ s with failed := true }, false)
  else
    -- a seek to the end flushes what the last append left in the buffer
    let file := s.stdio.flush answers.sought
    if answers.sought.isSome then ({ s with file := some file, failed := true }, false)
    else
      let file := file.write bytes answers.written
      if answers.written.isSome then ({ s with file := some file, failed := true }, false)
      else ({ s with file := some file, size := s.size + bytes.length }, true)

/-- How many bytes are yet to be read. -/
def remaining (s : SpoolBuffer) : Nat := s.size - s.readOffset

/-- Nothing is yet to be read. -/
def empty (s : SpoolBuffer) : Bool := s.remaining = 0

/-- Up to `n` bytes, which are consumed. -/
def read (s : SpoolBuffer) (n : Nat) (answers : ReadAnswers := {}) : SpoolBuffer × Bytes :=
  if s.file.isNone ∨ n = 0 ∨ s.empty ∨ s.failed then (s, [])
  else
    let file := s.stdio.flush answers.sought
    if answers.sought.isSome then ({ s with file := some file }, [])
    else
      let got := file.readAt s.readOffset (min n s.remaining) answers.given
      ({ s with file := some file, readOffset := s.readOffset + got.length }, got)

/-- All that was appended, as far as the file still has it. Nobody asks the spool for more. -/
def readAll (s : SpoolBuffer) (answers : ReadAnswers := {}) : Bytes :=
  if s.file.isNone ∨ s.size = 0 then []
  else if answers.sought.isSome then []
  else (s.stdio.flush answers.sought).readAt 0 s.size answers.given

/-- The temporary file is gone with its bytes. -/
def reset : SpoolBuffer := {}

/-! ## What the file holds -/

/-- The bytes that were taken, as far as the file still has them. -/
def stored (s : SpoolBuffer) : Bytes := s.stdio.contents.take s.size

/-- Those of them that were not read yet. -/
def pending (s : SpoolBuffer) : Bytes := s.stored.drop s.readOffset

/-- What holds of a spool whatever fails. A poisoned file is not written any more. -/
structure Sound (s : SpoolBuffer) : Prop where
  offset : s.readOffset ≤ s.stdio.disk.length
  offset_le : s.readOffset ≤ s.size
  opened : s.file = none → s.size = 0
  appended : s.failed = false → s.stdio.contents.length ≤ s.size
  poisoned : s.failed = true → s.stdio.buffer = []

/-- No byte that was taken got lost. -/
def Whole (s : SpoolBuffer) : Prop := s.size ≤ s.stdio.contents.length

/-- A spool that nothing failed for. -/
structure Good (s : SpoolBuffer) : Prop where
  sound : s.Sound
  whole : s.Whole
  works : s.failed = false

theorem good_reset : reset.Good :=
  ⟨⟨Nat.le_refl 0, Nat.le_refl 0, fun _ => rfl, fun _ => Nat.le_refl 0, fun _ => rfl⟩,
    Nat.le_refl 0, rfl⟩

@[simp] theorem pending_reset : reset.pending = [] := rfl

section

variable {s : SpoolBuffer} {bytes : Bytes} {n : Nat}

theorem empty_iff_remaining : s.empty = true ↔ s.remaining = 0 := by
  rw [empty, decide_eq_true_eq]

theorem pending_length_le : s.pending.length ≤ s.remaining := by
  rw [pending, stored, List.length_drop, List.length_take, remaining]
  omega

/-- With nothing lost, the counts tell what there is to read. -/
theorem Whole.length (h : s.Whole) : s.pending.length = s.remaining := by
  have hwhole : s.size ≤ s.stdio.contents.length := h
  rw [pending, stored, List.length_drop, List.length_take, remaining]
  omega

theorem pending_of_empty (h : s.empty = true) : s.pending = [] := by
  have hlength := s.pending_length_le
  rw [empty_iff_remaining.mp h] at hlength
  exact List.length_eq_zero_iff.mp (Nat.le_zero.mp hlength)

theorem Whole.empty_iff (h : s.Whole) : s.empty = true ↔ s.pending = [] := by
  rw [empty_iff_remaining, ← h.length, List.length_eq_zero_iff]

/-- A file that does not fail holds what was appended, and nothing behind it. -/
theorem Good.length (h : s.Good) : s.stdio.contents.length = s.size :=
  Nat.le_antisymm (h.sound.appended h.works) h.whole

theorem Good.pending (h : s.Good) : s.pending = s.stdio.contents.drop s.readOffset := by
  rw [SpoolBuffer.pending, stored, List.take_of_length_le (Nat.le_of_eq h.length)]

end

/-! ## An append -/

section

variable {s : SpoolBuffer} {bytes : Bytes} {answers : AppendAnswers}

/-- The answers to an append that fails, or a poisoned file. -/
def Refuses (s : SpoolBuffer) (answers : AppendAnswers) : Prop :=
  s.failed = true ∨ (s.file = none ∧ answers.opened = false) ∨ answers.sought ≠ none ∨
    answers.written ≠ none

instance (s : SpoolBuffer) (answers : AppendAnswers) : Decidable (s.Refuses answers) :=
  inferInstanceAs (Decidable (_ ∨ _))

theorem not_refuses_of_works (h : s.failed = false) : ¬ s.Refuses {} := by
  rintro (hfailed | ⟨-, hopened⟩ | hsought | hwritten)
  · exact absurd (h.symm.trans hfailed) Bool.false_ne_true
  · cases hopened
  · exact hsought rfl
  · exact hwritten rfl

/-- An append that is not refused takes all the bytes. -/
theorem append_taken (hsome : bytes ≠ []) (hworks : ¬ s.Refuses answers) :
    s.append bytes answers =
      ({ s with
          file := some ((s.stdio.flush none).write bytes none)
          size := s.size + bytes.length }, true) := by
  unfold Refuses at hworks
  push Not at hworks
  obtain ⟨hfailed, hopened, hsought, hwritten⟩ := hworks
  have hopen : ¬ (s.file.isNone = true ∧ ¬ answers.opened = true) := by
    rintro ⟨hnone, hnot⟩
    exact hnot (by simpa using hopened (Option.isNone_iff_eq_none.mp hnone))
  unfold append
  rw [if_neg hsome, if_neg hfailed, if_neg hopen, hsought, hwritten]
  rfl

theorem Sound.appendTaken (h : s.Sound) (hfailed : s.failed = false) :
    Sound { s with
      file := some ((s.stdio.flush none).write bytes none)
      size := s.size + bytes.length } := by
  have hcontents : ((s.stdio.flush none).write bytes none).contents =
      s.stdio.contents ++ bytes := by
    rw [BufferedFile.contents_write, BufferedFile.contents_flush id]
  have hdisk : s.stdio.disk <+: ((s.stdio.flush none).write bytes none).disk :=
    BufferedFile.disk_flush_prefix.trans BufferedFile.disk_prefix_write
  refine ⟨h.offset.trans hdisk.length_le, Nat.le_add_right_of_le h.offset_le, nofun, ?_, ?_⟩
  · intro _
    change ((s.stdio.flush none).write bytes none).contents.length ≤ _
    rw [hcontents, List.length_append]
    exact Nat.add_le_add_right (h.appended hfailed) _
  · exact fun hpoisoned => absurd (hfailed.symm.trans hpoisoned) Bool.false_ne_true

/-- What was pending stays in front of what an append takes. -/
theorem Good.append (h : s.Good) (hsome : bytes ≠ []) (hworks : ¬ s.Refuses answers) :
    (s.append bytes answers).1.Good ∧ (s.append bytes answers).2 = true ∧
      (s.append bytes answers).1.pending = s.pending ++ bytes := by
  have hcontents : ((s.stdio.flush none).write bytes none).contents =
      s.stdio.contents ++ bytes := by
    rw [BufferedFile.contents_write, BufferedFile.contents_flush id]
  rw [append_taken hsome hworks]
  have hgood : Good { s with
      file := some ((s.stdio.flush none).write bytes none)
      size := s.size + bytes.length } := by
    refine ⟨h.sound.appendTaken h.works, ?_, h.works⟩
    change s.size + bytes.length ≤ ((s.stdio.flush none).write bytes none).contents.length
    rw [hcontents, List.length_append]
    exact Nat.add_le_add_right h.whole _
  refine ⟨hgood, rfl, ?_⟩
  rw [hgood.pending, h.pending]
  change ((s.stdio.flush none).write bytes none).contents.drop s.readOffset = _
  rw [hcontents]
  have hlength := h.length
  have hoffset := h.sound.offset_le
  exact List.drop_append_of_le_length (by omega)

/-- What a refused append leaves behind as its file. -/
inductive Leaves (s : SpoolBuffer) (bytes : Bytes) (answers : AppendAnswers) :
    Option (BufferedFile UInt8) → Prop
  | same : s.failed = true ∨ s.file = none → Leaves s bytes answers s.file
  | flushed : answers.sought ≠ none → Leaves s bytes answers (some (s.stdio.flush answers.sought))
  | orphan : answers.written ≠ none →
      Leaves s bytes answers (some ((s.stdio.flush none).write bytes answers.written))

/-- An append that is refused leaves the counts as they are and poisons the file. -/
theorem append_refused (hsome : bytes ≠ []) (hbad : s.Refuses answers) :
    ∃ file, s.Leaves bytes answers file ∧
      s.append bytes answers = ({ s with file, failed := true }, false) := by
  unfold append
  rw [if_neg hsome]
  split_ifs with hfailed hopen hsought hwritten
  · refine ⟨s.file, .same (.inl hfailed), ?_⟩
    rw [← hfailed]
  · exact ⟨s.file, .same (.inr (Option.isNone_iff_eq_none.mp hopen.1)), rfl⟩
  · exact ⟨_, .flushed (Option.isSome_iff_ne_none.mp hsought), rfl⟩
  · have hnone : answers.sought = none := by simpa using hsought
    refine ⟨_, .orphan (Option.isSome_iff_ne_none.mp hwritten), ?_⟩
    rw [hnone]
  · refine absurd hbad ?_
    rintro (hpoisoned | ⟨hnone, hclosed⟩ | hnone | hnone)
    · exact hfailed hpoisoned
    · exact hopen ⟨Option.isNone_iff_eq_none.mpr hnone, by simp [hclosed]⟩
    · exact hsought (Option.isSome_iff_ne_none.mpr hnone)
    · exact hwritten (Option.isSome_iff_ne_none.mpr hnone)

theorem buffer_write_some {f : BufferedFile UInt8} {answer : Option Nat} (h : answer ≠ none) :
    (f.write bytes answer).buffer = [] := by
  cases answer with
  | none => exact absurd rfl h
  | some done => rfl

theorem Sound.refused (h : s.Sound) {file : Option (BufferedFile UInt8)}
    (hleft : s.Leaves bytes answers file) : Sound { s with file, failed := true } := by
  have hnone : s.file = none → s.stdio.buffer = [] := fun hfile => by rw [stdio, hfile]; rfl
  cases hleft with
  | same hwhy => exact ⟨h.offset, h.offset_le, h.opened, nofun, fun _ => hwhy.elim h.poisoned hnone⟩
  | flushed =>
    refine ⟨h.offset.trans ?_, h.offset_le, nofun, nofun, fun _ => BufferedFile.buffer_flush⟩
    exact BufferedFile.disk_flush_prefix.length_le
  | orphan hwritten =>
    refine ⟨h.offset.trans ?_, h.offset_le, nofun, nofun, fun _ => buffer_write_some hwritten⟩
    exact (BufferedFile.disk_flush_prefix.trans BufferedFile.disk_prefix_write).length_le

/-- What the file has of the bytes that were taken. -/
theorem stored_refused (h : s.Whole) {file : Option (BufferedFile UInt8)}
    (hleft : s.Leaves bytes answers file) :
    stored { s with file, failed := true } <+: s.stored ∧
      (¬ s.stdio.Loses answers.sought → Whole { s with file, failed := true }) := by
  have hwhole : s.size ≤ s.stdio.contents.length := h
  cases hleft with
  | same => exact ⟨List.prefix_refl _, fun _ => h⟩
  | flushed =>
    refine ⟨BufferedFile.contents_flush_prefix.take s.size, fun hkept => ?_⟩
    change s.size ≤ (s.stdio.flush answers.sought).contents.length
    rwa [BufferedFile.contents_flush hkept]
  | orphan =>
    have hbehind : s.stdio.contents <+:
        ((s.stdio.flush none).write bytes answers.written).contents := by
      have hflushed := @BufferedFile.contents_prefix_write _ (s.stdio.flush none) answers.written
        bytes BufferedFile.buffer_flush
      rwa [BufferedFile.contents_flush id] at hflushed
    refine ⟨?_, fun _ => hwhole.trans hbehind.length_le⟩
    obtain ⟨orphans, horphans⟩ := hbehind
    change (((s.stdio.flush none).write bytes answers.written).contents).take s.size <+: _
    rw [← horphans, List.take_append_of_le_length hwhole]
    exact List.prefix_refl _

/-- A spool that holds nothing has nothing in its buffer to lose. -/
theorem Sound.nothing_to_lose (h : s.Sound) (hdry : s.empty = true) : s.stdio.buffer = [] := by
  cases hfailed : s.failed with
  | true => exact h.poisoned hfailed
  | false =>
    have hremaining := empty_iff_remaining.mp hdry
    have hoffset := h.offset
    have happended := h.appended hfailed
    rw [remaining] at hremaining
    rw [BufferedFile.contents, List.length_append] at happended
    exact List.length_eq_zero_iff.mp (by omega)

end

/-! ## A read -/

section

variable {s : SpoolBuffer} {n : Nat} {answers : ReadAnswers}

/-- What a read does to the spool. -/
inductive Reads (s : SpoolBuffer) (n : Nat) (answers : ReadAnswers) : SpoolBuffer × Bytes → Prop
  | nothing : s.file = none ∨ n = 0 ∨ s.empty = true ∨ s.failed = true → Reads s n answers (s, [])
  | unsought : s.failed = false → answers.sought ≠ none →
      Reads s n answers ({ s with file := some (s.stdio.flush answers.sought) }, [])
  | got (bytes : Bytes) : s.failed = false → answers.sought = none →
      bytes = (s.stdio.flush none).readAt s.readOffset (min n s.remaining) answers.given →
      Reads s n answers
        ({ s with file := some (s.stdio.flush none), readOffset := s.readOffset + bytes.length },
          bytes)

theorem read_cases (s : SpoolBuffer) (n : Nat) (answers : ReadAnswers) :
    Reads s n answers (s.read n answers) := by
  unfold read
  split_ifs with hnone hsought
  · refine .nothing ?_
    rwa [Option.isNone_iff_eq_none] at hnone
  · push Not at hnone
    exact .unsought (by simpa using hnone.2.2.2) (Option.isSome_iff_ne_none.mp hsought)
  · push Not at hnone
    have hfine : answers.sought = none := by simpa using hsought
    rw [hfine]
    exact .got _ (by simpa using hnone.2.2.2) hfine rfl

/-- The bytes of a read are the first ones that are pending. -/
theorem readAt_pending :
    (s.stdio.flush none).readAt s.readOffset (min n s.remaining) answers.given <+: s.pending := by
  rw [pending, stored, List.drop_take, List.prefix_take_iff]
  refine ⟨?_, BufferedFile.length_readAt_le.trans (Nat.min_le_right ..)⟩
  have hdisk : (s.stdio.flush none).disk = s.stdio.contents := rfl
  rw [← hdisk]
  exact BufferedFile.readAt_prefix

theorem Sound.read (h : s.Sound) : (s.read n answers).1.Sound := by
  have hread := read_cases s n answers
  generalize s.read n answers = r at hread ⊢
  cases hread with
  | nothing => exact h
  | unsought hfailed =>
    refine ⟨h.offset.trans BufferedFile.disk_flush_prefix.length_le, h.offset_le, nofun,
      fun _ => ?_, fun _ => BufferedFile.buffer_flush⟩
    exact BufferedFile.contents_flush_prefix.length_le.trans (h.appended hfailed)
  | got bytes hfailed _ hbytes =>
    have hlength : bytes.length ≤ s.pending.length := hbytes ▸ readAt_pending.length_le
    have hoffset := h.offset
    have hoffset_le := h.offset_le
    rw [pending, stored, List.length_drop, List.length_take] at hlength
    refine ⟨?_, ?_, nofun, fun _ => ?_, fun _ => rfl⟩
    · change s.readOffset + bytes.length ≤ s.stdio.contents.length
      rw [BufferedFile.contents, List.length_append] at hlength ⊢
      omega
    · change s.readOffset + bytes.length ≤ s.size
      omega
    · change (s.stdio.flush none).contents.length ≤ s.size
      rw [BufferedFile.contents_flush id]
      exact h.appended hfailed

theorem failed_read : (s.read n answers).1.failed = s.failed := by
  have hread := read_cases s n answers
  generalize s.read n answers = r at hread ⊢
  cases hread with
  | nothing | unsought | got => rfl

theorem length_read_le : (s.read n answers).2.length ≤ n := by
  have hread := read_cases s n answers
  generalize s.read n answers = r at hread ⊢
  cases hread with
  | nothing | unsought => exact Nat.zero_le n
  | got bytes _ _ hbytes =>
    exact hbytes ▸ BufferedFile.length_readAt_le.trans (Nat.min_le_left ..)

/-- What was read and what is still there come from the front of what was pending. -/
theorem read_pending :
    (s.read n answers).2 ++ (s.read n answers).1.pending <+: s.pending ∧
      (¬ s.stdio.Loses answers.sought → s.Whole → (s.read n answers).1.Whole ∧
        (s.read n answers).2 ++ (s.read n answers).1.pending = s.pending) := by
  have hread := read_cases s n answers
  generalize s.read n answers = r at hread ⊢
  cases hread with
  | nothing => exact ⟨List.prefix_refl _, fun _ hwhole => ⟨hwhole, rfl⟩⟩
  | unsought =>
    refine ⟨(BufferedFile.contents_flush_prefix.take s.size).drop s.readOffset,
      fun hkept hwhole => ?_⟩
    have hsame := BufferedFile.contents_flush hkept
    refine ⟨?_, ?_⟩
    · change s.size ≤ (s.stdio.flush answers.sought).contents.length
      rwa [hsame]
    · change ((s.stdio.flush answers.sought).contents.take s.size).drop s.readOffset = s.pending
      rw [hsame, pending, stored]
  | got bytes _ _ hbytes =>
    have hall : bytes ++ ((s.stdio.flush none).contents.take s.size).drop
        (s.readOffset + bytes.length) = s.pending := by
      rw [BufferedFile.contents_flush id, ← List.drop_drop]
      exact List.prefix_iff_eq_append.mp (hbytes ▸ readAt_pending)
    refine ⟨⟨[], by rw [List.append_nil]; exact hall⟩, fun _ hwhole => ⟨?_, hall⟩⟩
    change s.size ≤ (s.stdio.flush none).contents.length
    rwa [BufferedFile.contents_flush id]

/-- The buffer is empty after a read of a spool that has something. -/
theorem Sound.buffer_read (h : s.Sound) (hn : n ≠ 0) (hmore : ¬ s.empty = true) :
    (s.read n answers).1.stdio.buffer = [] := by
  have hread := read_cases s n answers
  generalize s.read n answers = r at hread ⊢
  cases hread with
  | nothing hwhy =>
    rcases hwhy with hnone | hzero | hdry | hfailed
    · refine absurd (empty_iff_remaining.mpr ?_) hmore
      rw [remaining, h.opened hnone, Nat.zero_sub]
    · exact absurd hzero hn
    · exact absurd hdry hmore
    · exact h.poisoned hfailed
  | unsought => exact BufferedFile.buffer_flush
  | got => rfl

/-- Without a failure a read gives all that was asked for and is there. -/
theorem Good.read (h : s.Good) (n : Nat) :
    (s.read n).1.Good ∧ (s.read n).2 = s.pending.take n ∧
      (s.read n).1.pending = s.pending.drop n := by
  obtain ⟨hwhole, hall⟩ := (@read_pending s n {}).2 id h.whole
  have hgood : (s.read n).1.Good := ⟨h.sound.read, hwhole, failed_read.trans h.works⟩
  have hbytes : (s.read n).2 = s.pending.take n := by
    have hread := read_cases s n {}
    have hlength := h.whole.length
    generalize s.read n {} = r at hread ⊢
    cases hread with
    | nothing hwhy =>
      refine (List.take_eq_nil_iff.mpr ?_).symm
      rcases hwhy with hfile | hzero | hdry | hfailed
      · right
        apply List.length_eq_zero_iff.mp
        rw [hlength, remaining, h.sound.opened hfile, Nat.zero_sub]
      · exact .inl hzero
      · exact .inr (pending_of_empty hdry)
      · exact absurd (h.works.symm.trans hfailed) Bool.false_ne_true
    | unsought _ hsought => exact absurd rfl hsought
    | got bytes _ _ hbytes =>
      have hdisk : (s.stdio.flush none).disk = s.stdio.contents := rfl
      rw [hbytes, BufferedFile.readAt, hdisk, ← h.pending, ← hlength]
      exact (List.take_eq_take_iff.mpr (by omega))
  refine ⟨hgood, hbytes, ?_⟩
  have hsplit := hall.trans (List.take_append_drop n s.pending).symm
  rw [hbytes] at hsplit
  exact List.append_cancel_left hsplit

/-- A read gives a byte unless it fails. -/
theorem Good.read_some (h : s.Good) (hn : n ≠ 0) (hmore : s.pending ≠ [])
    (hsought : answers.sought = none) (hgiven : answers.given ≠ some 0) :
    (s.read n answers).2 ≠ [] := by
  have hread := read_cases s n answers
  have hlength := h.whole.length
  have hpos := List.length_pos_iff.mpr hmore
  generalize s.read n answers = r at hread ⊢
  cases hread with
  | nothing hwhy =>
    rcases hwhy with hfile | hzero | hdry | hfailed
    · rw [hlength, remaining, h.sound.opened hfile] at hpos
      omega
    · exact absurd hzero hn
    · exact absurd (pending_of_empty hdry) hmore
    · exact absurd (h.works.symm.trans hfailed) Bool.false_ne_true
  | unsought _ hnot => exact absurd hsought hnot
  | got bytes _ _ hbytes =>
    have hdisk : (s.stdio.flush none).disk.drop s.readOffset = s.pending := h.pending.symm
    have hroom : min n s.remaining ≠ 0 := by omega
    change bytes ≠ []
    rw [hbytes]
    cases hanswer : answers.given with
    | none =>
      rw [BufferedFile.readAt, hdisk, Ne, List.take_eq_nil_iff]
      exact not_or.mpr ⟨hroom, hmore⟩
    | some done =>
      have hdone : done ≠ 0 := fun hzero => hgiven (hzero ▸ hanswer)
      rw [BufferedFile.readAt, hdisk, Ne, List.take_eq_nil_iff]
      exact not_or.mpr ⟨by omega, hmore⟩

/-! ## All of it -/

/-- A read that does not fail gives all that the file has. -/
theorem Sound.readAll (h : s.Sound) : s.readAll {} = s.stored := by
  unfold SpoolBuffer.readAll
  by_cases hnone : s.file.isNone = true ∨ s.size = 0
  · have hzero : s.size = 0 := hnone.elim (fun hfile => h.opened (by simpa using hfile)) id
    rw [if_pos hnone, stored, hzero, List.take_zero]
  · rw [if_neg hnone, if_neg (by simp)]
    rfl

/-! ## A spool that never runs empty -/

/-- Bytes that were taken, and that no read will ever give: the file is poisoned, or has lost some
of them. -/
structure Stuck (s : SpoolBuffer) : Prop where
  sound : s.Sound
  more : ¬ s.empty = true
  why : s.failed = true ∨ ¬ s.Whole

theorem Sound.more_of_lost (h : s.Sound) (hlost : ¬ s.Whole) : ¬ s.empty = true := by
  have hoffset := h.offset
  have hshort : s.stdio.contents.length < s.size := Nat.not_le.mp hlost
  rw [BufferedFile.contents, List.length_append] at hshort
  rw [empty_iff_remaining, remaining]
  omega

theorem whole_of_read (h : (s.read n answers).1.Whole) : s.Whole := by
  have hread := read_cases s n answers
  generalize s.read n answers = r at hread h
  cases hread with
  | nothing => exact h
  | unsought => exact Nat.le_trans h BufferedFile.contents_flush_prefix.length_le
  | got =>
    have hwhole : s.size ≤ (s.stdio.flush none).contents.length := h
    rwa [BufferedFile.contents_flush id] at hwhole

theorem Stuck.read (h : s.Stuck) : (s.read n answers).1.Stuck := by
  rcases h.why with hfailed | hlost
  · have hsame : s.read n answers = (s, []) := if_pos (.inr (.inr (.inr hfailed)))
    rw [hsame]
    exact h
  · have hstill : ¬ (s.read n answers).1.Whole := mt whole_of_read hlost
    exact ⟨h.sound.read, h.sound.read.more_of_lost hstill, .inr hstill⟩

/-- A flush that loses bytes gets a spool stuck. -/
theorem Sound.stuck_of_loses (h : s.Sound) (hn : n ≠ 0) (hlost : s.stdio.Loses answers.sought) :
    (s.read n answers).1.Stuck ∧ (s.read n answers).2 = [] := by
  have hbuffer : s.stdio.buffer ≠ [] := fun hnil => BufferedFile.not_loses_of_nil hnil hlost
  have hworks : s.failed = false := by
    rw [← Bool.not_eq_true]
    exact fun hfailed => hbuffer (h.poisoned hfailed)
  have hshort := BufferedFile.length_contents_flush hlost
  have happended := h.appended hworks
  have hsound : (s.read n answers).1.Sound := h.read
  have hread := read_cases s n answers
  generalize s.read n answers = r at hread hsound ⊢
  cases hread with
  | nothing hwhy =>
    refine absurd hwhy ?_
    rintro (hnone | hzero | hdry | hfailed)
    · exact hbuffer (by rw [stdio, hnone]; rfl)
    · exact hn hzero
    · exact hbuffer (h.nothing_to_lose hdry)
    · exact absurd (hworks.symm.trans hfailed) Bool.false_ne_true
  | unsought =>
    have hnot : ¬ Whole { s with file := some (s.stdio.flush answers.sought) } := by
      change ¬ s.size ≤ (s.stdio.flush answers.sought).contents.length
      omega
    exact ⟨⟨hsound, hsound.more_of_lost hnot, .inr hnot⟩, rfl⟩
  | got _ _ hsought =>
    rw [hsought] at hlost
    exact hlost.elim

/-- A file that was read to its end may as well be a new one. -/
theorem Good.renew (h : s.Good) :
    (if s.empty then reset else s).Good ∧
      (if s.empty then reset else s).pending = s.pending := by
  by_cases hempty : s.empty = true
  · rw [if_pos hempty, pending_of_empty hempty]
    exact ⟨good_reset, rfl⟩
  · rw [if_neg hempty]
    exact ⟨h, rfl⟩

end

end SpoolBuffer

end psx.stream
