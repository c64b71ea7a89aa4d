-- A file behind a buffer, as a C library opens one for reading and writing. What is written waits
-- in the buffer until it is flushed, and a flush that fails loses what did not reach the disk. The
-- system's answer to a call is `none` when it succeeds, and how far it got when it fails.
import Mathlib.Data.List.Infix

/-- A file behind a buffer: what is on the disk, and what was written after it and not yet
flushed. -/
structure BufferedFile (α : Type*) where
  disk : List α := []
  buffer : List α := []
  deriving DecidableEq

namespace BufferedFile

variable {α : Type*}

/-- What a reader would find if nothing failed any more. -/
def contents (f : BufferedFile α) : List α := f.disk ++ f.buffer

/-- The buffer goes to the disk. When that fails, the part of it that did not get there is gone. -/
def flush (f : BufferedFile α) : Option Nat → BufferedFile α
  | none => { disk := f.disk ++ f.buffer }
  | some done => { disk := f.disk ++ f.buffer.take done }

/-- A write that fails leaves a part of what was to be written on the disk. -/
def write (f : BufferedFile α) (l : List α) : Option Nat → BufferedFile α
  | none => { f with buffer := f.buffer ++ l }
  | some done => flush { f with buffer := f.buffer ++ l } (some done)

/-- Up to `n` elements of the disk, fewer when the read fails. -/
def readAt (f : BufferedFile α) (offset n : Nat) : Option Nat → List α
  | none => (f.disk.drop offset).take n
  | some done => (f.disk.drop offset).take (min done n)

/-- A flush with this answer does not get the whole buffer to the disk. -/
def Loses (f : BufferedFile α) : Option Nat → Prop
  | none => False
  | some done => done < f.buffer.length

section

variable {f : BufferedFile α} {answer : Option Nat} {l : List α} {offset n : Nat}

@[simp] theorem buffer_flush : (f.flush answer).buffer = [] := by
  cases answer with
  | none | some => rfl

/-- The disk only grows. -/
theorem disk_flush_prefix : f.disk <+: (f.flush answer).disk := by
  cases answer with
  | none | some => exact List.prefix_append f.disk _

theorem contents_flush_eq_disk : (f.flush answer).contents = (f.flush answer).disk := by
  rw [contents, buffer_flush, List.append_nil]

theorem contents_flush_prefix : (f.flush answer).contents <+: f.contents := by
  rw [contents_flush_eq_disk]
  cases answer with
  | none => exact List.prefix_refl f.contents
  | some done => exact (List.prefix_append_right_inj f.disk).mpr (List.take_prefix done f.buffer)

theorem contents_flush (h : ¬ f.Loses answer) : (f.flush answer).contents = f.contents := by
  rw [contents_flush_eq_disk]
  cases answer with
  | none => rfl
  | some done =>
    have hall : f.buffer.take done = f.buffer := List.take_of_length_le (Nat.not_lt.mp h)
    rw [flush, hall, contents]

theorem length_contents_flush (h : f.Loses answer) :
    (f.flush answer).contents.length < f.contents.length := by
  rw [contents_flush_eq_disk]
  cases answer with
  | none => exact h.elim
  | some done =>
    have hshort : done < f.buffer.length := h
    simp only [flush, contents, List.length_append, List.length_take]
    omega

/-- A buffer that was just flushed has nothing to lose. -/
theorem not_loses_of_nil (h : f.buffer = []) : ¬ f.Loses answer := by
  cases answer with
  | none => exact id
  | some done =>
    intro hlost
    have hshort : done < f.buffer.length := hlost
    rw [h] at hshort
    exact Nat.not_lt_zero done hshort

theorem contents_write : (f.write l none).contents = f.contents ++ l :=
  (List.append_assoc f.disk f.buffer l).symm

theorem disk_prefix_write : f.disk <+: (f.write l answer).disk := by
  cases answer with
  | none => exact List.prefix_refl f.disk
  | some => exact List.prefix_append f.disk _

/-- Whatever a write leaves on the disk is behind what was there. -/
theorem contents_prefix_write (h : f.buffer = []) :
    f.contents <+: (f.write l answer).contents := by
  have hdisk : f.contents = f.disk := by rw [contents, h, List.append_nil]
  rw [hdisk]
  exact disk_prefix_write.trans (List.prefix_append _ _)

theorem readAt_prefix : f.readAt offset n answer <+: f.disk.drop offset := by
  cases answer with
  | none | some => exact List.take_prefix _ _

theorem length_readAt_le : (f.readAt offset n answer).length ≤ n := by
  cases answer with
  | none | some =>
    simp only [readAt, List.length_take]
    omega

end

end BufferedFile
