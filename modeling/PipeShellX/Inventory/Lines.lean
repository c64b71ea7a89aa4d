-- A line of the inventory: what its comment and its blanks leave of it, and its words.
import PipeShellX.Inventory.Inventory
import Mathlib.Tactic.SplitIfs

namespace psx.inventory

open Text (ascii)
open Scan (strip_cut strip_first strip_last)

/-! ## Comments -/

/-- No comment opens in the text; `opens` says whether one would at its start. -/
def Kept (opens : Bool) (text : Bytes) : Prop := stripCommentFrom opens text = text

/-- Whether a comment opens behind the text. -/
def opensBehind (opens : Bool) (text : Bytes) : Bool := text.foldl (fun _ b => isBlank b) opens

theorem kept_nil (opens : Bool) : Kept opens [] := rfl

theorem kept_cons {opens : Bool} {c : UInt8} {rest : Bytes} :
    Kept opens (c :: rest) ↔ (isComment c && opens) = false ∧ Kept (isBlank c) rest := by
  unfold Kept
  rw [stripCommentFrom]
  by_cases hc : (isComment c && opens) = true
  · rw [if_pos hc]
    exact iff_of_false (List.cons_ne_nil c rest).symm fun h => by rw [hc] at h; cases h.1
  · rw [if_neg hc, List.cons.injEq]
    exact ⟨fun h => ⟨Bool.eq_false_iff.mpr hc, h.2⟩, fun h => ⟨rfl, h.2⟩⟩

theorem kept_append {opens : Bool} {text more : Bytes} :
    Kept opens (text ++ more) ↔ Kept opens text ∧ Kept (opensBehind opens text) more := by
  induction text generalizing opens with
  | nil => exact (and_iff_right (kept_nil opens)).symm
  | cons c rest ih =>
    rw [List.cons_append, kept_cons, kept_cons, ih, and_assoc]
    exact Iff.rfl

theorem Kept.closed {opens : Bool} {text : Bytes} (h : Kept opens text) : Kept false text := by
  cases text with
  | nil => exact kept_nil false
  | cons c rest => exact kept_cons.mpr ⟨Bool.and_false _, (kept_cons.mp h).2⟩

theorem Kept.part {opens : Bool} {text part : Bytes} (h : Kept opens text)
    (hpart : part <:+: text) :
    Kept false part := by
  obtain ⟨before, behind, rfl⟩ := hpart
  exact (kept_append.mp (kept_append.mp h).1).2.closed

theorem kept_strip (opens : Bool) (text : Bytes) : Kept opens (stripCommentFrom opens text) := by
  induction text generalizing opens with
  | nil => exact kept_nil opens
  | cons c rest ih =>
    rw [stripCommentFrom]
    by_cases hc : (isComment c && opens) = true
    · rw [if_pos hc]
      exact kept_nil opens
    · rw [if_neg hc]
      exact kept_cons.mpr ⟨Bool.eq_false_iff.mpr hc, ih _⟩

theorem stripComment_front (opens : Bool) (text : Bytes) :
    stripCommentFrom opens text <+: text := by
  induction text generalizing opens with
  | nil => exact List.prefix_rfl
  | cons c rest ih =>
    rw [stripCommentFrom]
    split_ifs
    · exact List.nil_prefix
    · exact List.cons_prefix_cons.mpr ⟨rfl, ih _⟩

/-- A comment opens only behind a blank, and so not in what has none. -/
theorem kept_of_unblank {opens : Bool} {text : Bytes} (h : ∀ b ∈ text, isBlank b = false)
    (hfirst : opens = false ∨ ∀ b ∈ text.head?, isComment b = false) : Kept opens text := by
  induction text generalizing opens with
  | nil => exact kept_nil opens
  | cons c rest ih =>
    rw [List.forall_mem_cons] at h
    refine kept_cons.mpr ⟨?_, ih h.2 (.inl h.1)⟩
    rcases hfirst with rfl | hfirst
    · exact Bool.and_false _
    · rw [hfirst c rfl, Bool.false_and]

/-- A text without a comment in it that does not begin one. -/
theorem Kept.opened {text : Bytes} (h : Kept false text)
    (hfirst : ∀ b ∈ text.head?, isComment b = false) (opens : Bool) : Kept opens text := by
  cases text with
  | nil => exact kept_nil opens
  | cons c rest =>
    refine kept_cons.mpr ⟨?_, (kept_cons.mp h).2⟩
    rw [hfirst c rfl, Bool.false_and]

theorem kept_flatMap {opens : Bool} {ws : List Bytes} (h : ∀ w ∈ ws, Kept true w) :
    Kept opens (ws.flatMap fun w => 32 :: w) := by
  induction ws generalizing opens with
  | nil => exact kept_nil opens
  | cons w ws ih =>
    rw [List.forall_mem_cons] at h
    rw [List.flatMap_cons, List.cons_append]
    exact kept_cons.mpr ⟨rfl, kept_append.mpr ⟨h.1, ih h.2⟩⟩

/-! ## Blanks -/

theorem trim_part (text : Bytes) : trim text <:+: text := by
  obtain ⟨l, r, heq, -⟩ := strip_cut isTrimmed text
  exact ⟨l, r, heq.symm⟩

theorem mem_trim {text : Bytes} {b : UInt8} (h : b ∈ text) (hb : isTrimmed b = false) :
    b ∈ trim text := by
  obtain ⟨l, r, heq, hl, hr⟩ := strip_cut isTrimmed text
  rw [heq] at h
  rcases List.mem_append.mp h with h | h
  · rcases List.mem_append.mp h with h | h
    · exact absurd (hl b h) (Bool.eq_false_iff.mp hb)
    · exact h
  · exact absurd (hr b h) (Bool.eq_false_iff.mp hb)

theorem trim_trim (text : Bytes) : trim (trim text) = trim text :=
  Scan.strip_self strip_first strip_last

end psx.inventory
