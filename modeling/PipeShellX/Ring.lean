-- A ring of cells: a queue in a fixed array, with the index of its oldest element.
-- What it holds is a list; writing at the tail appends to that list, and moving the
-- head drops from it.
import Mathlib.Data.List.DropRight

/-! ## The first and the last elements of a list -/

namespace List

variable {α : Type*}

theorem take_append_take (l m : List α) (n : Nat) : (l.take n ++ m).take n = (l ++ m).take n := by
  rw [take_append, take_append, take_take, Nat.min_self, length_take]
  congr 2
  omega

theorem length_rtake (l : List α) (n : Nat) : (l.rtake n).length = min n l.length := by
  rw [rtake, length_drop]
  omega

theorem rtake_of_length_le {l : List α} {n : Nat} (h : l.length ≤ n) : l.rtake n = l := by
  rw [rtake, Nat.sub_eq_zero_of_le h, drop_zero]

theorem rtake_append_rtake (l m : List α) (n : Nat) :
    (l.rtake n ++ m).rtake n = (l ++ m).rtake n := by
  unfold rtake
  rw [length_append, length_append, length_drop, drop_append, drop_append, drop_drop, length_drop]
  congr 2
  · omega
  · omega

/-- The last elements of a list and a longer one behind it. -/
theorem rtake_append_of_le {l m : List α} {n : Nat} (h : n ≤ m.length) :
    (l ++ m).rtake n = m.rtake n := by
  unfold rtake
  rw [length_append, drop_append, drop_eq_nil_of_le (by omega), nil_append]
  congr 1
  omega

end List

/-! ## The ring -/

/-- `head` names a cell, or is 0 in a ring without cells. -/
structure RingBuffer (α : Type*) (capacity : Nat) where
  cells : Vector α capacity
  head : Nat
  size : Nat
  head_lt : head < max 1 capacity
  size_le : size ≤ capacity

namespace RingBuffer

variable {α : Type*} {capacity : Nat}

theorem first_cell (capacity : Nat) : 0 < max 1 capacity := by omega

/-- The cell `offset` places after the head. -/
def slot (r : RingBuffer α capacity) (offset : Nat) (h : offset < r.size) : Fin capacity :=
  ⟨(r.head + offset) % capacity, Nat.mod_lt _ (Nat.lt_of_lt_of_le (Nat.zero_lt_of_lt h) r.size_le)⟩

/-- What the ring holds, oldest first. -/
def toList (r : RingBuffer α capacity) : List α :=
  List.ofFn fun i : Fin r.size => r.cells[r.slot i i.isLt]

/-- How many more items fit. -/
def free (r : RingBuffer α capacity) : Nat := capacity - r.size

/-- `memcpy` of `source` to the cells from `offset` on. -/
def copy (cells : Vector α capacity) (offset : Nat) (source : List α) : Vector α capacity :=
  Vector.ofFn fun i =>
    if h : offset ≤ i ∧ i - offset < source.length then source.get ⟨i - offset, h.2⟩
    else cells[i]

/-- `data` goes to the cells after the tail, and what is left over at the end of the array to the
cells at its start. -/
def write (r : RingBuffer α capacity) (data : List α) (h : r.size + data.length ≤ capacity) :
    RingBuffer α capacity :=
  let tail := (r.head + r.size) % capacity
  let firstRun := min data.length (capacity - tail)
  { r with
    cells := copy (copy r.cells tail (data.take firstRun)) 0 (data.drop firstRun)
    size := r.size + data.length
    size_le := h }

/-- The oldest items are let go. -/
def discard (r : RingBuffer α capacity) (n : Nat) : RingBuffer α capacity :=
  let n := min n r.size
  { r with
    head := (r.head + n) % max 1 capacity
    size := r.size - n
    head_lt := Nat.mod_lt _ (by omega)
    size_le := by have := r.size_le; omega }

/-- All items are let go. -/
def clear (r : RingBuffer α capacity) : RingBuffer α capacity :=
  { r with head := 0, size := 0, head_lt := first_cell capacity, size_le := Nat.zero_le capacity }

/-! ## The list that a ring holds -/

@[simp] theorem length_toList (r : RingBuffer α capacity) : r.toList.length = r.size := by
  simp [toList]

theorem free_add_size (r : RingBuffer α capacity) : r.free + r.size = capacity :=
  Nat.sub_add_cancel r.size_le

/-- An index wraps at most once. -/
theorem wrap {head offset : Nat} (hhead : head < max 1 capacity) (hoffset : offset < capacity) :
    (head + offset) % capacity =
      if head + offset < capacity then head + offset else head + offset - capacity := by
  split_ifs with h
  · exact Nat.mod_eq_of_lt h
  · rw [Nat.mod_eq_sub_mod (by omega), Nat.mod_eq_of_lt (by omega)]

@[simp] theorem getElem_toList (r : RingBuffer α capacity) (i : Nat) (h : i < r.toList.length) :
    r.toList[i] = r.cells[r.slot i (by simpa using h)] := by
  simp [toList]

theorem getElem_copy (cells : Vector α capacity) (offset : Nat) (source : List α)
    (i : Fin capacity) :
    (copy cells offset source)[i] =
      if h : offset ≤ i ∧ i - offset < source.length then source.get ⟨i - offset, h.2⟩
      else cells[i] := by
  simp [copy]

/-- A cell that a copy does not reach. -/
theorem getElem_copy_other {cells : Vector α capacity} {offset : Nat} {source : List α}
    {i : Fin capacity} (h : i.val < offset ∨ offset + source.length ≤ i) :
    (copy cells offset source)[i] = cells[i] := by
  rw [getElem_copy, dif_neg]
  omega

theorem getElem_copy_inside {cells : Vector α capacity} {offset k : Nat} {source : List α}
    {i : Fin capacity} (hi : i.val = offset + k) (hk : k < source.length) :
    (copy cells offset source)[i] = source[k] := by
  have hin : offset ≤ i.val ∧ i.val - offset < source.length := by omega
  rw [getElem_copy, dif_pos hin, List.get_eq_getElem]
  simp [hi]

theorem copy_nil (cells : Vector α capacity) (offset : Nat) : copy cells offset [] = cells := by
  apply Vector.ext
  intro i hi
  simp [copy]

theorem write_nil (r : RingBuffer α capacity) (h : r.size + ([] : List α).length ≤ capacity) :
    r.write [] h = r := by
  simp [write, copy_nil]

/-- What the ring held stays where it was, and the new elements follow. -/
theorem toList_write (r : RingBuffer α capacity) (data : List α)
    (h : r.size + data.length ≤ capacity) : (r.write data h).toList = r.toList ++ data := by
  by_cases hdata : data = []
  · subst hdata
    rw [write_nil, List.append_nil]
  have hpos := List.length_pos_iff.mpr hdata
  have hhead := r.head_lt
  have htail := wrap hhead (show r.size < capacity by omega)
  apply List.ext_getElem
  · simp [write]
  · intro i hi hi'
    have hsize : i < r.size + data.length := by simpa [write] using hi
    have hslot := wrap hhead (show i < capacity by omega)
    rw [getElem_toList, List.getElem_append]
    split_ifs with hold
    · have hold' : i < r.size := by simpa using hold
      rw [getElem_toList]
      change (copy (copy r.cells _ _) 0 _)[r.slot i hold'] = r.cells[r.slot i hold']
      have hval : (r.slot i hold').val = (r.head + i) % capacity := rfl
      rw [getElem_copy_other, getElem_copy_other]
      all_goals
        rw [hval, hslot]
        simp only [htail, List.length_take, List.length_drop]
        split_ifs <;> omega
    · have hnew : r.size ≤ i := by simpa using hold
      have hval : ((r.write data h).slot i hsize).val = (r.head + i) % capacity := rfl
      change (copy (copy r.cells _ _) 0 _)[(r.write data h).slot i hsize] = _
      simp only [length_toList]
      -- the run up to the end of the array, or the one from its start
      by_cases hfirst : i - r.size < capacity - (r.head + r.size) % capacity
      · rw [getElem_copy_other, getElem_copy_inside (k := i - r.size), List.getElem_take]
        · rw [hval, hslot]
          simp only [htail] at hfirst ⊢
          split_ifs at hfirst ⊢ <;> omega
        · rw [List.length_take]
          omega
        · right
          rw [hval, hslot, List.length_drop]
          simp only [htail] at hfirst ⊢
          split_ifs at hfirst ⊢ <;> omega
      · rw [getElem_copy_inside (k := i - r.size - (capacity - (r.head + r.size) % capacity)),
          List.getElem_drop]
        · congr 1
          omega
        · rw [hval, hslot]
          simp only [htail] at hfirst ⊢
          split_ifs at hfirst ⊢ <;> omega
        · rw [List.length_drop]
          omega

/-- The oldest elements go. -/
theorem toList_discard (r : RingBuffer α capacity) (n : Nat) :
    (r.discard n).toList = r.toList.drop n := by
  have hhead := r.head_lt
  have hsize := r.size_le
  apply List.ext_getElem
  · rw [length_toList, List.length_drop, length_toList]
    change r.size - min n r.size = r.size - n
    omega
  · intro i hi hi'
    have hi'' : i < r.size - min n r.size := by simpa [discard] using hi
    rw [List.getElem_drop, getElem_toList, getElem_toList]
    change r.cells[(r.discard n).slot i _] = _
    congr 1
    apply Fin.ext
    change ((r.head + min n r.size) % max 1 capacity + i) % capacity = (r.head + (n + i)) % capacity
    rw [Nat.max_eq_right (show 1 ≤ capacity by omega), Nat.mod_add_mod]
    congr 1
    omega

@[simp] theorem toList_clear (r : RingBuffer α capacity) : r.clear.toList = [] := by
  simp [toList, clear]

/-! ## Reading the cells -/

/-- `n` cells, from `offset` on. -/
def span (cells : Vector α capacity) (offset n : Nat) : List α := (cells.toList.drop offset).take n

/-- The loop of a copy out of the ring, with the index at which it stops. Every turn copies a cell,
so the cells that are left bound the turns. -/
def copyOut (cells : Vector α capacity) : Nat → Nat → Nat → Nat × List α
  | 0, head, _ => (head, [])
  | turns + 1, head, left =>
    if left = 0 then (head, [])
    else
      let run := min left (capacity - head)
      let (stop, rest) := copyOut cells turns ((head + run) % capacity) (left - run)
      (stop, span cells head run ++ rest)

/-- The cells up to the end of the array are what comes first in the ring. -/
theorem span_eq (r : RingBuffer α capacity) {n : Nat} (hn : n ≤ r.size)
    (hwrap : r.head + n ≤ capacity) :
    span r.cells r.head n = r.toList.take n := by
  unfold span
  apply List.ext_getElem
  · simp only [List.length_take, List.length_drop, Vector.length_toList, length_toList]
    omega
  · intro i hi hi'
    have hin : i < n := (List.length_take ▸ hi' : i < min n _).trans_le (Nat.min_le_left ..)
    rw [List.getElem_take, List.getElem_drop, List.getElem_take, getElem_toList]
    have hslot : (r.slot i (by omega)).val = r.head + i := Nat.mod_eq_of_lt (by omega)
    simp [hslot]

theorem discard_cells (r : RingBuffer α capacity) (n : Nat) : (r.discard n).cells = r.cells := rfl

theorem discard_head (r : RingBuffer α capacity) {n : Nat} (hn : n ≤ r.size) (hsome : 0 < n) :
    (r.discard n).head = (r.head + n) % capacity := by
  have hle := r.size_le
  change (r.head + min n r.size) % max 1 capacity = _
  rw [Nat.min_eq_left hn, Nat.max_eq_right (by omega)]

theorem discard_zero (r : RingBuffer α capacity) : r.discard 0 = r := by
  have hhead : (r.head + min 0 r.size) % max 1 capacity = r.head := by
    rw [Nat.zero_min, Nat.add_zero, Nat.mod_eq_of_lt r.head_lt]
  cases r
  simpa [discard] using hhead

theorem discard_discard (r : RingBuffer α capacity) (m n : Nat) :
    (r.discard m).discard n = r.discard (m + n) := by
  have hsize : r.size - min m r.size - min n (r.size - min m r.size) =
      r.size - min (m + n) r.size := by omega
  have hmoved : r.head + min m r.size + min n (r.size - min m r.size) =
      r.head + min (m + n) r.size := by omega
  simp only [discard, Nat.mod_add_mod, hsize, hmoved]

/-- The copy wraps around at the end of the array. The induction is over the turns, each of which
reads the ring that the turns before it have left. -/
theorem copyOut_eq (turns left : Nat) (r : RingBuffer α capacity) (hleft : left ≤ r.size)
    (hturns : left ≤ turns) :
    copyOut r.cells turns r.head left = ((r.discard left).head, r.toList.take left) := by
  induction turns generalizing left r with
  | zero =>
    obtain rfl := Nat.le_zero.mp hturns
    rw [discard_zero]
    rfl
  | succ turns ih =>
    unfold copyOut
    by_cases hnone : left = 0
    · rw [if_pos hnone, hnone, discard_zero, List.take_zero]
    · have hle := r.size_le
      have hhead := r.head_lt
      rw [if_neg hnone]
      dsimp only
      generalize hrun : min left (capacity - r.head) = run
      have hsize : (r.discard run).size = r.size - run := by
        change r.size - min run r.size = r.size - run
        omega
      have hturn := ih (left - run) (r.discard run) (by omega) (by omega)
      rw [discard_cells, discard_head r (by omega) (by omega)] at hturn
      rw [hturn, toList_discard, span_eq r (by omega) (by omega), ← List.take_add]
      have hall : run + (left - run) = left := by omega
      rw [discard_discard, hall]

end RingBuffer
