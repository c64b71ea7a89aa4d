-- Counters over a table of entries. A program that keeps a counter beside a table
-- of flags changes one entry at a time; these say what the change does to the count.
import Mathlib.Algebra.GroupWithZero.Nat
import Mathlib.Data.List.GetD

namespace Counts

variable {α : Type*}

/-- One entry changes: the count changes by what that entry counted before and after. -/
theorem countP_modify (p : α → Bool) (f : α → α) {l : List α} {i : Nat} (d : α)
    (h : i < l.length) :
    (l.modify i f).countP p + (p (l.getD i d)).toNat =
      l.countP p + (p (f (l.getD i d))).toNat := by
  induction l generalizing i with
  | nil => simp at h
  | cons x l ih =>
    cases i with
    | zero =>
      simp only [List.modify_zero_cons, List.countP_cons, List.getD_cons_zero]
      cases p x <;> cases p (f x) <;> simp
    | succ i =>
      have hrest := ih (i := i) (by simpa using h)
      simp only [List.modify_succ_cons, List.countP_cons, List.getD_cons_succ]
      omega

/-- The same for a sum. -/
theorem sum_map_modify (g : α → Nat) (f : α → α) {l : List α} {i : Nat} (d : α) (h : i < l.length) :
    ((l.modify i f).map g).sum + g (l.getD i d) = (l.map g).sum + g (f (l.getD i d)) := by
  induction l generalizing i with
  | nil => simp at h
  | cons x l ih =>
    cases i with
    | zero =>
      simp only [List.modify_zero_cons, List.map_cons, List.sum_cons, List.getD_cons_zero]
      omega
    | succ i =>
      have hrest := ih (i := i) (by simpa using h)
      simp only [List.modify_succ_cons, List.map_cons, List.sum_cons, List.getD_cons_succ]
      omega

theorem getD_modify (f : α → α) (l : List α) (i j : Nat) (d : α) (h : i < l.length) :
    (l.modify i f).getD j d = if j = i then f (l.getD j d) else l.getD j d := by
  by_cases hj : j = i
  · subst hj
    simp [List.getD_eq_getElem?_getD, List.getElem?_eq_getElem h]
  · simp [List.getD_eq_getElem?_getD, hj, List.getElem?_modify_ne f l (Ne.symm hj)]

/-- A change that a projection does not see. -/
theorem map_modify {β : Type*} {f : α → α} {g : α → β} (h : ∀ x, g (f x) = g x) (l : List α)
    (i : Nat) : (l.modify i f).map g = l.map g := by
  induction l generalizing i with
  | nil => simp
  | cons x l ih =>
    cases i with
    | zero => simp [h]
    | succ i => simp [ih]

/-- The entry that was just added. -/
theorem modify_snoc (f : α → α) (l : List α) (x : α) :
    (l ++ [x]).modify l.length f = l ++ [f x] := by
  induction l with
  | nil => rfl
  | cons y l ih => simpa using ih

/-- A count is zero exactly when no entry counts. -/
theorem countP_eq_zero_iff_getD {p : α → Bool} {l : List α} (d : α) :
    l.countP p = 0 ↔ ∀ i < l.length, p (l.getD i d) = false := by
  rw [List.countP_eq_zero]
  constructor
  · intro h i hi
    have hmem : l.getD i d ∈ l := by
      rw [List.getD_eq_getElem _ _ hi]
      exact List.getElem_mem hi
    simpa using h _ hmem
  · intro h x hx
    obtain ⟨i, hi, rfl⟩ := List.mem_iff_getElem.mp hx
    have := h i hi
    rw [List.getD_eq_getElem _ _ hi] at this
    simp [this]

/-! ## Numbers that fall -/

/-- Numbers that only fall, and that fall again and again, come to 0. -/
theorem falls_to_zero {size : Nat → Nat} (hfalls : ∀ i, size (i + 1) ≤ size i)
    (hagain : ∀ i, ∃ j, i ≤ j ∧ (size j ≠ 0 → size (j + 1) < size j)) : ∃ i, size i = 0 := by
  have hlater : ∀ i j, i ≤ j → size j ≤ size i := by
    intro i j hij
    induction hij with
    | refl => exact Nat.le_refl _
    | step _ ih => exact Nat.le_trans (hfalls _) ih
  have hbound : ∀ bound i, size i ≤ bound → ∃ j, size j = 0 := by
    intro bound
    induction bound with
    | zero => exact fun i hi => ⟨i, Nat.le_zero.mp hi⟩
    | succ bound ih =>
      intro i hi
      obtain ⟨j, hij, hless⟩ := hagain i
      by_cases hzero : size j = 0
      · exact ⟨j, hzero⟩
      · have hj := hlater i j hij
        have hnext := hless hzero
        exact ih (j + 1) (by omega)
  exact hbound (size 0) 0 (Nat.le_refl _)

end Counts
