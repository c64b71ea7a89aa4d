-- Rows grouped by a key in an ordered map, and the two sorts: one that tells equal elements apart
-- by nothing, and one that leaves them as they stood.
import Mathlib.Data.List.Induction
import Mathlib.Data.List.Sort

namespace Grouping

/-! ## Groups -/

section

variable {α κ ν : Type*} {cmp : κ → κ → Ordering}

/-- One more value under its key. -/
def push (groups : Std.TreeMap κ (List ν) cmp) (k : κ) (v : ν) : Std.TreeMap κ (List ν) cmp :=
  groups.alter k fun values => some (values.getD [] ++ [v])

/-- The values of the rows with the key, in their order. -/
def valuesAt [DecidableEq κ] (key : α → κ) (value : α → ν) (k : κ) (rows : List α) : List ν :=
  (rows.filter fun row => key row = k).map value

variable [DecidableEq κ] {key : α → κ} {value : α → ν}

theorem valuesAt_snoc (rows : List α) (row : α) (k : κ) : valuesAt key value k (rows ++ [row]) =
    valuesAt key value k rows ++ if key row = k then [value row] else [] := by
  unfold valuesAt
  rw [List.filter_append, List.map_append, List.filter_singleton]
  by_cases h : key row = k <;> simp [h]

theorem valuesAt_ne_nil {rows : List α} {k : κ} :
    valuesAt key value k rows ≠ [] ↔ ∃ row ∈ rows, key row = k := by
  unfold valuesAt
  rw [Ne, List.map_eq_nil_iff, List.filter_eq_nil_iff]
  simp

theorem valuesAt_perm {rows others : List α} (h : rows.Perm others) (k : κ) :
    (valuesAt key value k rows).Perm (valuesAt key value k others) := (h.filter _).map _

/-- The rows with the key, by where they stand. -/
theorem valuesAt_places (rows : List α) (k : κ) : valuesAt key value k rows =
    ((List.finRange rows.length).filter fun i => key (rows.get i) = k).map
      fun i => value (rows.get i) := by
  unfold valuesAt
  conv_lhs => rw [← List.map_get_finRange rows, List.filter_map, List.map_map]
  rfl

variable [Std.TransCmp cmp] [Std.LawfulEqCmp cmp]

theorem get_push (groups : Std.TreeMap κ (List ν) cmp) (k : κ) (v : ν) (j : κ) :
    (push groups k v)[j]? = if k = j then some (groups[k]?.getD [] ++ [v]) else groups[j]? := by
  unfold push
  rw [Std.TreeMap.getElem?_alter]
  simp only [Std.LawfulEqCmp.compare_eq_iff_eq]

variable (cmp key value) in

/-- The rows of each key, in their order. -/
def groups (rows : List α) : Std.TreeMap κ (List ν) cmp :=
  rows.foldl (fun groups row => push groups (key row) (value row)) ∅

/-- A key of some row has its values, and no other key has any. -/
theorem get_groups (rows : List α) (k : κ) : (groups cmp key value rows)[k]? =
    if valuesAt key value k rows = [] then none else some (valuesAt key value k rows) := by
  induction rows using List.reverseRecOn generalizing k with
  | nil => exact Std.TreeMap.getElem?_emptyc
  | append_singleton rows row ih =>
    have hpush : groups cmp key value (rows ++ [row]) =
        push (groups cmp key value rows) (key row) (value row) := by
      unfold groups
      rw [List.foldl_append]
      rfl
    rw [hpush, get_push, valuesAt_snoc, ih, ih]
    by_cases hkey : key row = k
    · subst hkey
      rw [if_pos rfl, if_pos rfl]
      by_cases hnone : valuesAt key value (key row) rows = []
      · rw [if_pos hnone, hnone, if_neg (by simp)]
        rfl
      · rw [if_neg hnone, if_neg (by simp)]
        rfl
    · rw [if_neg hkey, if_neg hkey, List.append_nil]

theorem mem_toList_groups {rows : List α} {p : κ × List ν} :
    p ∈ (groups cmp key value rows).toList ↔
      p.2 = valuesAt key value p.1 rows ∧ p.2 ≠ [] := by
  obtain ⟨k, values⟩ := p
  rw [Std.TreeMap.mem_toList_iff_getElem?_eq_some, get_groups]
  by_cases hnone : valuesAt key value k rows = []
  · rw [if_pos hnone, hnone]
    exact iff_of_false (by simp) fun h => h.2 h.1
  · rw [if_neg hnone, Option.some_inj]
    constructor
    · rintro rfl
      exact ⟨rfl, hnone⟩
    · exact fun h => h.1.symm

end

/-! ## Sorts -/

section

variable {α : Type*} {r s : α → α → Prop} [DecidableRel r] [Std.Total r] [IsTrans α r]

/-- Where the order is one of the elements themselves, the sort does not see how they stood. -/
theorem insertionSort_perm [Std.Antisymm r] {l m : List α} (h : l.Perm m) :
    l.insertionSort r = m.insertionSort r :=
  List.Perm.eq_of_pairwise (fun a b _ _ => Std.Antisymm.antisymm a b)
    (List.pairwise_insertionSort r l) (List.pairwise_insertionSort r m)
    ((List.perm_insertionSort r l).trans (h.trans (List.perm_insertionSort r m).symm))

theorem orderedInsert_stable {a : α} {l : List α} (ha : ∀ b ∈ l, s a b)
    (h : l.Pairwise fun x y => r x y ∧ (r y x → s x y)) :
    (l.orderedInsert r a).Pairwise fun x y => r x y ∧ (r y x → s x y) := by
  induction l with
  | nil => exact List.pairwise_singleton _ _
  | cons b l ih =>
    obtain ⟨hb, hl⟩ := List.pairwise_cons.mp h
    by_cases hab : r a b
    · rw [List.orderedInsert_cons_of_le r l hab]
      refine List.pairwise_cons.mpr ⟨fun c hc => ⟨?_, fun _ => ha c hc⟩, h⟩
      rcases List.mem_cons.mp hc with rfl | hc
      · exact hab
      · exact IsTrans.trans a b c hab (hb c hc).1
    · rw [List.orderedInsert_of_not_le r l hab]
      refine List.pairwise_cons.mpr
        ⟨fun c hc => ?_, ih (fun c hc => ha c (List.mem_cons_of_mem b hc)) hl⟩
      rcases (List.mem_orderedInsert r).mp hc with rfl | hc
      · exact ⟨(Std.Total.total c b).resolve_left hab, fun h => absurd h hab⟩
      · exact hb c hc

/-- Elements that are equal for the order stay as they stood. -/
theorem insertionSort_stable {l : List α} (h : l.Pairwise s) :
    (l.insertionSort r).Pairwise fun x y => r x y ∧ (r y x → s x y) := by
  induction l with
  | nil => exact List.Pairwise.nil
  | cons a l ih =>
    obtain ⟨ha, hl⟩ := List.pairwise_cons.mp h
    refine orderedInsert_stable (fun b hb => ?_) (ih hl)
    exact ha b ((List.mem_insertionSort r).mp hb)

end

end Grouping
