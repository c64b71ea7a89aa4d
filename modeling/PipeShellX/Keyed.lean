-- A list whose elements have keys, each key once, as a map from the keys. What is appended and
-- taken out of the list is bound and unbound in the map, and the order of the list is not seen.
import Mathlib.Data.List.Nodup
import Mathlib.Logic.Function.Basic

namespace Keyed

variable {α κ β : Type*} [DecidableEq κ] {key : α → κ} {value : α → β}

/-- The value of the first entry with a key. -/
def toMap (key : α → κ) (value : α → β) (xs : List α) : κ → Option β :=
  fun k => (xs.find? fun x => key x = k).map value

@[simp] theorem toMap_nil : toMap key value [] = fun _ => none := rfl

theorem toMap_none {xs : List α} {k : κ} : toMap key value xs k = none ↔ ∀ x ∈ xs, key x ≠ k := by
  simp [toMap]

/-- A key is bound to the value of the one element that has it. -/
theorem toMap_some {xs : List α} (hnodup : (xs.map key).Nodup) {k : κ} {v : β} :
    toMap key value xs k = some v ↔ ∃ x ∈ xs, key x = k ∧ value x = v := by
  unfold toMap
  rw [Option.map_eq_some_iff]
  constructor
  · rintro ⟨x, hx, rfl⟩
    exact ⟨x, List.mem_of_find?_eq_some hx, by simpa using List.find?_some hx, rfl⟩
  · rintro ⟨x, hx, rfl, rfl⟩
    refine ⟨x, ?_, rfl⟩
    cases hfind : xs.find? fun y => key y = key x with
    | none =>
      have hnot := List.find?_eq_none.mp hfind x hx
      simp at hnot
    | some y =>
      have hsame : key y = key x := by simpa using List.find?_some hfind
      rw [List.inj_on_of_nodup_map hnodup (List.mem_of_find?_eq_some hfind) hx hsame]

/-- Two lists with the same values at the same keys are the same map. -/
theorem toMap_eq {xs ys : List α} (hxs : (xs.map key).Nodup) (hys : (ys.map key).Nodup)
    (hsub : ∀ x ∈ xs, ∃ y ∈ ys, key y = key x ∧ value y = value x)
    (hsup : ∀ y ∈ ys, ∃ x ∈ xs, key x = key y) : toMap key value xs = toMap key value ys := by
  funext k
  cases hk : toMap key value xs k with
  | none =>
    apply Eq.symm
    rw [toMap_none] at hk ⊢
    rintro y hy rfl
    obtain ⟨x, hx, hsame⟩ := hsup y hy
    exact hk x hx hsame
  | some v =>
    obtain ⟨x, hx, rfl, rfl⟩ := (toMap_some hxs).mp hk
    obtain ⟨y, hy, hkey, hvalue⟩ := hsub x hx
    exact ((toMap_some hys).mpr ⟨y, hy, hkey, hvalue⟩).symm

/-- The same map, the same values at the same keys. -/
theorem mem_of_toMap_eq {xs ys : List α} (hxs : (xs.map key).Nodup) (hys : (ys.map key).Nodup)
    (h : toMap key value xs = toMap key value ys) {x : α} (hx : x ∈ xs) :
    ∃ y ∈ ys, key y = key x ∧ value y = value x := by
  have hbound : toMap key value xs (key x) = some (value x) :=
    (toMap_some hxs).mpr ⟨x, hx, rfl, rfl⟩
  rw [h] at hbound
  exact (toMap_some hys).mp hbound

theorem toMap_snoc {xs : List α} {x : α} (hfresh : toMap key value xs (key x) = none) :
    toMap key value (xs ++ [x]) = Function.update (toMap key value xs) (key x)
      (some (value x)) := by
  funext k
  by_cases hk : k = key x
  · subst hk
    have hnone : (xs.find? fun y => key y = key x) = none := by simpa [toMap] using hfresh
    simp [toMap, List.find?_append, hnone]
  · rw [Function.update_of_ne hk]
    have hne : ¬ key x = k := fun heq => hk heq.symm
    simp [toMap, List.find?_append, hne]

theorem toMap_eraseP {xs : List α} (hnodup : (xs.map key).Nodup) (k : κ) :
    toMap key value (xs.eraseP fun x => key x = k) =
      Function.update (toMap key value xs) k none := by
  induction xs with
  | nil => simp
  | cons x xs ih =>
    rw [List.map_cons, List.nodup_cons] at hnodup
    obtain ⟨hfresh, hnodup⟩ := hnodup
    by_cases hx : key x = k
    · subst hx
      rw [List.eraseP_cons_of_pos (by simp)]
      funext k
      by_cases hk : k = key x
      · subst hk
        rw [Function.update_self, toMap_none]
        exact fun y hy heq => hfresh (heq ▸ List.mem_map_of_mem hy)
      · have hne : ¬ key x = k := fun heq => hk heq.symm
        rw [Function.update_of_ne hk]
        simp [toMap, hne]
    · rw [List.eraseP_cons_of_neg (by simpa using hx)]
      funext other
      have hrest := congrFun (ih hnodup) other
      by_cases hother : key x = other
      · subst hother
        rw [Function.update_of_ne hx]
        simp [toMap]
      · by_cases hsame : other = k
        · subst hsame
          rw [Function.update_self] at hrest ⊢
          simpa [toMap, hother] using hrest
        · rw [Function.update_of_ne hsame] at hrest ⊢
          simpa [toMap, hother] using hrest

open Classical in
/-- What is kept of the list by the values is kept of the map. -/
theorem toMap_filter {xs : List α} (hnodup : (xs.map key).Nodup) {p : α → Bool} {q : β → Prop}
    (hp : ∀ x ∈ xs, p x = true ↔ q (value x)) :
    toMap key value (xs.filter p) = fun k => (toMap key value xs k).filter fun v => q v := by
  funext k
  apply Option.ext
  intro v
  have hpart : ((xs.filter p).map key).Nodup := hnodup.sublist (List.filter_sublist.map key)
  rw [toMap_some hpart, Option.filter_eq_some_iff, toMap_some hnodup]
  constructor
  · rintro ⟨x, hx, hkey, rfl⟩
    obtain ⟨hin, hpx⟩ := List.mem_filter.mp hx
    exact ⟨⟨x, hin, hkey, rfl⟩, decide_eq_true ((hp x hin).mp hpx)⟩
  · rintro ⟨⟨x, hin, hkey, rfl⟩, hq⟩
    exact ⟨x, List.mem_filter.mpr ⟨hin, (hp x hin).mpr (of_decide_eq_true hq)⟩, hkey, rfl⟩

end Keyed
