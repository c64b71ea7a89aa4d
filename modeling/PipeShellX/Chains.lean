-- A list as a chain: each element is linked to the next one. An order in which both ends of every
-- link of a list stand in turn is that list.
import Mathlib.Data.List.Nodup
import Mathlib.Data.List.Perm.Basic
import Mathlib.Order.RelClasses

namespace Chains

variable {α : Type*}

/-- Each element with the next one. -/
def links (v : List α) : List (α × α) := v.zip v.tail

theorem links_cons (a b : α) (v : List α) : links (a :: b :: v) = (a, b) :: links (b :: v) := rfl

theorem length_links (v : List α) : (links v).length = v.length - 1 := by
  rw [links, List.length_zip, List.length_tail]
  omega

theorem mem_of_link {v : List α} {a b : α} (h : (a, b) ∈ links v) : a ∈ v ∧ b ∈ v := by
  have hmem := List.of_mem_zip h
  exact ⟨hmem.1, List.mem_of_mem_tail hmem.2⟩

theorem links_nodup {v : List α} (h : v.Nodup) : (links v).Nodup := by
  induction v with
  | nil => exact List.nodup_nil
  | cons a v ih =>
    cases v with
    | nil => exact List.nodup_nil
    | cons b v =>
      obtain ⟨ha, hv⟩ := List.nodup_cons.mp h
      rw [links_cons, List.nodup_cons]
      exact ⟨fun hlink => ha (mem_of_link hlink).1, ih hv⟩

/-- What holds along every link, and from there on, holds of any two elements in turn. -/
theorem pairwise_of_links {r : α → α → Prop} [IsTrans α r] {v : List α}
    (h : ∀ p ∈ links v, r p.1 p.2) : v.Pairwise r := by
  induction v with
  | nil => exact List.Pairwise.nil
  | cons a v ih =>
    cases v with
    | nil => exact List.pairwise_singleton r a
    | cons b v =>
      rw [links_cons, List.forall_mem_cons] at h
      have hrest := ih h.2
      refine List.pairwise_cons.mpr ⟨fun c hc => ?_, hrest⟩
      rcases List.mem_cons.mp hc with rfl | hc
      · exact h.1
      · exact IsTrans.trans a b c h.1 ((List.pairwise_cons.mp hrest).1 c hc)

variable [DecidableEq α]

/-- One element stands before another one. -/
def Ahead (order : List α) (a b : α) : Prop := order.idxOf a < order.idxOf b

instance trans_ahead (order : List α) : IsTrans α (Ahead order) where
  trans _ _ _ hab hbc := Nat.lt_trans hab hbc

theorem pairwise_ahead {order : List α} (h : order.Nodup) : order.Pairwise (Ahead order) := by
  rw [List.pairwise_iff_getElem]
  intro i j hi hj hij
  unfold Ahead
  rwa [h.idxOf_getElem i hi, h.idxOf_getElem j hj]

/-- An order that keeps every link of a list is the list. -/
theorem eq_of_links {order v : List α} (hnodup : order.Nodup) (hperm : order.Perm v)
    (h : ∀ p ∈ links v, Ahead order p.1 p.2) : order = v := by
  refine hperm.eq_of_pairwise (fun a b _ _ hab hba => ?_) (pairwise_ahead hnodup)
    (pairwise_of_links h)
  exact absurd hab (Nat.lt_asymm hba)

end Chains
