-- Tables of descriptors, and what dup2, close and exec do to them. Copies whose sources are none of
-- their targets do not get in each other's way: made one by one they are a single assignment.
import Mathlib.Data.List.Basic
import Mathlib.Data.List.Nodup
import Mathlib.Data.List.Range
import Mathlib.Logic.Function.Basic

namespace Descriptors

/-- A descriptor that is open: its file, and whether it goes at an exec. -/
structure Entry (φ : Type*) where
  file : φ
  cloexec : Bool
  deriving DecidableEq

/-- The descriptors of a process. -/
abbrev Table (φ : Type*) := Nat → Option (Entry φ)

section

variable {φ : Type*} {limit : Nat} {t : Table φ}

/-- A copy stays open at an exec. -/
def Entry.copy (e : Entry φ) : Entry φ := { e with cloexec := false }

/-- Numbers from `limit` on cannot be had. -/
def dup2 (limit : Nat) (t : Table φ) (source target : Nat) : Option (Table φ) :=
  match t source with
  | none => none
  | some e =>
    if limit ≤ target then none
    else if source = target then some t
    else some (Function.update t target (some e.copy))

/-- A series of `dup2`, which stops at the first that fails. -/
def dup2All (limit : Nat) (t : Table φ) (moves : List (Nat × Nat)) : Option (Table φ) :=
  moves.foldlM (fun t move => dup2 limit t move.1 move.2) t

/-- The number is free again. -/
def close (t : Table φ) (fd : Nat) : Table φ := Function.update t fd none

/-- All numbers from `first` on are free again. -/
def closefrom (t : Table φ) (first : Nat) : Table φ := fun fd => if first ≤ fd then none else t fd

/-- What a program starts with: what is marked close-on-exec is gone. -/
def exec (t : Table φ) : Table φ := fun fd => (t fd).filter fun e => !e.cloexec

/-- The lowest number that is free, of those from `first` on. -/
def firstFree (limit : Nat) (t : Table φ) (first : Nat) : Option Nat :=
  (List.range' first (limit - first)).find? fun fd => (t fd).isNone

theorem dup2_some {source target : Nat} {t' : Table φ} (h : dup2 limit t source target = some t') :
    ∃ e, t source = some e ∧ target < limit ∧
      t' = if source = target then t else Function.update t target (some e.copy) := by
  unfold dup2 at h
  split at h
  · cases h
  · rename_i e he
    split_ifs at h with hlimit hsame
    · exact ⟨e, he, by omega, by rw [if_pos hsame]; exact (Option.some.inj h).symm⟩
    · exact ⟨e, he, by omega, by rw [if_neg hsame]; exact (Option.some.inj h).symm⟩

theorem dup2_apart {source target : Nat} {e : Entry φ} (hopen : t source = some e)
    (htarget : target < limit) (hne : source ≠ target) :
    dup2 limit t source target = some (Function.update t target (some e.copy)) := by
  simp [dup2, hopen, Nat.not_le.mpr htarget, hne]

theorem dup2All_targets {moves : List (Nat × Nat)} {t' : Table φ}
    (h : dup2All limit t moves = some t') :
    ∀ m ∈ moves, m.2 < limit := by
  induction moves generalizing t with
  | nil => simp
  | cons move moves ih =>
    rw [dup2All, List.foldlM_cons] at h
    obtain ⟨next, hnext, hrest⟩ := Option.bind_eq_some_iff.mp h
    obtain ⟨-, -, hlimit, -⟩ := dup2_some hnext
    rw [List.forall_mem_cons]
    exact ⟨hlimit, ih hrest⟩

/-- The copies are made as if all at once. -/
theorem dup2All_apart {moves : List (Nat × Nat)} (hopen : ∀ m ∈ moves, t m.1 ≠ none)
    (htargets : ∀ m ∈ moves, m.2 < limit) (hapart : ∀ m ∈ moves, m.1 ∉ moves.map Prod.snd)
    (hnodup : (moves.map Prod.snd).Nodup) :
    ∃ t', dup2All limit t moves = some t' ∧ (∀ m ∈ moves, t' m.2 = (t m.1).map Entry.copy) ∧
      ∀ fd, fd ∉ moves.map Prod.snd → t' fd = t fd := by
  induction moves generalizing t with
  | nil => exact ⟨t, rfl, by simp, fun _ _ => rfl⟩
  | cons move moves ih =>
    obtain ⟨source, target⟩ := move
    rw [List.map_cons, List.nodup_cons] at hnodup
    obtain ⟨e, he⟩ := Option.ne_none_iff_exists'.mp (hopen _ List.mem_cons_self)
    have hne : source ≠ target := by
      have hnot := hapart _ List.mem_cons_self
      simp only [List.map_cons, List.mem_cons, not_or] at hnot
      exact hnot.1
    -- the sources that are left were not written to
    have hkept : ∀ m ∈ moves, Function.update t target (some e.copy) m.1 = t m.1 := by
      intro m hm
      apply Function.update_of_ne
      have hnot := hapart m (List.mem_cons_of_mem _ hm)
      simp only [List.map_cons, List.mem_cons, not_or] at hnot
      exact hnot.1
    obtain ⟨t', hall, hmoved, hrest⟩ := ih (t := Function.update t target (some e.copy))
      (fun m hm => by rw [hkept m hm]; exact hopen m (List.mem_cons_of_mem _ hm))
      (fun m hm => htargets m (List.mem_cons_of_mem _ hm))
      (fun m hm hin => hapart m (List.mem_cons_of_mem _ hm) (List.mem_cons_of_mem _ hin)) hnodup.2
    refine ⟨t', ?_, fun m hm => ?_, fun fd hfd => ?_⟩
    · rw [dup2All, List.foldlM_cons, dup2_apart he (htargets _ List.mem_cons_self) hne]
      exact hall
    · rcases List.mem_cons.mp hm with rfl | hm
      · rw [hrest target hnodup.1, Function.update_self, he]
        rfl
      · rw [hmoved m hm, hkept m hm]
    · simp only [List.map_cons, List.mem_cons, not_or] at hfd
      rw [hrest fd hfd.2, Function.update_of_ne hfd.1]

theorem firstFree_some {first fd : Nat} (h : firstFree limit t first = some fd) :
    first ≤ fd ∧ fd < limit ∧ t fd = none ∧ ∀ k, first ≤ k → k < fd → t k ≠ none := by
  obtain ⟨hfree, before, after, hcut, hbefore⟩ := List.find?_eq_some_iff_append.mp h
  have hmem : fd ∈ List.range' first (limit - first) := by
    rw [hcut]
    simp
  have hin := List.mem_range'_1.mp hmem
  refine ⟨hin.1, by omega, by simpa using hfree, fun k hle hlt hnone => ?_⟩
  have hk : k ∈ List.range' first (limit - first) := by
    rw [List.mem_range'_1]
    omega
  -- the numbers before it come before it in the search
  have hsorted : (List.range' first (limit - first)).Pairwise (· < ·) := List.pairwise_lt_range'
  rw [hcut] at hk hsorted
  rcases List.mem_append.mp hk with hk | hk
  · simpa [hnone] using hbefore k hk
  · rcases List.mem_cons.mp hk with rfl | hk
    · exact Nat.lt_irrefl _ hlt
    · have hafter := (List.pairwise_cons.mp (List.pairwise_append.mp hsorted).2.1).1 k hk
      omega

end

end Descriptors
