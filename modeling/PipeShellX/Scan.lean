-- Scanning a text: what is left of it between blanks at its ends, the words between its blanks, its
-- cut at the first separator, and the blocks of an indented list.
import Mathlib.Data.List.DropRight
import Mathlib.Tactic.SplitIfs

namespace Scan

variable {α : Type*}

/-! ## Between the blanks at the ends -/

section

variable (p : α → Bool)

/-- The text without what is at its ends. -/
def strip (s : List α) : List α := (s.dropWhile p).rdropWhile p

variable {p}

/-- What is left begins and ends with no blank, and it is found by that. -/
theorem strip_of {l m r : List α} (hl : ∀ a ∈ l, p a = true) (hr : ∀ a ∈ r, p a = true)
    (hfirst : ∀ a ∈ m.head?, p a = false) (hlast : ∀ a ∈ m.getLast?, p a = false) :
    strip p (l ++ m ++ r) = m := by
  unfold strip
  rw [List.append_assoc, List.dropWhile_append_of_pos hl]
  cases m with
  | nil =>
    have hnone : r.dropWhile p = [] := List.dropWhile_eq_nil_iff.mpr hr
    rw [List.nil_append, hnone, List.rdropWhile_nil]
  | cons a m =>
    rw [List.cons_append, List.dropWhile_cons, hfirst a rfl]
    rw [if_neg Bool.false_ne_true, ← List.cons_append]
    unfold List.rdropWhile
    have hback : ∀ b ∈ r.reverse, p b = true := fun b hb => hr b (List.mem_reverse.mp hb)
    obtain ⟨front, last, hm⟩ : ∃ front last, a :: m = front ++ [last] :=
      ⟨_, _, (List.dropLast_append_getLast (List.cons_ne_nil a m)).symm⟩
    have hkept : p last = false := hlast last (by rw [hm, List.getLast?_append]; rfl)
    rw [List.reverse_append, List.dropWhile_append_of_pos hback, hm, List.reverse_append,
      List.reverse_singleton, List.singleton_append, List.dropWhile_cons, hkept,
      if_neg Bool.false_ne_true, List.reverse_cons, List.reverse_reverse]

theorem strip_self {s : List α} (hfirst : ∀ a ∈ s.head?, p a = false)
    (hlast : ∀ a ∈ s.getLast?, p a = false) : strip p s = s := by
  have hnone : ∀ a ∈ ([] : List α), p a = true := nofun
  have hstrip := strip_of hnone hnone hfirst hlast
  rwa [List.nil_append, List.append_nil] at hstrip

/-- The text, with its blanks at the ends. -/
theorem strip_cut (p : α → Bool) (s : List α) : ∃ l r, s = l ++ strip p s ++ r ∧
    (∀ a ∈ l, p a = true) ∧ (∀ a ∈ r, p a = true) := by
  refine ⟨s.takeWhile p, (s.dropWhile p).rtakeWhile p, ?_, fun a ha => List.mem_takeWhile_imp ha,
    fun a ha => List.mem_rtakeWhile_imp ha⟩
  unfold strip
  rw [List.append_assoc, List.rdropWhile_append_rtakeWhile, List.takeWhile_append_dropWhile]

theorem strip_last {s : List α} : ∀ a ∈ (strip p s).getLast?, p a = false := by
  intro a ha
  obtain ⟨hne, rfl⟩ := List.mem_getLast?_eq_getLast ha
  have hlast := List.rdropWhile_last_not p (s.dropWhile p) hne
  exact Bool.eq_false_iff.mpr hlast

theorem strip_first {s : List α} : ∀ a ∈ (strip p s).head?, p a = false := by
  intro a ha
  have hsome : (s.dropWhile p).head? = some a := by
    obtain ⟨rest, hrest⟩ := List.head?_eq_some_iff.mp ha
    obtain ⟨more, hmore⟩ := List.rdropWhile_prefix p (s.dropWhile p)
    unfold strip at hrest
    rw [← hmore, hrest]
    rfl
  have hnot := List.head?_dropWhile_not p s
  rw [hsome] at hnot
  exact hnot

/-- What has no blank at its ends stays with everything between. -/
theorem strip_middle {l m r : List α} (hne : m ≠ []) (hfirst : ∀ a ∈ m.head?, p a = false)
    (hlast : ∀ a ∈ m.getLast?, p a = false) :
    strip p (l ++ m ++ r) = l.dropWhile p ++ m ++ r.rdropWhile p := by
  have hfront : ∀ {l m r : List α}, m ≠ [] → (∀ a ∈ m.head?, p a = false) →
      (l ++ (m ++ r)).dropWhile p = l.dropWhile p ++ (m ++ r) := by
    intro l m r hne hfirst
    obtain ⟨a, m, rfl⟩ := List.exists_cons_of_ne_nil hne
    have hstop : (a :: m ++ r).dropWhile p = a :: m ++ r :=
      List.dropWhile_cons_of_neg (Bool.eq_false_iff.mp (hfirst a rfl))
    rw [List.dropWhile_append, hstop]
    split_ifs with hnone
    · rw [List.isEmpty_iff.mp hnone, List.nil_append]
    · rfl
  unfold strip
  rw [List.append_assoc, hfront hne hfirst, List.rdropWhile, List.reverse_append,
    List.reverse_append, List.append_assoc, hfront (by simpa using hne) (by simpa using hlast),
    List.rdropWhile]
  simp only [List.reverse_append, List.reverse_reverse, List.append_assoc]

/-- What is no blank keeps everything in front of it. -/
theorem rdropWhile_append {c : α} (hc : p c = false) (before behind : List α) :
    (before ++ c :: behind).rdropWhile p = before ++ c :: behind.rdropWhile p := by
  induction behind using List.reverseRecOn with
  | nil =>
    rw [List.rdropWhile_concat_neg _ _ _ (Bool.eq_false_iff.mp hc), List.rdropWhile_nil]
  | append_singleton behind x ih =>
    rw [← List.cons_append, ← List.append_assoc, List.rdropWhile_concat, List.rdropWhile_concat]
    split_ifs
    · exact ih
    · rw [List.append_assoc, List.cons_append]

theorem strip_eq_nil {s : List α} : strip p s = [] ↔ ∀ a ∈ s, p a = true := by
  constructor
  · intro hnil
    obtain ⟨l, r, hs, hl, hr⟩ := strip_cut p s
    rw [hnil, List.append_nil] at hs
    rw [hs, List.forall_mem_append]
    exact ⟨hl, hr⟩
  · intro hall
    have hnone : s.dropWhile p = [] := List.dropWhile_eq_nil_iff.mpr hall
    rw [strip, hnone, List.rdropWhile_nil]

end

/-! ## Words -/

section

variable (p : α → Bool)

/-- The runs between blanks that are not empty. -/
def words (s : List α) : List (List α) := (s.splitOnP p).filter fun w => !w.isEmpty

variable {p}

/-- A word: something without a blank. -/
def IsWord (p : α → Bool) (w : List α) : Prop := w ≠ [] ∧ ∀ a ∈ w, p a = false

instance decidable_isWord [DecidableEq α] (p : α → Bool) (w : List α) : Decidable (IsWord p w) :=
  haveI : Decidable (∀ a ∈ w, p a = false) := List.decidableBAll _ w
  inferInstanceAs (Decidable (w ≠ [] ∧ ∀ a ∈ w, p a = false))

theorem words_nil : words p [] = [] := by
  unfold words
  rw [List.splitOnP_nil]
  rfl

theorem words_word {w : List α} (hw : IsWord p w) {blank : α} (hblank : p blank = true)
    (rest : List α) : words p (w ++ blank :: rest) = w :: words p rest := by
  have hsome : (!w.isEmpty) = true := by simpa using hw.1
  unfold words
  rw [List.splitOnP_append_cons_of_forall_mem hw.2 blank hblank, List.filter_cons, if_pos hsome]

theorem words_one {w : List α} (hw : IsWord p w) : words p w = [w] := by
  have hsome : (!w.isEmpty) = true := by simpa using hw.1
  unfold words
  rw [List.splitOnP_eq_singleton hw.2, List.filter_cons, if_pos hsome]
  rfl

theorem words_blank {blank : α} (hblank : p blank = true) (rest : List α) :
    words p (blank :: rest) = words p rest := by
  have hnone : ∀ a ∈ ([] : List α), p a = false := nofun
  have hcut := List.splitOnP_append_cons_of_forall_mem hnone blank hblank rest
  unfold words
  rw [← List.nil_append (blank :: rest), hcut]
  rfl

/-- Words with a blank in front of each. -/
theorem words_append {blank : α} (hblank : p blank = true) (before behind : List α) :
    words p (before ++ blank :: behind) = words p before ++ words p behind := by
  unfold words
  rw [List.splitOnP_append_cons before behind hblank, List.filter_append]

theorem words_flatMap {blank : α} (hblank : p blank = true) {ws : List (List α)}
    (h : ∀ w ∈ ws, IsWord p w) : words p (ws.flatMap fun w => blank :: w) = ws := by
  induction ws with
  | nil => exact words_nil
  | cons w ws ih =>
    rw [List.forall_mem_cons] at h
    rw [List.flatMap_cons, List.cons_append, words_blank hblank]
    cases ws with
    | nil => rw [List.flatMap_nil, List.append_nil, words_one h.1]
    | cons next ws =>
      have hrest := ih h.2
      rw [List.flatMap_cons, List.cons_append] at hrest ⊢
      rw [words_blank hblank] at hrest
      rw [words_word h.1 hblank, hrest]

/-- The first word, when no blank stands before it. -/
theorem words_first {s : List α} (hne : s ≠ []) (hfirst : ∀ a ∈ s.head?, p a = false) :
    IsWord p (s.takeWhile fun a => !p a) ∧ words p s =
      (s.takeWhile fun a => !p a) :: words p (s.dropWhile fun a => !p a) := by
  obtain ⟨a, rest, rfl⟩ := List.exists_cons_of_ne_nil hne
  have ha : (!p a) = true := by rw [hfirst a rfl]; rfl
  have hword : IsWord p ((a :: rest).takeWhile fun a => !p a) := by
    refine ⟨?_, fun b hb => by simpa using List.mem_takeWhile_imp hb⟩
    rw [List.takeWhile_cons_of_pos (p := fun a => !p a) ha]
    exact List.cons_ne_nil _ _
  refine ⟨hword, ?_⟩
  cases hbehind : (a :: rest).dropWhile fun a => !p a with
  | nil =>
    have hall := List.takeWhile_append_dropWhile (p := fun a => !p a) (l := a :: rest)
    rw [hbehind, List.append_nil] at hall
    rw [hall] at hword ⊢
    rw [words_one hword, words_nil]
  | cons blank behind =>
    have hblank : p blank = true := by
      have hnot := List.head?_dropWhile_not (fun a => !p a) (a :: rest)
      rw [hbehind] at hnot
      simpa using hnot
    have hall := List.takeWhile_append_dropWhile (p := fun a => !p a) (l := a :: rest)
    rw [hbehind] at hall
    rw [words_blank hblank, ← words_word hword hblank, hall]

/-- Words behind what is a word or nothing. -/
theorem words_spaced {blank : α} (hblank : p blank = true) {w : List α} {ws : List (List α)}
    (hw : ∀ a ∈ w, p a = false) (h : ∀ w ∈ ws, IsWord p w) :
    words p (w ++ ws.flatMap fun w => blank :: w) = (if w = [] then [] else [w]) ++ ws := by
  by_cases hne : w = []
  · rw [if_pos hne, hne, List.nil_append, List.nil_append, words_flatMap hblank h]
  · have hall : ∀ w' ∈ w :: ws, IsWord p w' := List.forall_mem_cons.mpr ⟨⟨hne, hw⟩, h⟩
    have hwords := words_flatMap hblank hall
    rw [List.flatMap_cons, List.cons_append, words_blank hblank] at hwords
    rw [hwords, if_neg hne]
    rfl

/-- The runs between blanks are made of what is no blank. -/
theorem mem_splitOnP {s w : List α} (h : w ∈ s.splitOnP p) : ∀ a ∈ w, p a = false ∧ a ∈ s := by
  induction s generalizing w with
  | nil =>
    rw [List.splitOnP_nil, List.mem_singleton] at h
    rw [h]
    exact nofun
  | cons b s ih =>
    have hlater : ∀ w ∈ s.splitOnP p, ∀ a ∈ w, p a = false ∧ a ∈ b :: s := fun w hw a ha =>
      ⟨(ih hw a ha).1, List.mem_cons_of_mem _ (ih hw a ha).2⟩
    rw [List.splitOnP_cons_eq_if_modifyHead] at h
    by_cases hb : p b = true
    · rw [if_pos hb, List.mem_cons] at h
      rcases h with rfl | h
      · exact nofun
      · exact hlater w h
    · rw [if_neg hb] at h
      obtain ⟨first, others, hparts⟩ := List.exists_cons_of_ne_nil (List.splitOnP_ne_nil p s)
      rw [hparts] at hlater h
      rw [List.modifyHead_cons, List.mem_cons] at h
      rcases h with rfl | h
      · rw [List.forall_mem_cons]
        exact ⟨⟨Bool.eq_false_iff.mpr hb, List.mem_cons_self⟩, hlater first List.mem_cons_self⟩
      · exact hlater w (List.mem_cons_of_mem _ h)

theorem isWord_of_mem {s w : List α} (h : w ∈ words p s) : IsWord p w := by
  obtain ⟨hw, hsome⟩ := List.mem_filter.mp h
  exact ⟨by simpa using hsome, fun a ha => (mem_splitOnP hw a ha).1⟩

theorem mem_of_words {s w : List α} (h : w ∈ words p s) : ∀ a ∈ w, a ∈ s :=
  fun a ha => (mem_splitOnP (List.mem_filter.mp h).1 a ha).2

/-- What is no blank stands in a word. -/
theorem exists_word {s : List α} {a : α} (ha : a ∈ s) (hblank : p a = false) :
    ∃ w ∈ words p s, a ∈ w := by
  induction hn : s.length using Nat.strongRecOn generalizing s with
  | ind n ih =>
    by_cases hnone : ∀ b ∈ s, p b = false
    · exact ⟨s, by rw [words_one ⟨List.ne_nil_of_mem ha, hnone⟩]; exact List.mem_singleton_self s,
        ha⟩
    · push Not at hnone
      obtain ⟨b, hb, hpb⟩ := hnone
      obtain ⟨before, behind, rfl⟩ := List.append_of_mem hb
      have hpb : p b = true := by simpa using hpb
      rw [List.length_append, List.length_cons] at hn
      rw [words_append hpb]
      rcases List.mem_append.mp ha with ha | ha
      · obtain ⟨w, hw, haw⟩ := ih _ (by omega) ha rfl
        exact ⟨w, List.mem_append_left _ hw, haw⟩
      · rcases List.mem_cons.mp ha with rfl | ha
        · rw [hpb] at hblank
          cases hblank
        · obtain ⟨w, hw, haw⟩ := ih _ (by omega) ha rfl
          exact ⟨w, List.mem_append_right _ hw, haw⟩

end

/-! ## The first separator -/

section

variable [DecidableEq α] (c : α)

/-- What stands before and behind the first `c`. -/
def cut : List α → Option (List α × List α)
  | [] => none
  | b :: rest => if b = c then some ([], rest) else (cut rest).map fun r => (b :: r.1, r.2)

variable {c}

theorem cut_append {before : List α} (h : c ∉ before) (behind : List α) :
    cut c (before ++ c :: behind) = some (before, behind) := by
  induction before with
  | nil => exact if_pos rfl
  | cons b before ih =>
    rw [List.mem_cons, not_or] at h
    rw [List.cons_append, cut, if_neg (Ne.symm h.1), ih h.2]
    rfl

theorem cut_none {s : List α} : cut c s = none ↔ c ∉ s := by
  induction s with
  | nil => exact iff_of_true rfl List.not_mem_nil
  | cons b s ih =>
    rw [cut, List.mem_cons, not_or]
    by_cases hb : b = c
    · rw [if_pos hb]
      exact iff_of_false nofun fun h => h.1 hb.symm
    · rw [if_neg hb, Option.map_eq_none_iff, ih]
      exact (and_iff_right (Ne.symm hb)).symm

theorem cut_some {s before behind : List α} :
    cut c s = some (before, behind) ↔ s = before ++ c :: behind ∧ c ∉ before := by
  constructor
  · intro h
    induction s generalizing before with
    | nil => cases h
    | cons b s ih =>
      rw [cut] at h
      by_cases hb : b = c
      · rw [if_pos hb] at h
        cases h
        rw [hb]
        exact ⟨rfl, List.not_mem_nil⟩
      · rw [if_neg hb] at h
        obtain ⟨r, hr, heq⟩ := Option.map_eq_some_iff.mp h
        cases heq
        obtain ⟨hs, hnot⟩ := ih hr
        refine ⟨by rw [hs]; rfl, ?_⟩
        rw [List.mem_cons, not_or]
        exact ⟨Ne.symm hb, hnot⟩
  · rintro ⟨rfl, hnot⟩
    exact cut_append hnot behind

end

/-! ## Parts with a separator between them -/

theorem intercalate_cons (sep w : List α) (ws : List (List α)) :
    sep.intercalate (w :: ws) = w ++ ws.flatMap (sep ++ ·) := by
  induction ws generalizing w with
  | nil => simp
  | cons next ws ih => rw [List.intercalate_cons_cons, ih, List.flatMap_cons]; simp

theorem mem_intercalate {sep : List α} {ws : List (List α)} {c : α}
    (h : c ∈ sep.intercalate ws) : c ∈ sep ∨ ∃ w ∈ ws, c ∈ w := by
  cases ws with
  | nil => simp at h
  | cons w ws =>
    rw [intercalate_cons, List.mem_append, List.mem_flatMap] at h
    simp only [List.mem_append] at h
    grind

/-! ## Blocks -/

section

variable (deep : α → Bool)

/-- A list cut in front of each element that is not deep: the deep ones in front of all, and each
other one with the deep ones behind it. -/
def blocks : List α → List α × List (α × List α)
  | [] => ([], [])
  | a :: rest =>
    if deep a = true then (a :: (blocks rest).1, (blocks rest).2)
    else ([], (a, (blocks rest).1) :: (blocks rest).2)

variable {deep}

theorem blocks_deep {inner : List α} (h : ∀ a ∈ inner, deep a = true) (rest : List α) :
    blocks deep (inner ++ rest) = (inner ++ (blocks deep rest).1, (blocks deep rest).2) := by
  induction inner with
  | nil => rfl
  | cons a inner ih =>
    rw [List.forall_mem_cons] at h
    rw [List.cons_append, blocks, if_pos h.1, ih h.2]
    rfl

/-- Blocks that are put one behind the other are found again. -/
theorem blocks_flatMap {items : List (α × List α)}
    (h : ∀ item ∈ items, deep item.1 = false ∧ ∀ a ∈ item.2, deep a = true) :
    blocks deep (items.flatMap fun item => item.1 :: item.2) = ([], items) := by
  induction items with
  | nil => rfl
  | cons item items ih =>
    rw [List.forall_mem_cons] at h
    obtain ⟨hshallow, hinner⟩ := h.1
    rw [List.flatMap_cons, List.cons_append, blocks, blocks_deep hinner, ih h.2,
      if_neg (Bool.eq_false_iff.mp hshallow), List.append_nil]

end

end Scan
