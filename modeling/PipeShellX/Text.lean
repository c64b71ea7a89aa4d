-- Lines and items of a text, as `std::getline` reads them off a stream.
import Mathlib.Data.List.Basic
import Mathlib.Data.List.Induction

namespace Text

/-- The bytes of an ASCII text. -/
def ascii (text : String) : List UInt8 := text.toList.map fun c => c.toNat.toUInt8

/-- A condition on the bytes of a text is decided along the text, not for every value of a byte. -/
instance (priority := 2000) decidableAllBytes (text : List UInt8) (p : UInt8 → Prop)
    [DecidablePred p] : Decidable (∀ c ∈ text, p c) :=
  List.decidableBAll p text

instance (priority := 2000) decidableEndByte (byte : Option UInt8) (p : UInt8 → Prop)
    [DecidablePred p] : Decidable (∀ c ∈ byte, p c) :=
  Option.decidableForallMem byte

variable {α : Type*} {d : α}

/-- A run of the text that holds no delimiter and ends where one stands, on both sides. -/
def IsItem (d : α) (text item : List α) : Prop :=
  ∃ before after, text = before ++ item ++ after ∧ d ∉ item ∧
    (before = [] ∨ ∃ b, before = b ++ [d]) ∧ (after = [] ∨ ∃ a, after = d :: a)

/-- A cut at the first delimiter, and any other cut. -/
theorem cut_first {a b x y : List α} (h : d ∉ a) (heq : a ++ d :: x = b ++ d :: y) :
    (b = a ∧ y = x) ∨ ∃ more, b = a ++ d :: more ∧ x = more ++ d :: y := by
  rcases List.append_eq_append_iff.mp heq with ⟨more, rfl, hmore⟩ | ⟨more, rfl, hmore⟩
  · cases more with
    | nil => exact Or.inl ⟨List.append_nil a, (List.cons.inj hmore).2.symm⟩
    | cons c more =>
      obtain ⟨rfl, rfl⟩ := List.cons.inj hmore
      exact Or.inr ⟨more, rfl, rfl⟩
  · cases more with
    | nil => exact Or.inl ⟨(List.append_nil b).symm, (List.cons.inj hmore).2⟩
    | cons c more =>
      obtain ⟨rfl, -⟩ := List.cons.inj hmore
      exact absurd (by simp) h

/-- The runs before and after a delimiter are found in a longer text as well. -/
theorem IsItem.later {item first rest : List α} (h : IsItem d rest item) :
    IsItem d (first ++ d :: rest) item := by
  obtain ⟨before, after, rfl, hitem, hbefore, hafter⟩ := h
  refine ⟨first ++ d :: before, after, by simp, hitem, Or.inr ?_, hafter⟩
  rcases hbefore with rfl | ⟨b, rfl⟩
  · exact ⟨first, rfl⟩
  · exact ⟨first ++ d :: b, by simp⟩

/-- An item of a text whose first delimiter follows `first` is `first` or an item of the rest. -/
theorem IsItem.first_or_later {item first rest : List α} (hfirst : d ∉ first)
    (h : IsItem d (first ++ d :: rest) item) : item = first ∨ IsItem d rest item := by
  obtain ⟨before, after, heq, hitem, hbefore, hafter⟩ := h
  rcases hbefore with rfl | ⟨b, rfl⟩
  · left
    rcases hafter with rfl | ⟨a, rfl⟩
    · refine absurd ?_ hitem
      have hall : item = first ++ d :: rest := by simpa using heq.symm
      simp [hall]
    · rcases cut_first hitem (show item ++ d :: a = first ++ d :: rest by simpa using heq.symm) with
        ⟨rfl, -⟩ | ⟨more, rfl, -⟩
      · rfl
      · exact absurd (by simp) hfirst
  · right
    have hcut : first ++ d :: rest = b ++ d :: (item ++ after) := by simpa using heq
    rcases cut_first hfirst hcut with ⟨-, rfl⟩ | ⟨more, rfl, rfl⟩
    · exact ⟨[], after, rfl, hitem, Or.inl rfl, hafter⟩
    · exact ⟨more ++ [d], after, by simp, hitem, Or.inr ⟨more, rfl⟩, hafter⟩

variable [DecidableEq α]

/-- What `std::getline` reads, call after call, until it fails: the runs between the delimiters. The
run after the last delimiter counts unless it is empty. -/
def getlines (d : α) : List α → List (List α)
  | [] => []
  | c :: rest =>
    if c = d then [] :: getlines d rest
    else
      match getlines d rest with
      | [] => [[c]]
      | item :: items => (c :: item) :: items

/-- One call reads up to the first delimiter. -/
theorem getlines_first {item rest : List α} (h : d ∉ item) :
    getlines d (item ++ d :: rest) = item :: getlines d rest := by
  induction item with
  | nil => simp [getlines]
  | cons c item ih =>
    have hc : c ≠ d := fun hc => h (hc ▸ List.mem_cons_self)
    have hitem : d ∉ item := fun hd => h (List.mem_cons_of_mem _ hd)
    rw [List.cons_append, getlines, if_neg hc, ih hitem]

theorem getlines_last {item : List α} (h : d ∉ item) (hne : item ≠ []) :
    getlines d item = [item] := by
  induction item with
  | nil => exact absurd rfl hne
  | cons c item ih =>
    have hc : c ≠ d := fun hc => h (hc ▸ List.mem_cons_self)
    have hitem : d ∉ item := fun hd => h (List.mem_cons_of_mem _ hd)
    rw [getlines, if_neg hc]
    cases item with
    | nil => rfl
    | cons c' item => rw [ih hitem (List.cons_ne_nil _ _)]

/-- A text has no delimiter, or it splits at the first one. -/
theorem split_first (d : α) (text : List α) :
    d ∉ text ∨ ∃ item rest, text = item ++ d :: rest ∧ d ∉ item := by
  induction text with
  | nil => exact Or.inl List.not_mem_nil
  | cons c text ih =>
    by_cases hc : c = d
    · exact Or.inr ⟨[], text, by rw [hc, List.nil_append], List.not_mem_nil⟩
    · rcases ih with hnone | ⟨item, rest, rfl, hitem⟩
      · exact Or.inl (by simp [hnone, Ne.symm hc])
      · exact Or.inr ⟨c :: item, rest, rfl, by simp [hitem, Ne.symm hc]⟩

/-- `getline` finds the nonempty items, and nothing else but empty ones. -/
theorem mem_getlines {text item : List α} (hne : item ≠ []) :
    item ∈ getlines d text ↔ IsItem d text item := by
  induction hn : text.length using Nat.strongRecOn generalizing text with
  | ind n ih =>
    rcases split_first d text with hnone | ⟨first, rest, rfl, hfirst⟩
    · cases text with
      | nil =>
        refine iff_of_false (by simp [getlines]) ?_
        rintro ⟨before, after, heq, -⟩
        simp [hne] at heq
      | cons c text =>
        rw [getlines_last hnone (List.cons_ne_nil _ _), List.mem_singleton]
        constructor
        · rintro rfl
          exact ⟨[], [], by simp, hnone, Or.inl rfl, Or.inl rfl⟩
        · rintro ⟨before, after, heq, -, hbefore, hafter⟩
          rw [heq] at hnone ⊢
          rcases hbefore with rfl | ⟨b, rfl⟩
          · rcases hafter with rfl | ⟨a, rfl⟩
            · simp
            · exact absurd (by simp) hnone
          · exact absurd (by simp) hnone
    · rw [getlines_first hfirst, List.mem_cons, ih rest.length (by simp at hn; omega) rfl]
      constructor
      · rintro (rfl | hlater)
        · exact ⟨[], d :: rest, by simp, hfirst, Or.inl rfl, Or.inr ⟨rest, rfl⟩⟩
        · exact hlater.later
      · exact IsItem.first_or_later hfirst

theorem splitOn_first {first : List α} (h : d ∉ first) (rest : List α) :
    (first ++ d :: rest).splitOn d = first :: rest.splitOn d := by
  rw [List.splitOn_append_cons_self, List.splitOn_eq_singleton h]
  rfl

/-- `getline` finds what a split finds, but for a last item that is empty. -/
theorem splitOn_getlines (d : α) (text : List α) :
    text.splitOn d = getlines d text ∨ text.splitOn d = getlines d text ++ [[]] := by
  induction hn : text.length using Nat.strongRecOn generalizing text with
  | ind n ih =>
    rcases split_first d text with hnone | ⟨first, rest, rfl, hfirst⟩
    · rw [List.splitOn_eq_singleton hnone]
      by_cases hempty : text = []
      · rw [hempty]
        exact Or.inr rfl
      · exact Or.inl (getlines_last hnone hempty).symm
    · rw [splitOn_first hfirst, getlines_first hfirst]
      rcases ih rest.length (by simp at hn; omega) rest rfl with h | h
      · exact Or.inl (congrArg _ h)
      · exact Or.inr (congrArg _ h)

/-- What is put behind a text goes to its last item. -/
theorem splitOn_append_last {more : List α} (hmore : d ∉ more) (text : List α) :
    ∃ front last, text.splitOn d = front ++ [last] ∧
      (text ++ more).splitOn d = front ++ [last ++ more] := by
  induction hn : text.length using Nat.strongRecOn generalizing text with
  | ind n ih =>
    rcases split_first d text with hnone | ⟨first, rest, rfl, hfirst⟩
    · refine ⟨[], text, List.splitOn_eq_singleton hnone, List.splitOn_eq_singleton fun hin => ?_⟩
      exact (List.mem_append.mp hin).elim hnone hmore
    · obtain ⟨front, last, hfront, hlast⟩ := ih rest.length (by simp at hn; omega) rest rfl
      refine ⟨first :: front, last, ?_, ?_⟩
      · rw [splitOn_first hfirst, hfront, List.cons_append]
      · rw [List.append_assoc, List.cons_append, splitOn_first hfirst, hlast, List.cons_append]

theorem mem_splitOn_of_getlines {text item : List α} (h : item ∈ getlines d text) :
    item ∈ text.splitOn d := by
  rcases splitOn_getlines d text with heq | heq
  · rw [heq]
    exact h
  · rw [heq]
    exact List.mem_append_left _ h

end Text
