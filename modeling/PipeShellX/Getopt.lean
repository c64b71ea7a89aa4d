-- How `getopt` reads the words of a command: options in front, up to the first word that is none.
-- A word with a dash and more behind it is an option, or several; an option that takes an argument
-- takes the rest of its word, or the next word. Two dashes end the options.
import Mathlib.Data.List.Basic

namespace Getopt

variable {α : Type*} [DecidableEq α]

/-- An option with the argument that it takes. -/
abbrev Flag (α : Type*) := α × Option (List α)

/-- The options in one word behind its dash, and the one that takes the next word. `takes` says of
an option whether it takes an argument, and nothing of what is no option. -/
def cluster (takes : α → Option Bool) : List α → Option (List (Flag α) × Option α)
  | [] => some ([], none)
  | c :: rest =>
    match takes c with
    | none => none
    | some false => (cluster takes rest).map fun r => ((c, none) :: r.1, r.2)
    | some true => if rest = [] then some ([], some c) else some ([(c, some rest)], none)

/-- A word that is read as options, or as their end. -/
def IsOption (dash : α) (word : List α) : Prop := word.head? = some dash ∧ word ≠ [dash]

instance decidable_isOption (dash : α) (word : List α) : Decidable (IsOption dash word) :=
  inferInstanceAs (Decidable (_ ∧ _))

/-- The options, and the words from the first that is none. -/
def getopt (dash : α) (takes : α → Option Bool) :
    List (List α) → Option (List (Flag α) × List (List α))
  | [] => some ([], [])
  | word :: words =>
    if ¬ IsOption dash word then some ([], word :: words)
    else if word = [dash, dash] then some ([], words)
    else
      match cluster takes word.tail with
      | none => none
      | some (flags, none) => (getopt dash takes words).map fun r => (flags ++ r.1, r.2)
      | some (flags, some c) =>
        match words with
        | [] => none
        | arg :: words => (getopt dash takes words).map fun r =>
          (flags ++ (c, some arg) :: r.1, r.2)

variable {dash : α} {takes : α → Option Bool}

/-- An option in a word of its own, with its argument in the next. -/
theorem getopt_option {c : α} (hc : takes c = some true) (hdash : c ≠ dash) (arg : List α)
    (words : List (List α)) : getopt dash takes ([dash, c] :: arg :: words) =
      (getopt dash takes words).map fun r => ((c, some arg) :: r.1, r.2) := by
  have hoption : ¬ ¬ IsOption dash [dash, c] := not_not_intro ⟨rfl, by simp⟩
  have hmore : ¬ [dash, c] = [dash, dash] := by simp [hdash]
  have hcluster : cluster takes [c] = some ([], some c) := by
    unfold cluster
    rw [hc]
    exact if_pos rfl
  rw [getopt, if_neg hoption, if_neg hmore, List.tail_cons, hcluster]
  rfl

theorem getopt_options {options : List (α × List α)}
    (h : ∀ o ∈ options, takes o.1 = some true ∧ o.1 ≠ dash) (words : List (List α)) :
    getopt dash takes ((options.flatMap fun o => [[dash, o.1], o.2]) ++ words) =
      (getopt dash takes words).map fun r =>
        ((options.map fun o => (o.1, some o.2)) ++ r.1, r.2) := by
  induction options with
  | nil => exact (congrFun Option.map_id _).symm
  | cons o options ih =>
    rw [List.forall_mem_cons] at h
    obtain ⟨htakes, hdash⟩ := h.1
    rw [List.flatMap_cons, List.append_assoc, List.cons_append, List.cons_append, List.nil_append,
      getopt_option htakes hdash, ih h.2, Option.map_map]
    rfl

theorem getopt_stops {word : List α} (h : ¬ IsOption dash word) (words : List (List α)) :
    getopt dash takes (word :: words) = some ([], word :: words) := by
  rw [getopt, if_pos h]

/-- What is left is no longer than the words, and it is shorter when the first one is an option. -/
theorem getopt_length {words : List (List α)} {r : List (Flag α) × List (List α)}
    (h : getopt dash takes words = some r) : r.2.length ≤ words.length ∧
      ∀ word ∈ words.head?, IsOption dash word → r.2.length < words.length := by
  induction hn : words.length using Nat.strongRecOn generalizing words r with
  | ind n ih =>
    match words with
    | [] =>
      cases h
      exact ⟨Nat.zero_le _, nofun⟩
    | word :: words =>
      rw [List.length_cons] at hn
      rw [getopt] at h
      by_cases hoption : IsOption dash word
      · have hshort : r.2.length < n := by
          rw [if_neg (not_not_intro hoption)] at h
          by_cases hend : word = [dash, dash]
          · rw [if_pos hend] at h
            cases h
            exact hn ▸ Nat.lt_succ_self _
          · rw [if_neg hend] at h
            cases hcluster : cluster takes word.tail with
            | none =>
              rw [hcluster] at h
              cases h
            | some found =>
              obtain ⟨flags, next⟩ := found
              rw [hcluster] at h
              cases next with
              | none =>
                obtain ⟨r', hr', rfl⟩ := Option.map_eq_some_iff.mp h
                have hle := (ih words.length (by omega) hr' rfl).1
                exact Nat.lt_of_le_of_lt hle (by omega)
              | some c =>
                cases words with
                | nil => cases h
                | cons arg words =>
                  rw [List.length_cons] at hn
                  obtain ⟨r', hr', rfl⟩ := Option.map_eq_some_iff.mp h
                  have hle := (ih words.length (by omega) hr' rfl).1
                  exact Nat.lt_of_le_of_lt hle (by omega)
        exact ⟨Nat.le_of_lt hshort, fun _ _ _ => hshort⟩
      · rw [if_pos hoption] at h
        cases h
        refine ⟨Nat.le_of_eq hn, fun word' hword' hoption' => absurd hoption' ?_⟩
        obtain rfl := Option.some.inj hword'
        exact hoption

/-- Behind given options, the words that are left begin with `word` unless it is an option. -/
theorem getopt_options_iff {options : List (α × List α)}
    (h : ∀ o ∈ options, takes o.1 = some true ∧ o.1 ≠ dash) (word : List α)
    (words : List (List α)) :
    getopt dash takes ((options.flatMap fun o => [[dash, o.1], o.2]) ++ word :: words) =
        some (options.map fun o => (o.1, some o.2), word :: words) ↔ ¬ IsOption dash word := by
  rw [getopt_options h]
  constructor
  · intro hread hoption
    obtain ⟨r, hr, heq⟩ := Option.map_eq_some_iff.mp hread
    have hshort := (getopt_length hr).2 word rfl hoption
    have hleft : r.2 = word :: words := congrArg Prod.snd heq
    rw [hleft] at hshort
    exact Nat.lt_irrefl _ hshort
  · intro hword
    rw [getopt_stops hword, Option.map_some, List.append_nil]

end Getopt
