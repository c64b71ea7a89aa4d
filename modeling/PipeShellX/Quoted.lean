-- Text in quotes: two marks that quote, of which the second one has escapes, and the scan that says
-- where the quotes of a longer text end.
import Mathlib.Data.List.Basic

namespace Quoted

/-- The characters with a meaning of their own. -/
structure Marks (α : Type*) where
  single : α
  double : α
  slash : α
  distinct : double ≠ slash

variable {α : Type*}

/-- Where a scan is: the quote that is open, and whether the next letter is escaped. -/
structure State (α : Type*) where
  quote : Option α := none
  escaped : Bool := false
  deriving DecidableEq

variable [DecidableEq α] (m : Marks α)

/-- The state after one more character. -/
def State.next (s : State α) (c : α) : State α :=
  match s.quote with
  | some q =>
    if q = m.double ∧ s.escaped then { s with escaped := false }
    else if q = m.double ∧ c = m.slash then { s with escaped := true }
    else if c = q then { s with quote := none }
    else s
  | none => if c = m.single ∨ c = m.double then { s with quote := some c } else s

/-- What a quote has in it up to its end, and what is behind it. -/
def body (q : α) : Bool → List α → Option (List α × List α)
  | _, [] => none
  | escaped, c :: rest =>
    if q = m.double ∧ escaped then (body q false rest).map fun r => (c :: r.1, r.2)
    else if q = m.double ∧ c = m.slash then body q true rest
    else if c = q then some ([], rest)
    else (body q escaped rest).map fun r => (c :: r.1, r.2)

/-- A character as it stands between double quotes. -/
def escape (c : α) : List α := if c = m.double ∨ c = m.slash then [m.slash, c] else [c]

/-- The text in double quotes. -/
def quoted (s : List α) : List α := m.double :: s.flatMap (escape m) ++ [m.double]

/-- The scan in a double quote. -/
def inside : State α := { quote := some m.double }

/-- What is quoted is read back, up to its end. -/
theorem body_escape (s rest : List α) :
    body m m.double false (s.flatMap (escape m) ++ m.double :: rest) = some (s, rest) := by
  induction s with
  | nil => simp [body, m.distinct]
  | cons c s ih =>
    rw [List.flatMap_cons, List.append_assoc]
    unfold escape
    by_cases hc : c = m.double ∨ c = m.slash
    · rw [if_pos hc, List.cons_append, List.singleton_append, body, if_neg (by simp),
        if_pos ⟨rfl, rfl⟩, body, if_pos ⟨rfl, rfl⟩]
      unfold escape at ih
      rw [ih]
      rfl
    · obtain ⟨hquote, hslash⟩ := not_or.mp hc
      rw [if_neg hc, List.singleton_append, body, if_neg (by simp),
        if_neg fun h => hslash h.2, if_neg hquote]
      unfold escape at ih
      rw [ih]
      rfl

/-! ## The scan passes what is quoted -/

theorem next_double : ({} : State α).next m m.double = inside m := if_pos (Or.inr rfl)

theorem next_close : (inside m).next m m.double = {} := by
  simp [State.next, inside, m.distinct]

theorem next_plain {c : α} (h : c ≠ m.single ∧ c ≠ m.double) : ({} : State α).next m c = {} :=
  if_neg (not_or.mpr h)

theorem next_slash : (inside m).next m m.slash = { quote := some m.double, escaped := true } := by
  simp [State.next, inside]

theorem next_escaped (c : α) :
    ({ quote := some m.double, escaped := true } : State α).next m c = inside m :=
  if_pos ⟨rfl, rfl⟩

theorem next_inside {c : α} (h : ¬ (c = m.double ∨ c = m.slash)) :
    (inside m).next m c = inside m := by
  obtain ⟨hquote, hslash⟩ := not_or.mp h
  simp [State.next, inside, hquote, hslash]

/-- The rule for what a scan does on quoted text: it holds along each letter that the scan is inside
for, so it holds along the text. -/
theorem along_quoted {r : State α → List α → State α → Prop}
    (hone : ∀ (t : State α) c, t.quote ≠ none ∨ c = m.double → r t [c] (t.next m c))
    (happend : ∀ {t u v x y}, r t x u → r u y v → r t (x ++ y) v)
    (hnone : r (inside m) [] (inside m)) (s : List α) : r {} (quoted m s) {} := by
  have hopen := hone {} m.double (Or.inr rfl)
  have hclose := hone (inside m) m.double (Or.inr rfl)
  have hletter : ∀ c, r (inside m) (escape m c) (inside m) := by
    intro c
    have hinside : (inside m).quote ≠ none := Option.some_ne_none _
    unfold escape
    by_cases hc : c = m.double ∨ c = m.slash
    · have hslash := hone (inside m) m.slash (Or.inl hinside)
      have hescaped := hone { quote := some m.double, escaped := true } c
        (Or.inl (Option.some_ne_none _))
      rw [next_slash] at hslash
      rw [next_escaped] at hescaped
      rw [if_pos hc]
      exact happend hslash hescaped
    · have hplain := hone (inside m) c (Or.inl hinside)
      rw [next_inside m hc] at hplain
      rwa [if_neg hc]
  have hbody : r (inside m) (s.flatMap (escape m)) (inside m) := by
    induction s with
    | nil => exact hnone
    | cons c s ih => exact happend (hletter c) ih
  rw [next_double] at hopen
  rw [next_close] at hclose
  exact happend (happend hopen hbody) hclose

end Quoted
