-- A `while` loop as a function of its body. The body gives the next state and
-- what the turn emitted, or `none` when the loop condition is false. The fuel
-- is a bound on the turns: `run_stops` says when it is enough.
import Mathlib.Data.List.Basic

namespace Loop

variable {σ ε : Type*}

/-- The body, again and again until it stops or the fuel is out, with what it emits. -/
def run (body : σ → Option (σ × List ε)) : Nat → σ → σ × List ε
  | 0, s => (s, [])
  | n + 1, s =>
    match body s with
    | none => (s, [])
    | some (s', ev) => ((run body n s').1, ev ++ (run body n s').2)

variable {body : σ → Option (σ × List ε)}

@[simp] theorem run_zero (s : σ) : run body 0 s = (s, []) := rfl

theorem run_none {s : σ} (h : body s = none) (n : Nat) : run body n s = (s, []) := by
  cases n with
  | zero => rfl
  | succ n => simp [run, h]

theorem run_some {s s' : σ} {ev : List ε} (h : body s = some (s', ev)) (n : Nat) :
    run body (n + 1) s = ((run body n s').1, ev ++ (run body n s').2) := by
  simp [run, h]

/-- The invariant rule: what every turn keeps, with the emitted events added to the
history, the loop keeps. -/
theorem run_induction (body : σ → Option (σ × List ε)) (P : σ → List ε → Prop)
    (turn : ∀ s tr s' ev, P s tr → body s = some (s', ev) → P s' (tr ++ ev))
    (n : Nat) (s : σ) (tr : List ε) (h : P s tr) :
    P (run body n s).1 (tr ++ (run body n s).2) := by
  induction n generalizing s tr with
  | zero => simpa using h
  | succ n ih =>
    cases hb : body s with
    | none => simpa [run_none hb] using h
    | some r =>
      obtain ⟨s', ev⟩ := r
      have hnext := ih s' (tr ++ ev) (turn s tr s' ev h hb)
      rw [run_some hb]
      simpa [List.append_assoc] using hnext

/-- With a measure that every turn lowers, fuel of that size ends the loop with its
condition false. -/
theorem run_stops (size : σ → Nat)
    (lower : ∀ s s' ev, body s = some (s', ev) → size s' < size s)
    (n : Nat) {s : σ} (h : size s ≤ n) : body (run body n s).1 = none := by
  induction n generalizing s with
  | zero =>
    cases hb : body s with
    | none => simpa using hb
    | some r =>
      have := lower s r.1 r.2 hb
      omega
  | succ n ih =>
    cases hb : body s with
    | none => simpa [run_none hb] using hb
    | some r =>
      obtain ⟨s', ev⟩ := r
      have := lower s s' ev hb
      rw [run_some hb]
      exact ih (by omega)

/-- The same under an invariant that the turns need and keep. -/
theorem run_ends (size : σ → Nat) (P : σ → Prop)
    (turn : ∀ s s' ev, P s → body s = some (s', ev) → P s' ∧ size s' < size s)
    (n : Nat) {s : σ} (hP : P s) (h : size s ≤ n) :
    P (run body n s).1 ∧ body (run body n s).1 = none := by
  induction n generalizing s with
  | zero =>
    cases hb : body s with
    | none => simpa [hb] using hP
    | some r =>
      have := (turn s r.1 r.2 hP hb).2
      omega
  | succ n ih =>
    cases hb : body s with
    | none => simpa [run_none hb, hb] using hP
    | some r =>
      obtain ⟨s', ev⟩ := r
      obtain ⟨hP', hlow⟩ := turn s s' ev hP hb
      rw [run_some hb]
      exact ih hP' (by omega)

/-- Any fuel that is enough gives the same loop. -/
theorem run_enough (size : σ → Nat)
    (lower : ∀ s s' ev, body s = some (s', ev) → size s' < size s)
    {n m : Nat} {s : σ} (hn : size s ≤ n) (hm : size s ≤ m) : run body n s = run body m s := by
  induction n generalizing s m with
  | zero =>
    cases hb : body s with
    | none => rw [run_none hb, run_none hb]
    | some r =>
      have := lower s r.1 r.2 hb
      omega
  | succ n ih =>
    cases hb : body s with
    | none => rw [run_none hb, run_none hb]
    | some r =>
      obtain ⟨s', ev⟩ := r
      have := lower s s' ev hb
      obtain ⟨k, rfl⟩ : ∃ k, m = k + 1 := ⟨m - 1, by omega⟩
      have hsame : run body n s' = run body k s' := ih (by omega) (by omega)
      rw [run_some hb, run_some hb, hsame]

end Loop
