-- Numbers in hexadecimal: any spelling of a number, with digits of either case and zeros in front,
-- and the one spelling with neither.
import PipeShellX.Json
import Mathlib.Data.Nat.Digits.Lemmas

namespace Hex

open Json (hexDigit)

/-- The digit of a value below 16, in upper case. -/
def symbol (d : ℕ) : UInt8 := UInt8.ofNat (if d < 10 then 48 + d else 55 + d)

/-- What the digits stand for, first digit first. -/
def value (digits : List ℕ) : ℕ := Nat.ofDigits 16 digits.reverse

/-- The number that a text spells, if it has digits and nothing else. -/
def number (text : List UInt8) : Option ℕ :=
  if text.isEmpty then none else (text.mapM hexDigit).map value

/-- A number in upper case hexadecimal, without leading zeros. -/
def shortest (n : ℕ) : List UInt8 :=
  if n = 0 then [48] else (Nat.digits 16 n).reverse.map symbol

theorem hexDigit_symbol {d : ℕ} (h : d < 16) : hexDigit (symbol d) = some d := by
  revert d
  decide

theorem hexDigit_lt {c : UInt8} {d : ℕ} (h : hexDigit c = some d) : d < 16 := by
  unfold hexDigit at h
  simp only [UInt8.le_iff_toNat_le] at h
  split_ifs at h with hten hupper hlower
  · obtain rfl := Option.some.inj h
    exact Nat.lt_of_le_of_lt (Nat.sub_le_sub_right hten.2 48) (by decide)
  · obtain rfl := Option.some.inj h
    exact Nat.lt_of_le_of_lt (Nat.sub_le_sub_right hupper.2 55) (by decide)
  · obtain rfl := Option.some.inj h
    exact Nat.lt_of_le_of_lt (Nat.sub_le_sub_right hlower.2 87) (by decide)

theorem symbol_eq_zero {d : ℕ} (h : d < 16) : symbol d = 48 ↔ d = 0 := by
  revert d
  decide

theorem mapM_symbol {digits : List ℕ} (h : ∀ d ∈ digits, d < 16) :
    (digits.map symbol).mapM hexDigit = some digits := by
  induction digits with
  | nil => rfl
  | cons d digits ih =>
    rw [List.forall_mem_cons] at h
    rw [List.map_cons, List.mapM_cons, hexDigit_symbol h.1, ih h.2]
    rfl

/-- Zeros in front add nothing. -/
theorem value_dropWhile (digits : List ℕ) :
    value (digits.dropWhile fun d => d = 0) = value digits := by
  induction digits with
  | nil => rfl
  | cons d digits ih =>
    by_cases hzero : d = 0
    · rw [hzero, List.dropWhile_cons_of_pos (by simp), ih]
      exact (Nat.ofDigits_reverse_zero_cons digits).symm
    · rw [List.dropWhile_cons_of_neg (by simpa using hzero)]

/-- Digits without a zero in front are the digits of their value. -/
theorem shortest_value {digits : List ℕ} (h : ∀ d ∈ digits, d < 16) (hne : digits ≠ [])
    (hfirst : digits.head hne ≠ 0) : shortest (value digits) = digits.map symbol := by
  have hdigits : Nat.digits 16 (value digits) = digits.reverse := by
    refine Nat.digits_ofDigits 16 (by decide) _ (fun d hd => h d (List.mem_reverse.mp hd))
      fun _ => ?_
    rwa [List.getLast_reverse]
  have hpos : value digits ≠ 0 := by
    intro hzero
    rw [hzero, Nat.digits_zero] at hdigits
    exact hne (List.reverse_eq_nil_iff.mp hdigits.symm)
  unfold shortest
  rw [if_neg hpos, hdigits, List.reverse_reverse]

theorem number_shortest (n : ℕ) : number (shortest n) = some n := by
  unfold shortest
  by_cases hzero : n = 0
  · rw [if_pos hzero, hzero]
    rfl
  · have hne : Nat.digits 16 n ≠ [] := Nat.digits_ne_nil_iff_ne_zero.mpr hzero
    have hlt : ∀ d ∈ (Nat.digits 16 n).reverse, d < 16 := fun d hd =>
      Nat.digits_lt_base (by decide) (List.mem_reverse.mp hd)
    unfold number
    rw [if_neg hzero, if_neg (by simpa using hne), mapM_symbol hlt, Option.map_some]
    unfold value
    rw [List.reverse_reverse, Nat.ofDigits_digits]

end Hex
