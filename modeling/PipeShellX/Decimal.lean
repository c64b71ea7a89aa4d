-- Integers as decimal digits, the way an output stream writes them.
import Mathlib.Data.List.Basic

namespace Decimal

/-- A decimal digit. -/
def isDigit (b : UInt8) : Bool := 48 ≤ b && b ≤ 57

/-- A natural number in decimal, as `std::to_string` writes it. -/
def natural (n : Nat) : List UInt8 := (Nat.toDigits 10 n).map fun c => c.toNat.toUInt8

/-- An integer in decimal, with a minus sign in front of a negative one. -/
def integer : Int → List UInt8
  | .ofNat n => natural n
  | .negSucc n => 45 :: natural (n + 1)

/-- What digits stand for, with or without zeros in front. -/
def value (digits : List UInt8) : Nat :=
  Nat.ofDigitChars 10 (digits.map fun b => Char.ofNat b.toNat) 0

theorem digit_of_char {c : Char} (h : c.isDigit = true) :
    isDigit c.toNat.toUInt8 = true ∧ Char.ofNat c.toNat.toUInt8.toNat = c := by
  have hbounds : 48 ≤ c.toNat ∧ c.toNat ≤ 57 := by
    simpa [Char.isDigit, UInt32.le_iff_toNat_le] using h
  have hbyte : c.toNat.toUInt8.toNat = c.toNat := by
    rw [Nat.toUInt8, UInt8.toNat_ofNat']
    omega
  refine ⟨?_, by rw [hbyte, Char.ofNat_toNat]⟩
  simp only [isDigit, Bool.and_eq_true, decide_eq_true_eq, UInt8.le_iff_toNat_le, hbyte]
  exact hbounds

theorem chars_natural (n : Nat) :
    (natural n).map (fun b => Char.ofNat b.toNat) = Nat.toDigits 10 n := by
  have hchars : ∀ c ∈ Nat.toDigits 10 n, Char.ofNat c.toNat.toUInt8.toNat = c := fun c hc =>
    (digit_of_char (Nat.isDigit_of_mem_toDigits (by omega) (by omega) hc)).2
  rw [natural, List.map_map]
  exact (List.map_congr_left hchars).trans (List.map_id _)

theorem isDigit_natural {n : Nat} {b : UInt8} (h : b ∈ natural n) : isDigit b = true := by
  obtain ⟨c, hc, rfl⟩ := List.mem_map.mp h
  exact (digit_of_char (Nat.isDigit_of_mem_toDigits (by omega) (by omega) hc)).1

theorem natural_ne_nil (n : Nat) : natural n ≠ [] := by
  unfold natural
  rw [Ne, List.map_eq_nil_iff]
  exact Nat.toDigits_ne_nil

theorem value_natural (n : Nat) : value (natural n) = n := by
  unfold value
  rw [chars_natural, Nat.ofDigitChars_ten_toDigits]

/-- No zero stands in front of other digits. -/
theorem natural_zero {n : Nat} (h : (natural n).head? = some 48) : natural n = [48] := by
  induction n using Nat.strongRecOn with
  | ind n ih =>
    by_cases hlt : n < 10
    · unfold natural at h ⊢
      rw [Nat.toDigits_of_lt_base hlt] at h ⊢
      exact congrArg (fun b => [b]) (Option.some.inj h)
    · have hle : 10 ≤ n := Nat.le_of_not_lt hlt
      have hcut : natural n = natural (n / 10) ++ [(n % 10).digitChar.toNat.toUInt8] := by
        unfold natural
        rw [Nat.toDigits_of_base_le (by omega) hle, List.map_append]
        rfl
      have hsmaller : natural (n / 10) = [48] := by
        apply ih (n / 10) (by omega)
        rw [hcut, List.head?_append_of_ne_nil _ (natural_ne_nil _)] at h
        exact h
      -- what is left of a number of two digits or more is not 0
      have hvalue := congrArg value hsmaller
      rw [value_natural] at hvalue
      have hnone : n / 10 = 0 := hvalue
      omega

end Decimal
