-- How many hosts a canary batch takes (run_command.cpp): a number of hosts, or a percentage of
-- them, in arithmetic of 64 bits.
import Mathlib.Algebra.GroupWithZero.Nat
import Mathlib.Algebra.Order.Floor.Div
import Mathlib.Data.List.TakeWhile
import PipeShellX.Decimal
import PipeShellX.Result
import PipeShellX.Text

namespace psx.cli

open Decimal (isDigit natural)

/-- `%`. -/
def percentSign : UInt8 := 37

/-- `std::from_chars`: the number that the digits in front spell, with what is behind them, unless
there are none or the number does not fit. -/
def fromChars (s : Bytes) : Option (UInt64 × Bytes) :=
  let digits := s.takeWhile isDigit
  if digits = [] ∨ 2 ^ 64 ≤ Decimal.value digits then none
  else some (UInt64.ofNat (Decimal.value digits), s.dropWhile isDigit)

/-- The number of a canary specification, and 1 for what is not one. -/
def canaryValue (number : Bytes) : UInt64 :=
  match fromChars number with
  | none => 1
  | some (value, rest) => if rest ≠ [] ∨ value = 0 then 1 else value

/-- The ceiling of `total * value / 100`, without the product. -/
def share (total value : UInt64) : UInt64 :=
  let remainder := total % 100 * value
  total / 100 * value + (remainder / 100 + if remainder % 100 = 0 then 0 else 1)

/-- `std::clamp`. -/
def clamp (x low high : UInt64) : UInt64 := if x < low then low else if high < x then high else x

/-- How many of `total` hosts the canary batch takes: at least one of them and at most all. -/
def canaryCount (spec : Bytes) (total : UInt64) : UInt64 :=
  if total = 0 then 0
  else
    let percent := spec.getLast? = some percentSign
    let value := canaryValue (if percent then spec.dropLast else spec)
    let count :=
      if percent then if 100 ≤ value then total else share total value
      else if total ≤ value then total else value
    clamp count 1 total

/-! ## The number -/

theorem fromChars_digits {digits : Bytes} (hdigits : ∀ b ∈ digits, isDigit b = true)
    (hne : digits ≠ []) (hfits : Decimal.value digits < 2 ^ 64) :
    fromChars digits = some (UInt64.ofNat (Decimal.value digits), []) := by
  have htake : digits.takeWhile isDigit = digits := List.takeWhile_eq_self_iff.mpr hdigits
  have hdrop : digits.dropWhile isDigit = [] := List.dropWhile_eq_nil_iff.mpr hdigits
  unfold fromChars
  rw [htake, hdrop]
  exact if_neg (not_or.mpr ⟨hne, Nat.not_le.mpr hfits⟩)

theorem canaryValue_natural {v : UInt64} (hv : 0 < v) : canaryValue (natural v.toNat) = v := by
  have hvalue := Decimal.value_natural v.toNat
  have hread : fromChars (natural v.toNat) = some (v, []) := by
    rw [fromChars_digits (fun b => Decimal.isDigit_natural) (Decimal.natural_ne_nil _)
      (by rw [hvalue]; exact v.toNat_lt), hvalue, UInt64.ofNat_toNat]
  have hne : v ≠ 0 := by
    rintro rfl
    exact absurd hv (by decide)
  unfold canaryValue
  rw [hread]
  exact if_neg (not_or.mpr ⟨not_not.mpr rfl, hne⟩)

/-- Digits do not end in a percent sign. -/
theorem getLast_natural (n : Nat) : (natural n).getLast? ≠ some percentSign := by
  intro h
  exact absurd (Decimal.isDigit_natural (List.mem_of_getLast? h)) (by decide)

/-! ## The share -/

/-- The quotient and the remainder by 100 give the same ceiling as the product. -/
theorem share_eq (total value : Nat) :
    total / 100 * value + (total % 100 * value / 100 + if total % 100 * value % 100 = 0 then 0
      else 1) =
      total * value ⌈/⌉ 100 := by
  have hsplit : total * value = 100 * (total / 100 * value) + total % 100 * value := by
    rw [← Nat.mul_assoc, ← Nat.add_mul, Nat.div_add_mod]
  rw [Nat.ceilDiv_eq_add_pred_div, hsplit]
  generalize total / 100 * value = whole
  generalize total % 100 * value = remainder
  split <;> omega

theorem share_le {value : Nat} (h : value ≤ 100) (total : Nat) : total * value ⌈/⌉ 100 ≤ total := by
  rw [ceilDiv_le_iff_le_mul (by decide), Nat.mul_comm]
  exact Nat.mul_le_mul_right total h

theorem le_share {value : Nat} (h : 100 ≤ value) (total : Nat) : total ≤ total * value ⌈/⌉ 100 := by
  rw [Nat.ceilDiv_eq_add_pred_div, Nat.le_div_iff_mul_le (by decide)]
  have hle : total * 100 ≤ total * value := Nat.mul_le_mul_left total h
  omega

theorem share_pos {total value : Nat} (htotal : 0 < total) (hvalue : 0 < value) :
    0 < total * value ⌈/⌉ 100 := by
  have hpos : 0 < total * value := Nat.mul_pos htotal hvalue
  rw [Nat.ceilDiv_eq_add_pred_div]
  omega

theorem share_mono {total total' value value' : Nat} (htotal : total ≤ total')
    (hvalue : value ≤ value') : total * value ⌈/⌉ 100 ≤ total' * value' ⌈/⌉ 100 := by
  have hle : total * value ≤ total' * value' := Nat.mul_le_mul htotal hvalue
  rw [Nat.ceilDiv_eq_add_pred_div, Nat.ceilDiv_eq_add_pred_div]
  omega

/-- Nothing wraps around below 100 percent. -/
theorem toNat_share (total : UInt64) {value : UInt64} (h : value < 100) :
    (share total value).toNat = total.toNat * value.toNat ⌈/⌉ 100 := by
  have hvalue : value.toNat < 100 := UInt64.lt_iff_toNat_lt.mp h
  have hle := share_le (Nat.le_of_lt hvalue) total.toNat
  have hlt := total.toNat_lt
  rw [← share_eq] at hle ⊢
  have hwhole : total.toNat / 100 * value.toNat < 2 ^ 64 := by omega
  have hremainder : total.toNat % 100 * value.toNat < 2 ^ 64 := by
    have hmod : total.toNat % 100 < 100 := Nat.mod_lt _ (by decide)
    have hsmall : total.toNat % 100 * value.toNat ≤ 100 * 100 :=
      Nat.mul_le_mul (Nat.le_of_lt hmod) (Nat.le_of_lt hvalue)
    omega
  have hproduct : (total % 100 * value).toNat = total.toNat % 100 * value.toNat := by
    rw [UInt64.toNat_mul, UInt64.toNat_mod]
    exact Nat.mod_eq_of_lt hremainder
  have hround : (if total % 100 * value % 100 = 0 then (0 : UInt64) else 1).toNat =
      if total.toNat % 100 * value.toNat % 100 = 0 then 0 else 1 := by
    have hzero : total % 100 * value % 100 = 0 ↔ total.toNat % 100 * value.toNat % 100 = 0 := by
      rw [← UInt64.toNat_inj, UInt64.toNat_mod, hproduct]
      rfl
    by_cases hz : total.toNat % 100 * value.toNat % 100 = 0
    · rw [if_pos (hzero.mpr hz), if_pos hz]
      rfl
    · rw [if_neg (mt hzero.mp hz), if_neg hz]
      rfl
  have hpart : (total % 100 * value / 100 + if total % 100 * value % 100 = 0 then 0 else 1).toNat =
      total.toNat % 100 * value.toNat / 100 +
        if total.toNat % 100 * value.toNat % 100 = 0 then 0 else 1 := by
    have hhundred : (100 : UInt64).toNat = 100 := rfl
    rw [UInt64.toNat_add, UInt64.toNat_div, hproduct, hround, hhundred]
    exact Nat.mod_eq_of_lt (by omega)
  have hcount : (total / 100 * value).toNat = total.toNat / 100 * value.toNat := by
    rw [UInt64.toNat_mul, UInt64.toNat_div]
    exact Nat.mod_eq_of_lt hwhole
  unfold share
  dsimp only
  rw [UInt64.toNat_add, hpart, hcount]
  exact Nat.mod_eq_of_lt (by omega)

/-! ## The count -/

theorem ne_zero_of_pos {x : UInt64} (h : 0 < x) : x ≠ 0 := by
  rintro rfl
  exact absurd h (by decide)

theorem clamp_of {x low high : UInt64} (hlow : low ≤ x) (hhigh : x ≤ high) :
    clamp x low high = x := by
  unfold clamp
  rw [if_neg (UInt64.not_lt.mpr hlow), if_neg (UInt64.not_lt.mpr hhigh)]

theorem one_le_of_pos {x : UInt64} (h : 0 < x) : 1 ≤ x := by
  rw [UInt64.lt_iff_toNat_lt] at h
  exact UInt64.le_iff_toNat_le.mpr h

theorem canaryCount_number {v total : UInt64} (hv : 0 < v) (htotal : 0 < total) :
    (canaryCount (natural v.toNat) total).toNat = min v.toNat total.toNat := by
  unfold canaryCount
  rw [if_neg (ne_zero_of_pos htotal)]
  simp only [if_neg (getLast_natural _), canaryValue_natural hv]
  by_cases hle : total ≤ v
  · rw [if_pos hle, clamp_of (one_le_of_pos htotal) (UInt64.le_refl _)]
    exact (Nat.min_eq_right (UInt64.le_iff_toNat_le.mp hle)).symm
  · have hlt : v ≤ total := UInt64.le_of_lt (UInt64.not_le.mp hle)
    rw [if_neg hle, clamp_of (one_le_of_pos hv) hlt]
    exact (Nat.min_eq_left (UInt64.le_iff_toNat_le.mp hlt)).symm

theorem canaryCount_percent {v total : UInt64} (hv : 0 < v) (htotal : 0 < total) :
    (canaryCount (natural v.toNat ++ [percentSign]) total).toNat =
      min total.toNat (total.toNat * v.toNat ⌈/⌉ 100) := by
  have hlast : (natural v.toNat ++ [percentSign]).getLast? = some percentSign :=
    List.getLast?_concat
  unfold canaryCount
  rw [if_neg (ne_zero_of_pos htotal)]
  simp only [if_pos hlast, List.dropLast_concat, canaryValue_natural hv]
  by_cases hall : 100 ≤ v
  · have hle := le_share (UInt64.le_iff_toNat_le.mp hall) total.toNat
    rw [if_pos hall, clamp_of (one_le_of_pos htotal) (UInt64.le_refl _), Nat.min_eq_left hle]
  · have hlt : v < 100 := UInt64.not_le.mp hall
    have hshare := toNat_share total hlt
    have hle := share_le (Nat.le_of_lt (UInt64.lt_iff_toNat_lt.mp hlt)) total.toNat
    have hpos := share_pos (UInt64.lt_iff_toNat_lt.mp htotal) (UInt64.lt_iff_toNat_lt.mp hv)
    rw [← hshare] at hle hpos
    rw [if_neg hall, clamp_of (one_le_of_pos (UInt64.lt_iff_toNat_lt.mpr hpos))
      (UInt64.le_iff_toNat_le.mpr hle), ← hshare, Nat.min_eq_right hle]

/-- A number of hosts is met as far as there are hosts, and a percentage is rounded up, without a
product that wraps around. -/
theorem canary_counts_are_exact {v total : UInt64} (hv : 0 < v) (htotal : 0 < total) :
    (canaryCount (natural v.toNat) total).toNat = min v.toNat total.toNat ∧
      (canaryCount (natural v.toNat ++ [percentSign]) total).toNat =
        min total.toNat (total.toNat * v.toNat ⌈/⌉ 100) ∧
      ∀ suffix ∈ [[], [percentSign]],
        1 ≤ canaryCount (natural v.toNat ++ suffix) total ∧
          canaryCount (natural v.toNat ++ suffix) total ≤ total ∧
          ∀ v' total', v ≤ v' → total ≤ total' →
            canaryCount (natural v.toNat ++ suffix) total ≤
              canaryCount (natural v'.toNat ++ suffix) total' := by
  refine ⟨canaryCount_number hv htotal, canaryCount_percent hv htotal, fun suffix hsuffix => ?_⟩
  have hvpos := UInt64.lt_iff_toNat_lt.mp hv
  have htpos := UInt64.lt_iff_toNat_lt.mp htotal
  simp only [UInt64.le_iff_toNat_le]
  rcases List.mem_pair.mp hsuffix with rfl | rfl
  · rw [List.append_nil, canaryCount_number hv htotal]
    refine ⟨Nat.le_min.mpr ⟨hvpos, htpos⟩, Nat.min_le_right _ _, fun v' total' hv' htotal' => ?_⟩
    rw [List.append_nil,
      canaryCount_number (UInt64.lt_of_lt_of_le hv (UInt64.le_iff_toNat_le.mpr hv'))
      (UInt64.lt_of_lt_of_le htotal (UInt64.le_iff_toNat_le.mpr htotal'))]
    omega
  · rw [canaryCount_percent hv htotal]
    refine ⟨Nat.le_min.mpr ⟨htpos, share_pos htpos hvpos⟩, Nat.min_le_left _ _,
      fun v' total' hv' htotal' => ?_⟩
    rw [canaryCount_percent (UInt64.lt_of_lt_of_le hv (UInt64.le_iff_toNat_le.mpr hv'))
      (UInt64.lt_of_lt_of_le htotal (UInt64.le_iff_toNat_le.mpr htotal'))]
    have hmono := share_mono htotal' hv'
    omega

/-- Five percent of ten hosts are one host. -/
theorem five_percent_of_ten :
    (canaryCount (natural 5) 10).toNat = 5 ∧
      (canaryCount (natural 5 ++ [percentSign]) 10).toNat = 1 := by
  have hfive : (0 : UInt64) < 5 := by decide
  have hten : (0 : UInt64) < 10 := by decide
  have hexact := canary_counts_are_exact hfive hten
  exact ⟨hexact.1, hexact.2.1⟩

end psx.cli
