-- The delay before a retry (backoff.hpp): a base that doubles with each attempt up to a cap, of
-- which the upper half is drawn at random. The draw is exact, and its part of the delay is rounded
-- down.
import Mathlib.Algebra.GroupWithZero.Nat
import Mathlib.Data.Rat.Floor
import PipeShellX.Result

namespace psx.runtime

/-- `std::chrono::milliseconds::count`, with nothing below zero. -/
def countMs (count : Int) : UInt64 := if 0 < count then UInt64.ofNat count.toNat else 0

/-- The loop that doubles, with `left` turns to go. -/
def double (capMs : UInt64) : Nat → UInt64 → UInt64
  | 0, full => full
  | left + 1, full => if capMs ≠ 0 ∧ capMs ≤ full then full else double capMs left (full <<< 1)

/-- The turns of the loop: `i` from 1, while it is below the attempt and below 32. -/
def turns (attempt : Int) : Nat := (min (max attempt 1) 32 - 1).toNat

/-- `full`, as `backoffDelay` computes it. -/
def backoffFull (attempt base cap : Int) : UInt64 :=
  let full := double (countMs cap) (turns attempt) (countMs base)
  if countMs cap ≠ 0 then (if countMs cap < full then countMs cap else full) else full

/-- How long to wait before an attempt: between half of the full delay and all of it. -/
def backoffDelay (attempt base cap : Int) (rand01 : ℚ) : Int :=
  let full := backoffFull attempt base cap
  let half := full / 2
  let rand01 := if rand01 < 0 then 0 else if 1 < rand01 then 1 else rand01
  let jitter := UInt64.ofNat ⌊rand01 * (full - half).toNat⌋₊
  (half + jitter).toInt64.toInt

/-! ## What the header says -/

/-- `base * 2^(attempt-1)`, where an attempt below 1 is the first. -/
def power (attempt base : Int) : Nat := base.toNat * 2 ^ (attempt - 1).toNat

/-- `min(cap, base * 2^(attempt-1))`, saturating, where a cap of 0 is none. -/
def documentedFull (attempt base cap : Int) : Nat :=
  if 0 < cap then min cap.toNat (min (2 ^ 64 - 1) (power attempt base))
  else min (2 ^ 64 - 1) (power attempt base)

/-- The delay keeps to what the header says. -/
structure Documented (attempt base cap : Int) (rand01 : ℚ) : Prop where
  full : (backoffFull attempt base cap).toNat = documentedFull attempt base cap
  low : (documentedFull attempt base cap / 2 : Nat) ≤ backoffDelay attempt base cap rand01
  high : backoffDelay attempt base cap rand01 ≤ documentedFull attempt base cap
  capped : 0 < cap → backoffDelay attempt base cap rand01 ≤ cap ∧
    ∀ later, attempt ≤ later →
      (backoffFull attempt base cap).toNat ≤ (backoffFull later base cap).toNat ∧
        (backoffFull attempt base cap).toNat / 2 ≤ (backoffFull later base cap).toNat / 2

/-! ## The doubling -/

theorem toNat_countMs {count : Int} (h : count < 2 ^ 62) : (countMs count).toNat = count.toNat := by
  unfold countMs
  split
  · rw [UInt64.toNat_ofNat']
    omega
  · have hzero : (0 : UInt64).toNat = 0 := rfl
    omega

theorem countMs_eq_zero {count : Int} (h : count < 2 ^ 62) : countMs count = 0 ↔ count ≤ 0 := by
  have hzero : (0 : UInt64).toNat = 0 := rfl
  rw [← UInt64.toNat_inj, toNat_countMs h]
  omega

theorem toNat_double (full : UInt64) : (full <<< 1).toNat = 2 * full.toNat % 2 ^ 64 := by
  rw [UInt64.toNat_shiftLeft]
  have hone : (1 : UInt64).toNat % 64 = 1 := rfl
  rw [hone, Nat.shiftLeft_eq, pow_one, Nat.mul_comm]

/-- Under a cap the doubling stops before it wraps around. -/
theorem double_capped {capMs : UInt64} (hpos : capMs ≠ 0) (hcap : capMs.toNat < 2 ^ 62) (left : Nat)
    (full : UInt64) :
    min capMs.toNat (double capMs left full).toNat = min capMs.toNat (full.toNat * 2 ^ left) := by
  induction left generalizing full with
  | zero => rw [pow_zero, Nat.mul_one, double]
  | succ left ih =>
    unfold double
    by_cases hstop : capMs ≤ full
    · rw [if_pos ⟨hpos, hstop⟩]
      rw [UInt64.le_iff_toNat_le] at hstop
      have hgrown : full.toNat * 1 ≤ full.toNat * 2 ^ (left + 1) :=
        Nat.mul_le_mul_left _ Nat.one_le_two_pow
      omega
    · rw [if_neg fun h => hstop h.2, ih, toNat_double]
      rw [UInt64.le_iff_toNat_le] at hstop
      rw [Nat.mod_eq_of_lt (by omega), pow_succ, Nat.mul_comm 2, Nat.mul_assoc, Nat.mul_comm 2]

theorem double_uncapped (left : Nat) (full : UInt64) :
    (double 0 left full).toNat = full.toNat * 2 ^ left % 2 ^ 64 := by
  induction left generalizing full with
  | zero =>
    rw [pow_zero, Nat.mul_one, double]
    exact (Nat.mod_eq_of_lt full.toNat_lt).symm
  | succ left ih =>
    have hturn : 2 * full.toNat * 2 ^ left = full.toNat * 2 ^ (left + 1) := by
      rw [Nat.pow_succ, Nat.mul_comm 2, Nat.mul_assoc, Nat.mul_comm 2]
    unfold double
    rw [if_neg fun h => h.1 rfl, ih, toNat_double, Nat.mod_mul_mod, hturn]

section

variable {attempt base cap : Int} {rand01 : ℚ}

/-- What is computed for `full`: no more than 31 doublings, modulo the word when there is no cap. -/
theorem toNat_backoffFull (hbase : base < 2 ^ 62) (hcap : cap < 2 ^ 62) :
    (backoffFull attempt base cap).toNat =
      if 0 < cap then min cap.toNat (base.toNat * 2 ^ turns attempt)
      else base.toNat * 2 ^ turns attempt % 2 ^ 64 := by
  have hzero := countMs_eq_zero hcap
  unfold backoffFull
  dsimp only
  by_cases hpos : 0 < cap
  · have hne : countMs cap ≠ 0 := by
      rw [Ne, hzero]
      omega
    have hdouble :=
      double_capped hne (by rw [toNat_countMs hcap]; omega) (turns attempt) (countMs base)
    rw [toNat_countMs hcap, toNat_countMs hbase] at hdouble
    rw [if_pos hne, if_pos hpos, ← hdouble]
    split
    · rename_i hlt
      rw [UInt64.lt_iff_toNat_lt, toNat_countMs hcap] at hlt
      rw [toNat_countMs hcap]
      omega
    · rename_i hlt
      rw [UInt64.lt_iff_toNat_lt, toNat_countMs hcap] at hlt
      omega
  · have heq : countMs cap = 0 := hzero.mpr (by omega)
    rw [if_neg (not_not.mpr heq), if_neg hpos, heq, double_uncapped, toNat_countMs hbase]

/-! ## The delay -/

theorem toInt_toInt64 (x : UInt64) :
    x.toInt64.toInt = if x.toNat < 2 ^ 63 then (x.toNat : Int) else x.toNat - 2 ^ 64 := by
  have hlt := x.toNat_lt
  rw [← UInt64.ofNat_toNat (x := x), UInt64.toInt64_ofNat', Int64.toInt_ofNat', UInt64.ofNat_toNat,
    Int.bmod_def]
  have hsize : (Int64.size : Int) = 2 ^ 64 := rfl
  rw [hsize]
  split <;> split <;> omega

/-- The whole of `full` that a draw takes: its half, and a part of the rest. -/
def drawn (full : Nat) (rand01 : ℚ) : Nat := full / 2 + ⌊rand01 * (full - full / 2 : Nat)⌋₊

theorem drawn_bounds (full : Nat) (hhigh : rand01 ≤ 1) :
    full / 2 ≤ drawn full rand01 ∧ drawn full rand01 ≤ full := by
  have hjitter : ⌊rand01 * (full - full / 2 : Nat)⌋₊ ≤ full - full / 2 := by
    refine Nat.floor_le_of_le ?_
    exact mul_le_of_le_one_left (Nat.cast_nonneg _) hhigh
  unfold drawn
  omega

theorem backoffDelay_eq (attempt base cap : Int) (hlow : 0 ≤ rand01) (hhigh : rand01 ≤ 1) :
    backoffDelay attempt base cap rand01 =
      if drawn (backoffFull attempt base cap).toNat rand01 < 2 ^ 63 then
        (drawn (backoffFull attempt base cap).toNat rand01 : Int)
      else drawn (backoffFull attempt base cap).toNat rand01 - 2 ^ 64 := by
  have hbounds := drawn_bounds (backoffFull attempt base cap).toNat hhigh
  have hlt := (backoffFull attempt base cap).toNat_lt
  have htwo : (backoffFull attempt base cap / 2).toNat = (backoffFull attempt base cap).toNat / 2 :=
    UInt64.toNat_div _ _
  have hhalf : (backoffFull attempt base cap - backoffFull attempt base cap / 2).toNat =
      (backoffFull attempt base cap).toNat - (backoffFull attempt base cap).toNat / 2 := by
    rw [UInt64.toNat_sub_of_le _ _ (UInt64.le_iff_toNat_le.mpr (by omega)), htwo]
  unfold backoffDelay
  dsimp only
  rw [if_neg (not_lt.mpr hlow), if_neg (not_lt.mpr hhigh), toInt_toInt64, UInt64.toNat_add, htwo,
    hhalf, UInt64.toNat_ofNat']
  unfold drawn at hbounds ⊢
  rw [Nat.mod_eq_of_lt (by omega), Nat.mod_eq_of_lt (by omega)]

/-! ## Where the header is met -/

theorem turns_eq (attempt : Int) : turns attempt = min (attempt - 1).toNat 31 := by
  unfold turns
  omega

theorem turns_mono {later : Int} (h : attempt ≤ later) : turns attempt ≤ turns later := by
  rw [turns_eq, turns_eq]
  omega

theorem power_eq (h : attempt ≤ 32) : base.toNat * 2 ^ turns attempt = power attempt base := by
  rw [turns_eq, Nat.min_eq_left (by omega)]
  rfl

/-- After 32 attempts the power has left the 31 doublings behind. -/
theorem power_late (base : Int) (h : 32 < attempt) :
    turns attempt = 31 ∧ 2 * (base.toNat * 2 ^ 31) ≤ power attempt base := by
  refine ⟨by rw [turns_eq]; omega, ?_⟩
  have hpow : 2 ^ 32 ≤ 2 ^ (attempt - 1).toNat := Nat.pow_le_pow_right (by decide) (by omega)
  have hmul : base.toNat * 2 ^ 32 ≤ power attempt base := Nat.mul_le_mul_left _ hpow
  omega

theorem even_power (h : 2 ^ 62 ≤ power attempt base) (hbase : base < 2 ^ 62) :
    power attempt base % 2 = 0 := by
  unfold power at h ⊢
  cases hexp : (attempt - 1).toNat with
  | zero =>
    rw [hexp, pow_zero, Nat.mul_one] at h
    omega
  | succ n => rw [pow_succ, ← Nat.mul_assoc, Nat.mul_mod_left]

theorem backoffFull_iff (attempt : Int) (hbase : base < 2 ^ 62) (hcap : cap < 2 ^ 62) :
    (backoffFull attempt base cap).toNat = documentedFull attempt base cap ↔
      base ≤ 0 ∨ (0 < cap ∧ (attempt ≤ 32 ∨ cap ≤ base * 2 ^ 31)) ∨
        cap ≤ 0 ∧ attempt ≤ 32 ∧ power attempt base < 2 ^ 64 := by
  rw [toNat_backoffFull hbase hcap]
  unfold documentedFull
  by_cases hnone : base ≤ 0
  · have hzero : base.toNat = 0 := by omega
    have hpower : power attempt base = 0 := by
      rw [power, hzero, Nat.zero_mul]
    refine iff_of_true ?_ (Or.inl hnone)
    rw [hzero, Nat.zero_mul, hpower]
    rfl
  have heven : 2 ^ 62 ≤ power attempt base → base < 2 ^ 62 → power attempt base % 2 = 0 :=
    even_power
  by_cases hlate : attempt ≤ 32
  · rw [power_eq hlate]
    split <;> omega
  · obtain ⟨hturns, hpower⟩ := power_late base (not_le.mp hlate)
    rw [hturns]
    split <;> omega

theorem backoffFull_mono (hbase : base < 2 ^ 62) (hcap : cap < 2 ^ 62) (hpos : 0 < cap)
    {later : Int}
    (h : attempt ≤ later) :
    (backoffFull attempt base cap).toNat ≤ (backoffFull later base cap).toNat := by
  rw [toNat_backoffFull hbase hcap, toNat_backoffFull hbase hcap, if_pos hpos, if_pos hpos]
  have hgrown : base.toNat * 2 ^ turns attempt ≤ base.toNat * 2 ^ turns later :=
    Nat.mul_le_mul_left _ (Nat.pow_le_pow_right (by decide) (turns_mono h))
  omega

theorem backoffFull_le (attempt : Int) (hbase : base < 2 ^ 62) (hcap : cap < 2 ^ 62)
    (hpos : 0 < cap) :
    (backoffFull attempt base cap).toNat ≤ cap.toNat := by
  rw [toNat_backoffFull hbase hcap, if_pos hpos]
  exact Nat.min_le_left _ _

end

/-- Nothing is doubled, or the cap is met within 31 doublings, or 31 are enough; and without a cap
what is drawn fits the milliseconds. -/
def Fits (attempt base cap : Int) (rand01 : ℚ) : Prop :=
  base ≤ 0 ∨ (0 < cap ∧ (attempt ≤ 32 ∨ cap ≤ base * 2 ^ 31)) ∨
    cap ≤ 0 ∧ attempt ≤ 32 ∧ drawn (power attempt base) rand01 < 2 ^ 63

/-- The delay is the documented one exactly in this range: the loop stops at 31 doublings, and
without a cap they wrap around. -/
theorem the_delay_is_documented_iff {attempt base cap : Int} {rand01 : ℚ} (hbase : base < 2 ^ 62)
    (hcap : cap < 2 ^ 62) (hlow : 0 ≤ rand01) (hhigh : rand01 ≤ 1) :
    Documented attempt base cap rand01 ↔ Fits attempt base cap rand01 := by
  have hiff := backoffFull_iff attempt hbase hcap
  have hdelay := backoffDelay_eq attempt base cap hlow hhigh
  have hbounds := drawn_bounds (backoffFull attempt base cap).toNat hhigh
  have hlt := (backoffFull attempt base cap).toNat_lt
  constructor
  · intro h
    have hlowest := h.low
    rw [hdelay, h.full] at hlowest
    rw [h.full] at hbounds hlt
    rcases hiff.mp h.full with hnone | hcapped | ⟨hfree, hearly, hword⟩
    · exact Or.inl hnone
    · exact Or.inr (Or.inl hcapped)
    · have hsame : documentedFull attempt base cap = power attempt base := by
        rw [documentedFull, if_neg (not_lt.mpr hfree)]
        omega
      refine Or.inr (Or.inr ⟨hfree, hearly, ?_⟩)
      rw [← hsame]
      by_contra hbig
      rw [if_neg hbig] at hlowest
      omega
  · intro h
    have hfull : (backoffFull attempt base cap).toNat = documentedFull attempt base cap := by
      refine hiff.mpr (h.imp_right (Or.imp_right fun ⟨hfree, hearly, hdrawn⟩ => ?_))
      have hhalf := (drawn_bounds (power attempt base) hhigh).1
      exact ⟨hfree, hearly, by omega⟩
    have hfits : drawn (backoffFull attempt base cap).toNat rand01 < 2 ^ 63 := by
      rcases h with hnone | ⟨hpos, -⟩ | ⟨hfree, -, hdrawn⟩
      · have hzero : power attempt base = 0 := by
          rw [power, Int.toNat_of_nonpos hnone, Nat.zero_mul]
        have hnothing : documentedFull attempt base cap = 0 := by
          rw [documentedFull, hzero]
          split <;> omega
        omega
      · have hle := backoffFull_le attempt hbase hcap hpos
        omega
      · have hhalf := (drawn_bounds (power attempt base) hhigh).1
        have hsame : documentedFull attempt base cap = power attempt base := by
          rw [documentedFull, if_neg (not_lt.mpr hfree)]
          omega
        rw [hfull, hsame]
        exact hdrawn
    rw [if_pos hfits] at hdelay
    refine ⟨hfull, ?_, ?_, fun hpos => ⟨?_, fun later hlater => ?_⟩⟩
    · rw [hdelay, ← hfull]
      exact_mod_cast hbounds.1
    · rw [hdelay, ← hfull]
      exact_mod_cast hbounds.2
    · have hle := backoffFull_le attempt hbase hcap hpos
      rw [hdelay]
      omega
    · have hmono := backoffFull_mono hbase hcap hpos hlater
      exact ⟨hmono, Nat.div_le_div_right hmono⟩

theorem a_third_retry_is_documented : Documented 3 200 30000 (1 / 2) :=
  (the_delay_is_documented_iff (by decide) (by decide) (by norm_num) (by norm_num)).mpr
    (Or.inr (Or.inl ⟨by decide, Or.inl (by decide)⟩))

/-- One more doubling is due at attempt 33, and the loop has stopped. -/
theorem the_doubling_stops_early :
    ¬ ∀ (attempt base cap : Int) (rand01 : ℚ), base < 2 ^ 62 → cap < 2 ^ 62 → 0 ≤ rand01 →
      rand01 ≤ 1 → Documented attempt base cap rand01 := by
  intro h
  have hfull := (h 33 1 0 0 (by decide) (by decide) le_rfl zero_le_one).full
  exact absurd hfull (by decide)

end psx.runtime
