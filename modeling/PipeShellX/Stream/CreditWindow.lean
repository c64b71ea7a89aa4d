-- The receiver's side of one flow-controlled direction. The laws: it never lets
-- more than the window be outstanding, and it never sits on credit once
-- everything that arrived was consumed.
import PipeShellX.Result

namespace psx.stream

/-- The counters are 32-bit words; `Nat` holds their values. -/
structure CreditWindow where
  window : Nat
  threshold : Nat
  outstanding : Nat := 0
  pendingUpdate : Nat := 0
  deriving DecidableEq

namespace CreditWindow

/-- A window with all of its credit. -/
def new (window : UInt32) (updateThreshold : UInt32) : CreditWindow :=
  { window := window.toNat
    threshold := if updateThreshold ≠ 0 then updateThreshold.toNat else window.toNat / 2 }

/-- How much may be sent. -/
def sendable (w : CreditWindow) : Nat := w.window - w.outstanding

/-- `none` is the `false` of the source: the window stays as it was. -/
def onData (w : CreditWindow) (n : Nat) : Option CreditWindow :=
  if n > w.sendable then none else some { w with outstanding := w.outstanding + n }

/-- The consumed bytes that count: no more than are outstanding. -/
def clamp (w : CreditWindow) (n : Nat) : Nat := min n w.outstanding

/-- The increment to advertise, and the window after it. The sum of the pending update is
taken in 32 bits, as in the source. -/
def onConsumed (w : CreditWindow) (n : Nat) : CreditWindow × Nat :=
  let n := w.clamp n
  let w := { w with
    outstanding := w.outstanding - n
    pendingUpdate := (w.pendingUpdate + n) % UInt32.size }
  if w.pendingUpdate > 0 ∧ (w.pendingUpdate ≥ w.threshold ∨ w.outstanding = 0) then
    ({ w with pendingUpdate := 0 }, w.pendingUpdate)
  else (w, 0)

/-! ## The laws -/

theorem onData_some {w w' : CreditWindow} {n : Nat} (h : w.onData n = some w') :
    w' = { w with outstanding := w.outstanding + n } ∧ n ≤ w.window - w.outstanding := by
  unfold onData sendable at h
  split_ifs at h with hn
  exact ⟨(Option.some.inj h).symm, by omega⟩

theorem onConsumed_window (w : CreditWindow) (n : Nat) :
    (w.onConsumed n).1.window = w.window ∧ (w.onConsumed n).1.threshold = w.threshold ∧
      (w.onConsumed n).1.outstanding = w.outstanding - w.clamp n := by
  simp only [onConsumed]
  split_ifs <;> simp

theorem clamp_le (w : CreditWindow) (n : Nat) : w.clamp n ≤ w.outstanding := Nat.min_le_right _ _

/-- The advertised increment and what stays pending are what was consumed, when the sum fits
its word. -/
theorem onConsumed_account (w : CreditWindow) {n : Nat}
    (h : w.pendingUpdate + w.clamp n < UInt32.size) :
    (w.onConsumed n).1.pendingUpdate + (w.onConsumed n).2 = w.pendingUpdate + w.clamp n := by
  simp only [onConsumed, Nat.mod_eq_of_lt h]
  split_ifs <;> simp

/-- Nothing stays pending once nothing is outstanding, nor at or above the threshold. -/
theorem onConsumed_pending (w : CreditWindow) (n : Nat) :
    (w.onConsumed n).1.pendingUpdate = 0 ∨
      (w.onConsumed n).1.pendingUpdate < w.threshold ∧ (w.onConsumed n).1.outstanding ≠ 0 := by
  simp only [onConsumed]
  split_ifs with h
  · exact Or.inl rfl
  · dsimp only
    omega

theorem onConsumed_lt (w : CreditWindow) (n : Nat) : (w.onConsumed n).2 < UInt32.size := by
  simp only [onConsumed]
  have := Nat.mod_lt (w.pendingUpdate + w.clamp n) (show 0 < UInt32.size by decide)
  split_ifs
  · exact this
  · exact Nat.two_pow_pos 32

end CreditWindow

end psx.stream
