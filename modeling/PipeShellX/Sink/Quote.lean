-- How a string is quoted for JSON (json.hpp): short escapes, unicode escapes for the other control
-- characters, and every other byte as it is. The reader of JSON strings undoes it.
import PipeShellX.Json
import PipeShellX.Result

namespace psx.json

open Json (mark string Visible)
open Text (ascii)

/-- A digit of `%04x`. -/
def hexLower (n : Nat) : UInt8 := if n < 10 then UInt8.ofNat (48 + n) else UInt8.ofNat (87 + n)

/-- One turn of the loop of `quote`. -/
def escaped (c : UInt8) : Bytes :=
  if c = 34 then ascii "\\\""
  else if c = 92 then ascii "\\\\"
  else if c = 10 then ascii "\\n"
  else if c = 13 then ascii "\\r"
  else if c = 9 then ascii "\\t"
  else if c = 8 then ascii "\\b"
  else if c = 12 then ascii "\\f"
  else if c < 0x20 then ascii "\\u00" ++ [hexLower (c.toNat / 16), hexLower (c.toNat % 16)]
  else [c]

/-- A string of JSON. -/
def quote (value : Bytes) : Bytes := mark :: value.flatMap escaped ++ [mark]

/-- The digits of a control character, and the code unit that they are. -/
theorem digits_control : ∀ n < 32, Json.hexDigit (hexLower (n / 16)) = some (n / 16) ∧
    Json.hexDigit (hexLower (n % 16)) = some (n % 16) ∧
    0x20 ≤ hexLower (n / 16) ∧ 0x20 ≤ hexLower (n % 16) ∧
    Json.codeUnit (n / 16 * 16 + n % 16) none = some ([UInt8.ofNat n], none) := by decide

theorem escaped_control {c : UInt8} (h : c < 0x20) (rest : Bytes) :
    string .text none (ascii "\\u00" ++ [hexLower (c.toNat / 16),
      hexLower (c.toNat % 16)] ++ rest) =
      (string .text none rest).map fun r => (c :: r.1, r.2) := by
  obtain ⟨hhigh, hlow, -, -, hunit⟩ := digits_control c.toNat h
  rw [UInt8.ofNat_toNat] at hunit
  exact Json.string_long hhigh hlow hunit rest

theorem read_escaped (c : UInt8) (rest : Bytes) : string .text none (escaped c ++ rest) =
    (string .text none rest).map fun r => (c :: r.1, r.2) := by
  unfold escaped
  split_ifs with h34 h92 h10 h13 h9 h8 h12 hcontrol
  · rw [h34]
    exact Json.string_short rfl rest
  · rw [h92]
    exact Json.string_short rfl rest
  · rw [h10]
    exact Json.string_short rfl rest
  · rw [h13]
    exact Json.string_short rfl rest
  · rw [h9]
    exact Json.string_short rfl rest
  · rw [h8]
    exact Json.string_short rfl rest
  · rw [h12]
    exact Json.string_short rfl rest
  · exact escaped_control hcontrol rest
  · exact Json.string_raw h34 h92 hcontrol rest

theorem visible_escaped (c : UInt8) : Visible (escaped c) := by
  unfold escaped
  split_ifs with h34 h92 h10 h13 h9 h8 h12 hcontrol
  · decide
  · decide
  · decide
  · decide
  · decide
  · decide
  · decide
  · obtain ⟨-, -, hhigh, hlow, -⟩ := digits_control c.toNat hcontrol
    rw [Json.visible_append]
    exact ⟨by decide, by simp [hhigh, hlow]⟩
  · intro b hb
    rw [List.mem_singleton.mp hb]
    exact UInt8.not_lt.mp hcontrol

/-- What stands between the marks. -/
def body (value : Bytes) : Bytes := value.flatMap escaped

theorem read_body (value rest : Bytes) :
    string .text none (body value ++ mark :: rest) = some (value, rest) := by
  induction value with
  | nil => rfl
  | cons c value ih =>
    unfold body at ih ⊢
    rw [List.flatMap_cons, List.append_assoc, read_escaped, ih]
    rfl

theorem visible_body (value : Bytes) : Visible (body value) := by
  intro b hb
  obtain ⟨c, -, hc⟩ := List.mem_flatMap.mp hb
  exact visible_escaped c b hc

/-- The reader of strings undoes `quote`. -/
def quoting : Json.Quoting where
  body := body
  reads := read_body
  visible := visible_body

@[simp] theorem quoting_quote (value : Bytes) : quoting.quote value = quote value := rfl

end psx.json
