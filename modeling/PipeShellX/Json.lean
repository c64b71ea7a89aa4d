-- JSON texts (RFC 8259) as bytes. A string is read one byte at a time. A value is written without
-- blanks between its tokens and with integers for its numbers, by any way to quote strings that the
-- reader undoes; reading takes back what was written, whatever stands behind it, and a text of such
-- values, one a line, is read line by line.
import PipeShellX.Decimal
import PipeShellX.Text
import Mathlib.Tactic.SplitIfs

namespace Json

open Text (ascii)
open Decimal (isDigit natural integer isDigit_natural natural_ne_nil natural_zero)

def newline : UInt8 := 10

def mark : UInt8 := 34

def comma : UInt8 := 44

def colon : UInt8 := 58

def escape : UInt8 := 92

/-- Bytes that stand in a line: no control characters. -/
def Visible (text : List UInt8) : Prop := ∀ b ∈ text, 0x20 ≤ b

instance decidable_visible (text : List UInt8) : Decidable (Visible text) :=
  List.decidableBAll _ text

@[simp] theorem visible_nil : Visible [] := fun _ h => absurd h List.not_mem_nil

@[simp] theorem visible_cons {b : UInt8} {text : List UInt8} :
    Visible (b :: text) ↔ 0x20 ≤ b ∧ Visible text := List.forall_mem_cons

@[simp] theorem visible_append {text more : List UInt8} :
    Visible (text ++ more) ↔ Visible text ∧ Visible more := List.forall_mem_append

theorem Visible.one_line {text : List UInt8} (h : Visible text) : newline ∉ text := fun hin =>
  absurd (h newline hin) (by decide)

/-! ## Strings -/

/-- Where the reader of a string is: between characters, behind a backslash, or among the
hexadecimal digits of a character, with how many are left and their value so far. -/
inductive Mode
  | text
  | escaped
  | unicode (left value : Nat)

/-- The character that an escape of one letter stands for. -/
def unescape (b : UInt8) : Option UInt8 :=
  if b = 34 then some 34 else if b = 92 then some 92 else if b = 47 then some 47
  else if b = 98 then some 8 else if b = 102 then some 12 else if b = 110 then some 10
  else if b = 114 then some 13 else if b = 116 then some 9 else none

/-- The value of a hexadecimal digit. -/
def hexDigit (b : UInt8) : Option Nat :=
  if 48 ≤ b ∧ b ≤ 57 then some (b.toNat - 48)
  else if 65 ≤ b ∧ b ≤ 70 then some (b.toNat - 55)
  else if 97 ≤ b ∧ b ≤ 102 then some (b.toNat - 87)
  else none

/-- The first half of a surrogate pair. -/
def isHigh (value : Nat) : Bool := 0xD800 ≤ value && value < 0xDC00

/-- The second half of a surrogate pair. -/
def isLow (value : Nat) : Bool := 0xDC00 ≤ value && value < 0xE000

/-- A character in UTF-8. -/
def utf8 (value : Nat) : List UInt8 := String.utf8EncodeChar (Char.ofNat value)

/-- The bytes that a UTF-16 code unit completes, and the high surrogate that waits for its other
half. -/
def codeUnit (value : Nat) : Option Nat → Option (List UInt8 × Option Nat)
  | none =>
    if isHigh value then some ([], some value)
    else if isLow value then none
    else some (utf8 value, none)
  | some high =>
    if isLow value then some (utf8 (0x10000 + (high - 0xD800) * 0x400 + (value - 0xDC00)), none)
    else none

/-- The bytes of a string whose first mark was read, and what stands behind its last one. -/
def string : Mode → Option Nat → List UInt8 → Option (List UInt8 × List UInt8)
  | _, _, [] => none
  | .text, high, b :: rest =>
    if b = escape then string .escaped high rest
    else if high.isSome then none
    else if b = mark then some ([], rest)
    else if b < 0x20 then none
    else (string .text none rest).map fun r => (b :: r.1, r.2)
  | .escaped, high, b :: rest =>
    if b = 117 then string (.unicode 4 0) high rest
    else if high.isSome then none
    else
      match unescape b with
      | none => none
      | some c => (string .text none rest).map fun r => (c :: r.1, r.2)
  | .unicode left value, high, b :: rest =>
    match hexDigit b with
    | none => none
    | some d =>
      if left ≤ 1 then
        match codeUnit (value * 16 + d) high with
        | none => none
        | some (bytes, high) => (string .text high rest).map fun r => (bytes ++ r.1, r.2)
      else string (.unicode (left - 1) (value * 16 + d)) high rest

/-- A byte that needs no escape. -/
theorem string_raw {b : UInt8} (hmark : b ≠ mark) (hescape : b ≠ escape) (hvisible : ¬ b < 0x20)
    (rest : List UInt8) : string .text none (b :: rest) =
      (string .text none rest).map fun r => (b :: r.1, r.2) := by
  rw [string, if_neg hescape, if_neg (by simp), if_neg hmark, if_neg hvisible]

/-- A short escape. -/
theorem string_short {b c : UInt8} (h : unescape b = some c) (rest : List UInt8) :
    string .text none (escape :: b :: rest) =
      (string .text none rest).map fun r => (c :: r.1, r.2) := by
  have hlong : b ≠ 117 := by
    rintro rfl
    cases h
  rw [string, if_pos rfl, string, if_neg hlong, if_neg (by simp), h]

/-- A long escape of a code unit that is a character of one byte. -/
theorem string_long {a b : UInt8} {high low : Nat} (hhigh : hexDigit a = some high)
    (hlow : hexDigit b = some low) {c : UInt8}
    (hunit : codeUnit (high * 16 + low) none = some ([c], none)) (rest : List UInt8) :
    string .text none (escape :: 117 :: 48 :: 48 :: a :: b :: rest) =
      (string .text none rest).map fun r => (c :: r.1, r.2) := by
  have hzero : hexDigit 48 = some 0 := rfl
  have hvalue : (((0 * 16 + 0) * 16 + 0) * 16 + high) * 16 + low = high * 16 + low := by omega
  rw [string, if_pos rfl, string, if_pos rfl, string, hzero]
  dsimp only
  rw [if_neg (by omega), string, hzero]
  dsimp only
  rw [if_neg (by omega), string, hhigh]
  dsimp only
  rw [if_neg (by omega), string, hlow]
  dsimp only
  rw [if_pos (by omega), hvalue, hunit]
  rfl

/-- A way to write strings that the reader undoes. -/
structure Quoting where
  body : List UInt8 → List UInt8
  reads : ∀ s rest, string .text none (body s ++ mark :: rest) = some (s, rest)
  visible : ∀ s, Visible (body s)

namespace Quoting

variable (q : Quoting)

/-- A string between its marks. -/
def quote (s : List UInt8) : List UInt8 := mark :: q.body s ++ [mark]

theorem quote_append (s rest : List UInt8) :
    q.quote s ++ rest = mark :: (q.body s ++ mark :: rest) := by
  unfold quote
  rw [List.cons_append, List.cons_append, List.append_assoc]
  rfl

theorem visible_quote (s : List UInt8) : Visible (q.quote s) := by
  have hmark : 0x20 ≤ mark := by decide
  simp [quote, q.visible s, hmark]

end Quoting

/-! ## Numbers -/

/-- Digits without a zero in front of others, and what stands behind them. -/
def readNatural (text : List UInt8) : Option (Nat × List UInt8) :=
  let digits := text.takeWhile isDigit
  if digits = [] ∨ (digits.head? = some 48 ∧ digits ≠ [48]) then none
  else some (Decimal.value digits, text.dropWhile isDigit)

/-- An integer at the front of a text. -/
def readInteger (text : List UInt8) : Option (Int × List UInt8) :=
  if text.head? = some 45 then (readNatural text.tail).map fun r => (-r.1, r.2)
  else (readNatural text).map fun r => (r.1, r.2)

/-- What stands behind a number is not one more digit. -/
def Apart (rest : List UInt8) : Prop := ∀ b ∈ rest.head?, isDigit b = false

theorem apart_nil : Apart [] := nofun

theorem apart_cons {b : UInt8} (h : isDigit b = false) (rest : List UInt8) : Apart (b :: rest) := by
  rintro b' hb'
  obtain rfl := Option.some.inj hb'
  exact h

theorem apart_takeWhile {rest : List UInt8} (h : Apart rest) :
    rest.takeWhile isDigit = [] ∧ rest.dropWhile isDigit = rest := by
  cases rest with
  | nil => exact ⟨rfl, rfl⟩
  | cons b rest =>
    have hb : isDigit b = false := h b rfl
    rw [List.takeWhile_cons, List.dropWhile_cons, hb]
    exact ⟨rfl, rfl⟩

theorem readNatural_natural (n : Nat) {rest : List UInt8} (h : Apart rest) :
    readNatural (natural n ++ rest) = some (n, rest) := by
  obtain ⟨htake, hdrop⟩ := apart_takeWhile h
  have hdigits : (natural n ++ rest).takeWhile isDigit = natural n := by
    rw [List.takeWhile_append_of_pos fun b hb => isDigit_natural hb, htake, List.append_nil]
  have hbehind : (natural n ++ rest).dropWhile isDigit = rest := by
    rw [List.dropWhile_append_of_pos fun b hb => isDigit_natural hb, hdrop]
  unfold readNatural
  dsimp only
  rw [hdigits, hbehind, Decimal.value_natural, if_neg]
  rintro (hnone | ⟨hzero, hmore⟩)
  · exact natural_ne_nil n hnone
  · exact hmore (natural_zero hzero)

theorem readInteger_integer (n : Int) {rest : List UInt8} (h : Apart rest) :
    readInteger (integer n ++ rest) = some (n, rest) := by
  unfold readInteger
  cases n with
  | ofNat n =>
    have hplain : ¬ (natural n ++ rest).head? = some 45 := by
      rw [List.head?_append_of_ne_nil _ (natural_ne_nil n)]
      intro hminus
      exact absurd (isDigit_natural (List.mem_of_mem_head? hminus)) (by decide)
    unfold integer
    rw [if_neg hplain, readNatural_natural n h]
    rfl
  | negSucc n =>
    unfold integer
    rw [List.cons_append, List.head?_cons, if_pos rfl, List.tail_cons,
      readNatural_natural (n + 1) h]
    rfl

theorem visible_natural (n : Nat) : Visible (natural n) := by
  intro b hb
  have hdigit := isDigit_natural hb
  simp only [isDigit, Bool.and_eq_true, decide_eq_true_eq] at hdigit
  exact UInt8.le_trans (by decide) hdigit.1

theorem visible_integer (n : Int) : Visible (integer n) := by
  cases n with
  | ofNat n => exact visible_natural n
  | negSucc n => exact visible_cons.mpr ⟨by decide, visible_natural (n + 1)⟩

/-! ## Values -/

/-- What a text can say. -/
inductive Value
  | null
  | string (s : List UInt8)
  | number (n : Int)
  | bool (b : Bool)
  | array (items : List Value)
  | object (fields : List (List UInt8 × Value))

/-- How a truth value is written. -/
def boolean (b : Bool) : List UInt8 := if b then ascii "true" else ascii "false"

mutual

/-- How a value is written. -/
def print (q : Quoting) : Value → List UInt8
  | .null => ascii "null"
  | .string s => q.quote s
  | .number n => integer n
  | .bool b => boolean b
  | .array [] => [91, 93]
  | .array (item :: items) => 91 :: (print q item ++ printItems q items)
  | .object [] => [123, 125]
  | .object ((key, v) :: fields) =>
    123 :: (q.quote key ++ colon :: print q v ++ printFields q fields)

/-- The items behind the first one. -/
def printItems (q : Quoting) : List Value → List UInt8
  | [] => [93]
  | item :: items => comma :: (print q item ++ printItems q items)

/-- The fields behind the first one. -/
def printFields (q : Quoting) : List (List UInt8 × Value) → List UInt8
  | [] => [125]
  | (key, v) :: fields => comma :: (q.quote key ++ colon :: print q v ++ printFields q fields)

end

/-- A word of the grammar, and what stands behind it. -/
def word (name : String) (v : Value) (text : List UInt8) : Option (Value × List UInt8) :=
  if (ascii name).isPrefixOf text then some (v, text.drop (ascii name).length) else none

mutual

/-- The value that a text begins with, and what stands behind it. Every value and every tail of
items takes a byte, so the bytes bound the depth. -/
def value : Nat → List UInt8 → Option (Value × List UInt8)
  | 0, _ => none
  | _ + 1, [] => none
  | depth + 1, b :: rest =>
    if b = mark then (string .text none rest).map fun r => (.string r.1, r.2)
    else if b = 91 then
      if rest.head? = some 93 then some (.array [], rest.tail)
      else do
        let (item, rest) ← value depth rest
        let (items, rest) ← valueItems depth rest
        return (.array (item :: items), rest)
    else if b = 123 then
      if rest.head? = some 125 then some (.object [], rest.tail)
      else do
        let (field, rest) ← valueField depth rest
        let (fields, rest) ← valueFields depth rest
        return (.object (field :: fields), rest)
    else if b = 116 then word "true" (.bool true) (b :: rest)
    else if b = 102 then word "false" (.bool false) (b :: rest)
    else if b = 110 then word "null" .null (b :: rest)
    else (readInteger (b :: rest)).map fun r => (.number r.1, r.2)

/-- The items of an array, up to its closing bracket. -/
def valueItems : Nat → List UInt8 → Option (List Value × List UInt8)
  | 0, _ => none
  | _ + 1, [] => none
  | depth + 1, b :: rest =>
    if b = 93 then some ([], rest)
    else if b = comma then do
      let (item, rest) ← value depth rest
      let (items, rest) ← valueItems depth rest
      return (item :: items, rest)
    else none

/-- A field of an object. -/
def valueField : Nat → List UInt8 → Option ((List UInt8 × Value) × List UInt8)
  | 0, _ => none
  | _ + 1, [] => none
  | depth + 1, b :: rest =>
    if b = mark then do
      let (key, rest) ← string .text none rest
      if rest.head? = some colon then do
        let (v, rest) ← value depth rest.tail
        return ((key, v), rest)
      else none
    else none

/-- The fields of an object, up to its closing bracket. -/
def valueFields : Nat → List UInt8 → Option (List (List UInt8 × Value) × List UInt8)
  | 0, _ => none
  | _ + 1, [] => none
  | depth + 1, b :: rest =>
    if b = 125 then some ([], rest)
    else if b = comma then do
      let (field, rest) ← valueField depth rest
      let (fields, rest) ← valueFields depth rest
      return (field :: fields, rest)
    else none

end

/-- The value of a whole text. -/
def parse (text : List UInt8) : Option Value :=
  match value text.length text with
  | some (v, []) => some v
  | _ => none

section

variable {q : Quoting}

theorem integer_head (n : Int) : ∃ b tail, integer n = b :: tail ∧ (b = 45 ∨ isDigit b = true) := by
  cases n with
  | ofNat n =>
    obtain ⟨b, tail, hdigits⟩ := List.exists_cons_of_ne_nil (natural_ne_nil n)
    exact ⟨b, tail, hdigits, .inr (isDigit_natural (hdigits ▸ List.mem_cons_self))⟩
  | negSucc n => exact ⟨45, natural (n + 1), rfl, .inl rfl⟩

theorem value_number (n : Int) (depth : Nat) {rest : List UInt8} (h : Apart rest) :
    value (depth + 1) (integer n ++ rest) = some (.number n, rest) := by
  have hread := readInteger_integer n h
  obtain ⟨b, tail, htext, hb⟩ := integer_head n
  have hother : ∀ c : UInt8, c ≠ 45 → isDigit c = false → b ≠ c := by
    rintro c hminus hdigit rfl
    rcases hb with hb | hb
    · exact hminus hb
    · rw [hb] at hdigit
      cases hdigit
  rw [htext, List.cons_append] at hread ⊢
  rw [value, if_neg (hother mark (by decide) rfl), if_neg (hother 91 (by decide) rfl),
    if_neg (hother 123 (by decide) rfl), if_neg (hother 116 (by decide) rfl),
    if_neg (hother 102 (by decide) rfl), if_neg (hother 110 (by decide) rfl), hread]
  rfl

theorem value_string (s : List UInt8) (depth : Nat) (rest : List UInt8) :
    value (depth + 1) (q.quote s ++ rest) = some (.string s, rest) := by
  rw [q.quote_append, value, if_pos rfl, q.reads]
  rfl

theorem value_bool (b : Bool) (depth : Nat) (rest : List UInt8) :
    value (depth + 1) (boolean b ++ rest) = some (.bool b, rest) := by
  cases b <;> rfl

/-- No value begins with the end of an array. -/
theorem print_head (q : Quoting) (v : Value) : ∃ b tail, print q v = b :: tail ∧ b ≠ 93 := by
  have hclose : isDigit 93 = false := rfl
  cases v with
  | null => exact ⟨110, ascii "ull", rfl, by decide⟩
  | string s => exact ⟨mark, q.body s ++ [mark], rfl, by decide⟩
  | number n =>
    obtain ⟨b, tail, htext, hb⟩ := integer_head n
    refine ⟨b, tail, htext, ?_⟩
    rintro rfl
    rcases hb with hb | hb
    · cases hb
    · rw [hclose] at hb
      cases hb
  | bool b =>
    cases b with
    | false => exact ⟨102, ascii "alse", rfl, by decide⟩
    | true => exact ⟨116, ascii "rue", rfl, by decide⟩
  | array items =>
    cases items with
    | nil => exact ⟨91, [93], rfl, by decide⟩
    | cons item items => exact ⟨91, print q item ++ printItems q items, by rw [print], by decide⟩
  | object fields =>
    cases fields with
    | nil => exact ⟨123, [125], rfl, by decide⟩
    | cons field fields =>
      exact ⟨123, q.quote field.1 ++ colon :: print q field.2 ++ printFields q fields,
        by rw [print],
        by decide⟩

theorem apart_items (items : List Value) (rest : List UInt8) :
    Apart (printItems q items ++ rest) := by
  cases items with
  | nil => exact apart_cons rfl _
  | cons item items =>
    rw [printItems]
    exact apart_cons rfl _

theorem apart_fields (fields : List (List UInt8 × Value)) (rest : List UInt8) :
    Apart (printFields q fields ++ rest) := by
  cases fields with
  | nil => exact apart_cons rfl _
  | cons field fields =>
    rw [printFields]
    exact apart_cons rfl _

theorem valueField_print (key : List UInt8) {v : Value} {depth : Nat} {text rest : List UInt8}
    (h : value depth text = some (v, rest)) :
    valueField (depth + 1) (q.quote key ++ colon :: text) = some ((key, v), rest) := by
  rw [q.quote_append, valueField, if_pos rfl, q.reads]
  dsimp only [Option.bind_eq_bind, Option.bind_some]
  rw [List.head?_cons, if_pos rfl, List.tail_cons, h]
  rfl

end

/-! ## Reading takes back what was written -/

theorem print_deep {q : Quoting} {v : Value} {depth : Nat} (h : (print q v).length ≤ depth) :
    ∃ n, depth = n + 1 := by
  obtain ⟨b, tail, htext, -⟩ := print_head q v
  rw [htext, List.length_cons] at h
  exact ⟨depth - 1, by omega⟩

theorem length_quote (q : Quoting) (s : List UInt8) : 2 ≤ (q.quote s).length := by
  simp [Quoting.quote]

mutual

theorem value_print (q : Quoting) : ∀ (v : Value) (depth : Nat) (rest : List UInt8),
    (print q v).length ≤ depth → Apart rest → value depth (print q v ++ rest) = some (v, rest)
  | .null, depth, rest, hdepth, _ => by
    obtain ⟨depth, rfl⟩ := print_deep hdepth
    rfl
  | .string s, depth, rest, hdepth, _ => by
    obtain ⟨depth, rfl⟩ := print_deep hdepth
    rw [print]
    exact value_string s depth rest
  | .number n, depth, rest, hdepth, hrest => by
    obtain ⟨depth, rfl⟩ := print_deep hdepth
    rw [print]
    exact value_number n depth hrest
  | .bool b, depth, rest, hdepth, _ => by
    obtain ⟨depth, rfl⟩ := print_deep hdepth
    rw [print]
    exact value_bool b depth rest
  | .array [], depth, rest, hdepth, _ => by
    obtain ⟨depth, rfl⟩ := print_deep hdepth
    rfl
  | .array (item :: items), depth, rest, hdepth, _ => by
    rw [print, List.length_cons, List.length_append] at hdepth
    obtain ⟨depth, rfl⟩ : ∃ n, depth = n + 1 := ⟨depth - 1, by omega⟩
    have hitem := value_print q item depth (printItems q items ++ rest) (by omega) (apart_items _ _)
    have hitems := items_print q items depth rest (by omega)
    obtain ⟨b, tail, htext, hopen⟩ := print_head q item
    have hsome : ¬ (print q item ++ (printItems q items ++ rest)).head? = some 93 := by
      rw [htext]
      exact fun heq => hopen (Option.some.inj heq)
    rw [print, List.cons_append, List.append_assoc, value, if_neg (by decide), if_pos rfl,
      if_neg hsome, hitem]
    dsimp only [Option.bind_eq_bind, Option.bind_some]
    rw [hitems]
    rfl
  | .object [], depth, rest, hdepth, _ => by
    obtain ⟨depth, rfl⟩ := print_deep hdepth
    rfl
  | .object ((key, v) :: fields), depth, rest, hdepth, _ => by
    have hlength := length_quote q key
    rw [print, List.length_cons, List.length_append, List.length_append, List.length_cons] at hdepth
    obtain ⟨depth, rfl⟩ : ∃ n, depth = n + 1 + 1 := ⟨depth - 2, by omega⟩
    have hv := value_print q v depth (printFields q fields ++ rest) (by omega) (apart_fields _ _)
    have hfields := fields_print q fields (depth + 1) rest (by omega)
    have hsome : ¬ (q.quote key ++ colon :: (print q v ++ (printFields q fields ++ rest))).head? =
        some 125 := by
      rw [q.quote_append]
      exact fun heq => absurd (Option.some.inj heq) (by decide)
    rw [print, List.cons_append, List.append_assoc, List.append_assoc, List.cons_append, value,
      if_neg (by decide), if_neg (by decide), if_pos rfl, if_neg hsome, valueField_print key hv]
    dsimp only [Option.bind_eq_bind, Option.bind_some]
    rw [hfields]
    rfl

theorem items_print (q : Quoting) : ∀ (items : List Value) (depth : Nat) (rest : List UInt8),
    (printItems q items).length ≤ depth →
      valueItems depth (printItems q items ++ rest) = some (items, rest)
  | [], depth, rest, hdepth => by
    obtain ⟨depth, rfl⟩ : ∃ n, depth = n + 1 := Nat.exists_eq_add_of_le' hdepth
    rfl
  | item :: items, depth, rest, hdepth => by
    rw [printItems, List.length_cons, List.length_append] at hdepth
    obtain ⟨depth, rfl⟩ : ∃ n, depth = n + 1 := ⟨depth - 1, by omega⟩
    have hitem := value_print q item depth (printItems q items ++ rest) (by omega) (apart_items _ _)
    have hitems := items_print q items depth rest (by omega)
    rw [printItems, List.cons_append, List.append_assoc, valueItems, if_neg (by decide), if_pos rfl,
      hitem]
    dsimp only [Option.bind_eq_bind, Option.bind_some]
    rw [hitems]
    rfl

theorem fields_print (q : Quoting) : ∀ (fields : List (List UInt8 × Value)) (depth : Nat)
    (rest : List UInt8), (printFields q fields).length ≤ depth →
      valueFields depth (printFields q fields ++ rest) = some (fields, rest)
  | [], depth, rest, hdepth => by
    obtain ⟨depth, rfl⟩ : ∃ n, depth = n + 1 := Nat.exists_eq_add_of_le' hdepth
    rfl
  | (key, v) :: fields, depth, rest, hdepth => by
    have hlength := length_quote q key
    rw [printFields, List.length_cons, List.length_append, List.length_append,
      List.length_cons] at hdepth
    obtain ⟨depth, rfl⟩ : ∃ n, depth = n + 1 + 1 := ⟨depth - 2, by omega⟩
    have hv := value_print q v depth (printFields q fields ++ rest) (by omega) (apart_fields _ _)
    have hfields := fields_print q fields (depth + 1) rest (by omega)
    rw [printFields, List.cons_append, List.append_assoc, List.append_assoc, List.cons_append,
      valueFields, if_neg (by decide), if_pos rfl, valueField_print key hv]
    dsimp only [Option.bind_eq_bind, Option.bind_some]
    rw [hfields]
    rfl

end

theorem parse_print (q : Quoting) (v : Value) : parse (print q v) = some v := by
  have hread := value_print q v (print q v).length [] (Nat.le_refl _) apart_nil
  rw [List.append_nil] at hread
  unfold parse
  rw [hread]

/-! ## Lines -/

mutual

theorem visible_print (q : Quoting) : ∀ v : Value, Visible (print q v)
  | .null | .array [] | .object [] => by
    rw [print]
    decide
  | .string s => by
    rw [print]
    exact q.visible_quote s
  | .number n => by
    rw [print]
    exact visible_integer n
  | .bool b => by
    rw [print]
    cases b <;> decide
  | .array (item :: items) => by
    have hitem := visible_print q item
    have hitems := visible_items q items
    rw [print]
    exact visible_cons.mpr ⟨by decide, visible_append.mpr ⟨hitem, hitems⟩⟩
  | .object ((key, v) :: fields) => by
    have hv := visible_print q v
    have hfields := visible_fields q fields
    rw [print]
    exact visible_cons.mpr ⟨by decide, visible_append.mpr
      ⟨visible_append.mpr ⟨q.visible_quote key, visible_cons.mpr ⟨by decide, hv⟩⟩, hfields⟩⟩

theorem visible_items (q : Quoting) : ∀ items : List Value, Visible (printItems q items)
  | [] => by
    rw [printItems]
    decide
  | item :: items => by
    have hitem := visible_print q item
    have hitems := visible_items q items
    rw [printItems]
    exact visible_cons.mpr ⟨by decide, visible_append.mpr ⟨hitem, hitems⟩⟩

theorem visible_fields (q : Quoting) : ∀ fields : List (List UInt8 × Value),
    Visible (printFields q fields)
  | [] => by
    rw [printFields]
    decide
  | (key, v) :: fields => by
    have hv := visible_print q v
    have hfields := visible_fields q fields
    rw [printFields]
    exact visible_cons.mpr ⟨by decide, visible_append.mpr
      ⟨visible_append.mpr ⟨q.visible_quote key, visible_cons.mpr ⟨by decide, hv⟩⟩, hfields⟩⟩

end

/-- A text grew by one line, which is `v`. -/
def Appends (before after : List UInt8) (v : Value) : Prop :=
  ∃ body, after = before ++ body ++ [newline] ∧ Visible body ∧ parse body = some v

theorem appends_print (q : Quoting) (before : List UInt8) (v : Value) :
    Appends before (before ++ (print q v ++ [newline])) v :=
  ⟨print q v, (List.append_assoc ..).symm, visible_print q v, parse_print q v⟩

/-- Values in a text, one a line. -/
def lines (q : Quoting) (vs : List Value) : List UInt8 := vs.flatMap fun v => print q v ++ [newline]

/-- The values of the lines of a text, `none` for a line that is not one. -/
def readLines (text : List UInt8) : List (Option Value) := (Text.getlines newline text).map parse

theorem lines_cons (q : Quoting) (v : Value) (vs : List Value) :
    lines q (v :: vs) = print q v ++ newline :: lines q vs := by
  unfold lines
  rw [List.flatMap_cons, List.append_assoc]
  rfl

theorem lines_append (q : Quoting) (vs ws : List Value) :
    lines q (vs ++ ws) = lines q vs ++ lines q ws := List.flatMap_append

theorem readLines_lines (q : Quoting) (vs : List Value) : readLines (lines q vs) = vs.map some := by
  unfold readLines
  induction vs with
  | nil => rfl
  | cons v vs ih =>
    rw [lines_cons, Text.getlines_first (visible_print q v).one_line, List.map_cons,
      parse_print, ih]
    rfl

end Json
