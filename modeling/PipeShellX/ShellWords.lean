-- How a shell, or the start-up code of a program, cuts a command line into words: the quoting of
-- the POSIX shell, of PowerShell, and of the Windows argument rules.
import Mathlib.Data.List.Basic
import Mathlib.Tactic.SplitIfs

namespace ShellWords

/-- The word that is open, if there is one. -/
abbrev Word (α : Type) := Option (List α)

/-- The open word with one more symbol. -/
def grow {α : Type} (word : Word α) (c : α) : Word α := some (word.getD [] ++ [c])

/-- The open word ends, and other words follow. -/
def close {α : Type} (word : Word α) (words : List (List α)) : List (List α) := word.toList ++ words

def blank : UInt8 := 32

def tab : UInt8 := 9

def newline : UInt8 := 10

def mark : UInt8 := 39

def doubleMark : UInt8 := 34

def backslash : UInt8 := 92

/-! ## The POSIX shell -/

/-- Where the shell is in a word. -/
inductive PosixMode
  | bare
  | single
  | escaped
  deriving DecidableEq

/-- What a POSIX shell does not leave alone outside of quotes: the newline, operators, expansions,
patterns, and the other kind of quotes. -/
def posixSpecial : List UInt8 :=
  [10, 33, 34, 35, 36, 37, 38, 40, 41, 42, 44, 59, 60, 61, 62, 63, 91, 93, 94, 96, 123,
    124, 125, 126]

/-- The words of a command line, unless something in it is neither a word nor between words. -/
def posix : PosixMode → Word UInt8 → List UInt8 → Option (List (List UInt8))
  | .bare, word, [] => some (close word [])
  | .single, _, [] => none
  | .escaped, _, [] => none
  | .bare, word, c :: rest =>
    if c = blank ∨ c = tab then (posix .bare none rest).map (close word)
    else if c = mark then posix .single (some (word.getD [])) rest
    else if c = backslash then posix .escaped word rest
    else if c ∈ posixSpecial then none
    else posix .bare (grow word c) rest
  | .single, word, c :: rest =>
    if c = mark then posix .bare word rest else posix .single (grow word c) rest
  | .escaped, word, c :: rest =>
    -- a newline behind a backslash is no part of the line
    if c = newline then posix .bare word rest else posix .bare (grow word c) rest

/-! ## PowerShell -/

/-- PowerShell reads characters, and to it the typographic marks U+2018 to U+201B are single quotes
as well. Such a mark is named by the last byte of its UTF-8 form. -/
inductive Glyph
  | byte (b : UInt8)
  | curly (last : UInt8)
  deriving DecidableEq

/-- A byte in front of a text. -/
def Glyph.put (b : UInt8) (text : List Glyph) : List Glyph :=
  match text with
  | .byte second :: .byte last :: rest =>
    if b = 0xe2 ∧ second = 0x80 ∧ 0x98 ≤ last ∧ last ≤ 0x9b then .curly last :: rest
    else .byte b :: text
  | _ => .byte b :: text

/-- The characters of a text. -/
def glyphs (text : List UInt8) : List Glyph := text.foldr Glyph.put []

/-- What PowerShell takes for a single quote. -/
def Glyph.isMark : Glyph → Bool
  | .byte b => b = mark
  | .curly _ => true

/-- What separates words. -/
def Glyph.isBlank (g : Glyph) : Bool := g = .byte blank || g = .byte tab

/-- Where PowerShell is in a word. -/
inductive PowerShellMode
  | bare
  | single
  /-- A quote came inside of a string: it ends the string unless another one follows. -/
  | quoted
  deriving DecidableEq

/-- What PowerShell does not leave alone outside of quotes. -/
def powerShellSpecial : List UInt8 :=
  [10, 13, 34, 35, 36, 38, 40, 41, 44, 59, 60, 62, 64, 96, 123, 124, 125]

/-- What ends a bare word, or means something else in it. -/
def Glyph.isSpecial : Glyph → Bool
  | .byte b => b ∈ powerShellSpecial
  | .curly _ => false

/-- The words of a command line, unless something in it is neither a word nor between words. A word
that starts with a string ends with it, and `joined` tells that the word has not. -/
def powerShell : PowerShellMode → Bool → Word Glyph → List Glyph → Option (List (List Glyph))
  | .single, _, _, [] => none
  | .bare, _, word, [] => some (close word [])
  | .quoted, _, word, [] => some (close word [])
  | .bare, _, word, g :: rest =>
    if g.isBlank then (powerShell .bare false none rest).map (close word)
    else if g.isMark then powerShell .single word.isSome (some (word.getD [])) rest
    else if g.isSpecial then none
    else powerShell .bare false (grow word g) rest
  | .single, joined, word, g :: rest =>
    if g.isMark then powerShell .quoted joined word rest
    else powerShell .single joined (grow word g) rest
  | .quoted, joined, word, g :: rest =>
    if g.isMark then powerShell .single joined (grow word g) rest
    else if g.isBlank then (powerShell .bare false none rest).map (close word)
    else if g.isSpecial then none
    else if joined then powerShell .bare false (grow word g) rest
    else (powerShell .bare false (some [g]) rest).map (close word)

/-! ## The Windows argument rules -/

/-- The words of a command line. Backslashes wait for what follows them: before a quote two of them
stand for one, and an odd one makes the quote an ordinary character; elsewhere they are
themselves. -/
def windows : Bool → Nat → Word UInt8 → List UInt8 → List (List UInt8)
  | _, n, word, [] => close (word.map (· ++ List.replicate n backslash)) []
  | quoted, n, word, c :: rest =>
    if c = backslash then windows quoted (n + 1) (some (word.getD [])) rest
    else if c = doubleMark then
      let word := word.getD [] ++ List.replicate (n / 2) backslash
      if n % 2 = 0 then windows (!quoted) 0 (some word) rest
      else windows quoted 0 (some (word ++ [doubleMark])) rest
    else
      let word := word.map (· ++ List.replicate n backslash)
      if quoted = false ∧ (c = blank ∨ c = tab) then close word (windows quoted 0 none rest)
      else windows quoted 0 (grow word c) rest

end ShellWords
