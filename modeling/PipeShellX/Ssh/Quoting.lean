-- How an argv becomes the one command line that ssh sends (ssh_auth.cpp, command_executor.cpp). For
-- a POSIX shell and for the Windows argument rules the words come back as they were; PowerShell
-- takes more characters for quotes than the one that is doubled.
import PipeShellX.Result
import PipeShellX.ShellWords

namespace psx.ssh

open ShellWords

/-- The shell that reads the command line on the target. -/
inductive RemoteShell
  | Posix
  | Cmd
  | PowerShell
  deriving DecidableEq, Repr

/-- An argument for a POSIX shell. -/
def quotePosixArg (arg : Bytes) : Bytes :=
  mark :: arg.flatMap (fun c => if c = mark then [mark, backslash, mark, mark] else [c]) ++ [mark]

/-- An argument for PowerShell. -/
def quotePowerShellArg (arg : Bytes) : Bytes :=
  mark :: arg.flatMap (fun c => if c = mark then [mark, mark] else [c]) ++ [mark]

/-- The loop of `quoteCmdArg`, with the backslashes that were counted. -/
def quoteCmdLoop : Nat → Bytes → Bytes
  | backslashes, [] => List.replicate (backslashes * 2) backslash
  | backslashes, c :: rest =>
    if c = backslash then quoteCmdLoop (backslashes + 1) rest
    else if c = doubleMark then
      List.replicate (backslashes * 2 + 1) backslash ++ doubleMark :: quoteCmdLoop 0 rest
    else List.replicate backslashes backslash ++ c :: quoteCmdLoop 0 rest

/-- Blank, tab, newline, vertical tab and the double quote. -/
def cmdSpecial : Bytes := [32, 9, 10, 11, 34]

/-- An argument for the command interpreter of Windows. -/
def quoteCmdArg (arg : Bytes) : Bytes :=
  if arg = [] ∨ ∃ c ∈ arg, c ∈ cmdSpecial then doubleMark :: quoteCmdLoop 0 arg ++ [doubleMark]
  else arg

/-- An argument for the shell of the host. -/
def quoteArg : RemoteShell → Bytes → Bytes
  | .Cmd => quoteCmdArg
  | .PowerShell => quotePowerShellArg
  | .Posix => quotePosixArg

/-- The loop that joins arguments with a blank between them. -/
def joinWith (quote : Bytes → Bytes) : List Bytes → Bytes
  | [] => []
  | [arg] => quote arg
  | arg :: next :: rest => quote arg ++ blank :: joinWith quote (next :: rest)

/-- A command line for the shell of the host. -/
def quoteRemoteCommand (argv : List Bytes) (shell : RemoteShell) : Bytes :=
  joinWith (quoteArg shell) argv

/-- `shellQuote` of command_executor.cpp. -/
def shellQuote (value : Bytes) : Bytes :=
  mark :: value.flatMap (fun c => if c = mark then [mark, backslash, mark, mark] else [c]) ++ [mark]

/-- A command line for a POSIX shell. -/
def buildRemoteCommand (args : List Bytes) : Bytes := joinWith shellQuote args

/-! ## The POSIX shell -/

theorem posix_string (arg word rest : Bytes) :
    posix .single (some word)
        (arg.flatMap (fun c => if c = mark then [mark, backslash, mark, mark] else [c]) ++
          mark :: rest) =
      posix .bare (some (word ++ arg)) rest := by
  induction arg generalizing word with
  | nil =>
    rw [List.append_nil]
    exact if_pos rfl
  | cons c arg ih =>
    have hnext := ih (word ++ [c])
    rw [List.append_assoc, List.singleton_append] at hnext
    rw [List.flatMap_cons, ← hnext]
    by_cases hc : c = mark
    · rw [if_pos hc, hc]
      rfl
    · rw [if_neg hc]
      exact if_neg hc

theorem posix_arg (arg rest : Bytes) :
    posix .bare none (quotePosixArg arg ++ rest) = posix .bare (some arg) rest := by
  have hstring := posix_string arg [] rest
  rw [List.nil_append] at hstring
  rw [← hstring]
  unfold quotePosixArg
  rw [List.cons_append, List.cons_append, List.append_assoc]
  rfl

/-- A POSIX shell reads back the argv. -/
theorem posix_words (argv : List Bytes) :
    posix .bare none (quoteRemoteCommand argv .Posix) = some argv := by
  unfold quoteRemoteCommand
  induction argv with
  | nil => rfl
  | cons arg argv ih =>
    cases argv with
    | nil =>
      have hword := posix_arg arg []
      rw [List.append_nil] at hword
      exact hword
    | cons next rest =>
      refine (posix_arg arg _).trans ?_
      have hblank : posix .bare (some arg) (blank :: joinWith quotePosixArg (next :: rest)) =
          (posix .bare none (joinWith quotePosixArg (next :: rest))).map (close (some arg)) :=
        if_pos (.inl rfl)
      refine hblank.trans ?_
      exact congrArg (Option.map (close (some arg))) ih

theorem buildRemoteCommand_eq (argv : List Bytes) :
    buildRemoteCommand argv = quoteRemoteCommand argv .Posix := rfl

/-! ## The Windows argument rules -/

theorem windows_backslashes (quoted : Bool) (n k : Nat) (word rest : Bytes) :
    windows quoted n (some word) (List.replicate k backslash ++ rest) =
      windows quoted (n + k) (some word) rest := by
  induction k generalizing n with
  | zero => rfl
  | succ k ih =>
    rw [List.replicate_succ, List.cons_append]
    have hone : windows quoted n (some word) (backslash :: (List.replicate k backslash ++ rest)) =
        windows quoted (n + 1) (some word) (List.replicate k backslash ++ rest) := if_pos rfl
    rw [hone, ih, Nat.add_assoc, Nat.add_comm 1 k]

/-- A character that is neither a backslash nor a quote, inside of quotes. -/
theorem windows_inside {c : UInt8} (hslash : c ≠ backslash) (hmark : c ≠ doubleMark) (n : Nat)
    (word rest : Bytes) :
    windows true n (some word) (c :: rest) =
      windows true 0 (some (word ++ List.replicate n backslash ++ [c])) rest := by
  have hinside : ¬ (true = false ∧ (c = blank ∨ c = tab)) := fun h => nomatch h.1
  rw [windows, if_neg hslash, if_neg hmark]
  dsimp only
  rw [if_neg hinside]
  rfl

/-- A quote behind backslashes. -/
theorem windows_quote (quoted : Bool) (n : Nat) (word rest : Bytes) :
    windows quoted n (some word) (doubleMark :: rest) =
      if n % 2 = 0 then windows (!quoted) 0 (some (word ++ List.replicate (n / 2) backslash)) rest
      else
        windows quoted 0 (some (word ++ List.replicate (n / 2) backslash ++ [doubleMark])) rest :=
  rfl

/-- Inside of quotes, and up to the quote that closes them. The induction is on the argument, and
the backslashes that were counted are still to come. -/
theorem windows_string (arg word rest : Bytes) (backslashes : Nat) :
    windows true 0 (some word) (quoteCmdLoop backslashes arg ++ doubleMark :: rest) =
      windows false 0 (some (word ++ List.replicate backslashes backslash ++ arg)) rest := by
  induction arg generalizing backslashes word with
  | nil =>
    have heven : backslashes * 2 % 2 = 0 := by omega
    have hhalf : backslashes * 2 / 2 = backslashes := by omega
    unfold quoteCmdLoop
    rw [windows_backslashes, Nat.zero_add, windows_quote, if_pos heven, hhalf, List.append_nil]
    rfl
  | cons c arg ih =>
    unfold quoteCmdLoop
    by_cases hslash : c = backslash
    · rw [if_pos hslash, ih, hslash, List.replicate_succ', List.append_assoc, List.append_assoc,
        List.append_assoc]
      rfl
    · rw [if_neg hslash]
      by_cases hmark : c = doubleMark
      · have hodd : ¬ (backslashes * 2 + 1) % 2 = 0 := by omega
        have hhalf : (backslashes * 2 + 1) / 2 = backslashes := by omega
        rw [if_pos hmark, List.append_assoc, windows_backslashes, Nat.zero_add, List.cons_append,
          windows_quote, if_neg hodd, hhalf, ih, hmark]
        simp
      · rw [if_neg hmark, List.append_assoc, windows_backslashes, Nat.zero_add, List.cons_append,
          windows_inside hslash hmark, ih]
        simp

/-- What comes behind a word: nothing, or a blank and the other words. -/
def Behind (rest : Bytes) (others : List Bytes) : Prop :=
  (rest = [] ∧ others = []) ∨ ∃ line, rest = blank :: line ∧ windows false 0 none line = others

theorem windows_end {rest : Bytes} {others : List Bytes} (h : Behind rest others) (n : Nat)
    (word : Bytes) :
    windows false n (some word) rest =
      (word ++ List.replicate n backslash) :: others := by
  rcases h with ⟨rfl, rfl⟩ | ⟨line, rfl, rfl⟩
  · rfl
  · have houtside : false = false ∧ (blank = blank ∨ blank = tab) := ⟨rfl, .inl rfl⟩
    rw [windows, if_neg (by decide), if_neg (by decide)]
    dsimp only
    rw [if_pos houtside]
    rfl

/-- Characters that need no quotes stay as they are. -/
theorem windows_plain {arg : Bytes} (hplain : ∀ c ∈ arg, c ∉ cmdSpecial) {rest : Bytes}
    {others : List Bytes} (h : Behind rest others) (n : Nat) (word : Bytes) :
    windows false n (some word) (arg ++ rest) =
      (word ++ List.replicate n backslash ++ arg) :: others := by
  induction arg generalizing n word with
  | nil =>
    rw [List.nil_append, List.append_nil]
    exact windows_end h n word
  | cons c arg ih =>
    have hrest := ih fun d hd => hplain d (List.mem_cons_of_mem c hd)
    have hc := hplain c List.mem_cons_self
    simp only [cmdSpecial, List.mem_cons, List.not_mem_nil, or_false, not_or] at hc
    obtain ⟨hblank, htab, -, -, hmark⟩ := hc
    rw [List.cons_append]
    by_cases hslash : c = backslash
    · have hone := windows_backslashes false n 1 word (arg ++ rest)
      rw [List.replicate_one, List.singleton_append] at hone
      rw [hslash, hone, hrest, List.replicate_succ']
      simp
    · have hone : windows false n (some word) (c :: (arg ++ rest)) =
          windows false 0 (some (word ++ List.replicate n backslash ++ [c])) (arg ++ rest) := by
        have houtside : ¬ (false = false ∧ (c = blank ∨ c = tab)) := by
          rintro ⟨-, hspace | hspace⟩
          · exact hblank hspace
          · exact htab hspace
        have hquote : ¬ c = doubleMark := hmark
        rw [windows, if_neg hslash, if_neg hquote]
        dsimp only
        rw [if_neg houtside]
        rfl
      rw [hone, hrest]
      simp

theorem windows_arg (arg : Bytes) {rest : Bytes} {others : List Bytes} (h : Behind rest others) :
    windows false 0 none (quoteCmdArg arg ++ rest) = arg :: others := by
  unfold quoteCmdArg
  by_cases hquotes : arg = [] ∨ ∃ c ∈ arg, c ∈ cmdSpecial
  · rw [if_pos hquotes, List.cons_append, List.cons_append, List.append_assoc]
    have hopen : windows false 0 none
          (doubleMark :: (quoteCmdLoop 0 arg ++ ([doubleMark] ++ rest))) =
        windows true 0 (some []) (quoteCmdLoop 0 arg ++ doubleMark :: rest) := rfl
    rw [hopen, windows_string, windows_end h]
    simp
  · rw [if_neg hquotes]
    rw [not_or] at hquotes
    obtain ⟨hsome, hplain⟩ := hquotes
    have hall : ∀ c ∈ arg, c ∉ cmdSpecial := fun c hc hspecial => hplain ⟨c, hc, hspecial⟩
    obtain ⟨c, arg, rfl⟩ := List.exists_cons_of_ne_nil hsome
    -- no word is open yet, and the first character opens it
    have hopen : windows false 0 none (c :: (arg ++ rest)) =
        windows false 0 (some []) (c :: (arg ++ rest)) := by
      have hc := hall c List.mem_cons_self
      simp only [cmdSpecial, List.mem_cons, List.not_mem_nil, or_false, not_or] at hc
      obtain ⟨hblank, htab, -, -, -⟩ := hc
      have houtside : ¬ (false = false ∧ (c = blank ∨ c = tab)) := by
        rintro ⟨-, hspace | hspace⟩
        · exact hblank hspace
        · exact htab hspace
      rw [windows, windows]
      dsimp only
      rw [if_neg houtside, if_neg houtside]
      rfl
    have hplain := windows_plain hall h 0 []
    rw [List.cons_append, hopen, ← List.cons_append, hplain]
    simp

/-- By the Windows argument rules the words of the line are the argv. -/
theorem cmd_words_are_the_argv (argv : List Bytes) :
    windows false 0 none (quoteRemoteCommand argv .Cmd) = argv := by
  unfold quoteRemoteCommand
  induction argv with
  | nil => rfl
  | cons arg argv ih =>
    cases argv with
    | nil =>
      have hword := windows_arg arg (.inl ⟨rfl, rfl⟩)
      rw [List.append_nil] at hword
      exact hword
    | cons next rest => exact windows_arg arg (.inr ⟨_, rfl, ih⟩)

/-! ## PowerShell -/

/-- A typographic quote. -/
def isCurly : Glyph → Bool
  | .curly _ => true
  | .byte _ => false

/-- PowerShell sees no quote in it but the one that is doubled. -/
def Straight (arg : Bytes) : Prop := ∀ g ∈ glyphs arg, isCurly g = false

instance (arg : Bytes) : Decidable (Straight arg) :=
  inferInstanceAs (Decidable (∀ g ∈ glyphs arg, isCurly g = false))

/-- The encoding of `quotePowerShellArg`, as PowerShell sees it. -/
def doubled (text : List Glyph) : List Glyph :=
  text.flatMap fun g => if g = .byte mark then [g, g] else [g]

/-- A byte stays itself, unless it starts a typographic quote. -/
theorem put_cases (b : UInt8) (text : List Glyph) :
    Glyph.put b text = .byte b :: text ∨
      ∃ last rest, text = .byte 0x80 :: .byte last :: rest ∧ b = 0xe2 ∧ 0x98 ≤ last ∧ last ≤ 0x9b ∧
        Glyph.put b text = .curly last :: rest := by
  unfold Glyph.put
  split
  · rename_i second last rest
    by_cases hcurly : b = 0xe2 ∧ second = 0x80 ∧ 0x98 ≤ last ∧ last ≤ 0x9b
    · obtain ⟨hb, rfl, hlow, hhigh⟩ := hcurly
      rw [if_pos ⟨hb, rfl, hlow, hhigh⟩]
      exact .inr ⟨last, rest, rfl, hb, hlow, hhigh, rfl⟩
    · rw [if_neg hcurly]
      exact .inl rfl
  · exact .inl rfl

theorem put_curly {last : UInt8} (hlow : 0x98 ≤ last) (hhigh : last ≤ 0x9b) (rest : List Glyph) :
    Glyph.put 0xe2 (.byte 0x80 :: .byte last :: rest) = .curly last :: rest :=
  if_pos ⟨rfl, rfl, hlow, hhigh⟩

theorem put_other {b : UInt8} {text : List Glyph}
    (h : ∀ last rest, text = .byte 0x80 :: .byte last :: rest → b = 0xe2 → 0x98 ≤ last →
      ¬ last ≤ 0x9b) : Glyph.put b text = .byte b :: text := by
  rcases put_cases b text with hput | ⟨last, rest, htext, hb, hlow, hhigh, -⟩
  · exact hput
  · exact absurd hhigh (h last rest htext hb hlow)

/-- A text that goes on with a plain character. -/
def Follows (text : List Glyph) : Prop := ∃ c rest, text = .byte c :: rest ∧ c < 0x80

theorem put_append (b : UInt8) (text : List Glyph) {more : List Glyph} (h : Follows more) :
    Glyph.put b (text ++ more) = Glyph.put b text ++ more := by
  obtain ⟨c, rest, rfl, hc⟩ := h
  rcases put_cases b text with hput | ⟨last, tail, rfl, rfl, hlow, hhigh, hput⟩
  · rw [hput, List.cons_append]
    apply put_other
    intro last tail htext hb hlow hhigh
    subst hb
    match text with
    | [] =>
      obtain ⟨hfirst, -⟩ := List.cons.inj htext
      injection hfirst with hfirst
      rw [hfirst] at hc
      exact absurd hc (by decide)
    | [g] =>
      obtain ⟨-, htext⟩ := List.cons.inj htext
      obtain ⟨hfirst, -⟩ := List.cons.inj htext
      injection hfirst with hfirst
      rw [hfirst] at hc
      have hbig := UInt8.lt_of_le_of_lt hlow hc
      exact absurd hbig (by decide)
    | g :: g' :: text =>
      obtain ⟨hfirst, htext⟩ := List.cons.inj htext
      obtain ⟨hsecond, -⟩ := List.cons.inj htext
      rw [hfirst, hsecond, put_curly hlow hhigh] at hput
      cases hput
  · rw [hput]
    exact put_curly hlow hhigh (tail ++ _)

theorem glyphs_append (text : Bytes) {more : Bytes} (h : Follows (glyphs more)) :
    glyphs (text ++ more) = glyphs text ++ glyphs more := by
  induction text with
  | nil => rfl
  | cons b text ih =>
    have hput := put_append b (glyphs text) h
    rw [← ih] at hput
    exact hput

theorem glyphs_plain {c : UInt8} (hc : c < 0x80) (text : Bytes) :
    glyphs (c :: text) = .byte c :: glyphs text := by
  apply put_other
  intro last rest _ hb
  rw [hb] at hc
  exact absurd hc (by decide)

theorem doubled_other {g : Glyph} (hg : g ≠ .byte mark) (text : List Glyph) :
    doubled (g :: text) = g :: doubled text := by
  unfold doubled
  rw [List.flatMap_cons, if_neg hg]
  rfl

theorem doubled_mark (text : List Glyph) :
    doubled (.byte mark :: text) = .byte mark :: .byte mark :: doubled text := rfl

/-- The first character shows after the doubling. -/
theorem doubled_first {g : Glyph} (hg : g ≠ .byte mark) {text rest : List Glyph}
    (h : doubled text = g :: rest) : ∃ text', text = g :: text' ∧ rest = doubled text' := by
  cases text with
  | nil => cases h
  | cons g' text =>
    by_cases hmark : g' = .byte mark
    · rw [hmark, doubled_mark] at h
      exact absurd (List.cons.inj h).1.symm hg
    · rw [doubled_other hmark] at h
      obtain ⟨rfl, rfl⟩ := List.cons.inj h
      exact ⟨text, rfl, rfl⟩

/-- A byte of a typographic quote is none that is doubled. -/
theorem curly_last {last : UInt8} (hlow : 0x98 ≤ last) : Glyph.byte last ≠ .byte mark := by
  intro h
  injection h with h
  rw [h] at hlow
  exact absurd hlow (by decide)

/-- Doubling the quotes makes no typographic quote and breaks none. -/
theorem glyphs_doubled (arg : Bytes) :
    glyphs (arg.flatMap fun c => if c = mark then [mark, mark] else [c]) =
      doubled (glyphs arg) := by
  have hmark : mark < 0x80 := by decide
  induction arg with
  | nil => rfl
  | cons c arg ih =>
    rw [List.flatMap_cons]
    by_cases hc : c = mark
    · rw [if_pos hc, hc, List.cons_append, List.cons_append, List.nil_append, glyphs_plain hmark,
        glyphs_plain hmark, glyphs_plain hmark, ih, doubled_mark]
    · have hself : Glyph.byte c ≠ .byte mark := fun h => hc (by injection h)
      rw [if_neg hc, List.cons_append, List.nil_append]
      change Glyph.put c (glyphs _) = doubled (Glyph.put c (glyphs arg))
      rw [ih]
      rcases put_cases c (glyphs arg) with hput | ⟨last, rest, htext, rfl, hlow, hhigh, hput⟩
      · rw [hput, doubled_other hself]
        apply put_other
        intro last rest htext hb hlow hhigh
        obtain ⟨text, htext, hrest⟩ := doubled_first (by decide) htext
        obtain ⟨text', rfl, -⟩ := doubled_first (curly_last hlow) hrest.symm
        rw [htext, hb, put_curly hlow hhigh] at hput
        cases hput
      · have hcurly : doubled (.curly last :: rest) = .curly last :: doubled rest :=
          doubled_other (by simp) rest
        rw [hput, htext, doubled_other (by decide), doubled_other (curly_last hlow), hcurly,
          put_curly hlow hhigh]

/-- Without typographic quotes a string is read as it was meant. -/
theorem powerShell_prefix {text : List Glyph} (h : ∀ g ∈ text, isCurly g = false)
    (word rest : List Glyph) :
    powerShell .single false (some word) (doubled text ++ rest) =
      powerShell .single false (some (word ++ text)) rest := by
  induction text generalizing word with
  | nil =>
    rw [List.append_nil]
    rfl
  | cons g text ih =>
    have hnext := ih (fun g' hg' => h g' (List.mem_cons_of_mem g hg')) (word ++ [g])
    rw [List.append_assoc, List.singleton_append] at hnext
    rw [← hnext]
    by_cases hmark : g = .byte mark
    · rw [hmark, doubled_mark]
      rfl
    · rw [doubled_other hmark, List.cons_append]
      have hplain : ¬ g.isMark = true := by
        cases g with
        | byte b =>
          intro hb
          exact hmark (congrArg Glyph.byte (of_decide_eq_true hb))
        | curly last => exact absurd (h _ List.mem_cons_self) nofun
      exact if_neg hplain

/-- The first of the words goes on from `word`. -/
def Starts (word : List Glyph) (words : List (List Glyph)) : Prop :=
  ∃ more others, words = (word ++ more) :: others

theorem Starts.of_grow {word : List Glyph} {g : Glyph} {words : List (List Glyph)}
    (h : Starts (word ++ [g]) words) : Starts word words := by
  obtain ⟨more, others, rfl⟩ := h
  exact ⟨g :: more, others, by simp⟩

theorem starts_close {word : List Glyph} {line : Option (List (List Glyph))}
    {words : List (List Glyph)} (h : line.map (close (some word)) = some words) :
    ∃ others, words = word :: others := by
  obtain ⟨others, -, rfl⟩ := Option.map_eq_some_iff.mp h
  exact ⟨others, rfl⟩

/-- A word that is open is the first of the words, with what it still takes. -/
theorem powerShell_starts (mode : PowerShellMode) (joined : Bool) (word text : List Glyph)
    {words : List (List Glyph)} (h : powerShell mode joined (some word) text = some words) :
    Starts word words := by
  have hclose : ∀ {line : Option (List (List Glyph))},
      line.map (close (some word)) = some words → Starts word words := by
    intro line hline
    obtain ⟨others, rfl⟩ := starts_close hline
    exact ⟨[], others, by rw [List.append_nil]⟩
  induction text generalizing mode joined word with
  | nil =>
    cases mode with
    | bare | quoted => exact @hclose (some []) h
    | single => cases h
  | cons g text ih =>
    have hgrow : ∀ {mode : PowerShellMode} {joined : Bool},
        powerShell mode joined (some (word ++ [g])) text = some words → Starts word words := by
      intro mode joined hwords
      refine (ih mode joined (word ++ [g]) hwords ?_).of_grow
      intro line hline
      obtain ⟨others, rfl⟩ := starts_close hline
      exact ⟨[], others, by rw [List.append_nil]⟩
    cases mode with
    | bare =>
      unfold powerShell at h
      split_ifs at h
      · exact hclose h
      · exact ih _ _ word h hclose
      · exact hgrow h
    | single =>
      unfold powerShell at h
      split_ifs at h
      · exact ih _ _ word h hclose
      · exact hgrow h
    | quoted =>
      unfold powerShell at h
      split_ifs at h
      · exact hgrow h
      · exact hclose h
      · exact hgrow h
      · exact hclose h

/-- How many typographic quotes come first. -/
def lead (text : List Glyph) : Nat := (text.takeWhile isCurly).length

theorem lead_curly (last : UInt8) (text : List Glyph) :
    lead (.curly last :: text) = lead text + 1 := rfl

/-- What comes behind an argument: nothing, or a blank. -/
def Apart (rest : List Glyph) : Prop := rest = [] ∨ ∃ line, rest = .byte blank :: line

/-- A quote that nothing takes with it ends its string. -/
theorem powerShell_ends {word rest : List Glyph}
    (hrest : ∀ g line, rest = g :: line → ¬ g.isMark = true)
    {words : List (List Glyph)} (h : powerShell .quoted false (some word) rest = some words) :
    ∃ others, words = word :: others := by
  cases rest with
  | nil => exact @starts_close word (some []) words h
  | cons g rest =>
    have hmark := hrest g rest rfl
    unfold powerShell at h
    simp only [if_neg hmark, Bool.false_eq_true, if_false] at h
    split_ifs at h
    · exact starts_close h
    · exact starts_close h

theorem Apart.not_mark {rest : List Glyph} (h : Apart rest) :
    ∀ g line, rest = g :: line → ¬ g.isMark = true := by
  rintro g line rfl
  rcases h with hnil | ⟨line', hblank⟩
  · cases hnil
  · obtain ⟨rfl, -⟩ := List.cons.inj hblank
    decide

/-- What a string adds to its word has fewer typographic quotes in front than the argument. -/
def Shorter (text word : List Glyph) (words : List (List Glyph)) : Prop :=
  ∃ more others, words = (word ++ more) :: others ∧ lead more ≤ lead text ∧
    (0 < lead text → lead more < lead text)

theorem Shorter.of_ends {text word : List Glyph} {words : List (List Glyph)}
    (h : ∃ others, words = word :: others) : Shorter text word words := by
  obtain ⟨others, rfl⟩ := h
  exact ⟨[], others, by rw [List.append_nil], Nat.zero_le _, id⟩

/-- The next character of the word is none. -/
theorem Shorter.of_byte {b : UInt8} {text word : List Glyph} {words : List (List Glyph)}
    (h : Starts (word ++ [.byte b]) words) : Shorter text word words := by
  obtain ⟨more, others, rfl⟩ := h
  exact ⟨.byte b :: more, others, by simp, Nat.zero_le _, id⟩

/-- Two typographic quotes stand for one, and a last one ends the string or takes the next quote
with it. The induction takes two of them at a time. -/
theorem powerShell_curly (text word rest : List Glyph) (hrest : Apart rest)
    {words : List (List Glyph)}
    (h : powerShell .single false (some word) (doubled text ++ .byte mark :: rest) = some words) :
    Shorter text word words := by
  induction hn : text.length using Nat.strongRecOn generalizing text word with
  | ind n ih =>
    match text with
    | [] => exact .of_ends (powerShell_ends hrest.not_mark h)
    | .byte b :: text =>
      by_cases hmark : b = mark
      · rw [hmark, doubled_mark] at h
        exact .of_byte (powerShell_starts .single false (word ++ [.byte mark]) _ h)
      · have hother : Glyph.byte b ≠ .byte mark := fun hb => hmark (by injection hb)
        rw [doubled_other hother, List.cons_append] at h
        have hplain : ¬ (Glyph.byte b).isMark = true := fun hb => hmark (of_decide_eq_true hb)
        unfold powerShell at h
        rw [if_neg hplain] at h
        have hstarts := powerShell_starts .single false (word ++ [Glyph.byte b]) _ h
        exact .of_byte hstarts
    | [.curly last] =>
      exact .of_byte (powerShell_starts .single false (word ++ [.byte mark]) _ h)
    | .curly last :: .byte b :: text =>
      by_cases hmark : b = mark
      · rw [hmark, doubled_other (by simp), doubled_mark] at h
        exact .of_byte (powerShell_starts .single false (word ++ [.byte mark]) _ h)
      · have hother : Glyph.byte b ≠ .byte mark := fun hb => hmark (by injection hb)
        rw [doubled_other (by simp), doubled_other hother] at h
        refine .of_ends
          (@powerShell_ends _ (.byte b :: (doubled text ++ .byte mark :: rest)) ?_ _ h)
        intro g line hline
        obtain ⟨rfl, -⟩ := List.cons.inj hline
        exact fun hb => hmark (of_decide_eq_true hb)
    | .curly first :: .curly second :: text =>
      rw [doubled_other (by simp), doubled_other (by simp)] at h
      obtain ⟨more, others, rfl, hle, -⟩ :=
        ih text.length (by simp only [← hn, List.length_cons]; omega) text
          (word ++ [.curly second]) h rfl
      refine ⟨.curly second :: more, others, by simp, ?_, fun _ => ?_⟩
      · rw [lead_curly, lead_curly, lead_curly]
        omega
      · rw [lead_curly, lead_curly, lead_curly]
        omega

/-! ## PowerShell's words -/

theorem glyphs_powerShellArg (arg : Bytes) {rest : Bytes} :
    glyphs (quotePowerShellArg arg ++ rest) =
      .byte mark :: (doubled (glyphs arg) ++ .byte mark :: glyphs rest) := by
  have hmark : mark < 0x80 := by decide
  have hclose : glyphs (mark :: rest) = .byte mark :: glyphs rest := glyphs_plain hmark rest
  unfold quotePowerShellArg
  rw [List.cons_append, List.cons_append, List.append_assoc, glyphs_plain hmark,
    List.singleton_append, glyphs_append _ ⟨mark, glyphs rest, hclose, hmark⟩,
      glyphs_doubled, hclose]

/-- A text up to its first typographic quote. -/
theorem split_curly {text : List Glyph} (h : ¬ ∀ g ∈ text, isCurly g = false) :
    ∃ straight curly, text = straight ++ curly ∧ (∀ g ∈ straight, isCurly g = false) ∧
      0 < lead curly := by
  induction text with
  | nil => exact absurd (fun g hg => nomatch hg) h
  | cons g text ih =>
    cases g with
    | curly last => exact ⟨[], .curly last :: text, rfl, nofun, Nat.succ_pos _⟩
    | byte b =>
      obtain ⟨straight, curly, rfl, hstraight, hcurly⟩ := ih fun hall =>
        h (List.forall_mem_cons.mpr ⟨rfl, hall⟩)
      exact ⟨.byte b :: straight, curly, rfl, List.forall_mem_cons.mpr ⟨rfl, hstraight⟩, hcurly⟩

theorem doubled_append (a b : List Glyph) : doubled (a ++ b) = doubled a ++ doubled b :=
  List.flatMap_append

theorem powerShell_arg (arg : Bytes) {rest : List Glyph} (hrest : Apart rest) :
    (Straight arg ∧
      powerShell .bare false none (.byte mark :: (doubled (glyphs arg) ++ .byte mark :: rest)) =
        powerShell .quoted false (some (glyphs arg)) rest) ∨
    (¬ Straight arg ∧ ∀ others,
      powerShell .bare false none (.byte mark :: (doubled (glyphs arg) ++ .byte mark :: rest)) ≠
        some (glyphs arg :: others)) := by
  have hopen : powerShell .bare false none
        (.byte mark :: (doubled (glyphs arg) ++ .byte mark :: rest)) =
      powerShell .single false (some []) (doubled (glyphs arg) ++ .byte mark :: rest) := rfl
  rw [hopen]
  by_cases hstraight : Straight arg
  · left
    have hstring := powerShell_prefix hstraight [] (.byte mark :: rest)
    rw [List.nil_append] at hstring
    exact ⟨hstraight, hstring.trans rfl⟩
  · right
    refine ⟨hstraight, fun others hwords => ?_⟩
    -- the string is cut at its first typographic quotes, whose number gives it away
    obtain ⟨straight, curly, hsplit, hplain, hcurly⟩ := split_curly hstraight
    rw [hsplit, doubled_append, List.append_assoc] at hwords
    have hplainly := powerShell_prefix hplain [] (doubled curly ++ .byte mark :: rest)
    rw [List.nil_append] at hplainly
    rw [hplainly] at hwords
    obtain ⟨more, others', hmore, -, hless⟩ := powerShell_curly curly straight rest hrest hwords
    obtain ⟨hword, -⟩ := List.cons.inj hmore
    have hsame := List.append_cancel_left hword
    have hshort := hless hcurly
    rw [hsame] at hshort
    exact Nat.lt_irrefl _ hshort

/-- PowerShell reads back the argv if and only if no argument has a typographic quote. -/
theorem powerShell_words (argv : List Bytes) :
    powerShell .bare false none (glyphs (quoteRemoteCommand argv .PowerShell)) =
        some (argv.map glyphs) ↔ ∀ arg ∈ argv, Straight arg := by
  unfold quoteRemoteCommand
  induction argv with
  | nil => exact iff_of_true rfl nofun
  | cons arg argv ih =>
    rw [List.forall_mem_cons, List.map_cons]
    cases argv with
    | nil =>
      have hline : glyphs (joinWith (quoteArg .PowerShell) [arg]) =
          .byte mark :: (doubled (glyphs arg) ++ .byte mark :: []) := by
        have htext := @glyphs_powerShellArg arg []
        rw [List.append_nil] at htext
        exact htext
      rw [hline]
      rcases powerShell_arg arg (.inl rfl) with ⟨hstraight, hwords⟩ | ⟨hcurly, hwords⟩
      · rw [hwords]
        exact iff_of_true rfl ⟨hstraight, nofun⟩
      · exact iff_of_false (hwords _) fun hall => hcurly hall.1
    | cons next rest =>
      have hblank : glyphs (blank :: joinWith (quoteArg .PowerShell) (next :: rest)) =
          .byte blank :: glyphs (joinWith (quoteArg .PowerShell) (next :: rest)) :=
        glyphs_plain (by decide) _
      have hline : glyphs (joinWith (quoteArg .PowerShell) (arg :: next :: rest)) =
          .byte mark :: (doubled (glyphs arg) ++ .byte mark ::
            .byte blank :: glyphs (joinWith (quoteArg .PowerShell) (next :: rest))) := by
        rw [← hblank]
        exact glyphs_powerShellArg arg
      rw [hline]
      rcases powerShell_arg arg (.inr ⟨_, rfl⟩) with ⟨hstraight, hwords⟩ | ⟨hcurly, hwords⟩
      · have hnext : powerShell .quoted false (some (glyphs arg))
              (.byte blank :: glyphs (joinWith (quoteArg .PowerShell) (next :: rest))) =
            (powerShell .bare false none
              (glyphs (joinWith (quoteArg .PowerShell) (next :: rest)))).map
                (close (some (glyphs arg))) := rfl
        rw [hwords, hnext, ← ih]
        constructor
        · intro hall
          obtain ⟨others, hothers, hclose⟩ := Option.map_eq_some_iff.mp hall
          refine ⟨hstraight, ?_⟩
          rw [hothers]
          exact congrArg some (List.cons.inj hclose).2
        · rintro ⟨-, hrest⟩
          rw [hrest]
          rfl
      · exact iff_of_false (hwords _) fun hall => hcurly hall.1

/-! ## The line that ssh sends -/

/-- The shell on the target reads the words of the argv, and the two builders agree. -/
structure Verbatim (argv : List Bytes) : Prop where
  posix : ShellWords.posix .bare none (quoteRemoteCommand argv .Posix) = some argv
  powerShell : ShellWords.powerShell .bare false none
    (glyphs (quoteRemoteCommand argv .PowerShell)) = some (argv.map glyphs)
  same : buildRemoteCommand argv = quoteRemoteCommand argv .Posix

/-- Only PowerShell may read other words, and only because of a typographic quote. -/
theorem a_typographic_quote_breaks_out (argv : List Bytes) :
    Verbatim argv ↔ ∀ arg ∈ argv, Straight arg := by
  rw [← powerShell_words]
  exact ⟨fun h => h.powerShell, fun h => ⟨posix_words argv, h, buildRemoteCommand_eq argv⟩⟩

/-- An argument `a’b` leaves a string that does not end. -/
theorem a_string_stays_open : ¬ ∀ argv : List Bytes, (∀ arg ∈ argv, 0 ∉ arg) → Verbatim argv := by
  intro h
  have hwords := (h [[97, 0xe2, 0x80, 0x99, 98]] (by decide)).powerShell
  exact absurd hwords (by decide)

end psx.ssh
