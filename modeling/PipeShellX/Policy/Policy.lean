-- The command policy of an operator (policy.cpp): a file of directives, a line each, and the check
-- of a command against it. The law: a policy means what its lines say, and a file with a line that
-- says nothing is refused at the first of them.
import PipeShellX.Cli.CanaryCount
import PipeShellX.Scan
import PipeShellX.Trace

namespace psx.policy

open Text (ascii)
open Scan (strip)
open Decimal (isDigit natural)
open psx.cli (fromChars)

def newline : UInt8 := 10

def slash : UInt8 := 47

/-- What `trim` takes away. -/
def isSpace (b : UInt8) : Bool := b = 32 || b = 9 || b = 13 || b = 10

/-- What stands between a directive and its value. -/
def isBlank (b : UInt8) : Bool := b = 32 || b = 9

def isComment (b : UInt8) : Bool := b = 35 || b = 59

def trim (s : Bytes) : Bytes := strip isSpace s

/-- What a shell gives a meaning to. -/
def isMeta (b : UInt8) : Bool := b ∈ ascii ";|&$`<>\\"

/-- A shell would read something into the text. -/
def hasShellMetacharacter (value : Bytes) : Bool := value.any isMeta

/-- What a node lets a controller run. -/
structure Policy where
  allowed : List Bytes := []
  maxArgs : Option UInt64 := none
  allowShellMetacharacters : Bool := false
  deriving DecidableEq

/-! ## Reading -/

/-- The reader stops at a line. -/
def fail {α : Type} (lineNumber : Nat) (message : Bytes) : Except Bytes α :=
  .error (ascii "policy: line " ++ natural lineNumber ++ ascii ": " ++ message)

/-- The directive of a line, and its argument. -/
def parts (line : Bytes) : Bytes × Bytes :=
  (line.takeWhile fun b => !isBlank b, trim (line.dropWhile fun b => !isBlank b))

/-- One turn of the loop of `parse`. -/
def Policy.line (policy : Policy) (lineNumber : Nat) (raw : Bytes) : Except Bytes Policy :=
  let line := trim raw
  if line = [] ∨ line.head?.any isComment then return policy
  else
    let (directive, argument) := parts line
    if directive = ascii "allow" then
      if argument = [] then fail lineNumber (ascii "allow needs a command name")
      else return { policy with allowed := policy.allowed.insert argument }
    else if directive = ascii "max-args" then
      match fromChars argument with
      | some (value, []) => return { policy with maxArgs := some value }
      | _ => fail lineNumber (ascii "max-args needs a non-negative integer")
    else if directive = ascii "allow-shell-metacharacters" then
      return { policy with allowShellMetacharacters := true }
    else fail lineNumber (ascii "unknown directive '" ++ directive ++ ascii "'")

/-- The lines are read one after the other, and the first bad one stops the reader. -/
def Policy.lines (policy : Policy) (lineNumber : Nat) : List Bytes → Except Bytes Policy
  | [] => return policy
  | raw :: raws => do
    let policy ← policy.line lineNumber raw
    policy.lines (lineNumber + 1) raws

/-- The text of a policy is read. -/
def parse (text : Bytes) : Except Bytes Policy := ({} : Policy).lines 1 (text.splitOn newline)

/-! ## The check -/

/-- The reason of a refusal, or `none`. -/
def Policy.validate (policy : Policy) (argv : List Bytes) : Option Bytes :=
  match argv with
  | [] => some (ascii "empty command")
  | command :: _ =>
    if policy.allowed ≠ [] ∧ slash ∈ command then
      some (ascii "explicit paths are not allowed by the policy: '" ++ command ++ ascii "'")
    else if policy.allowed ≠ [] ∧ command ∉ policy.allowed then
      some (ascii "command '" ++ command ++ ascii "' is not allowed by the policy")
    else if policy.maxArgs.any (·.toNat < argv.length) then
      some (ascii "too many arguments (" ++ natural argv.length ++ ascii " > " ++
        natural (policy.maxArgs.getD 0).toNat ++ ascii ")")
    else if policy.allowShellMetacharacters then none
    else
      (argv.find? hasShellMetacharacter).map fun token =>
        ascii "argument contains an unsafe shell metacharacter: '" ++ token ++ ascii "'"

/-! ## What a line says -/

/-- What a line of a policy can say. -/
inductive Directive
  | nothing
  | allow (name : Bytes)
  | maxArgs (count : UInt64)
  | allowShellMetacharacters
  deriving DecidableEq

/-- A directive with its argument: blanks stand around them, and there is one right behind the
directive when there is an argument. -/
structure Line (raw directive argument : Bytes) : Prop where
  split : ∃ before gap after, raw = before ++ directive ++ gap ++ argument ++ after ∧
    (∀ b ∈ before, isSpace b = true) ∧ (∀ b ∈ gap, isSpace b = true) ∧
    (∀ b ∈ after, isSpace b = true) ∧
    (argument ≠ [] → gap.head?.any isBlank = true)
  first : ∀ b ∈ argument.head?, isSpace b = false
  last : ∀ b ∈ argument.getLast?, isSpace b = false

/-- What a line says, as the format has it. -/
inductive Says (raw : Bytes) : Directive → Prop
  | blank (h : ∀ b ∈ raw, isSpace b = true) : Says raw .nothing
  | comment {before rest : Bytes} {mark : UInt8} (h : raw = before ++ mark :: rest)
      (hbefore : ∀ b ∈ before, isSpace b = true) (hmark : isComment mark = true) : Says raw .nothing
  | allow {name : Bytes} (h : Line raw (ascii "allow") name) (hname : name ≠ []) :
      Says raw (.allow name)
  | maxArgs {digits : Bytes} (h : Line raw (ascii "max-args") digits) (hne : digits ≠ [])
      (hdigits : ∀ b ∈ digits, isDigit b = true) (hfits : Decimal.value digits < 2 ^ 64) :
      Says raw (.maxArgs (.ofNat (Decimal.value digits)))
  | allowShellMetacharacters {argument : Bytes}
      (h : Line raw (ascii "allow-shell-metacharacters") argument) :
      Says raw .allowShellMetacharacters

/-- The last limit that is given. -/
def Limit (count : UInt64) (said : List Directive) : Prop :=
  Trace.Since (· = .maxArgs count) (fun directive => ∃ n, directive = .maxArgs n) said

/-- What the lines of a policy let pass. -/
structure Permits (said : List Directive) (argv : List Bytes) : Prop where
  command : argv ≠ []
  named : (∃ name, .allow name ∈ said) → ∀ command ∈ argv.head?,
    .allow command ∈ said ∧ slash ∉ command
  few : ∀ count, Limit count said → argv.length ≤ count.toNat
  plain : .allowShellMetacharacters ∈ said ∨ ∀ token ∈ argv, ∀ b ∈ token, isMeta b = false

/-! ## The parts of a line -/

theorem blank_space {b : UInt8} (h : isBlank b = true) : isSpace b = true := by
  simp only [isBlank, isSpace, Bool.or_eq_true, decide_eq_true_eq] at h ⊢
  rcases h with rfl | rfl <;> simp

theorem unblank {directive : Bytes} (hplain : ∀ b ∈ directive, isSpace b = false) :
    ∀ b ∈ directive, isBlank b = false := by
  intro b hb
  by_contra hblank
  rw [Bool.not_eq_false] at hblank
  have hspace := blank_space hblank
  simp [hplain b hb] at hspace

/-- A directive is no blank at its ends, alone or with an argument. -/
theorem trim_line {raw directive argument : Bytes} (h : Line raw directive argument)
    (hne : directive ≠ []) (hplain : ∀ b ∈ directive, isSpace b = false) :
    ∃ gap, trim raw = directive ++ (gap ++ argument) ∧ (∀ b ∈ gap, isSpace b = true) ∧
      (gap ++ argument = [] ∨ (gap ++ argument).head?.any isBlank = true) := by
  obtain ⟨before, gap, after, rfl, hbefore, hgap, hafter, hblank⟩ := h.split
  obtain ⟨d, ds, rfl⟩ := List.exists_cons_of_ne_nil hne
  by_cases hargument : argument = []
  · refine ⟨[], ?_, by simp, .inl (by simp [hargument])⟩
    have hstrip :=
      Scan.strip_of (p := isSpace) (l := before) (m := d :: ds) (r := gap ++ after) hbefore
      ?_ ?_ ?_
    · simpa [trim, hargument] using hstrip
    · intro b hb
      rcases List.mem_append.mp hb with hb | hb
      · exact hgap b hb
      · exact hafter b hb
    · intro b hb
      exact hplain b (List.mem_of_mem_head? hb)
    · intro b hb
      exact hplain b (List.mem_of_mem_getLast? hb)
  · refine ⟨gap, ?_, hgap, .inr ?_⟩
    · have hstrip := Scan.strip_of (p := isSpace) (l := before) (m := d :: ds ++ (gap ++ argument))
        (r := after) hbefore hafter ?_ ?_
      · simpa [trim] using hstrip
      · intro b hb
        apply hplain b
        simp_all
      · intro b hb
        apply h.last b
        rw [← List.append_assoc, List.getLast?_append_of_ne_nil _ hargument] at hb
        exact hb
    · have hsome := hblank hargument
      cases gap with
      | nil => simp at hsome
      | cons g gap => simpa using hsome

theorem parts_line {raw directive argument : Bytes} (h : Line raw directive argument)
    (hne : directive ≠ []) (hplain : ∀ b ∈ directive, isSpace b = false) :
    parts (trim raw) = (directive, argument) := by
  obtain ⟨gap, htrim, hgap, hblank⟩ := trim_line h hne hplain
  have hunblank : ∀ b ∈ directive, (!isBlank b) = true := by
    simpa using unblank hplain
  have hstop : (gap ++ argument).takeWhile (fun b => !isBlank b) = [] ∧
      (gap ++ argument).dropWhile (fun b => !isBlank b) = gap ++ argument := by
    rcases hblank with hnone | hsome
    · simp [hnone]
    · cases hboth : gap ++ argument with
      | nil => simp
      | cons b rest =>
        rw [hboth] at hsome
        have hb : isBlank b = true := by simpa using hsome
        simp [hb]
  unfold parts
  rw [htrim, List.takeWhile_append_of_pos hunblank, List.dropWhile_append_of_pos hunblank, hstop.1,
    hstop.2]
  have hstrip :=
    Scan.strip_of (p := isSpace) (l := gap) (m := argument) (r := []) hgap (by simp) h.first
    h.last
  simpa [trim] using hstrip

/-- And every line is one of a directive. -/
theorem line_parts (raw : Bytes) : Line raw (parts (trim raw)).1 (parts (trim raw)).2 := by
  obtain ⟨before, after, hraw, hbefore, hafter⟩ := Scan.strip_cut isSpace raw
  set rest := (trim raw).dropWhile fun b => !isBlank b with hdrop
  obtain ⟨gap, behind, hrest, hgap, hbehind⟩ := Scan.strip_cut isSpace rest
  have hblank : ∀ b ∈ rest.head?, isBlank b = true := by
    intro b hb
    have hnot := List.head?_dropWhile_not (fun b => !isBlank b) (trim raw)
    rw [← hdrop, hb] at hnot
    simpa using hnot
  refine ⟨⟨before, gap, behind ++ after, ?_, hbefore, hgap, ?_, ?_⟩, Scan.strip_first,
    Scan.strip_last⟩
  · have hcut : trim raw = (trim raw).takeWhile (fun b => !isBlank b) ++ rest :=
      List.takeWhile_append_dropWhile.symm
    calc raw = before ++ trim raw ++ after := hraw
      _ = before ++ ((trim raw).takeWhile (fun b => !isBlank b) ++ rest) ++ after :=
        congrArg (fun t => before ++ t ++ after) hcut
      _ = before ++ ((trim raw).takeWhile (fun b => !isBlank b) ++
        (gap ++ strip isSpace rest ++ behind)) ++
            after :=
              congrArg (fun r =>
                before ++ ((trim raw).takeWhile (fun b => !isBlank b) ++ r) ++ after)
              hrest
      _ = _ := by simp [parts, trim, rest]
  · intro b hb
    rcases List.mem_append.mp hb with hb | hb
    · exact hbehind b hb
    · exact hafter b hb
  · intro hargument
    obtain ⟨a, argument, harg⟩ := List.exists_cons_of_ne_nil hargument
    have hstrip : strip isSpace rest = a :: argument := harg
    rw [hstrip] at hrest
    cases gap with
    | nil =>
      -- an argument does not begin with a blank
      have hspace := blank_space (hblank a (by simp [hrest]))
      have hnot : isSpace a = false := Scan.strip_first (s := rest) a (by simp [hstrip])
      simp [hnot] at hspace
    | cons g gap => simpa using hblank g (by simp [hrest])

/-! ## What a line is read as -/

/-- The directive that a line is read as. -/
def said (raw : Bytes) : Option Directive :=
  let line := trim raw
  if line = [] ∨ line.head?.any isComment then some .nothing
  else if (parts line).1 = ascii "allow" then
    if (parts line).2 = [] then none else some (.allow (parts line).2)
  else if (parts line).1 = ascii "max-args" then
    match fromChars (parts line).2 with
    | some (value, []) => some (.maxArgs value)
    | _ => none
  else if (parts line).1 = ascii "allow-shell-metacharacters" then some .allowShellMetacharacters
  else none

/-- A policy with one more directive. -/
def Policy.obey (policy : Policy) : Directive → Policy
  | .nothing => policy
  | .allow name => { policy with allowed := policy.allowed.insert name }
  | .maxArgs count => { policy with maxArgs := some count }
  | .allowShellMetacharacters => { policy with allowShellMetacharacters := true }

theorem line_said (policy : Policy) (lineNumber : Nat) (raw : Bytes) :
    match said raw with
    | some directive => policy.line lineNumber raw = .ok (policy.obey directive)
    | none => ∃ message, policy.line lineNumber raw = fail lineNumber message := by
  unfold said Policy.line
  dsimp only
  split_ifs
  · rfl
  · exact ⟨_, rfl⟩
  · rfl
  · cases fromChars (parts (trim raw)).2 with
    | none => exact ⟨_, rfl⟩
    | some read =>
      obtain ⟨value, rest⟩ := read
      cases rest with
      | nil => rfl
      | cons b rest => exact ⟨_, rfl⟩
  · rfl
  · exact ⟨_, rfl⟩

theorem fromChars_some {s : Bytes} {value : UInt64} :
    fromChars s = some (value, []) ↔ s ≠ [] ∧ (∀ b ∈ s, isDigit b = true) ∧
      Decimal.value s < 2 ^ 64 ∧ value = .ofNat (Decimal.value s) := by
  constructor
  · intro h
    unfold fromChars at h
    dsimp only at h
    split_ifs at h with hnone
    simp only [Option.some.injEq, Prod.mk.injEq, List.dropWhile_eq_nil_iff] at h
    have hself : s.takeWhile isDigit = s := List.takeWhile_eq_self_iff.mpr h.2
    rw [hself] at hnone h
    rw [not_or, Nat.not_le] at hnone
    exact ⟨hnone.1, h.2, hnone.2, h.1.symm⟩
  · rintro ⟨hne, hdigits, hfits, rfl⟩
    exact psx.cli.fromChars_digits hdigits hne hfits

/-- A directive is no comment. -/
theorem directive_read {raw directive argument : Bytes} (h : Line raw directive argument)
    (hne : directive ≠ []) (hplain : ∀ b ∈ directive, isSpace b = false)
    (hhead : directive.head?.any isComment = false) :
    ¬ (trim raw = [] ∨ (trim raw).head?.any isComment = true) := by
  obtain ⟨gap, htrim, -⟩ := trim_line h hne hplain
  obtain ⟨d, ds, rfl⟩ := List.exists_cons_of_ne_nil hne
  simpa [htrim] using hhead

theorem said_iff {raw : Bytes} {directive : Directive} :
    said raw = some directive ↔ Says raw directive := by
  constructor
  · intro h
    have hline := line_parts raw
    unfold said at h
    dsimp only at h
    split_ifs at h with hquiet hallow hname hmax hshell
    · simp only [Option.some.injEq] at h
      subst h
      rcases hquiet with hnone | hcomment
      · exact .blank (Scan.strip_eq_nil.mp hnone)
      · obtain ⟨before, after, hraw, hbefore, -⟩ := Scan.strip_cut isSpace raw
        cases htrim : trim raw with
        | nil => simp [htrim] at hcomment
        | cons mark rest =>
          rw [show strip isSpace raw = mark :: rest from htrim] at hraw
          have hmark : raw = before ++ mark :: (rest ++ after) := by simp [hraw]
          exact .comment hmark hbefore (by simpa [htrim] using hcomment)
    · simp only [Option.some.injEq] at h
      subst h
      rw [hallow] at hline
      exact .allow hline hname
    · rw [hmax] at hline
      split at h
      · rename_i value hread
        simp only [Option.some.injEq] at h
        subst h
        obtain ⟨hne, hdigits, hfits, rfl⟩ := fromChars_some.mp hread
        exact .maxArgs hline hne hdigits hfits
      · cases h
    · simp only [Option.some.injEq] at h
      subst h
      rw [hshell] at hline
      exact .allowShellMetacharacters hline
  · intro h
    unfold said
    dsimp only
    cases h with
    | blank hblank =>
      have hnone : trim raw = [] := Scan.strip_eq_nil.mpr hblank
      rw [if_pos (.inl hnone)]
    | @comment before rest mark hraw hbefore hmark =>
      have hspace : isSpace mark = false := by
        simp only [isComment, Bool.or_eq_true, decide_eq_true_eq] at hmark
        rcases hmark with rfl | rfl <;> decide
      have hhead : (trim raw).head?.any isComment = true := by
        unfold trim strip
        rw [hraw, List.dropWhile_append_of_pos hbefore,
          List.dropWhile_cons_of_neg (Bool.eq_false_iff.mp hspace)]
        have hkept := Scan.rdropWhile_append hspace [] rest
        simp only [List.nil_append] at hkept
        simp [hkept, hmark]
      rw [if_pos (.inr hhead)]
    | allow hline hname =>
      rw [if_neg (directive_read hline (by decide) (by decide) (by decide)),
        parts_line hline (by decide) (by decide)]
      simp [hname]
    | maxArgs hline hne hdigits hfits =>
      rw [if_neg (directive_read hline (by decide) (by decide) (by decide)),
        parts_line hline (by decide) (by decide), fromChars_some.mpr ⟨hne, hdigits, hfits, rfl⟩]
      have hother : ¬ ascii "max-args" = ascii "allow" := by decide
      simp [hother]
    | allowShellMetacharacters hline =>
      rw [if_neg (directive_read hline (by decide) (by decide) (by decide)),
        parts_line hline (by decide) (by decide)]
      have hallow : ¬ ascii "allow-shell-metacharacters" = ascii "allow" := by decide
      have hmax : ¬ ascii "allow-shell-metacharacters" = ascii "max-args" := by decide
      simp [hallow, hmax]

/-! ## What a file is read as -/

/-- The directives of the lines, one after the other; or the first line that is none. -/
theorem lines_spec (policy : Policy) (lineNumber : Nat) (raws : List Bytes) :
    match policy.lines lineNumber raws with
    | .ok policy' => ∃ directives, List.Forall₂ Says raws directives ∧
        policy' = directives.foldl Policy.obey policy
    | .error message => ∃ front bad back, raws = front ++ bad :: back ∧
        (∀ raw ∈ front, ∃ directive, Says raw directive) ∧ (∀ directive, ¬ Says bad directive) ∧
        ascii "policy: line " ++ natural (lineNumber + front.length) ++ ascii ": " <+: message := by
  induction raws generalizing policy lineNumber with
  | nil => exact ⟨[], .nil, rfl⟩
  | cons raw raws ih =>
    have hline := line_said policy lineNumber raw
    rw [Policy.lines]
    cases hsaid : said raw with
    | none =>
      rw [hsaid] at hline
      obtain ⟨message, hline⟩ := hline
      rw [hline]
      refine ⟨[], raw, raws, rfl, by simp, fun directive hsays => ?_, ?_⟩
      · rw [said_iff.mpr hsays] at hsaid
        cases hsaid
      · exact List.prefix_append _ _
    | some directive =>
      rw [hsaid] at hline
      dsimp only at hline
      rw [hline]
      have hrest := ih (policy.obey directive) (lineNumber + 1)
      dsimp only [bind, Except.bind]
      cases hlines : (policy.obey directive).lines (lineNumber + 1) raws with
      | ok policy' =>
        rw [hlines] at hrest
        obtain ⟨directives, hall, rfl⟩ := hrest
        exact ⟨directive :: directives, .cons (said_iff.mp hsaid) hall, rfl⟩
      | error message =>
        rw [hlines] at hrest
        obtain ⟨front, bad, back, rfl, hfront, hbad, hmessage⟩ := hrest
        refine ⟨raw :: front, bad, back, rfl, ?_, hbad, ?_⟩
        · intro other hother
          rcases List.mem_cons.mp hother with rfl | hother
          · exact ⟨directive, said_iff.mp hsaid⟩
          · exact hfront other hother
        · rw [List.length_cons, Nat.add_comm front.length, ← Nat.add_assoc]
          exact hmessage

/-- What the directives of a file come to. -/
theorem obey_spec (directives : List Directive) :
    (∀ name, name ∈ (directives.foldl Policy.obey {}).allowed ↔ .allow name ∈ directives) ∧
    (∀ count, (directives.foldl Policy.obey {}).maxArgs = some count ↔ Limit count directives) ∧
    ((directives.foldl Policy.obey {}).allowShellMetacharacters = true ↔
      .allowShellMetacharacters ∈ directives) := by
  induction directives using List.reverseRecOn with
  | nil => simp [Limit, Trace.Since]
  | append_singleton directives last ih =>
    rw [List.foldl_append, List.foldl_cons, List.foldl_nil]
    generalize directives.foldl Policy.obey {} = policy at ih
    obtain ⟨hnames, hcount, hshell⟩ := ih
    refine ⟨fun name => ?_, fun count => ?_, ?_⟩
    · cases last <;> simp [Policy.obey, hnames, or_comm, eq_comm]
    · by_cases hlast : last = .maxArgs count
      · simp only [hlast, Policy.obey, true_iff]
        apply Trace.Since.start
        rfl
      · have hsnoc :=
          @Trace.since_snoc _ (· = .maxArgs count) (fun d => ∃ n, d = .maxArgs n) directives last
          hlast
        unfold Limit
        rw [hsnoc, ← Limit, ← hcount]
        cases last with
        | maxArgs n =>
          have hne : n ≠ count := by
            rintro rfl
            exact hlast rfl
          simp [Policy.obey, hne]
        | _ => simp [Policy.obey]
    · cases last <;> simp [Policy.obey, hshell]

/-- The reasons of a refusal, each with what is wrong. -/
theorem validate_none (policy : Policy) (argv : List Bytes) : policy.validate argv = none ↔
    argv ≠ [] ∧ (policy.allowed ≠ [] → ∀ command ∈ argv.head?, command ∈ policy.allowed ∧
      slash ∉ command) ∧
      (∀ count, policy.maxArgs = some count → argv.length ≤ count.toNat) ∧
      (policy.allowShellMetacharacters = true ∨ ∀ token ∈ argv, ∀ b ∈ token, isMeta b = false) := by
  cases argv with
  | nil => simp [Policy.validate]
  | cons command args =>
    have hmeta : (command :: args).find? hasShellMetacharacter = none ↔
        ∀ token ∈ command :: args, ∀ b ∈ token, isMeta b = false := by
      simp [hasShellMetacharacter]
    have hcount : policy.maxArgs.any (fun count => count.toNat < (command :: args).length) = false ↔
        ∀ count, policy.maxArgs = some count → (command :: args).length ≤ count.toNat := by
      cases policy.maxArgs <;> simp
    rw [← hmeta, ← hcount, Policy.validate]
    split_ifs <;> simp_all

/-- The policy that directives make lets pass what they let pass. -/
theorem obeyed_permits (directives : List Directive) (argv : List Bytes) :
    (directives.foldl Policy.obey {}).validate argv = none ↔ Permits directives argv := by
  obtain ⟨hnames, hcount, hshell⟩ := obey_spec directives
  have hsome : (directives.foldl Policy.obey {}).allowed ≠ [] ↔
      ∃ name, .allow name ∈ directives := by
    rw [Ne, List.eq_nil_iff_forall_not_mem, not_forall_not]
    simp [hnames]
  rw [validate_none, hsome, hshell]
  constructor
  · rintro ⟨hne, hnamed, hfew, hplain⟩
    refine ⟨hne, fun hallow command hcommand => ?_, fun count hlimit => ?_, hplain⟩
    · have hin := hnamed hallow command hcommand
      exact ⟨(hnames command).mp hin.1, hin.2⟩
    · exact hfew count ((hcount count).mpr hlimit)
  · rintro ⟨hne, hnamed, hfew, hplain⟩
    refine ⟨hne, fun hallow command hcommand => ?_, fun count hlimit => ?_, hplain⟩
    · have hin := hnamed hallow command hcommand
      exact ⟨(hnames command).mpr hin.1, hin.2⟩
    · exact hfew count ((hcount count).mp hlimit)

/-- A file that is accepted makes the policy of what its lines say. -/
theorem parse_ok {text : Bytes} {policy : Policy} (h : parse text = .ok policy) :
    ∃ said, List.Forall₂ Says (text.splitOn newline) said ∧ policy = said.foldl Policy.obey {} := by
  have hlines := lines_spec {} 1 (text.splitOn newline)
  rw [show ({} : Policy).lines 1 (text.splitOn newline) = .ok policy from h] at hlines
  exact hlines

/-- A file is accepted when each of its lines says something, and then the policy lets pass what the
lines let pass. Otherwise the error names the first line that says nothing. -/
theorem a_policy_means_what_it_says (text : Bytes) :
    match parse text with
    | .ok policy => ∃ said, List.Forall₂ Says (text.splitOn newline) said ∧
        ∀ argv, policy.validate argv = none ↔ Permits said argv
    | .error message => ∃ front bad back, text.splitOn newline = front ++ bad :: back ∧
        (∀ raw ∈ front, ∃ directive, Says raw directive) ∧ (∀ directive, ¬ Says bad directive) ∧
        ascii "policy: line " ++ natural (1 + front.length) ++ ascii ": " <+: message := by
  cases hparse : parse text with
  | error message =>
    have hlines := lines_spec {} 1 (text.splitOn newline)
    rw [show ({} : Policy).lines 1 (text.splitOn newline) = .error message from hparse] at hlines
    exact hlines
  | ok policy =>
    obtain ⟨directives, hall, rfl⟩ := parse_ok hparse
    exact ⟨directives, hall, obeyed_permits directives⟩

end psx.policy
