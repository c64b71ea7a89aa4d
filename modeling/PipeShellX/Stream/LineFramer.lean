-- Whole lines out of an arbitrarily-chunked stream of bytes (line_framer.cpp). The chunks do not
-- matter, nothing is lost but the CR of a CR LF, and a line is as long as its bound allows, unless
-- a flush finds a CR held back behind a full line.
import PipeShellX.Result
import Mathlib.Data.List.Induction
import Mathlib.Tactic.SplitIfs

namespace psx.stream

/-- What the sink is called with. -/
structure Line where
  bytes : Bytes
  /-- The line was force-cut, it did not end at a newline. -/
  truncated : Bool
  deriving DecidableEq, Repr

/-- The end of a stream that is not a line yet. -/
structure LineFramer where
  /-- The bytes of the line that is not terminated. -/
  pending : Bytes := []
  maxLineLength : Nat
  /-- A trailing CR is held back: the next byte tells whether it is part of a terminator. -/
  pendingCr : Bool := false
  deriving DecidableEq, Repr

namespace LineFramer

def lf : UInt8 := 10

def cr : UInt8 := 13

/-- How long a line gets before it is cut. -/
def kDefaultMaxLineLength : Nat := 1024 * 1024

/-- A framer at the start of a stream. -/
def create (maxLineLength : Nat) : LineFramer where
  maxLineLength := if maxLineLength = 0 then kDefaultMaxLineLength else maxLineLength

/-- One byte that does not end the line. A line that has the full length is cut first. -/
def pushData (f : LineFramer) (byte : UInt8) : LineFramer × List Line :=
  if f.pending.length = f.maxLineLength then
    ({ f with pending := [byte] }, [⟨f.pending, true⟩])
  else ({ f with pending := f.pending ++ [byte] }, [])

/-- The line is over. -/
def endLine (f : LineFramer) : LineFramer × List Line :=
  ({ f with pending := [] }, [⟨f.pending, false⟩])

/-- The byte when no CR is held. -/
def pushPlain (f : LineFramer) (c : UInt8) : LineFramer × List Line :=
  if c = lf then f.endLine
  else if c = cr then ({ f with pendingCr := true }, [])
  else f.pushData c

/-- One turn of the loop of `push`. -/
def pushByte (f : LineFramer) (c : UInt8) : LineFramer × List Line :=
  if f.pendingCr then
    let f := { f with pendingCr := false }
    if c = lf then f.endLine
    else
      -- it was a bare CR and belongs in the line
      let (f, lines) := f.pushData cr
      let (f, more) := f.pushPlain c
      (f, lines ++ more)
  else f.pushPlain c

/-- More bytes of the stream, with the lines that they end. -/
def push (f : LineFramer) : Bytes → LineFramer × List Line
  | [] => (f, [])
  | c :: rest =>
    let (f, lines) := f.pushByte c
    let (f, more) := f.push rest
    (f, lines ++ more)

/-- The line that a flush emits. It returns whether there is one. -/
def flush (f : LineFramer) : LineFramer × Option Line :=
  let pending := if f.pendingCr then f.pending ++ [cr] else f.pending
  let f := { f with pendingCr := false, pending := [] }
  (f, if pending = [] then none else some ⟨pending, false⟩)

/-! ## Chunks -/

/-- A series of chunks. -/
def pushes (f : LineFramer) : List Bytes → LineFramer × List Line
  | [] => (f, [])
  | chunk :: chunks =>
    let (f, lines) := f.push chunk
    let (f, more) := f.pushes chunks
    (f, lines ++ more)

theorem push_cons (f : LineFramer) (c : UInt8) (rest : Bytes) :
    f.push (c :: rest) =
      (((f.pushByte c).1.push rest).1, (f.pushByte c).2 ++ ((f.pushByte c).1.push rest).2) := rfl

theorem pushes_cons (f : LineFramer) (chunk : Bytes) (chunks : List Bytes) :
    f.pushes (chunk :: chunks) =
      (((f.push chunk).1.pushes chunks).1,
        (f.push chunk).2 ++ ((f.push chunk).1.pushes chunks).2) := rfl

theorem push_append (f : LineFramer) (a b : Bytes) :
    f.push (a ++ b) =
      (((f.push a).1.push b).1, (f.push a).2 ++ ((f.push a).1.push b).2) := by
  induction a generalizing f with
  | nil => rfl
  | cons c a ih => rw [List.cons_append, push_cons, ih, push_cons, List.append_assoc]

/-- The cuts between the chunks leave no trace. -/
theorem pushes_eq (f : LineFramer) (chunks : List Bytes) :
    f.pushes chunks = f.push chunks.flatten := by
  induction chunks generalizing f with
  | nil => rfl
  | cons chunk chunks ih => rw [List.flatten_cons, push_append, pushes_cons, ih]

/-! ## What the lines are made of -/

/-- The text of a line that a push emitted, with the newline at which it ended. -/
def text (line : Line) : Bytes := if line.truncated then line.bytes else line.bytes ++ [lf]

/-- Every CR LF pair is replaced by LF. -/
def normalise : Bytes → Bytes
  | [] => []
  | c :: rest =>
    if c = cr ∧ rest.head? = some lf then normalise rest else c :: normalise rest

/-- The CR that is held back. -/
def held (f : LineFramer) : Bytes := if f.pendingCr then [cr] else []

theorem normalise_cons {c : UInt8} (h : c ≠ cr) (rest : Bytes) :
    normalise (c :: rest) = c :: normalise rest := if_neg fun hpair => h hpair.1

theorem normalise_pair (rest : Bytes) : normalise (cr :: lf :: rest) = lf :: normalise rest := by
  rw [normalise, if_pos ⟨rfl, rfl⟩, normalise_cons (by decide)]

theorem normalise_bare {c : UInt8} (h : c ≠ lf) (rest : Bytes) :
    normalise (cr :: c :: rest) = cr :: normalise (c :: rest) :=
  if_neg fun hpair => h (Option.some.inj hpair.2)

theorem pushData_text (f : LineFramer) (byte : UInt8) :
    (f.pushData byte).2.flatMap text ++ (f.pushData byte).1.pending = f.pending ++ [byte] := by
  unfold pushData
  split_ifs
  · simp [text]
  · rfl

theorem pushData_held (f : LineFramer) (byte : UInt8) :
    (f.pushData byte).1.pendingCr = f.pendingCr := by
  unfold pushData
  split_ifs <;> rfl

theorem endLine_text (f : LineFramer) : f.endLine.2.flatMap text = f.pending ++ [lf] := by
  simp [endLine, text]

/-- What a byte adds when no CR is held back before it. -/
theorem pushPlain_text {f : LineFramer} (h : f.pendingCr = false) (c : UInt8) (rest : Bytes) :
    (f.pushPlain c).2.flatMap text ++
        ((f.pushPlain c).1.pending ++ normalise ((f.pushPlain c).1.held ++ rest)) =
      f.pending ++ normalise (c :: rest) := by
  unfold pushPlain
  by_cases hlf : c = lf
  · have hheld : f.endLine.1.held = [] := by simp [held, endLine, h]
    rw [if_pos hlf, endLine_text, hheld, hlf, normalise_cons (by decide)]
    simp [endLine]
  · rw [if_neg hlf]
    by_cases hcr : c = cr
    · rw [if_pos hcr, hcr]
      rfl
    · have hheld : (f.pushData c).1.held = [] := by simp [held, pushData_held, h]
      rw [if_neg hcr, hheld, ← List.append_assoc, pushData_text, normalise_cons hcr]
      simp

theorem pushByte_text (f : LineFramer) (c : UInt8) (rest : Bytes) :
    (f.pushByte c).2.flatMap text ++
        ((f.pushByte c).1.pending ++ normalise ((f.pushByte c).1.held ++ rest)) =
      f.pending ++ normalise (f.held ++ c :: rest) := by
  unfold pushByte
  cases hheld : f.pendingCr with
  | false =>
    have hnone : f.held = [] := by simp [held, hheld]
    rw [hnone]
    exact pushPlain_text hheld c rest
  | true =>
    have hsome : f.held = [cr] := by simp [held, hheld]
    rw [hsome, if_pos rfl, List.singleton_append]
    by_cases hlf : c = lf
    · rw [if_pos hlf, endLine_text, hlf, normalise_pair]
      simp [endLine, held]
    · -- the CR was data: it comes before what this byte does
      have hcr := pushData_text { f with pendingCr := false } cr
      have hrest := pushPlain_text (pushData_held { f with pendingCr := false } cr) c rest
      rw [if_neg hlf, normalise_bare hlf]
      dsimp only
      rw [List.flatMap_append, List.append_assoc, hrest, ← List.append_assoc, hcr]
      simp

/-- The induction is over the bytes, and the line that is open carries over. -/
theorem push_text (f : LineFramer) (data : Bytes) :
    (f.push data).2.flatMap text ++ ((f.push data).1.pending ++ (f.push data).1.held) =
      f.pending ++ normalise (f.held ++ data) := by
  induction data generalizing f with
  | nil =>
    have hheld : normalise f.held = f.held := by
      unfold held
      split_ifs <;> rfl
    rw [List.append_nil, hheld]
    rfl
  | cons c rest ih =>
    rw [push_cons, List.flatMap_append, List.append_assoc, ih, pushByte_text]

theorem flush_line (f : LineFramer) : f.flush.2 =
    if f.pending ++ f.held = [] then none else some ⟨f.pending ++ f.held, false⟩ := by
  have hpending : (if f.pendingCr then f.pending ++ [cr] else f.pending) = f.pending ++ f.held := by
    unfold held
    split_ifs
    · rfl
    · exact (List.append_nil _).symm
  unfold flush
  dsimp only
  rw [hpending]

theorem flush_bytes (f : LineFramer) :
    f.flush.2.elim [] Line.bytes = f.pending ++ f.held := by
  rw [flush_line]
  split_ifs with hnone
  · exact hnone.symm
  · rfl

/-- The callbacks for a stream that comes in these chunks: those of the pushes, and the one of the
flush that follows. -/
def frames (maxLineLength : Nat) (chunks : List Bytes) : List Line × Option Line :=
  (((create maxLineLength).pushes chunks).2, ((create maxLineLength).pushes chunks).1.flush.2)

/-- A framer does not see the chunks, and its lines are the stream without the CR of a CR LF. -/
theorem the_framer_loses_nothing (maxLineLength : Nat) (chunks : List Bytes) :
    frames maxLineLength chunks = frames maxLineLength [chunks.flatten] ∧
      (frames maxLineLength chunks).1.flatMap text ++
          (frames maxLineLength chunks).2.elim [] Line.bytes =
        normalise chunks.flatten := by
  have hone : chunks.flatten = [chunks.flatten].flatten := (List.append_nil _).symm
  constructor
  · unfold frames
    rw [pushes_eq, pushes_eq, ← hone]
  · have htext := push_text (create maxLineLength) chunks.flatten
    unfold frames
    rw [pushes_eq, flush_bytes, htext]
    rfl

/-! ## The bound -/

/-- What a line may be under the bound `most`. -/
def Bounded (most : Nat) (line : Line) : Prop :=
  line.bytes.length ≤ most ∧ (line.truncated = true → line.bytes.length = most)

/-- What a step from `f` may give. -/
structure Keeps (f : LineFramer) (r : LineFramer × List Line) : Prop where
  most : r.1.maxLineLength = f.maxLineLength
  pending : r.1.pending.length ≤ f.maxLineLength
  lines : ∀ line ∈ r.2, Bounded f.maxLineLength line

variable {f : LineFramer}

theorem Keeps.trans {r : LineFramer × List Line} {r' : LineFramer × List Line}
    (h : f.Keeps r) (h' : r.1.Keeps r') : f.Keeps (r'.1, r.2 ++ r'.2) where
  most := h'.most.trans h.most
  pending := by
    rw [← h.most]
    exact h'.pending
  lines := by
    intro line hline
    rcases List.mem_append.mp hline with hline | hline
    · exact h.lines line hline
    · rw [← h.most]
      exact h'.lines line hline

theorem pushData_keeps (hmost : 1 ≤ f.maxLineLength) (h : f.pending.length ≤ f.maxLineLength)
    (byte : UInt8) : f.Keeps (f.pushData byte) := by
  unfold pushData
  by_cases hfull : f.pending.length = f.maxLineLength
  · rw [if_pos hfull]
    refine ⟨rfl, hmost, ?_⟩
    intro line hline
    rw [List.mem_singleton.mp hline]
    exact ⟨h, fun _ => hfull⟩
  · rw [if_neg hfull]
    refine ⟨rfl, ?_, by simp⟩
    simp only [List.length_append, List.length_singleton]
    omega

theorem endLine_keeps (h : f.pending.length ≤ f.maxLineLength) : f.Keeps f.endLine := by
  refine ⟨rfl, Nat.zero_le _, ?_⟩
  intro line hline
  rw [List.mem_singleton.mp hline]
  exact ⟨h, by simp⟩

theorem pushPlain_keeps (hmost : 1 ≤ f.maxLineLength) (h : f.pending.length ≤ f.maxLineLength)
    (c : UInt8) : f.Keeps (f.pushPlain c) := by
  unfold pushPlain
  split_ifs
  · exact endLine_keeps h
  · exact ⟨rfl, h, by simp⟩
  · exact pushData_keeps hmost h c

theorem pushByte_keeps (hmost : 1 ≤ f.maxLineLength) (h : f.pending.length ≤ f.maxLineLength)
    (c : UInt8) : f.Keeps (f.pushByte c) := by
  have hopen : f.Keeps ({ f with pendingCr := false }, []) := ⟨rfl, h, by simp⟩
  unfold pushByte
  by_cases hheld : f.pendingCr = true
  · rw [if_pos hheld]
    by_cases hlf : c = lf
    · rw [if_pos hlf]
      exact hopen.trans (endLine_keeps h)
    · rw [if_neg hlf]
      have hcr := pushData_keeps (f := { f with pendingCr := false }) hmost h cr
      have hmost' := hcr.most
      refine hopen.trans (hcr.trans (pushPlain_keeps ?_ ?_ c))
      · rw [hmost']
        exact hmost
      · rw [hmost']
        exact hcr.pending
  · rw [if_neg hheld]
    exact pushPlain_keeps hmost h c

theorem push_keeps (hmost : 1 ≤ f.maxLineLength) (h : f.pending.length ≤ f.maxLineLength)
    (data : Bytes) : f.Keeps (f.push data) := by
  induction data generalizing f with
  | nil => exact ⟨rfl, h, by simp [push]⟩
  | cons c rest ih =>
    have hbyte := pushByte_keeps hmost h c
    rw [push_cons]
    apply hbyte.trans
    apply ih
    · rw [hbyte.most]
      exact hmost
    · rw [hbyte.most]
      exact hbyte.pending

/-- A line has its full length, and a CR is held back behind it. -/
def Overfull (f : LineFramer) : Prop :=
  f.pendingCr = true ∧ f.pending.length = f.maxLineLength

/-- The CR that a flush adds is the one byte for which no room was asked. -/
theorem flush_bounded (h : f.pending.length ≤ f.maxLineLength) :
    (∀ line ∈ f.flush.2, Bounded f.maxLineLength line) ↔ ¬ f.Overfull := by
  unfold flush Overfull
  dsimp only
  cases hheld : f.pendingCr with
  | false =>
    simp only [Bool.false_eq_true, if_false, false_and, not_false_iff, iff_true]
    split_ifs
    · simp
    · intro line hline
      rw [← Option.some.inj hline]
      exact ⟨h, by simp⟩
  | true =>
    have hne : f.pending ++ [cr] ≠ [] := by simp
    simp only [if_true, if_neg hne, true_and]
    constructor
    · intro hall hfull
      have hline := (hall _ rfl).1
      rw [List.length_append, List.length_singleton] at hline
      omega
    · intro hroom line hline
      rw [← Option.some.inj hline]
      refine ⟨?_, by simp⟩
      simp only [List.length_append, List.length_singleton]
      omega

/-! ## A line that fits -/

/-- Bytes without a newline for which there is room are all kept. -/
theorem push_fits (data : Bytes) (hdata : lf ∉ data)
    (hroom : f.pending.length + f.held.length + data.length ≤ f.maxLineLength) :
    (f.push data).2 = [] ∧ (f.push data).1.maxLineLength = f.maxLineLength ∧
      (f.push data).1.pending ++ (f.push data).1.held = f.pending ++ f.held ++ data := by
  induction data generalizing f with
  | nil => exact ⟨rfl, rfl, (List.append_nil _).symm⟩
  | cons c rest ih =>
    have hc : c ≠ lf := fun hlf => hdata (by simp [hlf])
    have hrest : lf ∉ rest := fun hlf => hdata (List.mem_cons_of_mem _ hlf)
    rw [List.length_cons] at hroom
    -- one byte, when none is held
    have hplain : ∀ g : LineFramer, g.pendingCr = false → g.maxLineLength = f.maxLineLength →
        g.pending.length + 1 ≤ g.maxLineLength →
        (g.pushPlain c).2 = [] ∧ (g.pushPlain c).1.maxLineLength = f.maxLineLength ∧
          (g.pushPlain c).1.pending ++ (g.pushPlain c).1.held = g.pending ++ [c] := by
      intro g hheld hmost hlen
      unfold pushPlain
      rw [if_neg hc]
      by_cases hcr : c = cr
      · rw [if_pos hcr, hcr]
        exact ⟨rfl, hmost, rfl⟩
      · rw [if_neg hcr]
        unfold pushData
        rw [if_neg (by omega)]
        refine ⟨rfl, hmost, ?_⟩
        simp [held, hheld]
    have hbyte : (f.pushByte c).2 = [] ∧ (f.pushByte c).1.maxLineLength = f.maxLineLength ∧
        (f.pushByte c).1.pending ++ (f.pushByte c).1.held = f.pending ++ f.held ++ [c] := by
      unfold pushByte
      by_cases hheld : f.pendingCr = true
      · have hsome : f.held = [cr] := by simp [held, hheld]
        rw [hsome, List.length_singleton] at hroom
        rw [if_pos hheld, hsome, if_neg hc]
        unfold pushData
        dsimp only
        rw [if_neg (by omega)]
        have hlen : (f.pending ++ [cr]).length + 1 ≤ f.maxLineLength := by
          rw [List.length_append, List.length_singleton]
          omega
        exact hplain _ rfl rfl hlen
      · have hnone : f.held = [] := by simp [held, hheld]
        rw [if_neg hheld, hnone, List.append_nil]
        exact hplain f (by simpa using hheld) rfl (by omega)
    obtain ⟨hlines, hmost, hkept⟩ := hbyte
    have hlen := congrArg List.length hkept
    simp only [List.length_append, List.length_singleton] at hlen
    obtain ⟨hlines', hmost', hkept'⟩ := ih hrest (f := (f.pushByte c).1) (by omega)
    rw [push_cons]
    refine ⟨?_, hmost'.trans hmost, ?_⟩
    · rw [hlines, hlines']
      rfl
    · rw [hkept', hkept, List.append_assoc]
      rfl

/-- A line and the terminator behind it. A CR at the end of a line shows before a CR LF only. -/
def Ends (line terminator : Bytes) : Prop :=
  lf ∉ line ∧ (terminator = [cr, lf] ∨ terminator = [lf] ∧ line.getLast? ≠ some cr)

/-- Nothing of a line has come yet. -/
def Fresh (f : LineFramer) : Prop := f.pending = [] ∧ f.pendingCr = false

theorem push_whole {line terminator : Bytes} (hfresh : f.Fresh) (hends : Ends line terminator)
    (hlen : line.length ≤ f.maxLineLength) :
    (f.push (line ++ terminator)).2 = [⟨line, false⟩] := by
  obtain ⟨hpending, hheld⟩ := hfresh
  obtain ⟨hline, hterminator⟩ := hends
  have hnone : f.held = [] := by simp [held, hheld]
  have hroom : f.pending.length + f.held.length + line.length ≤ f.maxLineLength := by
    simpa [hpending, hnone] using hlen
  obtain ⟨hlines, hmost, hkept⟩ := push_fits line hline hroom
  rw [hpending, hnone, List.append_nil, List.nil_append] at hkept
  rw [push_append, hlines, List.nil_append]
  -- what is held back is the last byte of the line
  generalize (f.push line).1 = g at hmost hkept ⊢
  cases hcr : g.pendingCr with
  | false =>
    have hbare : g.held = [] := by simp [held, hcr]
    rw [hbare, List.append_nil] at hkept
    rcases hterminator with rfl | ⟨rfl, -⟩
    · have hbytes : (g.push [cr, lf]).2 = [⟨g.pending, false⟩] := by
        simp [push, pushByte, pushPlain, endLine, hcr, lf, cr]
      rw [hbytes, hkept]
    · have hbytes : (g.push [lf]).2 = [⟨g.pending, false⟩] := by
        simp [push, pushByte, pushPlain, endLine, hcr]
      rw [hbytes, hkept]
  | true =>
    have hsome : g.held = [cr] := by simp [held, hcr]
    rw [hsome] at hkept
    rcases hterminator with rfl | ⟨-, hlast⟩
    · have hroom : ¬ g.pending.length = g.maxLineLength := by
        have hall := congrArg List.length hkept
        rw [List.length_append, List.length_singleton] at hall
        omega
      have hbytes : (g.push [cr, lf]).2 = [⟨g.pending ++ [cr], false⟩] := by
        simp [push, pushByte, pushPlain, pushData, endLine, hcr, hroom, show cr ≠ lf by decide]
      rw [hbytes, hkept]
    · rw [← hkept, List.getLast?_concat] at hlast
      exact absurd rfl hlast

/-! ## Runs -/

/-- What a framer is asked. -/
inductive Call
  | push (data : Bytes)
  | flush

def call (f : LineFramer) : Call → LineFramer × List Line
  | .push data => f.push data
  | .flush => (f.flush.1, f.flush.2.toList)

/-- All the calls to a new framer, and all the lines that they emit. -/
def run (maxLineLength : Nat) (calls : List Call) : LineFramer × List Line :=
  calls.foldl (fun r c => ((r.1.call c).1, r.2 ++ (r.1.call c).2)) (create maxLineLength, [])

/-- What a bound promises about a run, and about the pushes that may follow it. -/
structure Respects (maxLineLength : Nat) (calls : List Call) : Prop where
  bounded : ∀ line ∈ (run maxLineLength calls).2, line.bytes.length ≤ maxLineLength
  cut : ∀ line ∈ (run maxLineLength calls).2,
    line.truncated = true → line.bytes.length = maxLineLength
  /-- A line of the full length is whole, whatever comes behind its terminator. -/
  whole : ∀ chunks line terminator rest, (run maxLineLength calls).1.Fresh →
    chunks.flatten = line ++ terminator ++ rest → Ends line terminator →
    line.length = maxLineLength →
    ∃ more, ((run maxLineLength calls).1.pushes chunks).2 = ⟨line, false⟩ :: more

theorem run_snoc (most : Nat) (calls : List Call) (c : Call) :
    run most (calls ++ [c]) =
      (((run most calls).1.call c).1, (run most calls).2 ++ ((run most calls).1.call c).2) := by
  unfold run
  rw [List.foldl_append]
  rfl

/-- The open line never outgrows the bound. -/
theorem run_open {most : Nat} (hmost : 1 ≤ most) (calls : List Call) :
    (run most calls).1.maxLineLength = most ∧ (run most calls).1.pending.length ≤ most := by
  induction calls using List.reverseRecOn with
  | nil =>
    have hcreate : (create most).maxLineLength = most := if_neg (by omega)
    exact ⟨hcreate, Nat.zero_le _⟩
  | append_singleton calls c ih =>
    obtain ⟨hsame, hpending⟩ := ih
    rw [run_snoc]
    cases c with
    | push data =>
      have hkeeps := push_keeps (by rw [hsame]; exact hmost) (by rw [hsame]; exact hpending) data
      exact ⟨hkeeps.most.trans hsame, Nat.le_trans hkeeps.pending (Nat.le_of_eq hsame)⟩
    | flush => exact ⟨hsame, Nat.zero_le _⟩

/-- No flush finds a held CR behind a full line. -/
def NeverOverfull (most : Nat) (calls : List Call) : Prop :=
  ∀ before after, calls = before ++ .flush :: after → ¬ (run most before).1.Overfull

theorem neverOverfull_snoc {most : Nat} {calls : List Call} {c : Call} :
    NeverOverfull most (calls ++ [c]) ↔
      NeverOverfull most calls ∧ (c = .flush → ¬ (run most calls).1.Overfull) := by
  constructor
  · intro h
    refine ⟨fun before after hcalls => ?_, fun hflush => ?_⟩
    · exact h before (after ++ [c]) (by simp [hcalls])
    · exact h calls [] (by rw [hflush])
  · rintro ⟨hcalls, hlast⟩ before after heq
    rcases List.eq_nil_or_concat after with rfl | ⟨after, d, rfl⟩
    · obtain ⟨rfl, hc⟩ := List.append_inj' heq rfl
      exact hlast (List.cons.inj hc).1
    · have hsplit : calls ++ [c] = (before ++ .flush :: after) ++ [d] := by simpa using heq
      exact hcalls before after (List.append_inj' hsplit rfl).1

theorem run_bounded {most : Nat} (hmost : 1 ≤ most) (calls : List Call) :
    (∀ line ∈ (run most calls).2, Bounded most line) ↔ NeverOverfull most calls := by
  induction calls using List.reverseRecOn with
  | nil =>
    refine iff_of_true (by simp [run]) ?_
    intro before after heq
    simp at heq
  | append_singleton calls c ih =>
    obtain ⟨hsame, hpending⟩ := run_open hmost calls
    rw [neverOverfull_snoc, ← ih, run_snoc]
    simp only [List.forall_mem_append]
    apply and_congr_right
    intro _
    cases c with
    | push data =>
      have hkeeps := push_keeps (by rw [hsame]; exact hmost) (by rw [hsame]; exact hpending) data
      have hlines := hkeeps.lines
      rw [hsame] at hlines
      exact iff_of_true hlines nofun
    | flush =>
      have hflush := flush_bounded (by rw [hsame]; exact hpending)
      rw [hsame] at hflush
      simpa [call] using hflush

/-- A flush adds the CR that was held back without a look at the bound, and nothing else ever
goes over it. -/
theorem a_flush_may_overflow (maxLineLength : Nat) (hmost : 1 ≤ maxLineLength)
    (calls : List Call) :
    Respects maxLineLength calls ↔ NeverOverfull maxLineLength calls := by
  rw [← run_bounded hmost]
  constructor
  · intro h line hline
    exact ⟨h.bounded line hline, h.cut line hline⟩
  · intro h
    refine ⟨fun line hline => (h line hline).1, fun line hline => (h line hline).2, ?_⟩
    intro chunks line terminator rest hfresh hchunks hends hlen
    have hsame := (run_open hmost calls).1
    have hwhole := push_whole hfresh hends (Nat.le_of_eq (hlen.trans hsame.symm))
    rw [pushes_eq, hchunks, push_append, hwhole]
    exact ⟨_, rfl⟩

/-- Two flushes behind lines that fit. -/
theorem two_flushes_fit :
    Respects 2 [.push [97, 13], .flush, .push [98, 99, 100], .flush] := by
  apply (a_flush_may_overflow 2 (by decide) _).mpr
  apply (run_bounded (by decide) _).mp
  unfold Bounded
  decide

/-- The bound is one byte, and the flush emits two. -/
theorem the_bound_is_overrun :
    ¬ ∀ maxLineLength, 1 ≤ maxLineLength → ∀ calls, Respects maxLineLength calls := by
  intro h
  have hline := (h 1 (by decide) [.push [97, 13], .flush]).bounded ⟨[97, 13], false⟩ (by decide)
  exact absurd hline (by decide)

end LineFramer

end psx.stream
