-- A stream as the lines of a framer give it back when each line is ended by a newline: the CR of a
-- CR LF is gone, a line that is too long is in pieces, and the last line is ended.
import PipeShellX.Stream.LineFramer

namespace psx.stream

namespace LineFramer

/-- A newline comes in front of the byte for which a line has no room. `n` bytes of the line are
there; a CR at the end of the text needs no room. -/
def cut (most : Nat) : Nat → Bytes → Bytes
  | _, [] => []
  | n, c :: rest =>
    if c = lf then lf :: cut most 0 rest
    else if n = most ∧ ¬ (c = cr ∧ rest = []) then lf :: c :: cut most 1 rest
    else c :: cut most (n + 1) rest

/-- The last line of a text, ended. -/
def ended (text : Bytes) : Bytes :=
  if text = [] ∨ text.getLast? = some lf then text else text ++ [lf]

/-- The lines of a stream in pieces of at most this length. -/
def canonical (most : Nat) (stream : Bytes) : Bytes := ended (cut most 0 (normalise stream))

theorem cut_data {most n : Nat} {c : UInt8} (h : c ≠ lf) (rest : Bytes) :
    cut most n (c :: rest) = if n = most ∧ ¬ (c = cr ∧ rest = []) then lf :: c :: cut most 1 rest
      else c :: cut most (n + 1) rest := by
  rw [cut, if_neg h]

/-- Each line with a newline behind it. -/
def rejoined (lines : List Line) : Bytes := lines.flatMap fun line => line.bytes ++ [lf]

theorem rejoined_append (lines more : List Line) :
    rejoined (lines ++ more) = rejoined lines ++ rejoined more := List.flatMap_append

theorem rejoined_one (line : Line) : rejoined [line] = line.bytes ++ [lf] :=
  List.flatMap_singleton _ _

/-! ## What a push gives -/

variable {f : LineFramer}

/-- A byte of data is cut off from a full line, unless it is a CR that ends the text. -/
theorem pushData_cut (most : Nat) (hmost : f.maxLineLength = most) {c : UInt8} (hc : c ≠ lf)
    (rest : Bytes) (hlast : c = cr → rest ≠ []) :
    rejoined (f.pushData c).2 ++
        ((f.pushData c).1.pending ++ cut most (f.pushData c).1.pending.length rest) =
      f.pending ++ cut most f.pending.length (c :: rest) := by
  have hnot : ¬ (c = cr ∧ rest = []) := fun h => hlast h.1 h.2
  unfold pushData
  rw [cut_data hc, hmost]
  by_cases hfull : f.pending.length = most
  · rw [if_pos hfull, if_pos ⟨hfull, hnot⟩, rejoined_one]
    simp
  · rw [if_neg hfull, if_neg fun h => hfull h.1]
    simp [rejoined]

theorem endLine_cut (most : Nat) (rest : Bytes) :
    rejoined f.endLine.2 ++ (f.endLine.1.pending ++ cut most f.endLine.1.pending.length rest) =
      f.pending ++ cut most f.pending.length (lf :: rest) := by
  unfold endLine
  rw [cut.eq_def most f.pending.length (lf :: rest), rejoined_one]
  simp

theorem pushPlain_cut (most : Nat) (hmost : f.maxLineLength = most) (h : f.pendingCr = false)
    (c : UInt8) (rest : Bytes) :
    rejoined (f.pushPlain c).2 ++ ((f.pushPlain c).1.pending ++
        cut most (f.pushPlain c).1.pending.length (normalise ((f.pushPlain c).1.held ++ rest))) =
      f.pending ++ cut most f.pending.length (normalise (c :: rest)) := by
  unfold pushPlain
  by_cases hlf : c = lf
  · have hheld : f.endLine.1.held = [] := by simp [held, endLine, h]
    rw [if_pos hlf, hheld, hlf, normalise_cons (by decide), List.nil_append]
    exact endLine_cut most (normalise rest)
  · rw [if_neg hlf]
    by_cases hcr : c = cr
    · rw [if_pos hcr, hcr]
      rfl
    · have hheld : (f.pushData c).1.held = [] := by simp [held, pushData_held, h]
      rw [if_neg hcr, hheld, normalise_cons hcr, List.nil_append]
      exact pushData_cut most hmost hlf (normalise rest) fun h => absurd h hcr

theorem pushData_most (c : UInt8) : (f.pushData c).1.maxLineLength = f.maxLineLength := by
  unfold pushData
  split_ifs <;> rfl

theorem pushPlain_most (c : UInt8) : (f.pushPlain c).1.maxLineLength = f.maxLineLength := by
  unfold pushPlain
  split_ifs
  · rfl
  · rfl
  · exact pushData_most c

theorem pushByte_most (c : UInt8) : (f.pushByte c).1.maxLineLength = f.maxLineLength := by
  unfold pushByte
  split_ifs
  · rfl
  · exact (pushPlain_most c).trans (pushData_most cr)
  · exact pushPlain_most c

theorem normalise_ne_nil {c : UInt8} (rest : Bytes) : normalise (c :: rest) ≠ [] := by
  induction rest generalizing c with
  | nil =>
    rw [normalise, if_neg (by simp)]
    exact List.cons_ne_nil _ _
  | cons d rest ih =>
    rw [normalise]
    split_ifs
    · exact ih
    · exact List.cons_ne_nil _ _

theorem pushByte_cut (most : Nat) (hmost : f.maxLineLength = most) (c : UInt8) (rest : Bytes) :
    rejoined (f.pushByte c).2 ++ ((f.pushByte c).1.pending ++
        cut most (f.pushByte c).1.pending.length (normalise ((f.pushByte c).1.held ++ rest))) =
      f.pending ++ cut most f.pending.length (normalise (f.held ++ c :: rest)) := by
  unfold pushByte
  cases hheld : f.pendingCr with
  | false =>
    have hnone : f.held = [] := by simp [held, hheld]
    rw [hnone]
    exact pushPlain_cut most hmost hheld c rest
  | true =>
    have hsome : f.held = [cr] := by simp [held, hheld]
    rw [hsome, if_pos rfl, List.singleton_append]
    by_cases hlf : c = lf
    · rw [if_pos hlf, hlf, normalise_pair]
      exact endLine_cut most (normalise rest)
    · -- the CR was data, and the byte that showed it comes behind it
      let g := { f with pendingCr := false }
      have hcr : rejoined (g.pushData cr).2 ++ ((g.pushData cr).1.pending ++
          cut most (g.pushData cr).1.pending.length (normalise (c :: rest))) =
            g.pending ++ cut most g.pending.length (cr :: normalise (c :: rest)) :=
        pushData_cut (f := g) most hmost (by decide) _ fun _ => normalise_ne_nil rest
      have hrest := pushPlain_cut (f := (g.pushData cr).1) most ((pushData_most cr).trans hmost)
        (pushData_held g cr) c rest
      rw [if_neg hlf, normalise_bare hlf]
      dsimp only
      rw [rejoined_append, List.append_assoc, hrest, hcr]

/-- The induction is over the bytes, and the line that is open carries over. -/
theorem push_cut (most : Nat) (hmost : f.maxLineLength = most) (data : Bytes) :
    rejoined (f.push data).2 ++ ((f.push data).1.pending ++ (f.push data).1.held) =
      f.pending ++ cut most f.pending.length (normalise (f.held ++ data)) := by
  induction data generalizing f with
  | nil =>
    have hheld : cut most f.pending.length (normalise f.held) = f.held := by
      unfold held
      split_ifs
      · simp [normalise, cut, cr, lf]
      · rfl
    rw [List.append_nil, hheld]
    rfl
  | cons c rest ih =>
    rw [push_cons, rejoined_append, List.append_assoc, ih ((pushByte_most c).trans hmost),
      pushByte_cut most hmost]

/-! ## The last line -/

theorem pushData_plain {c : UInt8} (hc : c ≠ lf) (h : lf ∉ f.pending) :
    lf ∉ (f.pushData c).1.pending := by
  unfold pushData
  split_ifs
  · simpa using hc.symm
  · simpa [h] using hc.symm

theorem pushPlain_plain (c : UInt8) (h : lf ∉ f.pending) : lf ∉ (f.pushPlain c).1.pending := by
  unfold pushPlain
  split_ifs with hlf hcr
  · exact List.not_mem_nil
  · exact h
  · exact pushData_plain hlf h

/-- The line that is open has no newline in it. -/
theorem push_plain (data : Bytes) (h : lf ∉ f.pending) : lf ∉ (f.push data).1.pending := by
  induction data generalizing f with
  | nil => exact h
  | cons c rest ih =>
    rw [push_cons]
    apply ih
    unfold pushByte
    split_ifs
    · exact List.not_mem_nil
    · exact pushPlain_plain c (pushData_plain (by decide) h)
    · exact pushPlain_plain c h

theorem ended_rejoined (lines : List Line) : ended (rejoined lines) = rejoined lines := by
  refine if_pos ?_
  rcases List.eq_nil_or_concat lines with rfl | ⟨lines, line, rfl⟩
  · exact Or.inl rfl
  · right
    rw [List.concat_eq_append, rejoined_append, rejoined_one, ← List.append_assoc]
    exact List.getLast?_concat

theorem ended_open {text last : Bytes} (hlast : lf ∉ last) (hne : last ≠ []) :
    ended (text ++ last) = text ++ last ++ [lf] := by
  refine if_neg ?_
  rintro (hnil | hlf)
  · exact hne (List.append_eq_nil_iff.mp hnil).2
  · rw [List.getLast?_append_of_ne_nil _ hne] at hlf
    exact hlast (List.mem_of_getLast? hlf)

/-- All the lines of a stream, each with a newline behind it. -/
theorem rejoined_frames {most : Nat} (hmost : most ≠ 0) (stream : Bytes) :
    rejoined ((frames most [stream]).1 ++ (frames most [stream]).2.toList) =
      canonical most stream := by
  have hcreate : (create most).maxLineLength = most := if_neg hmost
  have hpush : rejoined ((create most).push stream).2 ++ (((create most).push stream).1.pending ++
      ((create most).push stream).1.held) = cut most 0 (normalise stream) :=
    push_cut most hcreate stream
  have hplain := push_plain (f := create most) stream List.not_mem_nil
  unfold frames canonical
  rw [pushes_eq, List.flatten_singleton, rejoined_append, flush_line, ← hpush]
  generalize (create most).push stream = r at hplain ⊢
  by_cases hne : r.1.pending ++ r.1.held = []
  · rw [if_pos hne, hne, List.append_nil, ended_rejoined]
    exact List.append_nil _
  · have hopen : lf ∉ r.1.pending ++ r.1.held := by
      rw [List.mem_append, not_or]
      refine ⟨hplain, ?_⟩
      unfold held
      split_ifs
      · decide
      · exact List.not_mem_nil
    rw [if_neg hne, ended_open hopen hne, List.append_assoc]
    exact congrArg _ (rejoined_one _)

end LineFramer

end psx.stream
