-- A pipeline that is written as a pipeline file, every string of it in double quotes, is loaded as
-- it was.
import PipeShellX.Pipeline.PipelineYaml
import PipeShellX.Pipeline.PlannerLaws

namespace psx.pipeline.PipelineYaml

open Quoted (State quoted escape)
open Scan (blocks strip)
open Text (ascii)
open psx.ClientConfig (isSpace)

/-! ## Writing -/

/-- A pipeline by the bytes of its strings. -/
structure RawStage where
  id : Bytes
  argv : List Bytes
  placement : Bytes

/-- An edge, as bytes. -/
structure RawEdge where
  producer : Bytes
  consumer : Bytes

/-- A pipeline, as bytes. -/
structure Raw where
  stages : List RawStage
  edges : List RawEdge

/-- The stage that the bytes are. -/
def RawStage.stage (raw : RawStage) : Stage :=
  { id := text raw.id, argv := raw.argv, placement := text raw.placement }

/-- The edge that the bytes are. -/
def RawEdge.edge (raw : RawEdge) : Edge := ⟨text raw.producer, text raw.consumer⟩

/-- The pipeline that the bytes are. -/
def Raw.pipeline (raw : Raw) : Pipeline where
  stages := raw.stages.map RawStage.stage
  edges := raw.edges.map RawEdge.edge

/-- A value in quotes. -/
def scalar (s : Bytes) : Bytes := quoted marks s

/-- A list of words in brackets. -/
def runList (argv : List Bytes) : Bytes := 91 :: (ascii ", ").intercalate (argv.map scalar) ++ [93]

/-- A line with its indentation. -/
def Line.raw (line : Line) : Bytes := List.replicate line.indent 32 ++ line.text

/-- The first line of an item, and the other ones. -/
def RawStage.lines (raw : RawStage) : Line × List Line :=
  (⟨2, ascii "- id: " ++ scalar raw.id⟩,
    [⟨4, ascii "run: " ++ runList raw.argv⟩, ⟨4, ascii "at: " ++ scalar raw.placement⟩])

/-- The lines of an edge. -/
def RawEdge.lines (raw : RawEdge) : Line × List Line :=
  (⟨2, ascii "- from: " ++ scalar raw.producer⟩, [⟨4, ascii "to: " ++ scalar raw.consumer⟩])

/-- A section: its key, and the items. -/
def sectionOf (key : String) (items : List (Line × List Line)) : Line × List Line :=
  (⟨0, ascii key ++ ascii ":"⟩, items.flatMap fun item => item.1 :: item.2)

/-- The sections of a file; there is none for edges if there are no edges. -/
def Raw.sections (raw : Raw) : List (Line × List Line) :=
  sectionOf "stages" (raw.stages.map RawStage.lines) ::
    if raw.edges = [] then [] else [sectionOf "edges" (raw.edges.map RawEdge.lines)]

/-- The lines of a file. -/
def Raw.lines (raw : Raw) : List Line := raw.sections.flatMap fun block => block.1 :: block.2

/-- The block form: a newline behind each line. -/
def render (raw : Raw) : Bytes := raw.lines.flatMap fun line => line.raw ++ [newline]

/-- What can be written in quotes on a line. -/
def IsText (s : Bytes) : Prop := s ≠ [] ∧ newline ∉ s

/-- What can be said in a file. -/
structure Raw.Writable (raw : Raw) : Prop where
  ids : ∀ stage ∈ raw.stages, IsText stage.id
  words : ∀ stage ∈ raw.stages, ∀ w ∈ stage.argv, IsText w
  placements : ∀ stage ∈ raw.stages, IsText stage.placement
  ends : ∀ edge ∈ raw.edges, IsText edge.producer ∧ IsText edge.consumer

/-! ## No comment is found in what is written -/

/-- The search for a comment passes the text. -/
def Keeps (s : State UInt8) (t : Bytes) (s' : State UInt8) : Prop :=
  ∀ before rest, ∃ before', stripFrom s before (t ++ rest) = t ++ stripFrom s' before' rest

theorem Keeps.append {s s' s'' : State UInt8} {t u : Bytes} (h : Keeps s t s')
    (h' : Keeps s' u s'') : Keeps s (t ++ u) s'' := by
  intro before rest
  obtain ⟨b, hfirst⟩ := h before (u ++ rest)
  obtain ⟨b', hsecond⟩ := h' b rest
  exact ⟨b', by rw [List.append_assoc, hfirst, hsecond, List.append_assoc]⟩

theorem keeps_nil (s : State UInt8) : Keeps s [] s := fun before _ => ⟨before, rfl⟩

theorem keeps_one {s : State UInt8} {c : UInt8} (h : s.quote ≠ none ∨ c ≠ hash) :
    Keeps s [c] (s.next marks c) := by
  intro before rest
  refine ⟨some c, ?_⟩
  rw [List.singleton_append, stripFrom, if_neg]
  · rfl
  · rintro ⟨hnone, hc, -⟩
    rcases h with hquote | hother
    · exact hquote hnone
    · exact hother hc

theorem keeps_plain {t : Bytes} (h : ∀ c ∈ t, c ≠ hash ∧ c ≠ marks.single ∧ c ≠ marks.double) :
    Keeps {} t {} := by
  induction t with
  | nil => exact keeps_nil {}
  | cons c t ih =>
    obtain ⟨⟨hhash, hquotes⟩, hrest⟩ := List.forall_mem_cons.mp h
    have hone := keeps_one (s := {}) (Or.inr hhash)
    rw [Quoted.next_plain marks hquotes] at hone
    exact hone.append (ih hrest)

theorem keeps_scalar (s : Bytes) : Keeps {} (scalar s) {} := by
  refine Quoted.along_quoted marks (fun t c h => keeps_one (h.imp_right ?_))
    (fun h h' => h.append h') (keeps_nil _) s
  rintro rfl
  decide

/-- What stands behind a key: it begins and ends with no white space, and nothing of it is lost. -/
structure IsValue (v : Bytes) : Prop where
  keeps : Keeps {} v {}
  newline : newline ∉ v
  nonempty : v ≠ []
  first : ∀ c ∈ v.head?, isSpace c = false
  last : ∀ c ∈ v.getLast?, isSpace c = false

theorem newline_scalar {s : Bytes} (h : newline ∉ s) : newline ∉ scalar s := by
  intro hin
  unfold scalar quoted escape at hin
  simp only [List.mem_append, List.mem_cons, List.mem_flatMap, List.not_mem_nil, or_false] at hin
  rcases hin with (hmark | ⟨c, hc, hin⟩) | hmark
  · exact absurd hmark (by decide)
  · split_ifs at hin with hescaped
    · rcases List.mem_pair.mp hin with hslash | rfl
      · exact absurd hslash (by decide)
      · exact h hc
    · obtain rfl := List.mem_singleton.mp hin
      exact h hc
  · exact absurd hmark (by decide)

theorem isValue_scalar {s : Bytes} (h : newline ∉ s) : IsValue (scalar s) where
  keeps := keeps_scalar s
  newline := newline_scalar h
  nonempty := List.cons_ne_nil _ _
  first := by
    intro c hc
    obtain rfl := Option.some.inj hc
    decide
  last := by
    intro c hc
    rw [scalar, quoted, List.getLast?_append] at hc
    obtain rfl := Option.some.inj hc
    decide

theorem isValue_runList {argv : List Bytes} (h : ∀ w ∈ argv, newline ∉ w) :
    IsValue (runList argv) where
  keeps := by
    have hplain : ∀ t : Bytes, (∀ c ∈ t, c ≠ hash ∧ c ≠ marks.single ∧ c ≠ marks.double) →
        Keeps {} t {} := fun t => keeps_plain
    have hitems : Keeps {} ((ascii ", ").intercalate (argv.map scalar)) {} := by
      cases argv with
      | nil => exact keeps_nil {}
      | cons w ws =>
        rw [List.map_cons, Scan.intercalate_cons]
        refine (keeps_scalar w).append ?_
        clear h
        induction ws with
        | nil => exact keeps_nil {}
        | cons w ws ih =>
          rw [List.map_cons, List.flatMap_cons]
          exact ((hplain _ (by decide)).append (keeps_scalar w)).append ih
    exact ((hplain [91] (by decide)).append hitems).append (hplain [93] (by decide))
  newline := by
    intro hin
    simp only [runList, List.mem_append, List.mem_cons, List.not_mem_nil, or_false] at hin
    rcases hin with (hopen | hin) | hclose
    · exact absurd hopen (by decide)
    · rcases Scan.mem_intercalate hin with hcomma | ⟨v, hv, hin⟩
      · exact absurd hcomma (by decide)
      · obtain ⟨w, hw, rfl⟩ := List.mem_map.mp hv
        exact newline_scalar (h w hw) hin
    · exact absurd hclose (by decide)
  nonempty := List.cons_ne_nil _ _
  first := by
    intro c hc
    obtain rfl := Option.some.inj hc
    decide
  last := by
    intro c hc
    rw [runList, List.getLast?_append] at hc
    obtain rfl := Option.some.inj hc
    decide

/-! ## Each line is found -/

/-- A line as it is written and found: plain text, and a value behind it. -/
structure IsLine (line : Line) : Prop where
  keeps : Keeps {} line.text {}
  newline : newline ∉ line.text
  nonempty : line.text ≠ []
  first : ∀ c ∈ line.text.head?, isSpace c = false
  last : ∀ c ∈ line.text.getLast?, isSpace c = false

theorem isLine_of {indent : Nat} {front v : Bytes}
    (hplain : ∀ c ∈ front, c ≠ hash ∧ c ≠ marks.single ∧ c ≠ marks.double ∧
      c ≠ PipelineYaml.newline)
    (hne : front ≠ []) (hfirst : ∀ c ∈ front.head?, isSpace c = false) (hv : IsValue v) :
    IsLine ⟨indent, front ++ v⟩ where
  keeps :=
    (keeps_plain fun c hc => ⟨(hplain c hc).1, (hplain c hc).2.1, (hplain c hc).2.2.1⟩).append
    hv.keeps
  newline := by
    intro hin
    rcases List.mem_append.mp hin with hin | hin
    · exact (hplain _ hin).2.2.2 rfl
    · exact hv.newline hin
  nonempty := List.append_ne_nil_of_left_ne_nil hne v
  first := by
    intro c hc
    rw [List.head?_append_of_ne_nil _ hne] at hc
    exact hfirst c hc
  last := by
    intro c hc
    rw [List.getLast?_append_of_ne_nil _ hv.nonempty] at hc
    exact hv.last c hc

theorem tokenizeLine_raw {line : Line} (h : IsLine line) : tokenizeLine line.raw = .ok [line] := by
  have hblanks : Keeps {} (List.replicate line.indent 32) {} :=
    keeps_plain fun c hc => by
      obtain rfl := List.eq_of_mem_replicate hc
      decide
  have hcomment : stripComment line.raw = line.raw := by
    obtain ⟨before, hkeeps⟩ := hblanks.append h.keeps none []
    rw [List.append_nil] at hkeeps
    exact hkeeps.trans (List.append_nil _)
  have hreturn : line.raw.getLast? ≠ some 13 := by
    unfold Line.raw
    rw [List.getLast?_append_of_ne_nil _ h.nonempty]
    intro heq
    exact absurd (h.last 13 heq) (by decide)
  have hstop : ∀ c ∈ line.text.head?, decide (c = 32) = false := by
    rintro c hc
    refine decide_eq_false ?_
    rintro rfl
    exact absurd (h.first 32 hc) (by decide)
  have hall : ∀ c ∈ List.replicate line.indent (32 : UInt8), decide (c = 32) = true := fun c hc =>
    decide_eq_true (List.eq_of_mem_replicate hc)
  obtain ⟨c, more, htext⟩ := List.exists_cons_of_ne_nil h.nonempty
  have hc : ¬ decide (c = 32) = true := Bool.eq_false_iff.mp (hstop c (by rw [htext]; rfl))
  have hdrop : line.raw.dropWhile (· = 32) = line.text := by
    unfold Line.raw
    rw [List.dropWhile_append_of_pos hall, htext,
      List.dropWhile_cons_of_neg (p := fun c => decide (c = 32)) hc]
  have htake : (line.raw.takeWhile (· = 32)).length = line.indent := by
    unfold Line.raw
    rw [List.takeWhile_append_of_pos hall, htext,
      List.takeWhile_cons_of_neg (p := fun c => decide (c = 32)) hc, List.append_nil,
      List.length_replicate]
  have htab : line.text.head? ≠ some 9 := fun heq => absurd (h.first 9 heq) (by decide)
  have htrim : trim line.text = line.text := Scan.strip_self h.first h.last
  unfold tokenizeLine
  simp only [hcomment, if_neg hreturn, hdrop, if_neg htab, htrim, if_neg h.nonempty, htake]

theorem splitOn_lines {lines : List Bytes} (h : ∀ line ∈ lines, newline ∉ line) :
    (lines.flatMap fun line => line ++ [newline]).splitOn newline = lines ++ [[]] := by
  induction lines with
  | nil => exact List.splitOn_nil newline
  | cons line lines ih =>
    rw [List.forall_mem_cons] at h
    rw [List.flatMap_cons, List.append_assoc, List.singleton_append,
      List.splitOn_append_cons_self_of_not_mem h.1, ih h.2]
    rfl

theorem tokenizeLines_of {lines : List Line} (h : ∀ line ∈ lines, IsLine line) :
    tokenizeLines (lines.flatMap fun line => line.raw ++ [newline]) = .ok lines := by
  have hplain : ∀ raw ∈ lines.map Line.raw, newline ∉ raw := by
    intro raw hraw hin
    obtain ⟨line, hline, rfl⟩ := List.mem_map.mp hraw
    rcases List.mem_append.mp hin with hblank | htext
    · exact absurd (List.eq_of_mem_replicate hblank) (by decide)
    · exact (h line hline).newline htext
  have hsplit := splitOn_lines hplain
  rw [List.flatMap_map] at hsplit
  have hall : (lines.map Line.raw ++ [[]]).mapM tokenizeLine =
      .ok (lines.map (fun line => [line]) ++ [[]]) := by
    clear hplain hsplit
    induction lines with
    | nil => rfl
    | cons line lines ih =>
      rw [List.forall_mem_cons] at h
      rw [List.map_cons, List.cons_append, List.mapM_cons, tokenizeLine_raw h.1, ih h.2]
      rfl
  unfold tokenizeLines
  rw [hsplit, hall]
  refine congrArg Except.ok ?_
  rw [List.flatten_append, ← List.flatMap_def, List.flatMap_singleton']
  exact List.append_nil lines

/-! ## Each value is read back -/

theorem trim_value {v : Bytes} (h : IsValue v) : trim v = v := Scan.strip_self h.first h.last

/-- A key that is a word is found before the first colon. -/
theorem parseField_key {key : Bytes} (hkey : key ≠ [] ∧ ∀ c ∈ key, isSpace c = false ∧ c ≠ colon)
    (behind : Bytes) : parseField (key ++ colon :: behind) = .ok ⟨key, trim behind⟩ := by
  have htrim : trim key = key := by
    refine Scan.strip_self (fun c hc => (hkey.2 c ?_).1) fun c hc => (hkey.2 c ?_).1
    · exact List.mem_of_mem_head? hc
    · exact List.mem_of_mem_getLast? hc
  have hblank : ¬ (key = [] ∨ 32 ∈ key ∨ 9 ∈ key) := by
    rintro (hnone | hin | hin)
    · exact hkey.1 hnone
    · exact absurd (hkey.2 32 hin).1 (by decide)
    · exact absurd (hkey.2 9 hin).1 (by decide)
  unfold parseField
  rw [Scan.cut_append fun hin => (hkey.2 colon hin).2 rfl]
  simp only [htrim, if_neg hblank]

/-- A key is read with the value behind it. -/
theorem parseField_value {key v : Bytes}
    (hkey : key ≠ [] ∧ ∀ c ∈ key, isSpace c = false ∧ c ≠ colon)
    (hv : trim v = v) : parseField (key ++ ascii ": " ++ v) = .ok ⟨key, v⟩ := by
  have hcolon : ascii ": " = [colon, 32] := by decide
  have hbehind : trim ([32] ++ v) = v := by
    refine Eq.trans ?_ hv
    unfold trim strip
    rw [List.dropWhile_append_of_pos (by decide)]
  rw [hcolon, List.append_assoc, List.cons_append, parseField_key hkey, hbehind]

theorem parseScalar_scalar {l s : Bytes} (hl : ∀ c ∈ l, isSpace c = true) (h : s ≠ []) :
    parseScalar (l ++ scalar s) = .ok ⟨s, true⟩ := by
  have htrim : trim (l ++ scalar s) = scalar s := by
    have hstrip := Scan.strip_of hl (r := []) nofun (m := scalar s) (by
      intro c hc
      obtain rfl := Option.some.inj hc
      decide) (by
      intro c hc
      rw [scalar, quoted, List.getLast?_append] at hc
      obtain rfl := Option.some.inj hc
      decide)
    rwa [List.append_nil] at hstrip
  have hbody := Quoted.body_escape marks s []
  have hbehind : ¬ trim [] ≠ [] := not_not.mpr rfl
  unfold parseScalar
  rw [htrim, scalar, quoted, List.cons_append]
  simp only [or_true, if_true, hbody]
  rw [if_neg hbehind, if_neg h]

theorem push_item {s : Items} {c : UInt8} (h : s.quoting.quote ≠ none ∨ c ≠ comma) :
    s.push c = .ok { s with item := s.item ++ [c], quoting := s.quoting.next marks c } := by
  refine if_neg ?_
  rintro ⟨hnone, hc⟩
  rcases h with hquote | hother
  · exact hquote hnone
  · exact hother hc

/-- A scalar of a list goes to its item. -/
theorem push_scalar (argv : List Bytes) (item s : Bytes) :
    (scalar s).foldlM Items.push ⟨argv, item, {}⟩ = .ok ⟨argv, item ++ scalar s, {}⟩ := by
  refine Quoted.along_quoted marks (r := fun t x t' => ∀ item,
    x.foldlM Items.push ⟨argv, item, t⟩ = .ok ⟨argv, item ++ x, t'⟩) ?_ ?_ ?_ s item
  · intro t c h item
    have hpush := push_item (s := ⟨argv, item, t⟩) (c := c) (h.imp_right (by rintro rfl; decide))
    rw [List.foldlM_cons, hpush]
    rfl
  · intro t u v x y hx hy item
    rw [List.foldlM_append, hx item]
    refine (hy (item ++ x)).trans ?_
    rw [List.append_assoc]
  · intro item
    rw [List.append_nil]
    rfl

/-- A comma ends a scalar. -/
theorem push_comma {argv : List Bytes} {l w : Bytes} (hl : ∀ c ∈ l, isSpace c = true) (h : w ≠ []) :
    Items.push ⟨argv, l ++ scalar w, {}⟩ comma = .ok ⟨argv ++ [w], [], {}⟩ := by
  unfold Items.push
  rw [if_pos ⟨rfl, rfl⟩, parseScalar_scalar hl h]
  rfl

theorem push_items {ws : List Bytes} (h : ∀ w ∈ ws, w ≠ []) (argv : List Bytes) {l w : Bytes}
    (hl : ∀ c ∈ l, isSpace c = true) (hw : w ≠ []) :
    ((ws.map scalar).flatMap (ascii ", " ++ ·) ++ [comma]).foldlM Items.push
      ⟨argv, l ++ scalar w, {}⟩ = .ok ⟨argv ++ w :: ws, [], {}⟩ := by
  induction ws generalizing argv l w with
  | nil =>
    rw [List.map_nil, List.flatMap_nil, List.nil_append, List.foldlM_cons, push_comma hl hw]
    rfl
  | cons next ws ih =>
    rw [List.forall_mem_cons] at h
    have hseparator : ascii ", " = [comma, 32] := by decide
    have hblank := push_item (s := ⟨argv ++ [w], [], {}⟩) (c := 32) (Or.inr (by decide))
    have hmore := ih h.2 (argv ++ [w]) (l := [32]) (by decide) h.1
    rw [List.append_assoc argv, List.singleton_append] at hmore
    rw [List.map_cons, List.flatMap_cons, hseparator, List.append_assoc, List.append_assoc,
      List.foldlM_append, List.foldlM_cons, push_comma hl hw]
    change ([32].foldlM Items.push ⟨argv ++ [w], [], {}⟩ >>= _) = _
    rw [List.foldlM_cons, hblank]
    change (scalar next ++ _).foldlM Items.push ⟨argv ++ [w], [32], {}⟩ = _
    rw [List.foldlM_append, push_scalar]
    rw [hseparator] at hmore
    exact hmore

theorem push_list {argv : List Bytes} (hne : argv ≠ []) (h : ∀ w ∈ argv, w ≠ []) :
    ((ascii ", ").intercalate (argv.map scalar) ++ [comma]).foldlM Items.push {} =
      .ok ⟨argv, [], {}⟩ := by
  obtain ⟨w, ws, rfl⟩ := List.exists_cons_of_ne_nil hne
  rw [List.forall_mem_cons] at h
  have hfirst := push_scalar [] [] w
  have hitems := push_items h.2 [] (l := []) nofun h.1
  rw [List.map_cons, Scan.intercalate_cons, List.append_assoc, List.foldlM_append, hfirst]
  exact hitems

theorem parseArgv_runList {argv : List Bytes} (hne : argv ≠ []) (h : ∀ w ∈ argv, w ≠ []) :
    parseArgv (runList argv) = .ok argv := by
  have htrim : trim (runList argv) = runList argv := by
    refine Scan.strip_self ?_ ?_
    · intro c hc
      obtain rfl := Option.some.inj hc
      decide
    · intro c hc
      rw [runList, List.getLast?_append] at hc
      obtain rfl := Option.some.inj hc
      decide
  have hsome : argv ≠ [[]] := by
    rintro rfl
    exact h [] (List.mem_singleton_self _) rfl
  have hlist : parseList ((ascii ", ").intercalate (argv.map scalar)) = .ok argv := by
    have hclosed : ¬ ((none : Option UInt8) ≠ none ∨ false = true) := by simp
    refine bind_ok.mpr ⟨⟨argv, [], {}⟩, push_list hne h, ?_⟩
    dsimp only
    rw [if_neg hclosed, if_neg hsome]
  unfold parseArgv
  rw [htrim, runList, List.cons_append]
  simp only [if_true, List.getLast?_append, List.getLast?_singleton, Option.some_or,
    List.dropLast_concat, hlist]

/-! ## Each item is read back -/

theorem parseScalar_value {s : Bytes} (h : s ≠ []) : parseScalar (scalar s) = .ok ⟨s, true⟩ :=
  parseScalar_scalar (l := []) nofun h

/-- The fields of an item: what is on its first line behind the dash, and what is on the other
lines. -/
theorem parseFields_of {key v : Bytes} {inner : List Line} {more : List Field}
    (hkey : key ≠ [] ∧ ∀ c ∈ key, isSpace c = false ∧ c ≠ colon) (hv : trim v = v)
    (hinner : inner.mapM parseInner = .ok more) :
    parseFields (⟨2, dash ++ (key ++ ascii ": " ++ v)⟩, inner) = .ok (⟨key, v⟩ :: more) := by
  have hshape : ¬ ((2 : Nat) ≠ 2 ∨ ¬ dash <+: dash ++ (key ++ ascii ": " ++ v)) := by
    rintro (hindent | hdash)
    · exact hindent rfl
    · exact hdash (List.prefix_append _ _)
  have hdrop : (dash ++ (key ++ ascii ": " ++ v)).drop 2 = key ++ ascii ": " ++ v := rfl
  unfold parseFields
  rw [if_neg hshape, hdrop, parseField_value hkey hv, hinner]
  rfl

theorem parseInner_of (key : Bytes) {v : Bytes} (hdash : key.head? ≠ some 45)
    (hkey : key ≠ [] ∧ ∀ c ∈ key, isSpace c = false ∧ c ≠ colon) (hv : trim v = v) :
    parseInner ⟨4, key ++ ascii ": " ++ v⟩ = .ok ⟨key, v⟩ := by
  have hshape : ¬ ((4 : Nat) ≠ 4 ∨ dash <+: key ++ ascii ": " ++ v) := by
    rintro (hindent | ⟨behind, hbehind⟩)
    · exact hindent rfl
    · obtain ⟨c, rest, rfl⟩ := List.exists_cons_of_ne_nil hkey.1
      have hhead := (List.cons.inj hbehind).1
      exact hdash (congrArg some hhead.symm)
  unfold parseInner
  rw [if_neg hshape, parseField_value hkey hv]

theorem parseFields_stage {stage : RawStage} (hid : newline ∉ stage.id)
    (hwords : ∀ w ∈ stage.argv, newline ∉ w) (hplacement : newline ∉ stage.placement) :
    parseFields stage.lines = .ok [⟨ascii "id", scalar stage.id⟩, ⟨ascii "run", runList stage.argv⟩,
      ⟨ascii "at", scalar stage.placement⟩] := by
  have hrun := parseInner_of (ascii "run") (by decide) (by decide)
    (trim_value (isValue_runList hwords))
  have hat := parseInner_of (ascii "at") (by decide) (by decide)
    (trim_value (isValue_scalar hplacement))
  have hfirst : ascii "- id: " = dash ++ (ascii "id" ++ ascii ": ") := by decide
  have hkeys : ascii "run: " = ascii "run" ++ ascii ": " ∧
      ascii "at: " = ascii "at" ++ ascii ": " := by
    decide
  unfold RawStage.lines
  rw [hfirst, hkeys.1, hkeys.2, List.append_assoc dash]
  refine parseFields_of (by decide) (trim_value (isValue_scalar hid)) ?_
  rw [List.mapM_cons, List.mapM_cons, hrun, hat]
  rfl

theorem parseFields_edge {edge : RawEdge} (hproducer : newline ∉ edge.producer)
    (hconsumer : newline ∉ edge.consumer) :
    parseFields edge.lines =
      .ok [⟨ascii "from", scalar edge.producer⟩, ⟨ascii "to", scalar edge.consumer⟩] := by
  have hto := parseInner_of (ascii "to") (by decide) (by decide)
    (trim_value (isValue_scalar hconsumer))
  have hfirst : ascii "- from: " = dash ++ (ascii "from" ++ ascii ": ") := by decide
  have hkey : ascii "to: " = ascii "to" ++ ascii ": " := by decide
  unfold RawEdge.lines
  rw [hfirst, hkey, List.append_assoc dash]
  refine parseFields_of (by decide) (trim_value (isValue_scalar hproducer)) ?_
  rw [List.mapM_cons, hto]
  rfl

theorem scalarOf_value {key s : Bytes} (h : s ≠ []) : scalarOf ⟨key, scalar s⟩ = .ok s := by
  unfold scalarOf
  rw [parseScalar_value h]
  rfl

theorem parseStage_fields {stage : RawStage} (hid : stage.id ≠ []) (hne : stage.argv ≠ [])
    (hwords : ∀ w ∈ stage.argv, w ≠ []) (hplacement : stage.placement ≠ []) :
    parseStage [⟨ascii "id", scalar stage.id⟩, ⟨ascii "run", runList stage.argv⟩,
      ⟨ascii "at", scalar stage.placement⟩] = .ok stage.stage := by
  have hadd : [⟨ascii "id", scalar stage.id⟩, ⟨ascii "run", runList stage.argv⟩,
      ⟨ascii "at", scalar stage.placement⟩].foldlM StageFields.add {} =
        .ok ⟨some stage.id, some stage.argv, some stage.placement⟩ := by
    have hrun : ascii "run" ≠ ascii "id" := by decide
    have hat : ascii "at" ≠ ascii "id" ∧ ascii "at" ≠ ascii "run" := by decide
    simp only [List.foldlM_cons, List.foldlM_nil, StageFields.add, if_true, if_neg hrun,
      if_neg hat.1, if_neg hat.2, once, scalarOf_value hid, scalarOf_value hplacement,
      parseArgv_runList hne hwords]
    rfl
  unfold parseStage
  rw [hadd]
  rfl

theorem parseEdge_fields {edge : RawEdge} (hproducer : edge.producer ≠ [])
    (hconsumer : edge.consumer ≠ []) :
    parseEdge [⟨ascii "from", scalar edge.producer⟩, ⟨ascii "to", scalar edge.consumer⟩] =
      .ok edge.edge := by
  have hadd : [⟨ascii "from", scalar edge.producer⟩, ⟨ascii "to", scalar edge.consumer⟩].foldlM
      EdgeFields.add {} = .ok ⟨some edge.producer, some edge.consumer⟩ := by
    have hto : ascii "to" ≠ ascii "from" := by decide
    simp only [List.foldlM_cons, List.foldlM_nil, EdgeFields.add, if_true, if_neg hto, once,
      scalarOf_value hproducer, scalarOf_value hconsumer]
    rfl
  unfold parseEdge
  rw [hadd]
  rfl

/-! ## The document is read back -/

theorem addStages {stages : List RawStage} (hids : ∀ stage ∈ stages, IsText stage.id)
    (hcommands : ∀ stage ∈ stages, stage.argv ≠ [])
    (hwords : ∀ stage ∈ stages, ∀ w ∈ stage.argv, IsText w)
    (hplacements : ∀ stage ∈ stages, IsText stage.placement) (d : Document) :
    (stages.map RawStage.lines).foldlM Document.addStage d =
      .ok ⟨⟨d.pipeline.stages ++ stages.map RawStage.stage, d.pipeline.edges⟩, d.sawStages,
        d.sawEdges⟩ := by
  induction stages generalizing d with
  | nil =>
    rw [List.map_nil, List.map_nil, List.append_nil]
    rfl
  | cons stage stages ih =>
    rw [List.forall_mem_cons] at hids hcommands hwords hplacements
    have hfields := parseFields_stage hids.1.2 (fun w hw => (hwords.1 w hw).2) hplacements.1.2
    have hstage := parseStage_fields hids.1.1 hcommands.1 (fun w hw => (hwords.1 w hw).1)
      hplacements.1.1
    have hadd : d.addStage stage.lines = .ok ⟨⟨d.pipeline.stages ++ [stage.stage],
        d.pipeline.edges⟩, d.sawStages, d.sawEdges⟩ :=
      bind_ok.mpr ⟨_, hfields, bind_ok.mpr ⟨stage.stage, hstage, rfl⟩⟩
    rw [List.map_cons, List.foldlM_cons, hadd]
    refine (ih hids.2 hcommands.2 hwords.2 hplacements.2 _).trans ?_
    rw [List.append_assoc]
    rfl

theorem addEdges {edges : List RawEdge}
    (hends : ∀ edge ∈ edges, IsText edge.producer ∧ IsText edge.consumer) (d : Document) :
    (edges.map RawEdge.lines).foldlM Document.addEdge d =
      .ok ⟨⟨d.pipeline.stages, d.pipeline.edges ++ edges.map RawEdge.edge⟩, d.sawStages,
        d.sawEdges⟩ := by
  induction edges generalizing d with
  | nil =>
    rw [List.map_nil, List.map_nil, List.append_nil]
    rfl
  | cons edge edges ih =>
    rw [List.forall_mem_cons] at hends
    have hfields := parseFields_edge hends.1.1.2 hends.1.2.2
    have hedge := parseEdge_fields hends.1.1.1 hends.1.2.1
    have hadd : d.addEdge edge.lines = .ok ⟨⟨d.pipeline.stages,
        d.pipeline.edges ++ [edge.edge]⟩, d.sawStages, d.sawEdges⟩ :=
      bind_ok.mpr ⟨_, hfields, bind_ok.mpr ⟨edge.edge, hedge, rfl⟩⟩
    rw [List.map_cons, List.foldlM_cons, hadd]
    refine (ih hends.2 _).trans ?_
    rw [List.append_assoc]
    rfl

/-- The lines of an item are two blanks deep, and four. -/
def IsItem (item : Line × List Line) : Prop :=
  item.1.indent = 2 ∧ ∀ line ∈ item.2, line.indent = 4

theorem isItem_stage (stage : RawStage) : IsItem stage.lines :=
  ⟨rfl, List.forall_mem_cons.mpr ⟨rfl, List.forall_mem_singleton.mpr rfl⟩⟩

theorem isItem_edge (edge : RawEdge) : IsItem edge.lines :=
  ⟨rfl, List.forall_mem_singleton.mpr rfl⟩

theorem itemsOf_lines {items : List (Line × List Line)} (h : ∀ item ∈ items, IsItem item) :
    itemsOf (items.flatMap fun item => item.1 :: item.2) = .ok items := by
  have hblocks : blocks (fun line => 2 < line.indent)
      (items.flatMap fun item => item.1 :: item.2) = ([], items) := by
    refine Scan.blocks_flatMap fun item hitem => ⟨?_, fun line hline => ?_⟩
    · rw [(h item hitem).1]
      rfl
    · rw [(h item hitem).2 line hline]
      rfl
  unfold itemsOf
  rw [hblocks]

variable {raw : Raw}

theorem addSection_stages (hcommands : ∀ stage ∈ raw.stages, stage.argv ≠ []) (h : raw.Writable) :
    ({} : Document).addSection (sectionOf "stages" (raw.stages.map RawStage.lines)) =
      .ok { pipeline := ⟨raw.stages.map RawStage.stage, []⟩, sawStages := true } := by
  have hkey : parseField (ascii "stages" ++ [colon]) = .ok ⟨ascii "stages", []⟩ :=
    parseField_key (by decide) []
  have hitems := itemsOf_lines (List.forall_mem_map.mpr fun stage (_ : stage ∈ raw.stages) =>
    isItem_stage stage)
  unfold Document.addSection
  refine bind_ok.mpr ⟨_, hkey, ?_⟩
  rw [if_neg (not_not.mpr rfl), if_pos rfl, if_neg Bool.false_ne_true]
  refine bind_ok.mpr ⟨_, hitems, ?_⟩
  exact addStages h.ids hcommands h.words h.placements _

theorem addSection_edges (h : raw.Writable) (stages : List Stage) :
    Document.addSection { pipeline := ⟨stages, []⟩, sawStages := true }
      (sectionOf "edges" (raw.edges.map RawEdge.lines)) =
      .ok ⟨⟨stages, raw.edges.map RawEdge.edge⟩, true, true⟩ := by
  have hkey : parseField (ascii "edges" ++ [colon]) = .ok ⟨ascii "edges", []⟩ :=
    parseField_key (by decide) []
  have hother : ascii "edges" ≠ ascii "stages" := by decide
  have hitems := itemsOf_lines (List.forall_mem_map.mpr fun edge (_ : edge ∈ raw.edges) =>
    isItem_edge edge)
  unfold Document.addSection
  refine bind_ok.mpr ⟨_, hkey, ?_⟩
  rw [if_neg (not_not.mpr rfl), if_neg hother, if_pos rfl, if_neg Bool.false_ne_true]
  refine bind_ok.mpr ⟨_, hitems, ?_⟩
  exact addEdges h.ends _

/-- The sections are found again. -/
theorem blocks_lines : blocks (fun line => 0 < line.indent) raw.lines = ([], raw.sections) := by
  have hsection : ∀ (key : String) {items : List (Line × List Line)},
      (∀ item ∈ items, IsItem item) →
      decide (0 < (sectionOf key items).1.indent) = false ∧
        ∀ line ∈ (sectionOf key items).2, decide (0 < line.indent) = true := by
    intro key items hitems
    refine ⟨rfl, fun line hline => decide_eq_true ?_⟩
    obtain ⟨item, hitem, hline⟩ := List.mem_flatMap.mp hline
    rcases List.mem_cons.mp hline with rfl | hline
    · rw [(hitems item hitem).1]
      decide
    · rw [(hitems item hitem).2 line hline]
      decide
  have hstages := hsection "stages" (List.forall_mem_map.mpr fun stage (_ : stage ∈ raw.stages) =>
    isItem_stage stage)
  have hedges := hsection "edges" (List.forall_mem_map.mpr fun edge (_ : edge ∈ raw.edges) =>
    isItem_edge edge)
  refine Scan.blocks_flatMap (List.forall_mem_cons.mpr ⟨hstages, ?_⟩)
  split_ifs
  · exact nofun
  · exact List.forall_mem_singleton.mpr hedges

theorem parseDocument_lines {plan : Planner.Plan} (hplan : Planner.plan raw.pipeline = .ok plan)
    (h : raw.Writable) : parseDocument raw.lines = .ok raw.pipeline := by
  have hcommands : ∀ stage ∈ raw.stages, stage.argv ≠ [] := fun stage hstage =>
    (Planner.valid_of_ok hplan).commands _ (List.mem_map_of_mem hstage)
  have hsections : ∃ sawEdges, raw.sections.foldlM Document.addSection {} =
      .ok ⟨raw.pipeline, true, sawEdges⟩ := by
    unfold Raw.sections
    rw [List.foldlM_cons]
    split_ifs with hnone
    · refine ⟨false, bind_ok.mpr ⟨_, addSection_stages hcommands h, ?_⟩⟩
      rw [List.foldlM_nil, Raw.pipeline, hnone]
      rfl
    · refine ⟨true, bind_ok.mpr ⟨_, addSection_stages hcommands h, ?_⟩⟩
      rw [List.foldlM_cons, addSection_edges h]
      rfl
  obtain ⟨sawEdges, hdocument⟩ := hsections
  unfold parseDocument
  rw [blocks_lines]
  refine bind_ok.mpr ⟨_, hdocument, ?_⟩
  rw [if_neg Bool.true_eq_false.mp]
  exact bind_ok.mpr ⟨plan, hplan, rfl⟩

/-! ## The round trip -/

theorem isLine_field {indent : Nat} (front : Bytes) {v : Bytes} (hfront : front ≠ [] ∧
    (∀ c ∈ front, c ≠ hash ∧ c ≠ marks.single ∧ c ≠ marks.double ∧ c ≠ newline) ∧
    ∀ c ∈ front.head?, isSpace c = false) (hv : IsValue v) : IsLine ⟨indent, front ++ v⟩ :=
  isLine_of hfront.2.1 hfront.1 hfront.2.2 hv

theorem isValue_colon : IsValue (ascii ":") where
  keeps := keeps_plain (by decide)
  newline := by decide
  nonempty := by decide
  first := by decide
  last := by decide

theorem isLine_lines (h : raw.Writable) : ∀ line ∈ raw.lines, IsLine line := by
  have hstage : ∀ stage ∈ raw.stages, ∀ line ∈ stage.lines.1 :: stage.lines.2, IsLine line := by
    intro stage hstage
    refine List.forall_mem_cons.mpr ⟨?_, List.forall_mem_cons.mpr ⟨?_,
      List.forall_mem_singleton.mpr ?_⟩⟩
    · exact isLine_field _ (by decide) (isValue_scalar (h.ids stage hstage).2)
    · exact isLine_field _ (by decide)
        (isValue_runList fun w hw => (h.words stage hstage w hw).2)
    · exact isLine_field _ (by decide) (isValue_scalar (h.placements stage hstage).2)
  have hedge : ∀ edge ∈ raw.edges, ∀ line ∈ edge.lines.1 :: edge.lines.2, IsLine line := by
    intro edge hedge
    refine List.forall_mem_cons.mpr ⟨?_, List.forall_mem_singleton.mpr ?_⟩
    · exact isLine_field _ (by decide) (isValue_scalar (h.ends edge hedge).1.2)
    · exact isLine_field _ (by decide) (isValue_scalar (h.ends edge hedge).2.2)
  intro line hline
  obtain ⟨block, hblock, hline⟩ := List.mem_flatMap.mp hline
  have hcases : block = sectionOf "stages" (raw.stages.map RawStage.lines) ∨
      block = sectionOf "edges" (raw.edges.map RawEdge.lines) := by
    unfold Raw.sections at hblock
    split_ifs at hblock
    · exact Or.inl (List.mem_singleton.mp hblock)
    · exact List.mem_pair.mp hblock
  rcases hcases with rfl | rfl
  · rcases List.mem_cons.mp hline with rfl | hline
    · exact isLine_field (ascii "stages") (by decide) isValue_colon
    · obtain ⟨item, hitem, hline⟩ := List.mem_flatMap.mp hline
      obtain ⟨stage, hin, rfl⟩ := List.mem_map.mp hitem
      exact hstage stage hin line hline
  · rcases List.mem_cons.mp hline with rfl | hline
    · exact isLine_field (ascii "edges") (by decide) isValue_colon
    · obtain ⟨item, hitem, hline⟩ := List.mem_flatMap.mp hline
      obtain ⟨edge, hin, rfl⟩ := List.mem_map.mp hitem
      exact hedge edge hin line hline

/-- A pipeline that can be planned and is written with every string in quotes is loaded as it was,
whatever other bytes its strings have. -/
theorem a_pipeline_file_reads_back {plan : Planner.Plan}
    (hplan : Planner.plan raw.pipeline = .ok plan) (h : raw.Writable) :
    loadPipelineYaml (render raw) = .ok raw.pipeline := by
  have hlines : tokenizeLines (render raw) = .ok raw.lines := tokenizeLines_of (isLine_lines h)
  exact bind_ok.mpr ⟨raw.lines, hlines, parseDocument_lines hplan h⟩

/-- Quotes, a backslash, a `#` behind a blank, a colon, a comma and a bracket in the words. -/
def quotes : Raw where
  stages :=
    [⟨ascii "a #1", [ascii "say", ascii "\"x\\ #, ]: 'y"], ascii "web 1"⟩, ⟨ascii "b", [[9]], [13]⟩]
  edges := [⟨ascii "a #1", ascii "b"⟩]

theorem quotes_read_back : loadPipelineYaml (render quotes) = .ok quotes.pipeline := by
  have hplan : Planner.plan quotes.pipeline = .ok ⟨["a #1", "b"]⟩ := by decide
  refine a_pipeline_file_reads_back hplan ?_
  constructor <;> unfold IsText <;> decide

end psx.pipeline.PipelineYaml
