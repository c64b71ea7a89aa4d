-- The lines that the import makes of the entries of a legacy list, and what the inventory reads in
-- them. An option whose value has a blank in it comes apart, and what is behind the blank is no
-- option.
import PipeShellX.Inventory.ClientForms
import PipeShellX.Inventory.Rewrite

namespace psx.inventory

open Text (ascii getlines)
open Scan (words IsWord words_append words_first exists_word mem_of_words cut cut_append cut_none)
open Decimal (isDigit)
open ClientConfig (UrlParts)

/-! ## Words -/

/-- A host token with options behind it. -/
def lineText (token : Bytes) (options : List (Bytes × Bytes)) : Bytes :=
  token ++ options.flatMap fun o => 32 :: optionText o

/-- The first word of a text that begins with one. -/
def front (s : Bytes) : Bytes := s.takeWhile fun b => !isBlank b

/-- A text from its first blank on. -/
def back (s : Bytes) : Bytes := s.dropWhile fun b => !isBlank b

theorem front_back (s : Bytes) : front s ++ back s = s := List.takeWhile_append_dropWhile

/-- A text that is its first word but for blanks behind it, and that does not end in one. -/
theorem front_self {s : Bytes} (hlast : ∀ b ∈ s.getLast?, isBlank b = false)
    (hback : ∀ b ∈ back s, isBlank b = true) : front s = s := by
  have hwhole := front_back s
  have hnone : back s = [] := by
    by_contra hsome
    have hend : s.getLast? = some ((back s).getLast hsome) := by
      have happend := List.getLast?_append_of_ne_nil (front s) hsome
      rw [hwhole] at happend
      exact happend.trans (List.getLast?_eq_some_getLast hsome)
    have hblank := hback _ (List.getLast_mem hsome)
    rw [hlast _ hend] at hblank
    cases hblank
  rw [hnone, List.append_nil] at hwhole
  exact hwhole

theorem words_lineText (token : Bytes) (options : List (Bytes × Bytes)) :
    splitWhitespace (lineText token options) =
      splitWhitespace token ++ options.flatMap fun o => splitWhitespace (optionText o) := by
  have hblank : isBlank 32 = true := rfl
  unfold lineText
  induction options generalizing token with
  | nil => rw [List.flatMap_nil, List.flatMap_nil, List.append_nil, List.append_nil]
  | cons o options ih =>
    rw [List.flatMap_cons, List.flatMap_cons, List.cons_append, splitWhitespace,
      words_append hblank]
    exact congrArg (splitWhitespace token ++ ·) (ih (optionText o))

theorem splitWhitespace_first {s : Bytes} (hne : s ≠ [])
    (hfirst : ∀ b ∈ s.head?, isBlank b = false) :
    splitWhitespace s = front s :: splitWhitespace (back s) := (words_first hne hfirst).2

theorem front_option {key value : Bytes} (h : IsToken key) :
    front (optionText (key, value)) = optionText (key, front value) ∧
      back (optionText (key, value)) = back value := by
  have hkey : ∀ b ∈ key ++ [equals], (!isBlank b) = true := by
    intro b hb
    rcases List.mem_append.mp hb with hb | hb
    · rw [(h b hb).1]
      rfl
    · rw [List.mem_singleton.mp hb]
      rfl
  have hsplit : ∀ v, optionText (key, v) = (key ++ [equals]) ++ v := fun v => by simp [optionText]
  unfold front back
  rw [hsplit, hsplit, List.takeWhile_append_of_pos hkey, List.dropWhile_append_of_pos hkey]
  exact ⟨rfl, rfl⟩

/-- Text without `=` whose words all have one is blank. -/
theorem blank_of_words {s : Bytes} (hnot : equals ∉ s) (h : ∀ w ∈ splitWhitespace s, equals ∈ w) :
    ∀ b ∈ s, isBlank b = true := by
  intro b hb
  by_contra hblank
  obtain ⟨w, hw, -⟩ := exists_word hb (Bool.eq_false_iff.mpr hblank)
  exact hnot (mem_of_words hw equals (h w hw))

theorem words_of_blank {s : Bytes} (h : ∀ b ∈ s, isBlank b = true) : splitWhitespace s = [] := by
  refine List.eq_nil_iff_forall_not_mem.mpr fun w hw => ?_
  obtain ⟨hsome, hunblank⟩ := Scan.isWord_of_mem hw
  obtain ⟨b, rest, rfl⟩ := List.exists_cons_of_ne_nil hsome
  have hb := hunblank b List.mem_cons_self
  rw [h b (mem_of_words hw b List.mem_cons_self)] at hb
  cases hb

/-- The words of a line of which every word but the first has a `=`: each part of the line gives
one, and the rest of the part is blank. -/
theorem line_words {token : Bytes} {options : List (Bytes × Bytes)} (htoken : token ≠ [])
    (hfirst : ∀ b ∈ token.head?, isBlank b = false) (hnot : equals ∉ token)
    (hoptions : ∀ o ∈ options, (IsToken o.1 ∧ o.1 ≠ []) ∧ equals ∉ o.2)
    (hall : ∀ w ∈ (splitWhitespace (lineText token options)).tail, equals ∈ w) :
    splitWhitespace (lineText token options) =
        front token :: options.map (fun o => optionText (o.1, front o.2)) ∧
      (∀ b ∈ back token, isBlank b = true) ∧ ∀ o ∈ options, ∀ b ∈ back o.2, isBlank b = true := by
  have hwords : ∀ o ∈ options, splitWhitespace (optionText o) =
      optionText (o.1, front o.2) :: splitWhitespace (back o.2) := by
    rintro ⟨key, value⟩ ho
    obtain ⟨⟨hkey, hsome⟩, -⟩ := hoptions _ ho
    obtain ⟨b, rest, rfl⟩ := List.exists_cons_of_ne_nil hsome
    have hhead : ∀ c ∈ (optionText (b :: rest, value)).head?, isBlank c = false := fun c hc =>
      Option.some.inj hc ▸ (hkey b List.mem_cons_self).1
    rw [splitWhitespace_first (by simp [optionText]) hhead, (front_option hkey).1,
      (front_option hkey).2]
  rw [words_lineText, splitWhitespace_first htoken hfirst] at hall ⊢
  rw [List.cons_append, List.tail_cons] at hall
  have hback : ∀ b ∈ back token, isBlank b = true := by
    refine blank_of_words (fun hin => hnot (List.dropWhile_subset _ hin)) fun w hw => ?_
    exact hall w (List.mem_append_left _ hw)
  have hbacks : ∀ o ∈ options, ∀ b ∈ back o.2, isBlank b = true := by
    intro o ho
    refine blank_of_words (fun hin => (hoptions o ho).2 (List.dropWhile_subset _ hin))
      fun w hw => ?_
    refine hall w (List.mem_append_right _ (List.mem_flatMap.mpr ⟨o, ho, ?_⟩))
    rw [hwords o ho]
    exact List.mem_cons_of_mem _ hw
  refine ⟨?_, hback, hbacks⟩
  have hone : ∀ o ∈ options, splitWhitespace (optionText o) = [optionText (o.1, front o.2)] :=
    fun o ho => by rw [hwords o ho, words_of_blank (hbacks o ho)]
  rw [words_of_blank hback, List.cons_append, List.nil_append, List.flatMap_congr hone,
    List.map_eq_flatMap]

/-! ## The line of a URL -/

/-- The parameters that the import keeps. -/
def parameterKeys : List Bytes := [ascii "identity", ascii "key", ascii "san", ascii "native_port"]

/-- `key` is another name for `identity`. -/
def importedKey (key : Bytes) : Bytes := if key = ascii "key" then ascii "identity" else key

/-- A parameter as the option that it becomes. -/
def imported (f : Bytes × Bytes) : Bytes × Bytes := (importedKey f.1, f.2)

theorem importParameter_field {f : Bytes × Bytes} (hkey : f.1 ∈ parameterKeys) (hvalue : f.2 ≠ [])
    (lineNumber : Nat) (done done' : List Bytes × Bytes) :
    importParameter lineNumber done (optionText f) = .ok done' ↔
      importedKey f.1 ∉ done.1 ∧
        done' = (done.1 ++ [importedKey f.1], done.2 ++ 32 :: optionText (imported f)) := by
  obtain ⟨key, value⟩ := f
  have hform : ∀ key ∈ parameterKeys, equals ∉ key ∧ key ≠ [] ∧ isSecret key = false ∧
      ¬ (importedKey key ≠ ascii "identity" ∧ importedKey key ≠ ascii "san" ∧
        importedKey key ≠ ascii "native_port") := by decide
  obtain ⟨hequals, hsome, hsecret, hknown⟩ := hform key hkey
  have htext : done.2 ++ ascii " " ++ importedKey key ++ [equals] ++ value =
      done.2 ++ 32 :: optionText (imported (key, value)) := by
    have hspace : ascii " " = [32] := by decide
    simp [hspace, imported, optionText]
  have hstep : importParameter lineNumber done (optionText (key, value)) =
      if importedKey key ∈ done.1 then
        fail lineNumber (ascii "duplicate SSH URL query parameter '" ++
          importedKey key ++ ascii "'")
      else
        .ok (done.1 ++ [importedKey key], done.2 ++ 32 :: optionText (imported (key, value))) := by
    unfold importParameter optionText
    rw [cut_append hequals]
    dsimp only
    rw [if_neg (not_or.mpr ⟨hsome, hvalue⟩), hsecret, if_neg Bool.false_ne_true]
    rw [show (if key = ascii "key" then ascii "identity" else key) = importedKey key from rfl,
      if_neg hknown, htext]
    rfl
  rw [hstep]
  split_ifs with hin
  · exact iff_of_false fail_ok fun h => h.1 hin
  · exact ⟨fun h => ⟨hin, (Except.ok.inj h).symm⟩, fun h => congrArg _ h.2.symm⟩

/-- The parameters of a URL become options, if no two of them are the same option. -/
theorem importParameters_iff {fields : List (Bytes × Bytes)}
    (h : ∀ f ∈ fields, f.1 ∈ parameterKeys ∧ f.2 ≠ []) (lineNumber : Nat)
    (done done' : List Bytes × Bytes) :
    (fields.map optionText).foldlM (importParameter lineNumber) done = .ok done' ↔
      ((∀ f ∈ fields, importedKey f.1 ∉ done.1) ∧ (fields.map fun f => importedKey f.1).Nodup) ∧
        done' = (done.1 ++ fields.map (fun f => importedKey f.1),
          lineText done.2 (fields.map imported)) := by
  induction fields generalizing done with
  | nil =>
    simp only [List.map_nil, List.foldlM_nil, List.append_nil, lineText, List.flatMap_nil]
    refine ⟨fun h => ⟨⟨nofun, List.nodup_nil⟩, (pure_ok.mp h).symm⟩, fun h => ?_⟩
    rw [h.2]
    rfl
  | cons f fields ih =>
    rw [List.forall_mem_cons] at h
    have hmore : lineText (done.2 ++ 32 :: optionText (imported f)) (fields.map imported) =
        lineText done.2 ((f :: fields).map imported) := by simp [lineText]
    rw [List.map_cons, List.foldlM_cons, bind_ok]
    simp only [importParameter_field h.1.1 h.1.2, ih h.2]
    rw [List.forall_mem_cons, List.map_cons, List.nodup_cons, ← hmore]
    constructor
    · rintro ⟨next, ⟨hnew, rfl⟩, ⟨hrest, hnodup⟩, rfl⟩
      have hapart : ∀ g ∈ fields, importedKey g.1 ∉ done.1 ∧ importedKey g.1 ≠ importedKey f.1 := by
        intro g hg
        have hnot := hrest g hg
        rw [List.mem_append, List.mem_singleton, not_or] at hnot
        exact hnot
      refine ⟨⟨⟨hnew, fun g hg => (hapart g hg).1⟩, fun hin => ?_, hnodup⟩, by simp⟩
      obtain ⟨g, hg, heq⟩ := List.mem_map.mp hin
      exact (hapart g hg).2 heq
    · rintro ⟨⟨⟨hnew, hrest⟩, hnot, hnodup⟩, rfl⟩
      refine ⟨_, ⟨hnew, rfl⟩, ⟨fun g hg => ?_, hnodup⟩, by simp⟩
      rw [List.mem_append, List.mem_singleton, not_or]
      exact ⟨hrest g hg, fun heq => hnot (List.mem_map.mpr ⟨g, hg, heq⟩)⟩

theorem cutLast_append {c : UInt8} {behind : Bytes} (h : c ∉ behind) (before : Bytes) :
    cutLast c (before ++ c :: behind) = some (before, behind) := by
  have hreverse : (before ++ c :: behind).reverse = behind.reverse ++ c :: before.reverse := by simp
  unfold cutLast
  rw [hreverse, cut_append (fun hin => h (List.mem_reverse.mp hin))]
  simp

theorem cutLast_none {c : UInt8} {s : Bytes} (h : c ∉ s) : cutLast c s = none := by
  unfold cutLast
  rw [cut_none.mpr fun hin => h (List.mem_reverse.mp hin)]
  rfl

theorem cutLast_some {c : UInt8} {s before behind : Bytes}
    (h : cutLast c s = some (before, behind)) : s = before ++ c :: behind := by
  obtain ⟨r, hcut, heq⟩ := Option.map_eq_some_iff.mp h
  obtain ⟨rfl, rfl⟩ := Prod.mk.inj heq
  have hreverse := congrArg List.reverse (Scan.cut_some.mp hcut).1
  rw [List.reverse_reverse] at hreverse
  simpa using hreverse

/-- The options that the parts of a URL become. -/
def optionsOf (p : UrlParts) (fields : List (Bytes × Bytes)) : List (Bytes × Bytes) :=
  (p.port.elim [] fun port => [(ascii "port", port)]) ++ fields.map imported

/-- The URL is rewritten into a line: the token and the port, and then the parameters. -/
theorem normalize_text {p : UrlParts} (hmarks : p.Marked) (hcolon : colon ∉ p.user)
    (hport : ∀ port ∈ p.port, colon ∉ port) (lineNumber : Nat) :
    normalize lineNumber p.text =
      (getlines 38 (p.query.getD [])).foldlM (importParameter lineNumber)
        ([], lineText (p.user ++ sign :: p.host)
          (p.port.elim [] fun port => [(ascii "port", port)])) >>=
      fun done => .ok done.2 := by
  obtain ⟨user, host, port, query⟩ := p
  obtain ⟨huser, hhost, hmark⟩ := hmarks
  dsimp only at huser hhost hcolon hport ⊢
  set authority := UrlParts.authority ⟨user, host, port, query⟩ with hauthority
  have hscheme : (ascii "ssh://").isPrefixOf (UrlParts.text ⟨user, host, port, query⟩) = true :=
    List.isPrefixOf_iff_prefix.mpr (List.prefix_append _ _)
  have hdrop : (UrlParts.text ⟨user, host, port, query⟩).drop 6 =
      authority ++ query.elim [] fun query => 63 :: query := List.drop_left' (by decide)
  have hsplit : (cut 63 (authority ++ query.elim [] fun query => 63 :: query)).getD
      (authority ++ query.elim [] fun query => 63 :: query, []) = (authority, query.getD []) := by
    cases query with
    | none =>
      rw [Option.elim_none, List.append_nil, cut_none.mpr hmark]
      rfl
    | some query =>
      rw [Option.elim_some, cut_append hmark]
      rfl
  have hpassword : hasPassword authority = false := by
    unfold hasPassword
    rw [hauthority, UrlParts.authority, cut_append huser]
    exact decide_eq_false hcolon
  unfold normalize
  rw [if_pos hscheme, hdrop]
  dsimp only
  rw [hsplit, hpassword, if_neg Bool.false_ne_true]
  cases port with
  | none =>
    have htext : authority = user ++ sign :: host := by
      simp [hauthority, UrlParts.authority]
    have hnone : cutLast colon authority = none := by
      refine cutLast_none fun hin => ?_
      rw [htext] at hin
      rcases List.mem_append.mp hin with hin | hin
      · exact hcolon hin
      · rcases List.mem_cons.mp hin with heq | hin
        · exact absurd heq (by decide)
        · exact hhost hin
    rw [hnone, Option.elim_none, lineText, List.flatMap_nil, List.append_nil, ← htext]
    rfl
  | some port =>
    have hlast : cutLast colon authority = some (user ++ sign :: host, port) := by
      have htext : authority = (user ++ sign :: host) ++ colon :: port := by
        simp [hauthority, UrlParts.authority]
      rw [htext, cutLast_append (hport port rfl)]
    have hspace : ascii " port=" = 32 :: ascii "port" ++ [equals] := by decide
    have htext : user ++ sign :: host ++ ascii " port=" ++ port =
        lineText (user ++ sign :: host) [(ascii "port", port)] := by
      simp [lineText, optionText, hspace]
    rw [hlast]
    dsimp only
    rw [if_pos (.inr (by simp)), htext]
    rfl

theorem normalize_parts {p : UrlParts} (hmarks : p.Marked) (hcolon : colon ∉ p.user)
    (hport : ∀ port ∈ p.port, colon ∉ port) {fields : List (Bytes × Bytes)}
    (hquery : getlines 38 (p.query.getD []) = fields.map optionText)
    (hfields : ∀ f ∈ fields, f.1 ∈ parameterKeys ∧ f.2 ≠ []) (lineNumber : Nat)
    (normalized : Bytes) :
    normalize lineNumber p.text = .ok normalized ↔ (fields.map fun f => importedKey f.1).Nodup ∧
      normalized = lineText (p.user ++ sign :: p.host) (optionsOf p fields) := by
  have htext : ∀ token,
      lineText (lineText token (p.port.elim [] fun port => [(ascii "port", port)]))
      (fields.map imported) = lineText token (optionsOf p fields) := fun token => by
    simp [lineText, optionsOf]
  rw [normalize_text hmarks hcolon hport, hquery, bind_ok, ← htext]
  simp only [importParameters_iff hfields]
  constructor
  · rintro ⟨done, ⟨⟨-, hnodup⟩, rfl⟩, hlast⟩
    exact ⟨hnodup, (Except.ok.inj hlast).symm⟩
  · rintro ⟨hnodup, rfl⟩
    exact ⟨_, ⟨⟨fun _ _ => List.not_mem_nil, hnodup⟩, rfl⟩, rfl⟩

/-- Without parameters there is nothing to refuse. -/
theorem normalize_bare {p : UrlParts} (hmarks : p.Marked) (hcolon : colon ∉ p.user)
    (hport : ∀ port ∈ p.port, colon ∉ port) (hquery : p.query = none) (lineNumber : Nat)
    (normalized : Bytes) : normalize lineNumber p.text = .ok normalized ↔
      normalized = lineText (p.user ++ sign :: p.host) (optionsOf p []) := by
  have hnone : getlines 38 (p.query.getD []) = ([] : List (Bytes × Bytes)).map optionText := by
    rw [hquery]
    rfl
  rw [normalize_parts hmarks hcolon hport hnone nofun]
  exact and_iff_right List.nodup_nil

end psx.inventory
