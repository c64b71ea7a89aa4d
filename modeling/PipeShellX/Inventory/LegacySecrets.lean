-- The secrets of a legacy list of clients: what stands in the query of an ssh URL under the name of
-- a secret decides nothing in the import.
import PipeShellX.Inventory.ClientConfig

namespace psx.inventory

open Text (ascii getlines)
open Scan (strip cut)
open ClientConfig (isSpace)

def ampersand : UInt8 := 38

def question : UInt8 := 63

/-! ## Texts that differ in their secrets -/

/-- No blank and no `&`, and something at all. -/
def IsSecretValue (value : Bytes) : Prop :=
  value ≠ [] ∧ ∀ c ∈ value, isSpace c = false ∧ c ≠ ampersand

/-- The same parameter, or the same secret with a value of its own in each. -/
inductive SameParameter : Bytes → Bytes → Prop
  | same (parameter : Bytes) : SameParameter parameter parameter
  | secret {key value value' : Bytes} (hkey : isSecret key = true) (hvalue : IsSecretValue value)
      (hvalue' : IsSecretValue value') :
      SameParameter (key ++ equals :: value) (key ++ equals :: value')

/-- The line of an ssh URL. -/
def urlLine (lead authority : Bytes) (parameters : List Bytes) (trail : Bytes) : Bytes :=
  lead ++ (ascii "ssh://" ++ authority ++ [question]) ++
    ([ampersand].intercalate parameters ++ trail)

/-- The same line, or an ssh URL with the same parameters but for the values of secrets. -/
inductive SameLine : Bytes → Bytes → Prop
  | same (line : Bytes) : SameLine line line
  | url {lead authority trail : Bytes} {parameters parameters' : List Bytes}
      (hlead : ∀ c ∈ lead, isTrimmed c = true) (htrail : ∀ c ∈ trail, isTrimmed c = true)
      (hauthority : question ∉ authority)
      (hparameters : ∀ parameter ∈ parameters, ampersand ∉ parameter)
      (hsame : List.Forall₂ SameParameter parameters parameters') :
      SameLine (urlLine lead authority parameters trail) (urlLine lead authority parameters' trail)

/-- Two texts that differ only in the values of secrets. -/
def SameButSecrets (text text' : Bytes) : Prop :=
  List.Forall₂ SameLine (text.splitOn newline) (text'.splitOn newline)

/-! ## One line -/

theorem isSecret_iff {key : Bytes} : isSecret key = true ↔
    key = ascii "password" ∨ key = ascii "pass" ∨ key = ascii "secret" ∨ key = ascii "token" := by
  simp only [isSecret, Bool.or_eq_true, decide_eq_true_eq, or_assoc]

theorem isSecret_key {key : Bytes} (h : isSecret key = true) :
    key ≠ [] ∧ equals ∉ key ∧ ampersand ∉ key := by
  rcases isSecret_iff.mp h with rfl | rfl | rfl | rfl <;> decide

theorem importParameter_same {lineNumber : Nat} {done : List Bytes × Bytes}
    {parameter parameter' : Bytes} (h : SameParameter parameter parameter') :
    importParameter lineNumber done parameter = importParameter lineNumber done parameter' := by
  cases h with
  | same => rfl
  | @secret key value value' hkey hvalue hvalue' =>
    obtain ⟨hne, hequals, -⟩ := isSecret_key hkey
    -- a secret leaves the line as it is, whatever its value
    have hdone : ∀ {v : Bytes}, v ≠ [] → importParameter lineNumber done (key ++ equals :: v) =
        .ok done := by
      intro v hv
      unfold importParameter
      rw [Scan.cut_append hequals]
      dsimp only
      rw [if_neg (not_or.mpr ⟨hne, hv⟩), if_pos hkey]
      rfl
    rw [hdone hvalue.1, hdone hvalue'.1]

theorem SameParameter.ampersand {parameter parameter' : Bytes}
    (h : SameParameter parameter parameter')
    (hnone : ampersand ∉ parameter) : ampersand ∉ parameter' := by
  cases h with
  | same => exact hnone
  | secret hkey hvalue hvalue' =>
    intro hin
    rcases List.mem_append.mp hin with hin | hin
    · exact (isSecret_key hkey).2.2 hin
    · rcases List.mem_cons.mp hin with heq | hin
      · exact absurd heq (by decide)
      · exact (hvalue'.2 _ hin).2 rfl

/-- A value without blanks is not trimmed. -/
theorem rdropWhile_secret {key value : Bytes} (hvalue : IsSecretValue value) :
    (key ++ equals :: value).rdropWhile isTrimmed = key ++ equals :: value := by
  refine List.rdropWhile_eq_self_iff.mpr fun hne => ?_
  rw [List.getLast_append_of_ne_nil _ (List.cons_ne_nil _ _), List.getLast_cons hvalue.1]
  have hspace := (hvalue.2 _ (List.getLast_mem hvalue.1)).1
  intro htrimmed
  rw [ClientConfig.isSpace_of_isTrimmed htrimmed] at hspace
  cases hspace

theorem SameParameter.trimmed {parameter parameter' : Bytes}
    (h : SameParameter parameter parameter') :
    SameParameter (parameter.rdropWhile isTrimmed) (parameter'.rdropWhile isTrimmed) := by
  cases h with
  | same => exact .same _
  | secret hkey hvalue hvalue' =>
    rw [rdropWhile_secret hvalue, rdropWhile_secret hvalue']
    exact .secret hkey hvalue hvalue'

/-! ## The query -/

/-- What `getline` finds in a text without delimiters, which is nothing when the text is empty. -/
theorem getlines_one {item : Bytes} (h : ampersand ∉ item) :
    getlines ampersand item = if item = [] then [] else [item] := by
  split_ifs with hempty
  · rw [hempty, getlines]
  · exact Text.getlines_last h hempty

theorem SameParameter.nil_iff {parameter parameter' : Bytes}
    (h : SameParameter parameter parameter') :
    parameter = [] ↔ parameter' = [] := by
  cases h with
  | same => exact Iff.rfl
  | secret => simp

theorem not_mem_trimmed {parameter : Bytes} (h : ampersand ∉ parameter) :
    ampersand ∉ parameter.rdropWhile isTrimmed :=
  fun hin => h ((List.rdropWhile_prefix isTrimmed parameter).subset hin)

/-- The queries of two lines have the same parameters but for the values of secrets. -/
theorem getlines_same {parameters parameters' : List Bytes}
    (hnone : ∀ parameter ∈ parameters, ampersand ∉ parameter)
    (h : List.Forall₂ SameParameter parameters parameters') :
    List.Forall₂ SameParameter
      (getlines ampersand (([ampersand].intercalate parameters).rdropWhile isTrimmed))
      (getlines ampersand (([ampersand].intercalate parameters').rdropWhile isTrimmed)) := by
  induction h with
  | nil => exact .nil
  | @cons parameter parameter' parameters parameters' hsame hrest ih =>
    obtain ⟨hone, hothers⟩ := List.forall_mem_cons.mp hnone
    have hone' := hsame.ampersand hone
    cases hrest with
    | nil =>
      rw [List.intercalate_singleton, List.intercalate_singleton,
        getlines_one (not_mem_trimmed hone),
        getlines_one (not_mem_trimmed hone')]
      have htrimmed := hsame.trimmed
      by_cases hempty : parameter.rdropWhile isTrimmed = []
      · rw [if_pos hempty, if_pos (htrimmed.nil_iff.mp hempty)]
        exact .nil
      · rw [if_neg hempty, if_neg (mt htrimmed.nil_iff.mpr hempty)]
        exact .cons htrimmed .nil
    | cons hnext hrest =>
      have hkept : isTrimmed ampersand = false := rfl
      rw [List.intercalate_cons_cons, List.intercalate_cons_cons, List.append_assoc,
        List.append_assoc,
        List.singleton_append, List.singleton_append, Scan.rdropWhile_append hkept,
        Scan.rdropWhile_append hkept, Text.getlines_first hone, Text.getlines_first hone']
      exact .cons hsame (ih hothers)

theorem foldlM_same {lineNumber : Nat} {parameters parameters' : List Bytes}
    (h : List.Forall₂ SameParameter parameters parameters') (done : List Bytes × Bytes) :
    parameters.foldlM (importParameter lineNumber) done =
      parameters'.foldlM (importParameter lineNumber) done := by
  induction h generalizing done with
  | nil => rfl
  | cons hsame hrest ih =>
    rw [List.foldlM_cons, List.foldlM_cons, importParameter_same hsame]
    exact congrArg _ (funext ih)

/-! ## The import -/

theorem trim_urlLine {lead authority trail : Bytes} (hlead : ∀ c ∈ lead, isTrimmed c = true)
    (htrail : ∀ c ∈ trail, isTrimmed c = true) (parameters : List Bytes) :
    trim (urlLine lead authority parameters trail) = ascii "ssh://" ++
      (authority ++ question :: ([ampersand].intercalate parameters).rdropWhile isTrimmed) := by
  have hquery : ([ampersand].intercalate parameters ++ trail).rdropWhile isTrimmed =
      ([ampersand].intercalate parameters).rdropWhile isTrimmed := by
    induction trail using List.reverseRecOn with
    | nil => rw [List.append_nil]
    | append_singleton trail c ih =>
      rw [← List.append_assoc, List.rdropWhile_concat_pos _ _ _ (htrail c (by simp)),
        ih fun x hx => htrail x (List.mem_append_left _ hx)]
  have hlast : ∀ c ∈ (ascii "ssh://" ++ authority ++ [question]).getLast?, isTrimmed c = false := by
    rw [List.getLast?_concat]
    decide
  have hfirst : ∀ c ∈ (ascii "ssh://" ++ authority ++ [question]).head?, isTrimmed c = false := by
    rw [List.append_assoc, List.head?_append_of_ne_nil _ (by decide)]
    decide
  have hnone : lead.dropWhile isTrimmed = [] := List.dropWhile_eq_nil_iff.mpr hlead
  unfold trim urlLine
  rw [Scan.strip_middle (by simp) hfirst hlast, hnone, hquery]
  simp only [List.nil_append, List.append_assoc, List.singleton_append]

theorem normalize_url (lineNumber : Nat) {authority query query' : Bytes} (h : question ∉ authority)
    (hsame : List.Forall₂ SameParameter (getlines ampersand query) (getlines ampersand query')) :
    normalize lineNumber (ascii "ssh://" ++ (authority ++ question :: query)) =
      normalize lineNumber (ascii "ssh://" ++ (authority ++ question :: query')) := by
  have hscheme : ∀ s : Bytes, (ascii "ssh://").isPrefixOf (ascii "ssh://" ++ s) = true := fun s =>
    List.isPrefixOf_iff_prefix.mpr (List.prefix_append _ s)
  have hdrop : ∀ s : Bytes, (ascii "ssh://" ++ s).drop 6 = s := fun s =>
    List.drop_left' (by decide)
  have hcut : ∀ query : Bytes, (cut 63 (authority ++ question :: query)).getD
      (authority ++ question :: query, []) = (authority, query) := fun query => by
    rw [show (63 : UInt8) = question from rfl, Scan.cut_append h]
    rfl
  unfold normalize
  rw [if_pos (hscheme _), if_pos (hscheme _)]
  simp only [hdrop, hcut]
  have hfold : ∀ done, (getlines 38 query).foldlM (importParameter lineNumber) done =
      (getlines 38 query').foldlM (importParameter lineNumber) done := foldlM_same hsame
  simp only [hfold]

theorem importLine_same {lineNumber : Nat} {done : List Bytes × Bytes} {raw raw' : Bytes}
    (h : SameLine raw raw') : importLine lineNumber done raw = importLine lineNumber done raw' := by
  cases h with
  | same => rfl
  | @url lead authority trail parameters parameters' hlead htrail hauthority hparameters hsame =>
    have hopen : ∀ s : Bytes,
        ¬ (ascii "ssh://" ++ s = [] ∨ (ascii "ssh://" ++ s).head? = some 35) := by
      intro s
      rw [List.head?_append_of_ne_nil _ (by decide), List.append_eq_nil_iff]
      exact not_or.mpr ⟨fun hnil => absurd hnil.1 (by decide), by decide⟩
    unfold importLine
    dsimp only
    rw [trim_urlLine hlead htrail, trim_urlLine hlead htrail, if_neg (hopen _), if_neg (hopen _),
      normalize_url lineNumber hauthority (getlines_same hparameters hsame)]

theorem importLines_same {raws raws' : List Bytes} (h : List.Forall₂ SameLine raws raws')
    (lineNumber : Nat) (done : List Bytes × Bytes) :
    importLines lineNumber done raws = importLines lineNumber done raws' := by
  induction h generalizing lineNumber done with
  | nil => rfl
  | cons hsame hrest ih =>
    unfold importLines
    rw [importLine_same hsame]
    exact congrArg _ (funext fun done => ih _ done)

/-- Two lists of clients that differ in the values of secrets only are imported alike. -/
theorem secrets_stay_out {text text' : Bytes} (h : SameButSecrets text text') (sourcePath : Bytes) :
    importClientsTxt text sourcePath = importClientsTxt text' sourcePath ∧
      (importClientsTxt text sourcePath).map Inventory.serialize =
        (importClientsTxt text' sourcePath).map Inventory.serialize := by
  have hsame : importClientsTxt text sourcePath = importClientsTxt text' sourcePath := by
    unfold importClientsTxt
    rw [importLines_same h]
  exact ⟨hsame, by rw [hsame]⟩

/-- A line with a secret and a name. -/
def withToken (value : Bytes) : Bytes := ascii "ssh://u@h?token=" ++ value ++ ascii "&san=s"

/-- The marks of a URL in a secret split nothing. -/
theorem a_token_with_marks :
    importClientsTxt (withToken (ascii "a")) [] =
        importClientsTxt (withToken (ascii "b@:?#=c")) [] ∧
      (importClientsTxt (withToken (ascii "a")) []).map Inventory.serialize =
        (importClientsTxt (withToken (ascii "b@:?#=c")) []).map Inventory.serialize := by
  have hsplit : ∀ value ∈ [ascii "a", ascii "b@:?#=c"], (withToken value).splitOn newline =
      [urlLine [] (ascii "u@h") [ascii "token" ++ equals :: value, ascii "san=s"] []] := by
    decide
  have hvalue : ∀ value ∈ [ascii "a", ascii "b@:?#=c"], IsSecretValue value := by
    unfold IsSecretValue
    decide
  have hsecret : SameParameter (ascii "token" ++ equals :: ascii "a")
      (ascii "token" ++ equals :: ascii "b@:?#=c") :=
    .secret (by decide) (hvalue _ (by simp)) (hvalue _ (by simp))
  have hsame : SameButSecrets (withToken (ascii "a")) (withToken (ascii "b@:?#=c")) := by
    unfold SameButSecrets
    rw [hsplit _ (by simp), hsplit _ (by simp)]
    exact .cons (.url nofun nofun (by decide) (by decide) (.cons hsecret (.cons (.same _) .nil)))
      .nil
  exact secrets_stay_out hsame []

end psx.inventory
