-- What the loader of a legacy list takes for a client: the parts of a line, and what each of them
-- can hold. The number behind a colon or a key may have blanks and a sign before its digits.
import PipeShellX.Inventory.ClientRoundTrip
import PipeShellX.Inventory.HostLine

namespace psx.ClientConfig

open Text (ascii)
open Scan (cut strip strip_cut strip_of strip_first strip_last cut_some)
open Decimal (isDigit)
open psx.inventory (sign equals colon optionText)

/-! ## The line -/

/-- The import leaves what the loader leaves, and perhaps white space around it. -/
theorem trim_around (raw : Bytes) : ∃ l r, inventory.trim raw = l ++ trim raw ++ r ∧
    (∀ b ∈ l, isSpace b = true) ∧ ∀ b ∈ r, isSpace b = true := by
  obtain ⟨a, b, hraw, ha, hb⟩ := strip_cut inventory.isTrimmed raw
  obtain ⟨l, r, hline, hl, hr⟩ := strip_cut isSpace (inventory.trim raw)
  have hspace : ∀ {s : Bytes}, (∀ c ∈ s, inventory.isTrimmed c = true) →
      ∀ c ∈ s, isSpace c = true :=
    fun h c hc => isSpace_of_isTrimmed (h c hc)
  have hwhole : raw = (a ++ l) ++ strip isSpace (inventory.trim raw) ++ (r ++ b) := by
    calc raw = a ++ inventory.trim raw ++ b := hraw
      _ = a ++ (l ++ strip isSpace (inventory.trim raw) ++ r) ++ b := by rw [← hline]
      _ = _ := by simp only [List.append_assoc]
  have htrim : trim raw = strip isSpace (inventory.trim raw) := by
    have hstrip := strip_of (List.forall_mem_append.mpr ⟨hspace ha, hl⟩)
      (List.forall_mem_append.mpr ⟨hr, hspace hb⟩)
      (strip_first (s := inventory.trim raw)) strip_last
    rw [← hwhole] at hstrip
    exact hstrip
  exact ⟨l, r, htrim ▸ hline, hl, hr⟩

/-! ## Numbers -/

/-- A number that is the whole text: white space, a sign, digits. -/
theorem stoul_whole {value : Bytes} {number : Nat} (h : stoul value = some (number, value.length)) :
    ∃ spaces signs digits, value = spaces ++ signs ++ digits ∧ (∀ b ∈ spaces, isSpace b = true) ∧
      (∀ b ∈ signs, b = 43 ∨ b = 45) ∧ digits ≠ [] ∧ ∀ b ∈ digits, isDigit b = true := by
  have hvalue : value.takeWhile isSpace ++ value.dropWhile isSpace = value :=
    List.takeWhile_append_dropWhile
  have hspaces : ∀ b ∈ value.takeWhile isSpace, isSpace b = true := fun b hb =>
    List.mem_takeWhile_imp hb
  unfold stoul at h
  dsimp only at h
  generalize value.takeWhile isSpace = spaces at h hvalue hspaces
  generalize value.dropWhile isSpace = rest at h hvalue
  have hdigits : ∀ {body : Bytes} {n : Nat}, body.takeWhile isDigit ≠ [] →
      spaces.length + n + (body.takeWhile isDigit).length = spaces.length + n + body.length →
      body ≠ [] ∧ ∀ b ∈ body, isDigit b = true := by
    intro body n hsome hlength
    have hall : body.takeWhile isDigit = body :=
      (List.takeWhile_prefix isDigit).eq_of_length (by omega)
    rw [hall] at hsome
    exact ⟨hsome, List.takeWhile_eq_self_iff.mp hall⟩
  by_cases hsigned : rest.head? = some 43 ∨ rest.head? = some 45
  · obtain ⟨c, body, rfl⟩ : ∃ c body, rest = c :: body :=
      List.exists_cons_of_ne_nil fun hnil => by simp [hnil] at hsigned
    simp only [if_pos hsigned, List.tail_cons] at h
    by_cases hnone : body.takeWhile isDigit = [] ∨ 2 ^ 64 ≤ Decimal.value (body.takeWhile isDigit)
    · rw [if_pos hnone] at h
      cases h
    · rw [if_neg hnone] at h
      have hlength := congrArg List.length hvalue
      rw [List.length_append, List.length_cons] at hlength
      have hconsumed := congrArg Prod.snd (Option.some.inj h)
      obtain ⟨hsome, hall⟩ := hdigits (n := 1) (not_or.mp hnone).1 (hconsumed.trans (by omega))
      refine ⟨spaces, [c], body, by rw [← hvalue]; simp, hspaces, fun b hb => ?_, hsome, hall⟩
      rw [List.mem_singleton.mp hb]
      exact hsigned.imp Option.some.inj Option.some.inj
  · simp only [if_neg hsigned] at h
    by_cases hnone : rest.takeWhile isDigit = [] ∨ 2 ^ 64 ≤ Decimal.value (rest.takeWhile isDigit)
    · rw [if_pos hnone] at h
      cases h
    · rw [if_neg hnone] at h
      have hlength := congrArg List.length hvalue
      rw [List.length_append] at hlength
      have hconsumed := congrArg Prod.snd (Option.some.inj h)
      obtain ⟨hsome, hall⟩ := hdigits (n := 0) (not_or.mp hnone).1 (hconsumed.trans (by omega))
      exact ⟨spaces, [], rest, by rw [← hvalue, List.append_nil], hspaces, nofun, hsome, hall⟩

/-- What a number is written with. The last byte is a digit. -/
theorem stoulPort_form {value : Bytes} {port : Nat} (h : stoulPort value = some port) :
    (∀ b ∈ value, isSpace b = true ∨ b = 43 ∨ b = 45 ∨ isDigit b = true) ∧
      ∃ b ∈ value.getLast?, isDigit b = true := by
  unfold stoulPort at h
  cases hread : stoul value with
  | none =>
    rw [hread] at h
    cases h
  | some r =>
    rw [hread] at h
    dsimp only at h
    split_ifs at h with hbad
    have hlength : r.2 = value.length := by tauto
    have hwhole : stoul value = some (r.1, value.length) := by rw [hread, ← hlength]
    obtain ⟨spaces, signs, digits, heq, hspaces, hsigns, hsome, hdigits⟩ := stoul_whole hwhole
    refine ⟨fun b hb => ?_, digits.getLast hsome, ?_, hdigits _ (List.getLast_mem hsome)⟩
    · rw [heq] at hb
      rcases List.mem_append.mp hb with hb | hb
      · rcases List.mem_append.mp hb with hb | hb
        · exact .inl (hspaces b hb)
        · rcases hsigns b hb with hsign | hsign
          · exact .inr (.inl hsign)
          · exact .inr (.inr (.inl hsign))
      · exact .inr (.inr (.inr (hdigits b hb)))
    · rw [heq, List.getLast?_append_of_ne_nil _ hsome, List.getLast?_eq_some_getLast hsome]
      rfl

/-- A number of digits only is read as the inventory reads it. -/
theorem stoulPort_digits {value : Bytes} {port : Nat} (h : stoulPort value = some port)
    (hdigits : ∀ b ∈ value, isDigit b = true) :
    inventory.IsPort value ∧ port = Decimal.value value := by
  have hrange := stoulPort_ok h
  obtain ⟨last, hlast, -⟩ := (stoulPort_form h).2
  have hsome : value ≠ [] := by
    rintro rfl
    cases hlast
  have hport : port = Decimal.value value := by
    obtain ⟨digit, more, rfl⟩ := List.exists_cons_of_ne_nil hsome
    have hplain : isSpace digit = false ∧ digit ≠ 43 ∧ digit ≠ 45 := by
      have hfirst := hdigits digit List.mem_cons_self
      refine ⟨Bool.eq_false_iff.mpr fun hspace => ?_, ?_, ?_⟩
      · rcases (isSpace_iff digit).mp hspace with rfl | rfl | rfl | rfl | rfl | rfl <;>
          exact absurd hfirst (by decide)
      · rintro rfl
        exact absurd hfirst (by decide)
      · rintro rfl
        exact absurd hfirst (by decide)
    have hsign : ¬ ((digit :: more).head? = some 43 ∨ (digit :: more).head? = some 45) := by
      simp [hplain.2.1, hplain.2.2]
    have hminus : ¬ (digit :: more).head? = some 45 := (not_or.mp hsign).2
    have hall : (digit :: more).takeWhile isDigit = digit :: more :=
      List.takeWhile_eq_self_iff.mpr hdigits
    have hdrop : (digit :: more).dropWhile isSpace = digit :: more :=
      List.dropWhile_cons_of_neg (Bool.eq_false_iff.mp hplain.1)
    unfold stoulPort stoul at h
    simp only [hdrop, if_neg hsign, if_neg hminus, hall] at h
    split at h
    · cases h
    · rename_i heq
      split_ifs at heq h
      all_goals
        obtain ⟨hnumber, -⟩ := Prod.mk.inj (Option.some.inj heq)
        exact (Option.some.inj h).symm.trans hnumber.symm
  exact ⟨⟨hsome, hdigits, hport ▸ by omega, hport ▸ by omega⟩, hport⟩

/-! ## Parameters -/

/-- What a parameter changes. -/
theorem parseParameter_ok {entry entry' : ClientEntry} {parameter : Bytes}
    (h : parseParameter entry parameter = .ok entry') : ∃ key value,
      parameter = key ++ equals :: value ∧ value ≠ [] ∧
      (((key = ascii "identity" ∨ key = ascii "key") ∧ value.all isValidPathChar = true ∧
          entry' = { entry with identityFile := value }) ∨
        (key = ascii "san" ∧ value.all isValidSanChar = true ∧
          entry' = { entry with expectedSan := value }) ∨
        (key = ascii "native_port" ∧ ∃ nativePort, stoulPort value = some nativePort ∧
          entry' = { entry with nativePort })) := by
  unfold parseParameter at h
  dsimp only at h
  cases hcut : cut equals parameter with
  | none =>
    have hsplit : splitOnce parameter equals = (parameter, []) :=
      splitOnce_none (Scan.cut_none.mp hcut)
    have hnothing : stoulPort [] = none := rfl
    rw [hsplit] at h
    dsimp only at h
    rw [hnothing] at h
    split_ifs at h
    all_goals exact absurd rfl ‹¬ ([] : Bytes) = []›
  | some cutting =>
    obtain ⟨key, value⟩ := cutting
    obtain ⟨rfl, hkey⟩ := cut_some.mp hcut
    rw [splitOnce_append hkey] at h
    dsimp only at h
    refine ⟨key, value, rfl, ?_⟩
    split_ifs at h with hnone hidentity hempty hchars hsan hempty hchars hnative
    · exact ⟨hempty, .inl ⟨hidentity, hchars, (pure_ok.mp h).symm⟩⟩
    · exact ⟨hempty, .inr (.inl ⟨hsan, hchars, (pure_ok.mp h).symm⟩)⟩
    · cases hread : stoulPort value with
      | none =>
        rw [hread] at h
        cases h
      | some nativePort =>
        rw [hread] at h
        refine ⟨?_, .inr (.inr ⟨hnative, nativePort, rfl, (pure_ok.mp h).symm⟩)⟩
        rintro rfl
        cases hread

/-- A parameter that the loader takes: its key, and its value. -/
def IsParameter (f : Bytes × Bytes) : Prop :=
  f.2 ≠ [] ∧ ((f.1 = ascii "identity" ∨ f.1 = ascii "key") ∧ f.2.all isValidPathChar = true ∨
    f.1 = ascii "san" ∧ f.2.all isValidSanChar = true ∨
    f.1 = ascii "native_port" ∧ ∃ nativePort, stoulPort f.2 = some nativePort)

theorem parameters_fields {parameters : List Bytes} {entry entry' : ClientEntry}
    (h : parameters.foldlM parseParameter entry = .ok entry') :
    (∃ fields : List (Bytes × Bytes), parameters = fields.map optionText ∧
      ∀ f ∈ fields, IsParameter f) ∧
      entry'.user = entry.user ∧ entry'.host = entry.host ∧ entry'.port = entry.port := by
  induction parameters generalizing entry with
  | nil =>
    obtain rfl := pure_ok.mp h
    exact ⟨⟨[], rfl, nofun⟩, rfl, rfl, rfl⟩
  | cons parameter parameters ih =>
    rw [List.foldlM_cons] at h
    obtain ⟨next, hnext, h⟩ := bind_ok.mp h
    obtain ⟨⟨fields, rfl, hfields⟩, huser, hhost, hport⟩ := ih h
    obtain ⟨key, value, rfl, hsome, hcases⟩ := parseParameter_ok hnext
    refine ⟨⟨(key, value) :: fields, rfl, List.forall_mem_cons.mpr ⟨⟨hsome, ?_⟩, hfields⟩⟩, ?_⟩
    · exact hcases.imp (And.imp_right And.left)
        (Or.imp (And.imp_right And.left) fun h => ⟨h.1, h.2.imp fun _ h => h.1⟩)
    · rw [huser, hhost, hport]
      rcases hcases with ⟨-, -, rfl⟩ | ⟨-, -, rfl⟩ | ⟨-, -, -, rfl⟩ <;> exact ⟨rfl, rfl, rfl⟩

/-! ## Entries -/

theorem parseLegacyEntry_ok {trimmed : Bytes} {entry : ClientEntry}
    (h : parseLegacyEntry trimmed = .ok entry) : ∃ user host, trimmed = user ++ sign :: host ∧
      sign ∉ user ∧ entry = named user host := by
  unfold parseLegacyEntry at h
  cases hcut : cut sign trimmed with
  | none =>
    rw [hcut] at h
    cases h
  | some cutting =>
    obtain ⟨user, host⟩ := cutting
    obtain ⟨rfl, huser⟩ := cut_some.mp hcut
    rw [hcut] at h
    dsimp only at h
    split_ifs at h
    exact ⟨user, host, rfl, huser, (pure_ok.mp h).symm⟩

/-- The parts of an ssh URL, as the marks in it separate them. -/
structure UrlParts where
  user : Bytes
  host : Bytes
  port : Option Bytes
  query : Option Bytes

namespace UrlParts

/-- The part of the URL that names the host. -/
def authority (p : UrlParts) : Bytes :=
  p.user ++ sign :: (p.host ++ p.port.elim [] fun port => colon :: port)

/-- The URL. -/
def text (p : UrlParts) : Bytes :=
  ascii "ssh://" ++ (p.authority ++ p.query.elim [] fun query => 63 :: query)

/-- The parameters of the query. -/
def parameters (p : UrlParts) : List Bytes :=
  if p.query.getD [] = [] then [] else (p.query.getD []).splitOn 38

/-- Each mark is the first of its kind in the text. -/
structure Marked (p : UrlParts) : Prop where
  user : sign ∉ p.user
  host : colon ∉ p.host
  query : 63 ∉ p.authority

end UrlParts

theorem parsePortPart_ok {entry entry' : ClientEntry} {portPart : Bytes}
    (h : parsePortPart entry portPart = .ok entry') : portPart = [] ∧ entry' = entry ∨
      ∃ port, stoulPort portPart = some port ∧ entry' = { entry with port } := by
  unfold parsePortPart at h
  split_ifs at h with hnone
  · exact .inl ⟨hnone, (pure_ok.mp h).symm⟩
  · cases hread : stoulPort portPart with
    | none =>
      rw [hread] at h
      cases h
    | some port =>
      rw [hread] at h
      exact .inr ⟨port, rfl, (pure_ok.mp h).symm⟩

theorem splitOnce_parts (c : UInt8) (value : Bytes) : ∃ (before : Bytes) (behind : Option Bytes),
    value = before ++ behind.elim [] (fun behind => c :: behind) ∧ c ∉ before ∧
      splitOnce value c = (before, behind.getD []) := by
  cases hcut : cut c value with
  | none =>
    have hnot := Scan.cut_none.mp hcut
    exact ⟨value, none, (List.append_nil value).symm, hnot, splitOnce_none hnot⟩
  | some cutting =>
    obtain ⟨rfl, hnot⟩ := cut_some.mp hcut
    exact ⟨cutting.1, some cutting.2, rfl, hnot, splitOnce_append hnot _⟩

/-- What a URL is read as, part by part. -/
theorem parseUrlEntry_ok {trimmed : Bytes} {entry : ClientEntry}
    (h : parseUrlEntry trimmed = .ok entry) : ∃ p : UrlParts, trimmed = p.text ∧ p.Marked ∧
      ∃ onPort, parsePortPart (named p.user p.host) (p.port.getD []) = .ok onPort ∧
        p.parameters.foldlM parseParameter onPort = .ok entry := by
  unfold parseUrlEntry at h
  split_ifs at h with hscheme
  obtain ⟨rest, rfl⟩ := List.isPrefixOf_iff_prefix.mp hscheme
  obtain ⟨authority, query, hrest, hquery, hsplit⟩ := splitOnce_parts 63 rest
  have hdrop : (ascii "ssh://" ++ rest).drop 6 = rest := List.drop_left' (by decide)
  rw [hdrop, hsplit] at h
  obtain ⟨first, hfirst, h⟩ := bind_ok.mp h
  obtain ⟨user, target, rfl, huser, rfl⟩ := parseLegacyEntry_ok hfirst
  obtain ⟨host, port, rfl, hhost, hcolon⟩ := splitOnce_parts colon target
  have htarget : (named user (host ++ port.elim [] fun port => colon :: port)).host =
      host ++ port.elim [] fun port => colon :: port := rfl
  rw [htarget, hcolon] at h
  obtain ⟨onPort, honPort, h⟩ := bind_ok.mp h
  refine ⟨⟨user, host, port, query⟩, by rw [hrest]; rfl, ⟨huser, hhost, hquery⟩, onPort,
    honPort, ?_⟩
  unfold UrlParts.parameters
  split_ifs at h ⊢
  · exact h
  · exact h

theorem parseEntry_ok {line : Bytes} {entry : ClientEntry} (h : parseEntry line = .ok entry) :
    trim line ≠ [] ∧ ∃ read, entry = { read with raw := read.serialize } ∧ Sound read ∧
      if (ascii "ssh://").isPrefixOf (trim line) then parseUrlEntry (trim line) = .ok read
      else parseLegacyEntry (trim line) = .ok read := by
  unfold parseEntry at h
  dsimp only at h
  split_ifs at h with hnone hscheme
  all_goals
    obtain ⟨read, hread, h⟩ := bind_ok.mp h
    obtain ⟨⟨⟩, hfields, h⟩ := bind_ok.mp h
    refine ⟨hnone, read, (pure_ok.mp h).symm, ⟨?_, hfields⟩, ?_⟩
  · exact checked_url hread
  · rw [if_pos hscheme]
    exact hread
  · exact checked_legacy hread
  · rw [if_neg hscheme]
    exact hread

end psx.ClientConfig
