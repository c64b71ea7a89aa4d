-- The two readers of a legacy list against each other. They agree on a line unless white space of
-- the loader is text for the import, a number is written with more than digits, or an option is
-- given twice.
import PipeShellX.Inventory.ClientsImport

namespace psx.inventory

open Text (ascii getlines)
open Scan (cut cut_append)
open Decimal (isDigit)
open ClientConfig (UrlParts IsParameter isSpace isSpace_iff isValidUserChar isValidHostChar
  isValidPathChar isValidSanChar splitOnce stoulPort)

/-! ## What the two give -/

/-- The client of the loader and the host of the import say the same. -/
structure SameEntry (client : ClientEntry) (entry : Host) : Prop where
  user : entry.user = client.user
  host : entry.host = client.host
  port : entry.port = client.port
  identity : entry.identity = client.identityFile
  san : entry.san = client.expectedSan
  nativePort : entry.nativePort = client.nativePort

/-- Behind the scheme: a port behind a colon and every `native_port` are digits that make a port,
and no option is given twice. -/
def UrlAgrees (rest : Bytes) : Prop :=
  (∀ r ∈ cut colon (splitOnce rest 63).1, IsPort r.2) ∧
    (∀ parameter ∈ (splitOnce rest 63).2.splitOn 38, ∀ r ∈ cut equals parameter,
      r.1 = ascii "native_port" → IsPort r.2) ∧
    (((splitOnce rest 63).2.splitOn 38).map fun parameter =>
      importedKey (splitOnce parameter equals).1).Nodup

instance decidable_urlAgrees (rest : Bytes) : Decidable (UrlAgrees rest) :=
  inferInstanceAs (Decidable (_ ∧ _ ∧ _))

/-- The import skips the line, or it trims what the loader trims, and what is left is a plain entry
or a URL like that. -/
def Agrees (raw : Bytes) : Prop :=
  ImportSkips raw ∨ trim raw = ClientConfig.trim raw ∧
    ((ascii "ssh://").isPrefixOf (trim raw) = true → UrlAgrees ((trim raw).drop 6))

/-! ## The lines of the loader -/

/-- The loader passes the line by. -/
def LoadSkips (raw : Bytes) : Prop :=
  ClientConfig.trim raw = [] ∨ (ClientConfig.trim raw).head? = some 35

instance decidable_loadSkips (raw : Bytes) : Decidable (LoadSkips raw) :=
  inferInstanceAs (Decidable (_ ∨ _))

/-- A line is loaded as this client. -/
def Loads (knownHostsFile raw : Bytes) (client : ClientEntry) : Prop :=
  ∃ entry, ClientConfig.parseEntry raw = .ok entry ∧ client = { entry with knownHostsFile }

theorem parseEntry_trim (raw : Bytes) :
    ClientConfig.parseEntry (ClientConfig.trim raw) = ClientConfig.parseEntry raw := by
  have htrim : ClientConfig.trim (ClientConfig.trim raw) = ClientConfig.trim raw :=
    Scan.strip_self Scan.strip_first Scan.strip_last
  unfold ClientConfig.parseEntry
  rw [htrim]

theorem loadLines_ok {knownHostsFile : Bytes} {lines : List Bytes} {lineNumber : Nat}
    {clients loaded : List ClientEntry}
    (h : ClientConfig.loadLines knownHostsFile lineNumber clients lines = .ok loaded) :
    ∃ more, loaded = clients ++ more ∧
      List.Forall₂ (Loads knownHostsFile) (lines.filter fun raw => ¬ LoadSkips raw) more := by
  induction lines generalizing lineNumber clients with
  | nil =>
    obtain rfl := pure_ok.mp h
    exact ⟨[], (List.append_nil _).symm, .nil⟩
  | cons raw lines ih =>
    obtain ⟨next, hnext, hrest⟩ := bind_ok.mp h
    obtain ⟨more, hmore, hloads⟩ := ih hrest
    unfold ClientConfig.loadLine at hnext
    dsimp only at hnext
    split_ifs at hnext with hskips
    · have hskips : LoadSkips raw := hskips
      obtain rfl := pure_ok.mp hnext
      rw [List.filter_cons_of_neg (by simpa using hskips)]
      exact ⟨more, hmore, hloads⟩
    · have hskips : ¬ LoadSkips raw := hskips
      rw [parseEntry_trim] at hnext
      rw [List.filter_cons_of_pos (by simpa using hskips)]
      cases hparse : ClientConfig.parseEntry raw with
      | error what =>
        rw [hparse] at hnext
        cases hnext
      | ok entry =>
        rw [hparse] at hnext
        dsimp only at hnext
        split_ifs at hnext
        obtain rfl := pure_ok.mp hnext
        refine ⟨{ entry with knownHostsFile } :: more, ?_, .cons ⟨entry, hparse, rfl⟩ hloads⟩
        rw [hmore, List.append_assoc]
        rfl

/-- The lines that are not skipped are the same whichever way the text is cut. -/
theorem loaded_lines (text : Bytes) :
    (text.splitOn newline).filter (fun raw => ¬ LoadSkips raw) =
      (getlines newline text).filter fun raw => ¬ LoadSkips raw := by
  have hempty : ([[]] : List Bytes).filter (fun raw => ¬ LoadSkips raw) = [] := by decide
  rcases Text.splitOn_getlines newline text with h | h
  · rw [h]
  · rw [h, List.filter_append, hempty, List.append_nil]

/-- What the import skips, the loader skips. -/
theorem LoadSkips.of_import {raw : Bytes} (h : ImportSkips raw) : LoadSkips raw := by
  obtain ⟨l, r, hline, hl, hr⟩ := ClientConfig.trim_around raw
  rcases h with hnone | hmark
  · rw [hnone] at hline
    exact .inl (List.append_eq_nil_iff.mp (List.append_eq_nil_iff.mp hline.symm).1).2
  · rw [hline] at hmark
    have hnot : ∀ {s : Bytes}, (∀ b ∈ s, isSpace b = true) → s.head? ≠ some 35 := by
      intro s hs hhead
      exact absurd (hs 35 (List.mem_of_mem_head? hhead)) (by decide)
    by_cases hsome : ClientConfig.trim raw = []
    · exact .inl hsome
    · refine .inr ?_
      cases l with
      | nil =>
        rw [List.nil_append, List.head?_append_of_ne_nil _ hsome] at hmark
        exact hmark
      | cons b l => exact absurd hmark (hnot (s := b :: l) hl)

/-! ## What the parts are made of -/

/-- A part of valid bytes. -/
theorem isPart_of_all {p : UInt8 → Bool} {s : Bytes} (h : s.all p = true)
    (hp : ([equals, 35, 59, 32, 9, 13, 10].all fun b => !p b) = true) : IsPart s ∧ IsToken s := by
  have hnot : ∀ c ∈ [equals, 35, 59, 32, 9, 13, 10], c ∉ s := fun c hc =>
    ClientConfig.not_mem_of_all h (by simpa using List.all_eq_true.mp hp c hc)
  have hne : ∀ b ∈ s, ∀ c ∈ [equals, 35, 59, 32, 9, 13, 10], b ≠ c := fun b hb c hc heq =>
    hnot c hc (heq ▸ hb)
  refine ⟨⟨hnot equals (by simp), fun b hb => ?_, fun b hb => ?_⟩, fun b hb => ⟨?_, ?_⟩⟩
  · have hb' := hne b hb
    simp [isComment, hb']
  · have hb' := hne b (List.mem_of_mem_getLast? hb)
    simp [isTrimmed, hb']
  · have hb' := hne b hb
    simp [isBlank, hb']
  · exact hne b hb newline (by decide)

theorem isPart_digit {b : UInt8} (h : isDigit b = true) : IsPart [b] :=
  (isPart_of_all (p := isDigit) (by simpa using h) (by decide)).1

/-- Numbers end in a digit. -/
theorem isPart_number {value : Bytes} {port : Nat} (h : stoulPort value = some port) :
    IsPart value := by
  obtain ⟨hform, last, hlast, hdigit⟩ := ClientConfig.stoulPort_form h
  have hnot : ∀ b ∈ value, b ≠ equals ∧ isComment b = false := by
    intro b hb
    rcases hform b hb with hspace | rfl | rfl | hdigit
    · rcases (isSpace_iff b).mp hspace with rfl | rfl | rfl | rfl | rfl | rfl <;> decide
    · decide
    · decide
    · have hpart := isPart_digit hdigit
      exact ⟨fun heq => hpart.unequal (by simp [heq]), hpart.uncommented b (by simp)⟩
  refine ⟨fun hin => (hnot equals hin).1 rfl, fun b hb => (hnot b hb).2, fun b hb => ?_⟩
  obtain rfl := Option.some.inj (hlast.symm.trans hb)
  exact (isPart_digit hdigit).last last rfl

theorem isParted_of {user host : Bytes} (huser : user ≠ [] ∧ user.all isValidUserChar = true)
    (hhost : host ≠ [] ∧ IsPart host) {options : List (Bytes × Bytes)}
    (hoptions : ∀ o ∈ options, o.1 ∈ keys ∧ IsPart o.2) :
    IsParted (user ++ sign :: host) options := by
  have hpart : IsPart user := (isPart_of_all huser.2 (by decide)).1
  refine ⟨by simp, fun b hb => ?_, ⟨fun hin => ?_, fun b hb => ?_, fun b hb => ?_⟩, hoptions⟩
  · rw [List.head?_append_of_ne_nil _ huser.1] at hb
    have hvalid := List.all_eq_true.mp huser.2 b (List.mem_of_mem_head? hb)
    have hone : IsPart [b] :=
      (isPart_of_all (p := isValidUserChar) (by simpa using hvalid) (by decide)).1
    exact hone.last b rfl
  · rcases List.mem_append.mp hin with hin | hin
    · exact hpart.unequal hin
    · rcases List.mem_cons.mp hin with heq | hin
      · exact absurd heq (by decide)
      · exact hhost.2.unequal hin
  · rcases List.mem_append.mp hb with hb | hb
    · exact hpart.uncommented b hb
    · rcases List.mem_cons.mp hb with rfl | hb
      · rfl
      · exact hhost.2.uncommented b hb
  · obtain ⟨c, rest, heq⟩ := List.exists_cons_of_ne_nil hhost.1
    rw [List.getLast?_append_of_ne_nil _ (List.cons_ne_nil _ _), heq, List.getLast?_cons_cons] at hb
    exact hhost.2.last b (heq ▸ hb)

theorem key_parameter {f : Bytes × Bytes} (h : IsParameter f) : f.1 ∈ parameterKeys := by
  rcases h.2 with ⟨hkey | hkey, -⟩ | ⟨hkey, -⟩ | ⟨hkey, -⟩ <;> simp [parameterKeys, hkey]

theorem key_imported : ∀ key ∈ parameterKeys, equals ∉ key ∧ importedKey key ∈ keys := by decide

theorem isPart_parameter {f : Bytes × Bytes} (h : IsParameter f) : IsPart f.2 := by
  rcases h.2 with ⟨-, hvalid⟩ | ⟨-, hvalid⟩ | ⟨-, port, hport⟩
  · exact (isPart_of_all hvalid (by decide)).1
  · exact (isPart_of_all hvalid (by decide)).1
  · exact isPart_number hport

/-! ## Lines on which the two agree -/

theorem sameEntry_named (user host : Bytes) :
    SameEntry (ClientConfig.named user host) (clientHost user host) :=
      ⟨rfl, rfl, rfl, rfl, rfl, rfl⟩

/-- A parameter does to the client what its option does to the host. -/
theorem SameEntry.parameter {client client' : ClientEntry} {entry : Host}
    (h : SameEntry client entry) {f : Bytes × Bytes} (hf : IsParameter f)
    (hparse : ClientConfig.parseParameter client (optionText f) = .ok client')
    (hport : f.1 = ascii "native_port" → IsPort f.2) :
    ∃ new, SameEntry client' new ∧ new.name = entry.name ∧
      ∀ lineNumber, hostOption lineNumber entry (optionText (imported f)) = .ok new := by
  obtain ⟨key, value, heq, -, hcases⟩ := ClientConfig.parseParameter_ok hparse
  have hpair : equals ∉ key → f = (key, value) := fun hkey =>
    option_inj (key_imported _ (key_parameter hf)).1 hkey heq
  rcases hcases with ⟨hkey, -, rfl⟩ | ⟨rfl, -, rfl⟩ | ⟨rfl, nativePort, hread, rfl⟩
  · obtain rfl := hpair (by rcases hkey with rfl | rfl <;> decide)
    have hidentity : imported (key, value) = (ascii "identity", value) := by
      rcases hkey with rfl | rfl <;> rfl
    rw [hidentity]
    exact ⟨{ entry with identity := value }, { h with identity := rfl }, rfl,
      fun n => read_identity n entry value⟩
  · obtain rfl := hpair (by decide)
    exact ⟨{ entry with san := value }, { h with san := rfl }, rfl, fun n => read_san n entry value⟩
  · obtain rfl := hpair (by decide)
    have hvalue := hport rfl
    refine ⟨{ entry with nativePort := Decimal.value value }, { h with nativePort := ?_ }, rfl,
      fun n => read_nativePort n entry hvalue⟩
    exact (ClientConfig.stoulPort_digits hread hvalue.2.1).2.symm

theorem SameEntry.parameters {fields : List (Bytes × Bytes)} (hfields : ∀ f ∈ fields, IsParameter f)
    (hports : ∀ f ∈ fields, f.1 = ascii "native_port" → IsPort f.2) {client client' : ClientEntry}
    {entry : Host} (h : SameEntry client entry)
    (hparse : (fields.map optionText).foldlM ClientConfig.parseParameter client = .ok client') :
    ∃ new, SameEntry client' new ∧ new.name = entry.name ∧ ∀ lineNumber,
      ((fields.map imported).map optionText).foldlM (hostOption lineNumber) entry = .ok new := by
  induction fields generalizing client entry with
  | nil =>
    obtain rfl := pure_ok.mp hparse
    exact ⟨entry, h, rfl, fun _ => rfl⟩
  | cons f fields ih =>
    rw [List.forall_mem_cons] at hfields hports
    rw [List.map_cons, List.foldlM_cons] at hparse
    obtain ⟨next, hnext, hparse⟩ := bind_ok.mp hparse
    obtain ⟨middle, hmiddle, hname, hoption⟩ := h.parameter hfields.1 hnext hports.1
    obtain ⟨new, hnew, hnewName, hoptions⟩ := ih hfields.2 hports.2 hmiddle hparse
    refine ⟨new, hnew, hnewName.trans hname, fun n => ?_⟩
    rw [List.map_cons, List.map_cons, List.foldlM_cons]
    exact bind_ok.mpr ⟨middle, hoption n, hoptions n⟩

/-! ## URLs -/

/-- What the loader takes for the client, part by part. -/
structure Taken (p : UrlParts) (fields : List (Bytes × Bytes)) (read : ClientEntry) : Prop where
  marks : p.Marked
  userValid : p.user ≠ [] ∧ p.user.all isValidUserChar = true
  hostValid : p.host ≠ [] ∧ p.host.all isValidHostChar = true
  params : p.parameters = fields.map optionText
  keyed : ∀ f ∈ fields, IsParameter f
  made : ∃ onPort, ClientConfig.parsePortPart (ClientConfig.named p.user p.host) (p.port.getD []) =
    .ok onPort ∧ (fields.map optionText).foldlM ClientConfig.parseParameter onPort = .ok read

theorem parsePortPart_names {entry entry' : ClientEntry} {portPart : Bytes}
    (h : ClientConfig.parsePortPart entry portPart = .ok entry') :
    entry'.user = entry.user ∧ entry'.host = entry.host := by
  rcases ClientConfig.parsePortPart_ok h with ⟨-, rfl⟩ | ⟨port, -, rfl⟩ <;> exact ⟨rfl, rfl⟩

theorem taken_of {trimmed : Bytes} {read : ClientEntry} (hsound : ClientConfig.Sound read)
    (h : ClientConfig.parseUrlEntry trimmed = .ok read) :
    ∃ p fields, trimmed = p.text ∧ Taken p fields read := by
  obtain ⟨p, htext, hmarks, onPort, honPort, hread⟩ := ClientConfig.parseUrlEntry_ok h
  obtain ⟨⟨fields, hparams, hkeyed⟩, huser, hhost, -⟩ := ClientConfig.parameters_fields hread
  obtain ⟨hportUser, hportHost⟩ := parsePortPart_names honPort
  have hnames : read.user = p.user ∧ read.host = p.host :=
    ⟨huser.trans hportUser, hhost.trans hportHost⟩
  exact ⟨p, fields, htext, hmarks, hnames.1 ▸ hsound.user, hnames.2 ▸ hsound.host, hparams, hkeyed,
    onPort, honPort, hparams ▸ hread⟩

section Taken

variable {p : UrlParts} {fields : List (Bytes × Bytes)} {read : ClientEntry}

theorem Taken.named (h : Taken p fields read) : read.user = p.user ∧ read.host = p.host := by
  obtain ⟨onPort, honPort, hread⟩ := h.made
  obtain ⟨-, huser, hhost, -⟩ := ClientConfig.parameters_fields hread
  obtain ⟨hportUser, hportHost⟩ := parsePortPart_names honPort
  exact ⟨huser.trans hportUser, hhost.trans hportHost⟩

/-- The port part is empty or a number. -/
theorem Taken.port (h : Taken p fields read) {port : Bytes} (hport : port ∈ p.port) :
    port = [] ∨ ∃ number, ClientConfig.stoulPort port = some number := by
  obtain ⟨onPort, honPort, -⟩ := h.made
  rw [Option.mem_def.mp hport, Option.getD_some] at honPort
  exact (ClientConfig.parsePortPart_ok honPort).imp And.left fun h => h.imp fun _ h => h.1

theorem Taken.colon_user (h : Taken p fields read) : colon ∉ p.user :=
  ClientConfig.not_mem_of_all h.userValid.2 (by decide)

theorem isPart_port (h : Taken p fields read) {port : Bytes} (hport : port ∈ p.port) :
    IsPart port ∧ colon ∉ port := by
  rcases h.port hport with rfl | ⟨number, hnumber⟩
  · exact ⟨⟨List.not_mem_nil, nofun, nofun⟩, List.not_mem_nil⟩
  · refine ⟨isPart_number hnumber, fun hin => ?_⟩
    rcases (ClientConfig.stoulPort_form hnumber).1 colon hin with hspace | heq | heq | hdigit
    · exact absurd hspace (by decide)
    · exact absurd heq (by decide)
    · exact absurd heq (by decide)
    · exact absurd hdigit (by decide)

theorem Taken.known (h : Taken p fields read) : ∀ f ∈ fields, f.1 ∈ parameterKeys ∧ f.2 ≠ [] :=
  fun f hf => ⟨key_parameter (h.keyed f hf), (h.keyed f hf).1⟩

/-- The parameters as the loader finds them are the items of the query, if it has any. -/
theorem Taken.items (h : Taken p fields read) :
    p.query.getD [] = [] ∧ fields = [] ∨ (p.query.getD []).splitOn 38 = fields.map optionText := by
  have hparams := h.params
  unfold UrlParts.parameters at hparams
  split_ifs at hparams with hnone
  · exact .inl ⟨hnone, List.map_eq_nil_iff.mp hparams.symm⟩
  · exact .inr hparams

/-- And so they are found by the import. -/
theorem getlines_items {query : Bytes} {fields : List (Bytes × Bytes)}
    (h : query.splitOn 38 = fields.map optionText) : getlines 38 query = fields.map optionText := by
  rcases Text.splitOn_getlines 38 query with heq | heq
  · exact heq.symm.trans h
  · have hempty : ([] : Bytes) ∈ fields.map optionText := by
      rw [← h, heq]
      simp
    obtain ⟨f, -, hf⟩ := List.mem_map.mp hempty
    simp [optionText] at hf

theorem Taken.query (h : Taken p fields read) :
    getlines 38 (p.query.getD []) = fields.map optionText := by
  rcases h.items with ⟨hnone, rfl⟩ | hitems
  · rw [hnone]
    rfl
  · exact getlines_items hitems

theorem Taken.normalizes (h : Taken p fields read) (lineNumber : Nat) (normalized : Bytes) :
    normalize lineNumber p.text = .ok normalized ↔ (fields.map fun f => importedKey f.1).Nodup ∧
      normalized = lineText (p.user ++ sign :: p.host) (optionsOf p fields) :=
  normalize_parts h.marks h.colon_user (fun _ hport => (isPart_port h hport).2) h.query h.known _ _

/-- What the two agree on, in the parts. -/
theorem Taken.urlAgrees_iff (h : Taken p fields read) : UrlAgrees (p.text.drop 6) ↔
    (∀ port ∈ p.port, IsPort port) ∧ (∀ f ∈ fields, f.1 = ascii "native_port" → IsPort f.2) ∧
      (fields.map fun f => importedKey f.1).Nodup := by
  have hdrop : p.text.drop 6 = p.authority ++ p.query.elim [] fun query => 63 :: query :=
    List.drop_left' (by decide)
  have hsplit : splitOnce (p.text.drop 6) 63 = (p.authority, p.query.getD []) := by
    rw [hdrop]
    cases p.query with
    | none => rw [Option.elim_none, List.append_nil, ClientConfig.splitOnce_none h.marks.query]; rfl
    | some query => exact ClientConfig.splitOnce_append h.marks.query query
  have hbefore : colon ∉ p.user ++ sign :: p.host := by
    rw [List.mem_append, List.mem_cons, not_or, not_or]
    exact ⟨h.colon_user, by decide, h.marks.host⟩
  have hcut : cut colon p.authority = p.port.map fun port => (p.user ++ sign :: p.host, port) := by
    unfold UrlParts.authority
    cases p.port with
    | none => rw [Option.elim_none, List.append_nil]; exact Scan.cut_none.mpr hbefore
    | some port =>
      have htext : p.user ++ sign :: (p.host ++ colon :: port) =
          (p.user ++ sign :: p.host) ++ colon :: port := by simp
      exact htext ▸ cut_append hbefore port
  have hports : (∀ r ∈ cut colon p.authority, IsPort r.2) ↔ ∀ port ∈ p.port, IsPort port := by
    rw [hcut]
    cases p.port <;> simp
  have hfield : ∀ f ∈ fields, cut equals (optionText f) = some f ∧
      splitOnce (optionText f) equals = f := fun f hf =>
    have hnot := (key_imported _ (h.known f hf).1).1
    ⟨cut_append hnot _, ClientConfig.splitOnce_append hnot _⟩
  unfold UrlAgrees
  rw [hsplit, hports]
  refine and_congr_right fun _ => ?_
  rcases h.items with ⟨hnone, rfl⟩ | hitems
  · dsimp only
    rw [hnone]
    exact iff_of_true (by decide) (by simp)
  · dsimp only
    rw [hitems, List.map_map]
    refine and_congr ?_ (iff_of_eq (congrArg _ (List.map_congr_left fun f hf => ?_)))
    · rw [List.forall_mem_map]
      refine forall₂_congr fun f hf => ?_
      rw [(hfield f hf).1]
      simp
    · exact congrArg (fun r => importedKey r.1) (hfield f hf).2

/-- A URL on which the two agree is read as its host. -/
theorem Taken.host_line (h : Taken p fields read) (hports : ∀ port ∈ p.port, IsPort port)
    (hnatives : ∀ f ∈ fields, f.1 = ascii "native_port" → IsPort f.2) :
    ∃ entry, SameEntry read entry ∧ entry.name = read.host ∧
      IsHostLine (lineText (p.user ++ sign :: p.host) (optionsOf p fields)) entry := by
  obtain ⟨onPort, honPort, hread⟩ := h.made
  have hfirst : ∃ middle, SameEntry onPort middle ∧ middle.name = p.host ∧ ∀ lineNumber,
      ((p.port.elim [] fun port => [(ascii "port", port)]).map optionText).foldlM
        (hostOption lineNumber) (clientHost p.user p.host) = .ok middle := by
    cases hport : p.port with
    | none =>
      rw [hport] at honPort
      obtain rfl := pure_ok.mp honPort
      exact ⟨clientHost p.user p.host, sameEntry_named p.user p.host, rfl, fun _ => rfl⟩
    | some port =>
      rw [hport, Option.getD_some] at honPort
      have hvalid := hports port hport
      rcases ClientConfig.parsePortPart_ok honPort with ⟨rfl, -⟩ | ⟨number, hnumber, rfl⟩
      · exact absurd rfl hvalid.1
      · obtain ⟨-, rfl⟩ := ClientConfig.stoulPort_digits hnumber hvalid.2.1
        exact ⟨{ clientHost p.user p.host with port := Decimal.value port },
          { sameEntry_named p.user p.host with port := rfl }, rfl,
          fun n => bind_ok.mpr ⟨_, read_port n _ hvalid, rfl⟩⟩
  obtain ⟨middle, hmiddle, hname, hoptions⟩ := hfirst
  obtain ⟨entry, hsame, hentry, hparams⟩ := hmiddle.parameters h.keyed hnatives hread
  refine ⟨entry, hsame, (hentry.trans hname).trans h.named.2.symm, ?_⟩
  have huser := isPart_of_all h.userValid.2 (by decide)
  have hhost := isPart_of_all h.hostValid.2 (by decide)
  have hdigits : ∀ {value : Bytes}, IsPort value → IsPart value ∧ IsToken value := fun hvalue =>
    isPart_of_all (List.all_eq_true.mpr hvalue.2.1) (by decide)
  have hforms : ∀ o ∈ optionsOf p fields, o.1 ∈ keys ∧ IsPart o.2 ∧ IsToken o.2 := by
    intro o ho
    rcases List.mem_append.mp ho with ho | ho
    · cases hport : p.port with
      | none => rw [hport] at ho; cases ho
      | some port =>
        rw [hport, Option.elim_some, List.mem_singleton] at ho
        obtain rfl := ho
        have hkey : ascii "port" ∈ keys := by decide
        exact ⟨hkey, hdigits (hports port hport)⟩
    · obtain ⟨f, hf, rfl⟩ := List.mem_map.mp ho
      refine ⟨(key_imported _ (h.known f hf).1).2, ?_⟩
      rcases (h.keyed f hf).2 with ⟨-, hvalid⟩ | ⟨-, hvalid⟩ | ⟨hkey, -⟩
      · exact isPart_of_all hvalid (by decide)
      · exact isPart_of_all hvalid (by decide)
      · exact hdigits (hnatives f hf hkey)
  have htarget : ({} : Reading).target (p.user ++ sign :: p.host) = (p.user, p.host) := by
    unfold Reading.target
    rw [cut_append h.marks.user]
  refine isHostLine_of (isParted_of h.userValid ⟨h.hostValid.1, hhost.1⟩ fun o ho =>
    ⟨(hforms o ho).1, (hforms o ho).2.1⟩) ?_ ?_ (fun o ho => (hforms o ho).2.2) fun n => ?_
  · intro b hb
    rcases List.mem_append.mp hb with hb | hb
    · exact huser.2 b hb
    · rcases List.mem_cons.mp hb with rfl | hb
      · decide
      · exact hhost.2 b hb
  · rw [List.head?_append_of_ne_nil _ h.userValid.1]
    exact fun hhead => ClientConfig.not_mem_of_all h.userValid.2 (by decide)
      (List.mem_of_mem_head? hhead)
  · rw [htarget, optionsOf, List.map_append, List.foldlM_append]
    exact bind_ok.mpr ⟨middle, hoptions n, hparams n⟩

end Taken

/-! ## Lines on which the two agree -/

theorem SameEntry.loaded {read : ClientEntry} {entry : Host} (h : SameEntry read entry)
    (raw knownHostsFile : Bytes) : SameEntry { read with raw, knownHostsFile } entry := { h with }

/-- Text that is not a URL is left as it is. -/
theorem normalize_plain {lineNumber : Nat} {line : Bytes}
    (hurl : (ascii "ssh://").isPrefixOf line = false) (hpassword : hasPassword line = false) :
    normalize lineNumber line = .ok line := by
  unfold normalize
  rw [hurl, hpassword, if_neg Bool.false_ne_true, if_neg Bool.false_ne_true]
  rfl

/-- A plain entry is a host line. -/
theorem plain_line {user host : Bytes} (huser : user ≠ [] ∧ user.all isValidUserChar = true)
    (hhost : host ≠ [] ∧ host.all isValidHostChar = true) :
    IsHostLine (user ++ sign :: host) (clientHost user host) := by
  have hpart := isPart_of_all huser.2 (by decide)
  have hpart' := isPart_of_all hhost.2 (by decide)
  have htext : lineText (user ++ sign :: host) [] = user ++ sign :: host := by simp [lineText]
  have htarget : ({} : Reading).target (user ++ sign :: host) = (user, host) := by
    unfold Reading.target
    rw [cut_append (ClientConfig.not_mem_of_all huser.2 (by decide))]
  rw [← htext]
  refine isHostLine_of (isParted_of huser ⟨hhost.1, hpart'.1⟩ (List.forall_mem_nil _)) ?_ ?_
    (List.forall_mem_nil _) fun n => ?_
  · intro b hb
    rcases List.mem_append.mp hb with hb | hb
    · exact hpart.2 b hb
    · rcases List.mem_cons.mp hb with rfl | hb
      · decide
      · exact hpart'.2 b hb
  · rw [List.head?_append_of_ne_nil _ huser.1]
    exact fun hhead => ClientConfig.not_mem_of_all huser.2 (by decide) (List.mem_of_mem_head? hhead)
  · rw [htarget]
    rfl

theorem row_of_agrees {raw : Bytes} {client : ClientEntry}
    (htrim : trim raw = ClientConfig.trim raw)
    (hagrees : (ascii "ssh://").isPrefixOf (trim raw) = true → UrlAgrees ((trim raw).drop 6))
    (hparse : ClientConfig.parseEntry raw = .ok client) :
    ∃ row, MakesRow raw row ∧ SameEntry client row.2 ∧ row.2.name = client.host := by
  obtain ⟨-, read, rfl, hsound, hread⟩ := ClientConfig.parseEntry_ok hparse
  unfold MakesRow
  rw [htrim] at hagrees ⊢
  split_ifs at hread with hurl
  · obtain ⟨p, fields, htext, htaken⟩ := taken_of hsound hread
    have hurl := hagrees hurl
    rw [htext] at hurl ⊢
    obtain ⟨hports, hnatives, hnodup⟩ := htaken.urlAgrees_iff.mp hurl
    obtain ⟨entry, hsame, hname, hline⟩ := htaken.host_line hports hnatives
    exact ⟨(_, entry), ⟨fun n => (htaken.normalizes n _).mpr ⟨hnodup, rfl⟩, hline⟩,
      hsame.loaded _ _, hname⟩
  · obtain ⟨user, host, htext, hsign, rfl⟩ := ClientConfig.parseLegacyEntry_ok hread
    rw [htext] at hurl ⊢
    have hpassword : hasPassword (user ++ sign :: host) = false := by
      unfold hasPassword
      rw [cut_append hsign]
      exact decide_eq_false (hsound.not_mem_user (by decide))
    exact ⟨(_, clientHost user host),
      ⟨fun n => normalize_plain (Bool.eq_false_iff.mpr hurl) hpassword,
        plain_line hsound.user hsound.host⟩,
      (sameEntry_named user host).loaded _ _, rfl⟩

/-! ## White space that the import leaves -/

/-- White space behind an entry that the import does not trim. -/
structure IsTail (r : Bytes) : Prop where
  spaces : ∀ b ∈ r, isSpace b = true
  last : ∀ b ∈ r.getLast?, isTrimmed b = false

theorem IsTail.not_mem {r : Bytes} (h : IsTail r) {c : UInt8} (hc : isSpace c = false) : c ∉ r :=
  fun hin => Bool.false_ne_true (hc.symm.trans (h.spaces c hin))

theorem spaces_uncommented {s : Bytes} (h : ∀ b ∈ s, isSpace b = true) :
    ∀ b ∈ s, b ≠ equals ∧ isComment b = false := by
  intro b hb
  rcases (isSpace_iff b).mp (h b hb) with rfl | rfl | rfl | rfl | rfl | rfl <;> decide

theorem IsTail.part {r : Bytes} (h : IsTail r) {s : Bytes} (hs : IsPart s) : IsPart (s ++ r) := by
  have hr := spaces_uncommented h.spaces
  refine ⟨fun hin => ?_, fun b hb => ?_, fun b hb => ?_⟩
  · exact (List.mem_append.mp hin).elim hs.unequal fun hin => (hr equals hin).1 rfl
  · exact (List.mem_append.mp hb).elim (hs.uncommented b) fun hb => (hr b hb).2
  · by_cases hnone : r = []
    · rw [hnone, List.append_nil] at hb
      exact hs.last b hb
    · rw [List.getLast?_append_of_ne_nil _ hnone] at hb
      exact h.last b hb

/-- Valid text has no such white space. -/
theorem IsTail.eq_nil {r : Bytes} (h : IsTail r) {p : UInt8 → Bool} {s : Bytes}
    (hvalid : (s ++ r).all p = true) (hp : ([32, 9, 10, 11, 12, 13].all fun c => !p c) = true) :
    r = [] := by
  refine List.eq_nil_iff_forall_not_mem.mpr fun b hb => ?_
  have hnot : ∀ c ∈ [32, 9, 10, 11, 12, 13], b ≠ c := by
    rintro c hc rfl
    exact ClientConfig.not_mem_of_all hvalid (by simpa using List.all_eq_true.mp hp b hc)
      (List.mem_append_right _ hb)
  rcases (isSpace_iff b).mp (h.spaces b hb) with heq | heq | heq | heq | heq | heq
  all_goals exact hnot b (by simp [heq]) rfl

/-- What an option of a client says about its value, and what it leaves in the host. -/
theorem hostOption_field {lineNumber : Nat} {entry new : Host} {f : Bytes × Bytes}
    (hf : equals ∉ f.1) (h : hostOption lineNumber entry (optionText f) = .ok new) :
    ((f.1 = ascii "port" ∨ f.1 = ascii "native_port") → IsPort f.2) ∧
      (f.1 = ascii "identity" → new.identity = f.2) ∧ (f.1 = ascii "san" → new.san = f.2) := by
  obtain ⟨key, value, heq, hcases⟩ := hostOption_ok h
  have hkeys : equals ∉ key := by
    rcases hcases with ⟨rfl, -⟩ | ⟨rfl, -⟩ | ⟨rfl, -⟩ | ⟨rfl, -⟩ | ⟨rfl, -⟩ | ⟨rfl, -⟩ |
      ⟨rfl, -⟩ <;>
      decide
  obtain rfl : f = (key, value) := option_inj hf hkeys heq
  dsimp only
  rcases hcases with ⟨rfl, -⟩ | ⟨rfl, hport, -⟩ | ⟨rfl, rfl⟩ | ⟨rfl, -⟩ | ⟨rfl, rfl⟩ |
    ⟨rfl, hport, -⟩ |
    ⟨rfl, -⟩
  all_goals
    refine ⟨fun heq => ?_, fun heq => ?_, fun heq => ?_⟩
    all_goals first
      | exact hport
      | rfl
      | exact absurd heq (by decide)

section Tail

variable {p : UrlParts} {fields : List (Bytes × Bytes)} {read : ClientEntry} {r : Bytes}
  {lineNumber : Nat} {normalized : Bytes} {entry : Host}

theorem target_sign {user : Bytes} (huser : sign ∉ user) (host : Bytes) :
    ({} : Reading).target (user ++ sign :: host) = (user, host) := by
  unfold Reading.target
  rw [cut_append huser]

theorem Taken.isPart_host (h : Taken p fields read) : IsPart p.host :=
  (isPart_of_all h.hostValid.2 (by decide)).1

theorem Taken.isPart_options (h : Taken p fields read) :
    ∀ o ∈ optionsOf p fields, o.1 ∈ keys ∧ IsPart o.2 := by
  intro o ho
  rcases List.mem_append.mp ho with ho | ho
  · cases hport : p.port with
    | none => rw [hport] at ho; cases ho
    | some port =>
      rw [hport, Option.elim_some, List.mem_singleton] at ho
      obtain rfl := ho
      have hkey : ascii "port" ∈ keys := by decide
      exact ⟨hkey, (isPart_port h hport).1⟩
  · obtain ⟨f, hf, rfl⟩ := List.mem_map.mp ho
    have hpart : IsPart f.2 := isPart_parameter (h.keyed f hf)
    exact ⟨(key_imported _ (h.known f hf).1).2, hpart⟩

/-- Behind a host, the white space would be of the host. -/
theorem Taken.tail_host (h : Taken p fields read) (hr : IsTail r) (hport : p.port = none)
    (hquery : p.query = none) (hnormalize : normalize lineNumber (p.text ++ r) = .ok normalized)
    (hline : IsHostLine normalized entry) (hsame : SameEntry read entry) : r = [] := by
  have hmarks : UrlParts.Marked ⟨p.user, p.host ++ r, none, none⟩ := by
    have hquery := h.marks.query
    refine ⟨h.marks.user, fun hin => ?_, ?_⟩
    · exact (List.mem_append.mp hin).elim h.marks.host (hr.not_mem (by decide))
    · have hnot : (63 : UInt8) ∉ r := hr.not_mem (by decide)
      unfold UrlParts.authority at hquery ⊢
      simp only [List.mem_append, List.mem_cons, not_or] at hquery ⊢
      exact ⟨hquery.1, hquery.2.1, ⟨hquery.2.2.1, hnot⟩, List.not_mem_nil⟩
  have htext : p.text ++ r = UrlParts.text ⟨p.user, p.host ++ r, none, none⟩ := by
    simp [UrlParts.text, UrlParts.authority, hport, hquery]
  rw [htext, normalize_bare hmarks h.colon_user (by simp) rfl] at hnormalize
  rw [hnormalize] at hline
  have hmade :=
    hline.options (isParted_of h.userValid ⟨by simp [h.hostValid.1], hr.part h.isPart_host⟩
    (List.forall_mem_nil _)) 0
  rw [target_sign h.marks.user] at hmade
  obtain rfl := Except.ok.inj hmade
  have hhost : p.host ++ r = p.host := hsame.host.trans h.named.2
  exact List.append_right_eq_self.mp hhost

/-- Behind a port, it would be of the port. -/
theorem Taken.tail_port (h : Taken p fields read) (hr : IsTail r) {port : Bytes}
    (hport : p.port = some port) (hquery : p.query = none)
    (hnormalize : normalize lineNumber (p.text ++ r) = .ok normalized)
    (hline : IsHostLine normalized entry) : r = [] := by
  have hpart := isPart_port h hport
  have hmarks : UrlParts.Marked ⟨p.user, p.host, some (port ++ r), none⟩ := by
    have hquery := h.marks.query
    have hnot : (63 : UInt8) ∉ r := hr.not_mem (by decide)
    refine ⟨h.marks.user, h.marks.host, ?_⟩
    unfold UrlParts.authority at hquery ⊢
    rw [hport] at hquery
    simp only [Option.elim_some, List.mem_append, List.mem_cons, not_or] at hquery ⊢
    exact ⟨hquery.1, hquery.2.1, hquery.2.2.1, hquery.2.2.2.1, hquery.2.2.2.2, hnot⟩
  have htext : p.text ++ r = UrlParts.text ⟨p.user, p.host, some (port ++ r), none⟩ := by
    simp [UrlParts.text, UrlParts.authority, hport, hquery]
  have hcolon : ∀ value ∈ some (port ++ r), colon ∉ value := by
    intro value hvalue hin
    rw [← Option.some.inj hvalue] at hin
    exact (List.mem_append.mp hin).elim hpart.2 (hr.not_mem (by decide))
  rw [htext, normalize_bare hmarks h.colon_user hcolon rfl] at hnormalize
  rw [hnormalize] at hline
  have hkey : ascii "port" ∈ keys ∧ equals ∉ ascii "port" := by decide
  have hmade := hline.options (isParted_of h.userValid ⟨h.hostValid.1, h.isPart_host⟩
    (List.forall_mem_singleton.mpr ⟨hkey.1, hr.part hpart.1⟩)) 0
  obtain ⟨last, hlast, -⟩ := bind_ok.mp hmade
  have hvalid : IsPort (port ++ r) := (hostOption_field hkey.2 hlast).1 (.inl rfl)
  exact hr.eq_nil (List.all_eq_true.mpr hvalid.2.1) (by decide)

/-- Behind the last parameter of a client there is no such white space when the host says the
same. -/
theorem IsTail.eq_nil_of_option (hr : IsTail r) (hsound : ClientConfig.Sound read)
    (hsame : SameEntry read entry) {f : Bytes × Bytes} (hf : IsParameter f) {middle : Host}
    (h : hostOption lineNumber middle (optionText (importedKey f.1, f.2 ++ r)) = .ok entry) :
    r = [] := by
  have hkey : equals ∉ importedKey f.1 := (key_form _ (key_imported _ (key_parameter hf)).2).2.1
  obtain ⟨hport, hidentity, hsan⟩ := hostOption_field hkey h
  rcases hf.2 with ⟨hkey, -⟩ | ⟨hkey, -⟩ | ⟨hkey, -⟩
  · have hvalue : f.2 ++ r = read.identityFile := by
      rw [← hsame.identity, hidentity]
      rcases hkey with hkey | hkey <;> rw [hkey] <;> rfl
    exact hr.eq_nil (hvalue ▸ hsound.identity) (by decide)
  · have hvalue : f.2 ++ r = read.expectedSan := by
      rw [← hsame.san, hsan]
      rw [hkey]
      rfl
    exact hr.eq_nil (hvalue ▸ hsound.san) (by decide)
  · have hvalid : IsPort (f.2 ++ r) := hport (.inr (by rw [hkey]; rfl))
    exact hr.eq_nil (List.all_eq_true.mpr hvalid.2.1) (by decide)

/-- Behind a parameter, it would be of the parameter. -/
theorem Taken.tail_query (h : Taken p fields read) (hsound : ClientConfig.Sound read)
    (hr : IsTail r) {query : Bytes} (hquery : p.query = some query)
    (hnormalize : normalize lineNumber (p.text ++ r) = .ok normalized)
    (hline : IsHostLine normalized entry) (hsame : SameEntry read entry) : r = [] := by
  have hmarks : UrlParts.Marked ⟨p.user, p.host, p.port, some (query ++ r)⟩ :=
    ⟨h.marks.user, h.marks.host, h.marks.query⟩
  have htext : p.text ++ r = UrlParts.text ⟨p.user, p.host, p.port, some (query ++ r)⟩ := by
    simp [UrlParts.text, UrlParts.authority, hquery]
  have hcolon : ∀ port ∈ p.port, colon ∉ port := fun _ hport => (isPart_port h hport).2
  have hamp : (38 : UInt8) ∉ r := hr.not_mem (by decide)
  have hitems := h.items
  rw [hquery, Option.getD_some] at hitems
  rw [htext] at hnormalize
  rcases hitems with ⟨rfl, -⟩ | hitems
  · by_contra hsome
    rw [normalize_text hmarks h.colon_user hcolon, Option.getD_some, List.nil_append,
      Text.getlines_last hamp hsome] at hnormalize
    obtain ⟨done, hdone, -⟩ := bind_ok.mp hnormalize
    obtain ⟨next, hnext, -⟩ := bind_ok.mp hdone
    unfold importParameter at hnext
    rw [Scan.cut_none.mpr (hr.not_mem (by decide))] at hnext
    exact fail_ok hnext
  · obtain ⟨before, last, hfront, hlast⟩ := Text.splitOn_append_last hamp query
    rw [hfront] at hitems
    obtain ⟨init, f, rfl⟩ : ∃ init f, fields = init ++ [f] := by
      rcases List.eq_nil_or_concat fields with rfl | ⟨init, f, rfl⟩
      · simp at hitems
      · exact ⟨init, f, by simp⟩
    rw [List.map_append, List.map_singleton] at hitems
    obtain ⟨rfl, hf⟩ := List.append_inj' hitems rfl
    obtain rfl := List.singleton_injective hf
    have htail : optionText f ++ r = optionText (f.1, f.2 ++ r) := by simp [optionText]
    have hnew : (query ++ r).splitOn 38 = (init ++ [(f.1, f.2 ++ r)]).map optionText := by
      rw [hlast, htail, List.map_append, List.map_singleton]
    have hknown : ∀ g ∈ init ++ [(f.1, f.2 ++ r)], g.1 ∈ parameterKeys ∧ g.2 ≠ [] := by
      have hold := h.known
      rw [List.forall_mem_append, List.forall_mem_singleton] at hold ⊢
      exact ⟨hold.1, hold.2.1, by simp [hold.2.2]⟩
    rw [normalize_parts hmarks h.colon_user hcolon (getlines_items hnew) hknown] at hnormalize
    rw [hnormalize.2] at hline
    have hoptions : optionsOf ⟨p.user, p.host, p.port, some (query ++ r)⟩
        (init ++ [(f.1, f.2 ++ r)]) = optionsOf p init ++ [(importedKey f.1, f.2 ++ r)] := by
      simp [optionsOf, imported]
    have hparts : ∀ o ∈ optionsOf p init ++ [(importedKey f.1, f.2 ++ r)],
        o.1 ∈ keys ∧ IsPart o.2 := by
      have hold := h.isPart_options
      have hsplit : optionsOf p (init ++ [f]) = optionsOf p init ++ [imported f] := by
        simp [optionsOf]
      rw [hsplit, List.forall_mem_append, List.forall_mem_singleton] at hold
      rw [List.forall_mem_append, List.forall_mem_singleton]
      exact ⟨hold.1, hold.2.1, hr.part hold.2.2⟩
    rw [hoptions] at hline
    have hmade := hline.options (isParted_of h.userValid ⟨h.hostValid.1, h.isPart_host⟩ hparts) 0
    rw [List.map_append, List.foldlM_append] at hmade
    obtain ⟨middle, -, hmade⟩ := bind_ok.mp hmade
    obtain ⟨last, hlast, hend⟩ := bind_ok.mp hmade
    obtain rfl := pure_ok.mp hend
    exact hr.eq_nil_of_option hsound hsame (h.keyed f (by simp)) hlast

/-! ## Lines that the two read alike -/

theorem plain_scheme {before more : Bytes} (hbefore : colon ∉ before) :
    (ascii "ssh://").isPrefixOf (before ++ sign :: more) = false := by
  refine Bool.eq_false_iff.mpr fun hprefix => ?_
  obtain ⟨rest, hrest⟩ := List.isPrefixOf_iff_prefix.mp hprefix
  have hscheme : colon ∈ ascii "ssh://" ∧ sign ∉ ascii "ssh://" := by decide
  rcases List.append_eq_append_iff.mp hrest with ⟨behind, heq, -⟩ | ⟨behind, heq, htail⟩
  · exact hbefore (heq ▸ List.mem_append_left _ hscheme.1)
  · cases behind with
    | nil =>
      rw [List.append_nil] at heq
      exact hbefore (heq ▸ hscheme.1)
    | cons b behind =>
      rw [List.cons_append] at htail
      obtain ⟨rfl, -⟩ := List.cons.inj htail
      exact hscheme.2 (heq ▸ by simp)

/-- Around a plain entry, the white space would be of the user or of the host. -/
theorem plain_around {user host l : Bytes} (huser : user ≠ [] ∧ user.all isValidUserChar = true)
    (hhost : host ≠ [] ∧ host.all isValidHostChar = true) (hl : ∀ b ∈ l, isSpace b = true)
    (hfirst : ∀ b ∈ (l ++ (user ++ sign :: host) ++ r).head?, isTrimmed b = false) (hr : IsTail r)
    (hnormalize : normalize lineNumber (l ++ (user ++ sign :: host) ++ r) = .ok normalized)
    (hline : IsHostLine normalized entry)
    (hsame : SameEntry (ClientConfig.named user host) entry) : l = [] ∧ r = [] := by
  have hnot : ∀ {c : UInt8}, isSpace c = false → isValidUserChar c = false → c ∉ l ++ user :=
    fun hspace hvalid hin => (List.mem_append.mp hin).elim
      (fun hin => Bool.false_ne_true (hspace.symm.trans (hl _ hin)))
      (ClientConfig.not_mem_of_all huser.2 hvalid)
  have htext : l ++ (user ++ sign :: host) ++ r = (l ++ user) ++ sign :: (host ++ r) := by simp
  have htoken : lineText ((l ++ user) ++ sign :: (host ++ r)) [] = (l ++ user) ++ sign ::
      (host ++ r) := by
    simp [lineText]
  rw [htext] at hnormalize hfirst
  have hpassword : hasPassword ((l ++ user) ++ sign :: (host ++ r)) = false := by
    unfold hasPassword
    rw [cut_append (hnot (by decide) (by decide))]
    exact decide_eq_false (hnot (by decide) (by decide))
  rw [normalize_plain (plain_scheme (hnot (by decide) (by decide))) hpassword] at hnormalize
  obtain rfl := (Except.ok.inj hnormalize).symm
  have hhostPart : IsPart (host ++ r) := hr.part (isPart_of_all hhost.2 (by decide)).1
  have huserPart := (isPart_of_all huser.2 (by decide)).1
  have hspaces := spaces_uncommented hl
  have hparts : IsParted ((l ++ user) ++ sign :: (host ++ r)) [] := by
    refine ⟨by simp, hfirst, ⟨fun hin => ?_, fun b hb => ?_, fun b hb => ?_⟩,
      List.forall_mem_nil _⟩
    · rcases List.mem_append.mp hin with hin | hin
      · exact hnot (by decide) (by decide) hin
      · rcases List.mem_cons.mp hin with heq | hin
        · exact absurd heq (by decide)
        · exact hhostPart.unequal hin
    · rcases List.mem_append.mp hb with hb | hb
      · exact (List.mem_append.mp hb).elim (fun hb => (hspaces b hb).2) (huserPart.uncommented b)
      · rcases List.mem_cons.mp hb with rfl | hb
        · rfl
        · exact hhostPart.uncommented b hb
    · rw [List.getLast?_append_of_ne_nil _ (List.cons_ne_nil _ _)] at hb
      obtain ⟨c, rest, heq⟩ := List.exists_cons_of_ne_nil (by simp [hhost.1] : host ++ r ≠ [])
      rw [heq, List.getLast?_cons_cons] at hb
      exact hhostPart.last b (heq ▸ hb)
  rw [← htoken] at hline
  have hmade := hline.options hparts 0
  rw [target_sign (hnot (by decide) (by decide))] at hmade
  obtain rfl := Except.ok.inj hmade
  exact ⟨List.append_left_eq_self.mp hsame.user, List.append_right_eq_self.mp hsame.host⟩

/-- In front of a URL, the white space would make the scheme a user with a password. -/
theorem url_behind (hsign : sign ∉ p.user) {l : Bytes} (hl : ∀ b ∈ l, isSpace b = true)
    (h : normalize lineNumber (l ++ p.text ++ r) = .ok normalized) : l = [] := by
  by_contra hsome
  obtain ⟨b, rest, rfl⟩ := List.exists_cons_of_ne_nil hsome
  have hmarks : sign ∉ b :: rest ∧ sign ∉ ascii "ssh://" ∧ colon ∈ ascii "ssh://" :=
    ⟨fun hin => absurd (hl sign hin) (by decide), by decide, by decide⟩
  have htext : b :: rest ++ p.text ++ r = (b :: rest ++ (ascii "ssh://" ++ p.user)) ++ sign ::
      ((p.host ++ p.port.elim [] fun port => colon :: port) ++
        ((p.query.elim [] fun query => 63 :: query) ++ r)) := by
    simp [UrlParts.text, UrlParts.authority]
  have hscheme : (ascii "ssh://").isPrefixOf (b :: rest ++ p.text ++ r) = false := by
    refine Bool.eq_false_iff.mpr fun hprefix => ?_
    obtain ⟨more, hmore⟩ := List.isPrefixOf_iff_prefix.mp hprefix
    have hhead : b = 115 := (List.cons.inj hmore).1.symm
    have hb := hl b List.mem_cons_self
    rw [hhead] at hb
    exact absurd hb (by decide)
  have hpassword : hasPassword (b :: rest ++ p.text ++ r) = true := by
    have hbefore : sign ∉ b :: rest ++ (ascii "ssh://" ++ p.user) := by
      rw [List.mem_append, List.mem_append, not_or, not_or]
      exact ⟨hmarks.1, hmarks.2.1, hsign⟩
    unfold hasPassword
    rw [htext, cut_append hbefore]
    exact decide_eq_true (List.mem_append_right _ (List.mem_append_left _ hmarks.2.2))
  unfold normalize at h
  rw [hscheme, hpassword, if_neg Bool.false_ne_true, if_pos rfl] at h
  exact fail_ok h

theorem isTail_of {raw before r : Bytes} (h : trim raw = before ++ r)
    (hr : ∀ b ∈ r, isSpace b = true) : IsTail r := by
  refine ⟨hr, fun b hb => ?_⟩
  have hsome : r ≠ [] := by
    rintro rfl
    cases hb
  have hlast : (trim raw).getLast? = r.getLast? := by
    rw [h, List.getLast?_append_of_ne_nil _ hsome]
  exact Scan.strip_last b (hlast ▸ hb)

/-- The options of a URL that is read are numbers where they have to be. -/
theorem Taken.urlAgrees (h : Taken p fields read)
    (hnormalize : normalize lineNumber p.text = .ok normalized)
    (hline : IsHostLine normalized entry) : UrlAgrees (p.text.drop 6) := by
  obtain ⟨hnodup, rfl⟩ := (h.normalizes _ _).mp hnormalize
  have hmade := hline.options (isParted_of h.userValid ⟨h.hostValid.1, h.isPart_host⟩
    h.isPart_options) 0
  have hport : ∀ o ∈ optionsOf p fields,
      o.1 = ascii "port" ∨ o.1 = ascii "native_port" → IsPort o.2 := by
    intro o ho
    obtain ⟨middle, new, hstep⟩ := foldlM_step hmade _ (List.mem_map_of_mem ho)
    exact (hostOption_field (key_form _ (h.isPart_options o ho).1).2.1 hstep).1
  refine h.urlAgrees_iff.mpr ⟨fun port hsome => ?_, fun f hf hkey => ?_, hnodup⟩
  · refine hport (ascii "port", port) (List.mem_append_left _ ?_) (.inl rfl)
    rw [Option.mem_def.mp hsome]
    exact List.mem_singleton.mpr rfl
  · refine hport (imported f) (List.mem_append_right _ (List.mem_map_of_mem hf)) (.inr ?_)
    show importedKey f.1 = _
    rw [hkey]
    rfl

/-- Behind a URL, the white space would be of its last part. -/
theorem Taken.tail (h : Taken p fields read) (hsound : ClientConfig.Sound read) (hr : IsTail r)
    (hnormalize : normalize lineNumber (p.text ++ r) = .ok normalized)
    (hline : IsHostLine normalized entry) (hsame : SameEntry read entry) : r = [] := by
  cases hquery : p.query with
  | some query => exact h.tail_query hsound hr hquery hnormalize hline hsame
  | none =>
    cases hport : p.port with
    | some port => exact h.tail_port hr hport hquery hnormalize hline
    | none => exact h.tail_host hr hport hquery hnormalize hline hsame

theorem agrees_of_row {raw : Bytes} {client : ClientEntry} {row : Bytes × Host}
    (hparse : ClientConfig.parseEntry raw = .ok client) (hrow : IsRow raw row)
    (hsame : SameEntry client row.2) : trim raw = ClientConfig.trim raw ∧
      ((ascii "ssh://").isPrefixOf (trim raw) = true → UrlAgrees ((trim raw).drop 6)) := by
  obtain ⟨-, read, rfl, hsound, hread⟩ := ClientConfig.parseEntry_ok hparse
  obtain ⟨⟨lineNumber, hnormalize⟩, hline⟩ := hrow
  obtain ⟨l, r, htrim, hl, hspaces⟩ := ClientConfig.trim_around raw
  have hsame : SameEntry read row.2 := { hsame with }
  have hr := isTail_of htrim hspaces
  have hfirst : ∀ b ∈ (trim raw).head?, isTrimmed b = false := Scan.strip_first
  split_ifs at hread with hurl
  · obtain ⟨p, fields, htext, htaken⟩ := taken_of hsound hread
    rw [htext] at htrim ⊢
    rw [htrim] at hnormalize ⊢
    obtain rfl := url_behind htaken.marks.user hl hnormalize
    rw [List.nil_append] at hnormalize ⊢
    obtain rfl := htaken.tail hsound hr hnormalize hline hsame
    rw [List.append_nil] at hnormalize ⊢
    exact ⟨rfl, fun _ => htaken.urlAgrees hnormalize hline⟩
  · obtain ⟨user, host, htext, -, rfl⟩ := ClientConfig.parseLegacyEntry_ok hread
    rw [htext] at htrim ⊢
    rw [htrim] at hnormalize hfirst ⊢
    obtain ⟨rfl, rfl⟩ := plain_around hsound.user hsound.host hl hfirst hr hnormalize hline hsame
    rw [List.nil_append, List.append_nil]
    refine ⟨rfl, fun hscheme => absurd hscheme (hurl ∘ ?_)⟩
    rw [htext]
    exact id

end Tail

/-! ## The whole list -/

theorem rows_of_agrees {knownHostsFile : Bytes} {raws : List Bytes} {clients : List ClientEntry}
    (h : List.Forall₂ (Loads knownHostsFile) raws clients)
    (hagrees : ∀ raw ∈ raws, trim raw = ClientConfig.trim raw ∧
      ((ascii "ssh://").isPrefixOf (trim raw) = true → UrlAgrees ((trim raw).drop 6))) :
    ∃ rows : List (Bytes × Host), List.Forall₂ MakesRow raws rows ∧
      List.Forall₂ SameEntry clients (rows.map Prod.snd) ∧
      (rows.map fun row => row.2.name) = clients.map ClientEntry.host := by
  induction h with
  | nil => exact ⟨[], .nil, .nil, rfl⟩
  | cons hloads hrest ih =>
    rw [List.forall_mem_cons] at hagrees
    obtain ⟨rows, hrows, hsame, hnames⟩ := ih hagrees.2
    obtain ⟨entry, hparse, rfl⟩ := hloads
    obtain ⟨row, hrow, hentry, hname⟩ := row_of_agrees hagrees.1.1 hagrees.1.2 hparse
    refine ⟨row :: rows, .cons hrow hrows, .cons (hentry.loaded _ _) hsame, ?_⟩
    rw [List.map_cons, List.map_cons, hname, hnames]

theorem agrees_of_rows {knownHostsFile : Bytes} {raws : List Bytes} {clients : List ClientEntry}
    {rows : List (Bytes × Host)} (hloads : List.Forall₂ (Loads knownHostsFile) raws clients)
    (hrows : List.Forall₂ IsRow raws rows)
    (hsame : List.Forall₂ SameEntry clients (rows.map Prod.snd)) : ∀ raw ∈ raws, Agrees raw := by
  induction hloads generalizing rows with
  | nil => exact nofun
  | cons hload hloads ih =>
    obtain ⟨row, rest, hrow, hrest, rfl⟩ := List.forall₂_cons_left_iff.mp hrows
    rw [List.map_cons, List.forall₂_cons] at hsame
    obtain ⟨entry, hparse, rfl⟩ := hload
    exact List.forall_mem_cons.mpr
      ⟨.inr (agrees_of_row hparse hrow { hsame.1 with }), ih hrest hsame.2⟩

theorem Agrees.skips {raw : Bytes} (h : Agrees raw) : LoadSkips raw ↔ ImportSkips raw := by
  refine ⟨fun hskips => ?_, LoadSkips.of_import⟩
  rcases h with hskips' | ⟨htrim, -⟩
  · exact hskips'
  · unfold LoadSkips at hskips
    rwa [← htrim] at hskips

theorem loads_of_load {knownHostsFile text : Bytes} {clients : List ClientEntry}
    (h : ClientConfig.loadFromFile knownHostsFile text = .ok clients) :
    List.Forall₂ (Loads knownHostsFile)
      ((text.splitOn newline).filter fun raw => ¬ LoadSkips raw) clients := by
  obtain ⟨more, rfl, hloads⟩ := loadLines_ok h
  rw [loaded_lines]
  exact hloads

/-- A list that loads, with hosts of different names, is imported as the same hosts if and only if
the two readers agree on each of its lines. -/
theorem import_agrees_iff {knownHostsFile text sourcePath : Bytes} {clients : List ClientEntry}
    (hload : ClientConfig.loadFromFile knownHostsFile text = .ok clients)
    (hnames : (clients.map ClientEntry.host).Nodup) :
    (∃ inventory, importClientsTxt text sourcePath = .ok inventory ∧
      List.Forall₂ SameEntry clients inventory.hosts) ↔
      ∀ raw ∈ text.splitOn newline, Agrees raw := by
  have hloads := loads_of_load hload
  constructor
  · rintro ⟨inventory, himport, hsame⟩
    obtain ⟨rows, hrows, hhosts⟩ := import_rows himport
    rw [hhosts] at hsame
    -- The loader skips no more lines than the import does: there is a host for each client.
    have hraws : (text.splitOn newline).filter (fun raw => ¬ LoadSkips raw) =
        (text.splitOn newline).filter fun raw => ¬ ImportSkips raw := by
      refine List.Sublist.eq_of_length (List.monotone_filter_right _ fun raw hreads => ?_) ?_
      · rw [decide_eq_true_iff] at hreads ⊢
        exact fun hskips => hreads (.of_import hskips)
      · rw [hloads.length_eq, hrows.length_eq, hsame.length_eq, List.length_map]
    rw [hraws] at hloads
    intro raw hraw
    by_cases hskips : ImportSkips raw
    · exact .inl hskips
    · exact agrees_of_rows hloads hrows hsame raw (List.mem_filter.mpr ⟨hraw,
        decide_eq_true hskips⟩)
  · intro hagrees
    have hraws : (text.splitOn newline).filter (fun raw => ¬ LoadSkips raw) =
        (text.splitOn newline).filter fun raw => ¬ ImportSkips raw :=
      List.filter_congr fun raw hraw => decide_eq_decide.mpr (not_congr (hagrees raw hraw).skips)
    rw [hraws] at hloads
    obtain ⟨rows, hrows, hsame, hrowNames⟩ := rows_of_agrees hloads fun raw hraw =>
      have hmem := List.mem_filter.mp hraw
      (hagrees raw hmem.1).resolve_left (of_decide_eq_true hmem.2)
    exact ⟨_, import_of_rows hrows (hrowNames ▸ hnames) sourcePath, hsame⟩

/-- A list with both kinds of lines and a comment. -/
def fleetText : Bytes :=
  ascii "# fleet\nroot@web-1\n\n ssh://root@web-2:2222?key=~/id&san=spiffe://x&native_port=9443\n"

/-- A list of two clients that is imported as it is loaded. -/
theorem a_legacy_list_is_imported : ∃ inventory, importClientsTxt fleetText [] = .ok inventory ∧
    List.Forall₂ SameEntry
      [{ raw := ascii "root@web-1", user := ascii "root", host := ascii "web-1" },
        { raw := ascii "ssh://root@web-2:2222?identity=~/id&san=spiffe://x&native_port=9443",
          user := ascii "root", host := ascii "web-2", port := 2222, identityFile := ascii "~/id",
          expectedSan := ascii "spiffe://x", nativePort := 9443 }] inventory.hosts := by
  have hload : ClientConfig.loadFromFile [] fleetText = .ok
      [{ raw := ascii "root@web-1", user := ascii "root", host := ascii "web-1" },
        { raw := ascii "ssh://root@web-2:2222?identity=~/id&san=spiffe://x&native_port=9443",
          user := ascii "root", host := ascii "web-2", port := 2222, identityFile := ascii "~/id",
          expectedSan := ascii "spiffe://x", nativePort := 9443 }] := by
    decide +kernel
  refine (import_agrees_iff hload (by decide)).mpr ?_
  unfold Agrees
  decide +kernel

/-- An empty port is none for the loader, and is refused by the import. -/
example : (ClientConfig.loadFromFile [] (ascii "ssh://u@h:\n")).isOk = true ∧
    (importClientsTxt (ascii "ssh://u@h:\n") []).isOk = false := by
  decide +kernel

end psx.inventory
