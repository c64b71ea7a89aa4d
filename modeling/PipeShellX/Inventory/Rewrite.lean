-- An inventory that is written and read again. Hosts whose lines come through the comments, the
-- blanks and the `@` of the format are read as they were written, in the same groups.
import PipeShellX.Inventory.HostLine

namespace psx.inventory

open Text (ascii)
open Scan (words cut cut_append strip_self)
open Decimal (isDigit natural isDigit_natural natural_ne_nil value_natural)

/-! ## The lines of a text that was written -/

/-- The section of a group, and the empty line behind it. -/
def sectionLines (hosts : List Host) (group : Bytes) : List Bytes :=
  (91 :: group ++ [93]) :: (hosts.filter fun entry => group ∈ entry.groups).map hostText ++ [[]]

theorem splitOn_line {line : Bytes} (h : newline ∉ line) (rest : Bytes) :
    (line ++ newline :: rest).splitOn newline = line :: rest.splitOn newline :=
  List.splitOnP_append_cons_of_forall_mem
    (fun b hb => beq_eq_false_iff_ne.mpr (show b ≠ newline from fun heq => h (heq ▸ hb))) newline
    (beq_self_eq_true newline)
    rest

theorem newline_hostText {entry : Host} (h : IsHost entry) : newline ∉ hostText entry := by
  intro hin
  rw [hostText_eq, targetText, h.host] at hin
  rcases List.mem_append.mp hin with hin | hin
  · rcases List.mem_append.mp hin with hin | hin
    · split_ifs at hin
      · rcases List.mem_append.mp hin with hin | hin
        · exact h.user.1 hin
        · exact absurd hin (by decide)
      · cases hin
    · exact (h.name _ hin).2 rfl
  · obtain ⟨f, hf, hin⟩ := List.mem_flatMap.mp hin
    rcases List.mem_cons.mp hin with hin | hin
    · exact absurd hin (by decide)
    · rcases List.mem_append.mp hin with hin | hin
      · exact ((key_form _ (key_fields hf)).1 _ hin).2 rfl
      · rcases List.mem_cons.mp hin with hin | hin
        · exact absurd hin (by decide)
        · exact (text_fields h hf).1 hin

theorem newline_header {group : Bytes} (h : IsGroup group) : newline ∉ 91 :: group ++ [93] := by
  intro hin
  simp only [List.cons_append, List.mem_cons, List.mem_append, List.not_mem_nil, or_false] at hin
  rcases hin with hin | hin | hin
  · exact absurd hin (by decide)
  · exact h.text.1 hin
  · exact absurd hin (by decide)

theorem splitOn_group {hosts : List Host} (hhosts : ∀ entry ∈ hosts, IsHost entry) {group : Bytes}
    (hgroup : IsGroup group) (rest : Bytes) : (groupText hosts group ++ rest).splitOn newline =
      (91 :: group ++ [93]) ::
        (hosts.filter fun entry => group ∈ entry.groups).map hostText ++ rest.splitOn newline := by
  have hlines : ∀ entries : List Host, (∀ entry ∈ entries, IsHost entry) →
      ((entries.flatMap fun entry => hostText entry ++ [newline]) ++ rest).splitOn newline =
        entries.map hostText ++ rest.splitOn newline := by
    intro entries hentries
    induction entries with
    | nil => rfl
    | cons entry entries ih =>
      rw [List.forall_mem_cons] at hentries
      rw [List.flatMap_cons, List.append_assoc, List.append_assoc, List.singleton_append,
        splitOn_line (newline_hostText hentries.1), ih hentries.2]
      rfl
  have htext : groupText hosts group ++ rest = (91 :: group ++ [93]) ++ newline ::
      (((hosts.filter fun entry => group ∈ entry.groups).flatMap fun entry =>
        hostText entry ++ [newline]) ++ rest) := by
    unfold groupText
    simp only [List.append_assoc]
    rfl
  rw [htext, splitOn_line (newline_header hgroup),
    hlines _ fun entry he => hhosts entry (List.mem_filter.mp he).1]
  rfl

theorem mem_groups {inventory : Inventory} {group : Bytes} :
    group ∈ inventory.groups ↔ ∃ entry ∈ inventory.hosts, group ∈ entry.groups := by
  have hfold : ∀ (hosts : List Host) (out : List Bytes),
      group ∈ hosts.foldl (fun out host => host.groups.foldl addUnique out) out ↔
        group ∈ out ∨ ∃ entry ∈ hosts, group ∈ entry.groups := by
    intro hosts
    induction hosts with
    | nil => simp
    | cons entry hosts ih =>
      intro out
      rw [List.foldl_cons, ih, mem_foldl_addUnique, List.exists_mem_cons_iff, or_assoc]
  exact (hfold _ []).trans (or_iff_right List.not_mem_nil)

theorem splitOn_serialize {inventory : Inventory} (h : ∀ entry ∈ inventory.hosts, IsHost entry) :
    inventory.serialize.splitOn newline = [[]] ∧ inventory.groups = [] ∨
      inventory.serialize.splitOn newline =
        inventory.groups.flatMap (sectionLines inventory.hosts) := by
  have hgroups : ∀ group ∈ inventory.groups, IsGroup group := by
    intro group hin
    obtain ⟨entry, hentry, hin⟩ := mem_groups.mp hin
    exact (h entry hentry).groups group hin
  have hsections : ∀ (groups : List Bytes) (group : Bytes), (∀ g ∈ group :: groups, IsGroup g) →
      (groupText inventory.hosts group ++
        groups.flatMap fun group => newline :: groupText inventory.hosts group).splitOn newline =
        (group :: groups).flatMap (sectionLines inventory.hosts) := by
    intro groups
    induction groups with
    | nil =>
      intro group hall
      rw [List.flatMap_nil, splitOn_group h (hall group List.mem_cons_self), List.flatMap_cons,
        List.flatMap_nil, List.append_nil]
      rfl
    | cons next groups ih =>
      intro group hall
      rw [List.forall_mem_cons] at hall
      have hempty : ∀ rest, (newline :: rest).splitOn newline = [] :: rest.splitOn newline :=
        splitOn_line List.not_mem_nil
      rw [List.flatMap_cons, splitOn_group h hall.1, List.cons_append (a := newline), hempty,
        ih next hall.2, List.flatMap_cons]
      simp [sectionLines]
  unfold Inventory.serialize
  cases hgroup : inventory.groups with
  | nil => exact .inl ⟨rfl, rfl⟩
  | cons group groups => exact .inr (hsections groups group (hgroup ▸ hgroups))

/-! ## Their reading -/

theorem Reading.lines_append (r : Reading) (lineNumber : Nat) (rawLines more : List Bytes) :
    r.lines lineNumber (rawLines ++ more) =
      r.lines lineNumber rawLines >>= fun r => r.lines (lineNumber + rawLines.length) more := by
  induction rawLines generalizing r lineNumber with
  | nil => rfl
  | cons rawLine rawLines ih =>
    rw [List.cons_append, Reading.lines, Reading.lines, List.length_cons]
    cases r.line lineNumber rawLine with
    | error what => rfl
    | ok next =>
      have hcount : lineNumber + 1 + rawLines.length = lineNumber + (rawLines.length + 1) := by
        omega
      exact (ih next (lineNumber + 1)).trans (by rw [hcount]; rfl)

/-- No default was set, and hosts are read. -/
structure Reading.Bare (r : Reading) : Prop where
  user : r.defaultUser = []
  identity : r.defaultIdentity = []
  port : r.defaultPortSet = false
  hosts : r.inDefaults = false

theorem empty_line (r : Reading) (lineNumber : Nat) : r.line lineNumber [] = .ok r := rfl

theorem group_line (r : Reading) (lineNumber : Nat) {group : Bytes} (h : IsGroup group) :
    r.line lineNumber (91 :: group ++ [93]) =
      .ok { r with inDefaults := false, currentGroup := group } := by
  have hkept : Kept true (91 :: (group ++ [93])) := by
    refine kept_cons.mpr ⟨rfl, kept_append.mpr ⟨h.text.2, ?_⟩⟩
    exact kept_cons.mpr ⟨rfl, kept_nil _⟩
  have htrim : trim (91 :: (group ++ [93])) = 91 :: (group ++ [93]) := by
    refine strip_self (fun b hb => Option.some.inj hb ▸ rfl) fun b hb => ?_
    rw [← List.cons_append, List.getLast?_concat] at hb
    exact Option.some.inj hb ▸ rfl
  have hline : trim (stripComment (91 :: group ++ [93])) = 91 :: group ++ [93] := by
    rw [List.cons_append, stripComment, hkept, htrim]
  have hinner : (91 :: group ++ [93]).tail.dropLast = group := by
    rw [List.cons_append, List.tail_cons, List.dropLast_concat]
  have hfirst : (91 :: group ++ [93]).head? = some 91 := rfl
  have hlast : ¬ (91 :: group ++ [93]).getLast? ≠ some 93 := not_not_intro List.getLast?_concat
  unfold Reading.line Reading.header
  dsimp only
  rw [hline, if_neg (by simp), if_pos hfirst, if_neg hlast, hinner, h.trimmed, if_neg h.hosts]
  rfl

theorem host_line {r : Reading} (hr : r.Bare) (hgroup : r.currentGroup ≠ []) (lineNumber : Nat)
    {rawLine : Bytes} (hsome : trim (stripComment rawLine) ≠ [])
    (hsection : (trim (stripComment rawLine)).head? ≠ some 91) :
    r.line lineNumber rawLine = r.hostLine lineNumber (trim (stripComment rawLine)) := by
  unfold Reading.line
  dsimp only
  rw [if_neg hsome, if_neg hsection, hr.hosts, if_neg Bool.false_ne_true, if_neg hgroup]

/-! ## The options of a host -/

theorem foldl_addUnique_new {list more : List Bytes} (h : more.Nodup)
    (hnew : ∀ a ∈ more, a ∉ list) :
    more.foldl addUnique list = list ++ more := by
  induction more generalizing list with
  | nil => exact (List.append_nil list).symm
  | cons a more ih =>
    rw [List.nodup_cons] at h
    rw [List.forall_mem_cons] at hnew
    have hrest : ∀ b ∈ more, b ∉ list ++ [a] := by
      intro b hb hin
      rcases List.mem_append.mp hin with hin | hin
      · exact hnew.2 b hb hin
      · exact h.1 (List.mem_singleton.mp hin ▸ hb)
    rw [List.foldl_cons, addUnique, if_neg hnew.1, ih h.2 hrest, List.append_assoc]
    rfl

theorem foldl_addUnique_old {list more : List Bytes} (h : ∀ a ∈ more, a ∈ list) :
    more.foldl addUnique list = list := by
  induction more with
  | nil => rfl
  | cons a more ih =>
    rw [List.forall_mem_cons] at h
    rw [List.foldl_cons, addUnique, if_pos h.1, ih h.2]

theorem addTags_join {tags : List Bytes} (h : tags.Nodup) (htags : ∀ tag ∈ tags, IsTag tag)
    {old : List Bytes} (hold : old = [] ∨ old = tags) : addTags old (join tags) = tags := by
  rw [addTags_eq, words_join htags]
  rcases hold with rfl | rfl
  · exact foldl_addUnique_new h fun _ _ => List.not_mem_nil
  · exact foldl_addUnique_old fun _ ha => ha

theorem isPort_natural {port : Nat} (h : port ≠ 0 ∧ port ≤ 65535) : IsPort (natural port) := by
  refine ⟨natural_ne_nil port, fun b hb => isDigit_natural hb, ?_⟩
  rwa [value_natural]

theorem cut_optionText {key : Bytes} (h : key ∈ keys) (value : Bytes) :
    cut equals (optionText (key, value)) = some (key, value) :=
  cut_append (key_form key h).2.1 value

/-- The option of a field that is written only on a condition. -/
theorem optional_field {c : Prop} [Decidable c] {f : Bytes × Bytes} {old new : Host}
    {lineNumber : Nat} (hc : c → hostOption lineNumber old (optionText f) = .ok new)
    (hnot : ¬ c → old = new) :
    ((if c then [f] else []).map optionText).foldlM (hostOption lineNumber) old = .ok new := by
  by_cases h : c
  · rw [if_pos h, List.map_singleton, List.foldlM_cons, hc h]
    rfl
  · rw [if_neg h, hnot h]
    rfl

/-- The fields of an entry before its line is read: not read yet, or as they are written. -/
structure Fits (old entry : Host) : Prop where
  name : old.name = entry.name
  user : old.user = [] ∨ old.user = entry.user
  port : old.port = 22 ∨ old.port = entry.port
  identity : old.identity = [] ∨ old.identity = entry.identity
  san : old.san = [] ∨ old.san = entry.san
  nativePort : old.nativePort = 0 ∨ old.nativePort = entry.nativePort
  tags : old.tags = [] ∨ old.tags = entry.tags

section options

variable (lineNumber : Nat) (old : Host)

theorem read_transport {transport : Bytes} (h : isSupportedTransport transport = true) :
    hostOption lineNumber old (optionText (ascii "transport", transport)) =
      .ok { old with transport } := by
  unfold hostOption
  rw [cut_optionText (by decide)]
  dsimp only
  rw [if_neg (by decide), if_neg (by decide), if_neg (by decide), if_pos rfl,
    if_neg (not_not_intro h)]
  rfl

theorem read_port {value : Bytes} (h : IsPort value) :
    hostOption lineNumber old (optionText (ascii "port", value)) =
      .ok { old with port := Decimal.value value } := by
  unfold hostOption
  rw [cut_optionText (by decide)]
  dsimp only
  rw [if_neg (by decide), if_pos rfl, parsePort_ok.mpr ⟨h, rfl⟩]
  rfl

theorem read_identity (identity : Bytes) :
    hostOption lineNumber old (optionText (ascii "identity", identity)) =
      .ok { old with identity } := by
  unfold hostOption
  rw [cut_optionText (by decide)]
  dsimp only
  rw [if_neg (by decide), if_neg (by decide), if_pos rfl]
  rfl

theorem read_tag (value : Bytes) : hostOption lineNumber old (optionText (ascii "tag", value)) =
    .ok { old with tags := addTags old.tags value } := by
  unfold hostOption
  rw [cut_optionText (by decide)]
  dsimp only
  rw [if_neg (by decide), if_neg (by decide), if_neg (by decide), if_neg (by decide),
    if_neg (by decide), if_neg (by decide), if_pos rfl]
  rfl

theorem read_san (san : Bytes) : hostOption lineNumber old (optionText (ascii "san", san)) =
    .ok { old with san } := by
  unfold hostOption
  rw [cut_optionText (by decide)]
  dsimp only
  rw [if_neg (by decide), if_neg (by decide), if_neg (by decide), if_neg (by decide), if_pos rfl]
  rfl

theorem read_nativePort {value : Bytes} (h : IsPort value) :
    hostOption lineNumber old (optionText (ascii "native_port", value)) =
      .ok { old with nativePort := Decimal.value value } := by
  unfold hostOption
  rw [cut_optionText (by decide)]
  dsimp only
  rw [if_neg (by decide), if_neg (by decide), if_neg (by decide), if_neg (by decide),
    if_neg (by decide), if_pos rfl, parsePort_ok.mpr ⟨h, rfl⟩]
  rfl

/-- The options that are written give the entry its fields back. -/
theorem options_read {entry : Host} (h : IsHost entry) (hold : Fits old entry)
    (hhost : old.host = entry.host) (huser : old.user = entry.user) :
    ((fields entry).map optionText).foldlM (hostOption lineNumber) old =
      .ok { entry with groups := old.groups } := by
  have hsame : ∀ {α : Type} {a b c : α}, (a = b ∨ a = c) → ¬ c ≠ b → a = c := by
    intro α a b c hab hcb
    rcases hab with rfl | rfl
    · exact (not_not.mp hcb).symm
    · rfl
  let read1 : Host := { old with transport := entry.transport }
  let read2 : Host := { read1 with port := entry.port }
  let read3 : Host := { read2 with identity := entry.identity }
  let read4 : Host := { read3 with tags := entry.tags }
  let read5 : Host := { read4 with san := entry.san }
  have hport : ∀ hc : ¬ entry.port ≠ 22, read1 = read2 := fun hc =>
    congrArg (fun port => { read1 with port }) (hsame hold.port hc)
  have hidentity : ∀ hc : ¬ entry.identity ≠ [], read2 = read3 := fun hc =>
    congrArg (fun identity => { read2 with identity }) (hsame hold.identity hc)
  have htags : ∀ hc : ¬ entry.tags ≠ [], read3 = read4 := fun hc =>
    congrArg (fun tags => { read3 with tags }) (hsame hold.tags hc)
  have hsan : ∀ hc : ¬ entry.san ≠ [], read4 = read5 := fun hc =>
    congrArg (fun san => { read4 with san }) (hsame hold.san hc)
  have hnativePort : ∀ hc : ¬ entry.nativePort ≠ 0,
      read5 = { read5 with nativePort := entry.nativePort } := fun hc =>
    congrArg (fun nativePort => { read5 with nativePort }) (hsame hold.nativePort hc)
  have hjoin : { read3 with tags := addTags read3.tags (join entry.tags) } = read4 :=
    congrArg (fun tags => { read3 with tags }) (addTags_join h.tags.1 h.tags.2 hold.tags)
  have hreadPort : hostOption lineNumber read1 (optionText (ascii "port", natural entry.port)) =
      .ok read2 := by
    rw [read_port lineNumber read1 (isPort_natural h.port), value_natural]
  have hfirst : [optionText (ascii "transport", entry.transport)].foldlM (hostOption lineNumber)
      old = .ok read1 := by
    rw [List.foldlM_cons, read_transport lineNumber old h.transport]
    rfl
  unfold fields
  simp only [List.map_append, List.map_singleton, List.foldlM_append, hfirst]
  have hend : { read5 with nativePort := entry.nativePort } = { entry with
      groups := old.groups } := by
    simp only [read5, read4, read3, read2, read1, Host.mk.injEq, and_true]
    exact ⟨hold.name, huser, hhost⟩
  refine bind_ok.mpr ⟨read5, bind_ok.mpr ⟨read4, bind_ok.mpr ⟨read3, bind_ok.mpr ⟨read2,
    optional_field (fun _ => hreadPort) hport, ?_⟩, ?_⟩, ?_⟩, ?_⟩
  · exact optional_field (fun _ => read_identity lineNumber read2 _) hidentity
  · exact optional_field (fun _ => hjoin ▸ read_tag lineNumber read3 _) htags
  · exact optional_field (fun _ => read_san lineNumber read4 _) hsan
  · rw [← hend]
    refine optional_field (fun hc => ?_) hnativePort
    rw [read_nativePort lineNumber read5 (isPort_natural ⟨hc, h.nativePort⟩), value_natural]

end options

/-! ## A host that comes back -/

/-- The line of the host gives the host: no value has a blank in it, the `@` behind the user is the
first one, the line begins with no comment, section or carriage return, and the last value that is
written does not end in one. -/
structure Writable (entry : Host) : Prop where
  unblank : ∀ b ∈ entry.user ++ entry.identity, isBlank b = false
  sign : if entry.user = [] then sign ∉ entry.host else sign ∉ entry.user
  first : ∃ b ∈ (targetText entry).head?, isComment b = false ∧ b ≠ 91 ∧ b ≠ 13
  last : ∀ field ∈ (fields entry).getLast?, field.2.getLast? ≠ some 13

theorem isToken_of_text {text : Bytes} (h : IsText text) (hblank : ∀ b ∈ text, isBlank b = false) :
    IsToken text := fun b hb => ⟨hblank b hb, fun heq => h.1 (heq ▸ hb)⟩

/-- Blanks, line ends and carriage returns are trimmed, and a token has none but the last. -/
theorem isTrimmed_token {text : Bytes} (h : IsToken text) {b : UInt8} (hb : b ∈ text) :
    isTrimmed b = true ↔ b = 13 := by
  obtain ⟨hblank, hline⟩ := h b hb
  simp only [isBlank, Bool.or_eq_false_iff, decide_eq_false_iff_not] at hblank
  simp only [isTrimmed, Bool.or_eq_true, decide_eq_true_eq]
  constructor
  · rintro (((h | h) | h) | h)
    · exact absurd h hblank.1
    · exact absurd h hblank.2
    · exact h
    · exact absurd h hline
  · exact fun h => .inl (.inr h)

theorem dropWhile_token {text : Bytes} (h : IsToken text) :
    text.dropWhile isTrimmed = text ↔ text.head? ≠ some 13 := by
  cases text with
  | nil => exact iff_of_true rfl nofun
  | cons b text =>
    have htrimmed := isTrimmed_token h List.mem_cons_self
    by_cases hb : b = 13
    · refine iff_of_false (fun heq => ?_) (not_not_intro (congrArg some hb))
      rw [List.dropWhile_cons_of_pos (htrimmed.mpr hb)] at heq
      have hle := (List.dropWhile_sublist (l := text) isTrimmed).length_le
      rw [heq, List.length_cons] at hle
      omega
    · refine iff_of_true ?_ fun heq => hb (Option.some.inj heq)
      exact List.dropWhile_cons_of_neg fun hpos => hb (htrimmed.mp hpos)

theorem rdropWhile_token {text : Bytes} (h : IsToken text) :
    text.rdropWhile isTrimmed = text ↔ text.getLast? ≠ some 13 := by
  have hback : IsToken text.reverse := h.subset fun b hb => List.mem_reverse.mp hb
  rw [List.rdropWhile, ← List.head?_reverse, ← dropWhile_token hback]
  exact List.reverse_eq_iff

section writable

variable {entry : Host} (h : IsHost entry) (hw : Writable entry)

include h hw

theorem Writable.tokens : IsToken entry.user ∧ IsToken entry.identity :=
  ⟨isToken_of_text h.user fun b hb => hw.unblank b (List.mem_append_left _ hb),
    isToken_of_text h.identity fun b hb => hw.unblank b (List.mem_append_right _ hb)⟩

theorem Writable.lead_eq : lead entry = targetText entry := by
  obtain ⟨b, hb, -, -, hreturn⟩ := hw.first
  refine (dropWhile_token (isToken_target h (hw.tokens h).1)).mpr fun heq => hreturn ?_
  exact Option.some.inj (hb.symm.trans heq)

theorem Writable.written_eq : written entry = fields entry := by
  obtain ⟨front, last, hfields, hwritten⟩ := fields_last entry
  have hlast : last ∈ (fields entry).getLast? := by rw [hfields, List.getLast?_concat]; rfl
  have hvalue := token_fields h (hw.tokens h).2 (List.mem_of_mem_getLast? hlast)
  rw [hwritten, (rdropWhile_token hvalue).mpr (hw.last last hlast), hfields]

/-- The line is read as a host, by its token and its options. -/
theorem Writable.line_words : ∃ line, trim (stripComment (hostText entry)) = line ∧ line ≠ [] ∧
    line.head? ≠ some 91 ∧
    splitWhitespace line = targetText entry :: (fields entry).map optionText := by
  obtain ⟨huser, hidentity⟩ := hw.tokens h
  obtain ⟨b, hb, hcomment, hsection, -⟩ := hw.first
  have hfirst : ∀ c ∈ (targetText entry).head?, isComment c = false := fun c hc =>
    Option.some.inj (hb.symm.trans hc) ▸ hcomment
  have hsome : targetText entry ≠ [] := fun hnone => by rw [hnone] at hb; cases hb
  have hwords := words_hostText h huser hidentity hfirst
  rw [hw.lead_eq h, if_neg hsome, hw.written_eq h] at hwords
  have hhead : (trim (stripComment (hostText entry))).head? = some b := by
    obtain ⟨c, rest, htarget⟩ := List.exists_cons_of_ne_nil hsome
    rw [strip_hostText h hfirst, trim_hostText, hw.lead_eq h, if_neg hsome, htarget]
    rw [htarget] at hb
    exact hb
  refine ⟨_, rfl, fun hnone => ?_, fun heq => hsection ?_, hwords⟩
  · rw [hnone] at hhead
    cases hhead
  · exact Option.some.inj (hhead.symm.trans heq)

omit h in
theorem Writable.target {r : Reading} (hr : r.Bare) :
    r.target (targetText entry) = (entry.user, entry.host) := by
  have hsign := hw.sign
  unfold Reading.target targetText
  by_cases huser : entry.user = []
  · rw [if_pos huser] at hsign
    rw [if_neg (not_not_intro huser), List.nil_append, Scan.cut_none.mpr hsign, huser]
    exact congrArg (·, entry.host) hr.user
  · rw [if_neg huser] at hsign
    rw [if_pos huser, List.append_assoc, List.singleton_append, cut_append hsign]

omit h hw in
theorem fits_fresh (entry : Host) : Fits { name := entry.name, host := entry.name } entry :=
  ⟨rfl, .inl rfl, .inl rfl, .inl rfl, .inl rfl, .inl rfl, .inl rfl⟩

omit h hw in
theorem fits_same (entry : Host) (groups : List Bytes) : Fits { entry with groups } entry :=
  ⟨rfl, .inr rfl, .inr rfl, .inr rfl, .inr rfl, .inr rfl, .inr rfl⟩

/-- Reading the line gives the host, in one more group. -/
theorem Writable.line {r : Reading} (hr : r.Bare) (hgroup : r.currentGroup ≠ [])
    (hfits : ∀ old ∈ r.hosts, old.name = entry.name → Fits old entry) (lineNumber : Nat) :
    ∃ hosts, r.line lineNumber (hostText entry) = .ok { r with hosts } ∧
      upsert entry.name (fun old =>
        .ok { entry with groups := addUnique old.groups r.currentGroup }) r.hosts = .ok hosts := by
  obtain ⟨line, hline, hsome, hsection, hwords⟩ := hw.line_words h
  obtain ⟨hosts, hhosts⟩ := upsert_total entry.name
    (fun old => { entry with groups := addUnique old.groups r.currentGroup }) r.hosts
  refine ⟨hosts, ?_, hhosts⟩
  have hchange : ∀ old, Fits old entry →
      ((fields entry).map optionText).foldlM (hostOption lineNumber)
        (r.meet entry.user entry.host old) =
      .ok { entry with groups := addUnique old.groups r.currentGroup } := by
    intro old hold
    have huser : (if entry.user ≠ [] then entry.user
        else if old.user = [] then r.defaultUser else old.user) = entry.user := by
      by_cases hnone : entry.user = []
      · rw [if_neg (not_not_intro hnone), hr.user, hnone]
        rcases hold.user with huser | huser
        · rw [if_pos huser]
        · rw [huser, hnone, if_pos rfl]
      · rw [if_pos hnone]
    have hidentity : (if old.identity = [] then r.defaultIdentity else old.identity) =
        old.identity := by
      split_ifs with hnone
      · rw [hr.identity, hnone]
      · rfl
    have hmeet : r.meet entry.user entry.host old = { old with
        host := entry.host
        user := entry.user
        groups := addUnique old.groups r.currentGroup } := by
      unfold Reading.meet
      rw [huser, hidentity, hr.port]
      rfl
    rw [hmeet]
    exact options_read lineNumber _ h { hold with user := .inr rfl } rfl rfl
  have hupsert := upsert_congr r.hosts (hchange _ (fits_fresh entry))
    fun old hold hname => hchange old (hfits old hold hname)
  rw [host_line hr hgroup lineNumber (hline ▸ hsome) (hline ▸ hsection), hline, Reading.hostLine,
    hwords]
  dsimp only [List.headD_cons, List.tail_cons]
  have hkey : upsert entry.host = upsert entry.name := congrArg upsert h.host
  rw [hw.target hr, hkey]
  exact bind_ok.mpr ⟨hosts, hupsert.trans hhosts, rfl⟩

end writable

/-! ## The hosts that come back -/

/-- The same host: the same fields, and the same groups and tags in any order. -/
structure SameHost (entry other : Host) : Prop where
  name : entry.name = other.name
  user : entry.user = other.user
  host : entry.host = other.host
  port : entry.port = other.port
  identity : entry.identity = other.identity
  transport : entry.transport = other.transport
  san : entry.san = other.san
  nativePort : entry.nativePort = other.nativePort
  groups : ∀ group, group ∈ entry.groups ↔ group ∈ other.groups
  tags : ∀ tag, tag ∈ entry.tags ↔ tag ∈ other.tags

/-- As many hosts, and each of them is there. -/
structure SameFleet (hosts others : List Host) : Prop where
  length : hosts.length = others.length
  kept : ∀ entry ∈ hosts, ∃ other ∈ others, SameHost entry other

/-- After the sections and hosts `done`, each host that was met stands with the groups that it was
met in. -/
structure Met (hosts : List Host) (done : List (Bytes × Host)) (r : Reading) : Prop where
  bare : r.Bare
  names : (r.hosts.map Host.name).Nodup
  entries : ∀ e ∈ r.hosts, ∃ entry ∈ hosts, e = { entry with groups := e.groups } ∧
    ∀ group, group ∈ e.groups ↔ (group, entry) ∈ done
  met : ∀ p ∈ done, ∃ e ∈ r.hosts, e.name = p.2.name

section met

variable {hosts : List Host} (hnames : (hosts.map Host.name).Nodup)

include hnames

theorem eq_of_name {entry other : Host} (hentry : entry ∈ hosts) (hother : other ∈ hosts)
    (h : entry.name = other.name) : entry = other :=
  List.inj_on_of_nodup_map hnames hentry hother h

/-- One more host of the section. -/
theorem Met.host {done : List (Bytes × Host)} {r : Reading} (hmet : Met hosts done r)
    (hgroup : r.currentGroup ≠ []) {entry : Host} (hentry : entry ∈ hosts) (h : IsHost entry)
    (hw : Writable entry) (lineNumber : Nat) :
    ∃ r', r.line lineNumber (hostText entry) = .ok r' ∧ r'.currentGroup = r.currentGroup ∧
      Met hosts (done ++ [(r.currentGroup, entry)]) r' := by
  have hold : ∀ old ∈ r.hosts, old.name = entry.name → old = { entry with groups := old.groups } ∧
      ∀ group, group ∈ old.groups ↔ (group, entry) ∈ done := by
    intro old hold hname
    obtain ⟨found, hfound, heq, hgroups⟩ := hmet.entries old hold
    have hsame : found.name = entry.name := by
      rw [heq] at hname
      exact hname
    rw [eq_of_name hnames hfound hentry hsame] at heq hgroups
    exact ⟨heq, hgroups⟩
  have hfits : ∀ old ∈ r.hosts, old.name = entry.name → Fits old entry := by
    intro old hin hname
    rw [(hold old hin hname).1]
    exact fits_same entry _
  obtain ⟨hosts', hline, hupsert⟩ := hw.line h hmet.bare hgroup hfits lineNumber
  obtain ⟨old, new, hnew, hmade, hin, -, hstay, hgone, hunique⟩ := upsert_ok hupsert
    fun e e' _ he => by rw [← Except.ok.inj he]
  obtain ⟨hnodup, honly⟩ := hunique hmet.names
  obtain rfl := (Except.ok.inj hnew).symm
  have hgroups : ∀ group, group ∈ old.groups ↔ (group, entry) ∈ done := by
    intro group
    rcases hmade with ⟨hmade, holdName⟩ | ⟨hnone, rfl⟩
    · exact (hold old hmade holdName).2 group
    · refine iff_of_false List.not_mem_nil fun hdone => ?_
      obtain ⟨e, he, hee⟩ := hmet.met _ hdone
      exact hnone e he hee
  refine ⟨_, hline, rfl, { hmet.bare with }, hnodup, fun e he => ?_, fun p hp => ?_⟩
  · by_cases hsame : e.name = entry.name
    · rw [honly e he hsame]
      refine ⟨entry, hentry, rfl, fun group => ?_⟩
      rw [mem_addUnique, hgroups, List.mem_append, List.mem_singleton, Prod.mk.injEq,
        and_iff_left rfl]
    · have hbefore : e ∈ r.hosts := (hstay e he).resolve_left fun heq => hsame (heq ▸ rfl)
      obtain ⟨other, hother, heq, hall⟩ := hmet.entries e hbefore
      refine ⟨other, hother, heq, fun group => (hall group).trans ?_⟩
      rw [List.mem_append, List.mem_singleton, Prod.mk.injEq]
      refine (or_iff_left fun hpair => hsame ?_).symm
      rw [heq, hpair.2]
  · rcases List.mem_append.mp hp with hp | hp
    · obtain ⟨e, he, hee⟩ := hmet.met p hp
      rcases hgone e he with rfl | he
      · refine ⟨_, hin, ?_⟩
        rcases hmade with ⟨-, holdName⟩ | ⟨-, rfl⟩
        · exact holdName.symm.trans hee
        · exact hee
      · exact ⟨e, he, hee⟩
    · exact ⟨_, hin, by rw [List.mem_singleton.mp hp]⟩

/-- A whole section. -/
theorem Met.section_ {done : List (Bytes × Host)} {r : Reading} (hmet : Met hosts done r)
    (hhosts : ∀ entry ∈ hosts, IsHost entry ∧ Writable entry) {group : Bytes}
    (hgroup : IsGroup group) (lineNumber : Nat) :
    ∃ r', r.lines lineNumber (sectionLines hosts group) = .ok r' ∧
      Met hosts (done ++ (hosts.filter fun entry => group ∈ entry.groups).map fun entry =>
        (group, entry)) r' := by
  have hlines : ∀ (entries : List Host) (done : List (Bytes × Host)) (r : Reading) (n : Nat),
      (∀ entry ∈ entries, entry ∈ hosts) → r.currentGroup = group → Met hosts done r →
      ∃ r', r.lines n (entries.map hostText ++ [[]]) = .ok r' ∧
        Met hosts (done ++ entries.map fun entry => (group, entry)) r' := by
    intro entries
    induction entries with
    | nil => exact fun done r n _ _ hmet => ⟨r, rfl, by rwa [List.map_nil, List.append_nil]⟩
    | cons entry entries ih =>
      intro done r n hall hcurrent hmet
      rw [List.forall_mem_cons] at hall
      obtain ⟨h, hw⟩ := hhosts entry hall.1
      obtain ⟨next, hnext, hsame, hstep⟩ :=
        hmet.host hnames (hcurrent ▸ hgroup.some) hall.1 h hw n
      rw [hcurrent] at hsame hstep
      obtain ⟨r', hr', hlast⟩ := ih _ next (n + 1) hall.2 hsame hstep
      refine ⟨r', bind_ok.mpr ⟨next, hnext, hr'⟩, ?_⟩
      rw [List.append_assoc] at hlast
      exact hlast
  have hstart : Met hosts done { r with inDefaults := false, currentGroup := group } :=
    { hmet with bare := { hmet.bare with hosts := rfl } }
  obtain ⟨r', hr', hlast⟩ := hlines (hosts.filter fun entry => group ∈ entry.groups) done _
    (lineNumber + 1) (fun entry hin => (List.mem_filter.mp hin).1) rfl hstart
  exact ⟨r', bind_ok.mpr ⟨_, group_line r lineNumber hgroup, hr'⟩, hlast⟩

theorem Met.sections {groups : List Bytes} {done : List (Bytes × Host)} {r : Reading}
    (hmet : Met hosts done r) (hhosts : ∀ entry ∈ hosts, IsHost entry ∧ Writable entry)
    (hgroups : ∀ group ∈ groups, IsGroup group) (lineNumber : Nat) :
    ∃ r', r.lines lineNumber (groups.flatMap (sectionLines hosts)) = .ok r' ∧
      Met hosts (done ++ groups.flatMap fun group =>
        (hosts.filter fun entry => group ∈ entry.groups).map fun entry => (group, entry)) r' := by
  induction groups generalizing done r lineNumber with
  | nil => exact ⟨r, rfl, by rwa [List.flatMap_nil, List.append_nil]⟩
  | cons group groups ih =>
    rw [List.forall_mem_cons] at hgroups
    obtain ⟨next, hnext, hstep⟩ := hmet.section_ hnames hhosts hgroups.1 lineNumber
    obtain ⟨r', hr', hlast⟩ := ih hstep hgroups.2 (lineNumber + (sectionLines hosts group).length)
    refine ⟨r', ?_, ?_⟩
    · rw [List.flatMap_cons, Reading.lines_append]
      exact bind_ok.mpr ⟨next, hnext, hr'⟩
    · rwa [List.flatMap_cons, ← List.append_assoc]

end met

/-- The hosts of an inventory, as `parse` leaves them. -/
structure SoundFleet (hosts : List Host) : Prop where
  sound : ∀ entry ∈ hosts, IsHost entry ∧ entry.groups ≠ []
  names : (hosts.map Host.name).Nodup

theorem sound_of_parse {iniText sourcePath : Bytes} {inventory : Inventory}
    (h : parse iniText sourcePath = .ok inventory) : SoundFleet inventory.hosts :=
  ⟨(parse_sound h).1, (parse_sound h).2⟩

/-- Hosts whose lines give them back are all there when they are written and read. Only their groups
may come in another order. -/
theorem serialize_keeps {inventory : Inventory} (hfleet : SoundFleet inventory.hosts)
    (sourcePath : Bytes) (hall : ∀ entry ∈ inventory.hosts, Writable entry) :
    ∃ again, parse inventory.serialize sourcePath = .ok again ∧
      SameFleet inventory.hosts again.hosts ∧
      ∀ e ∈ again.hosts, ∃ entry ∈ inventory.hosts, e = { entry with groups := e.groups } := by
  obtain ⟨hsound, hnames⟩ := hfleet
  have hhosts : ∀ entry ∈ inventory.hosts, IsHost entry ∧ Writable entry := fun entry hentry =>
    ⟨(hsound entry hentry).1, hall entry hentry⟩
  have hgroups : ∀ group ∈ inventory.groups, IsGroup group := by
    intro group hin
    obtain ⟨entry, hentry, hin⟩ := mem_groups.mp hin
    exact (hsound entry hentry).1.groups group hin
  have hstart : Met inventory.hosts [] {} :=
    ⟨⟨rfl, rfl, rfl, rfl⟩, List.nodup_nil, nofun, nofun⟩
  obtain ⟨r, hr, hmet⟩ := hstart.sections hnames hhosts hgroups 1
  have hread : ({} : Reading).lines 1 (inventory.serialize.splitOn newline) = .ok r := by
    rcases splitOn_serialize fun entry hentry => (hsound entry hentry).1 with ⟨htext, hnone⟩ | htext
    · rw [hnone] at hr
      rw [htext]
      exact hr
    · rw [htext]
      exact hr
  have hdone : ∀ entry ∈ inventory.hosts, ∃ e ∈ r.hosts, SameHost entry e := by
    intro entry hentry
    have hpair : ∀ group, (group, entry) ∈ (inventory.groups.flatMap fun group =>
        (inventory.hosts.filter fun entry => group ∈ entry.groups).map fun entry =>
          (group, entry)) ↔ group ∈ entry.groups := by
      intro group
      simp only [List.mem_flatMap, List.mem_map, List.mem_filter, decide_eq_true_eq, Prod.mk.injEq]
      constructor
      · rintro ⟨_, _, _, ⟨_, hin⟩, rfl, rfl⟩
        exact hin
      · exact fun hin => ⟨group, mem_groups.mpr ⟨entry, hentry, hin⟩, entry,
          ⟨hentry, hin⟩, rfl, rfl⟩
    obtain ⟨group, groups, hsome⟩ := List.exists_cons_of_ne_nil (hsound entry hentry).2
    have hin : group ∈ entry.groups := hsome ▸ List.mem_cons_self
    obtain ⟨e, he, hname⟩ := hmet.met (group, entry) ((hpair group).mpr hin)
    obtain ⟨found, hfound, heq, hall⟩ := hmet.entries e he
    have hsame : found.name = entry.name := by
      rw [heq] at hname
      exact hname
    obtain rfl := eq_of_name hnames hfound hentry hsame
    refine ⟨e, he, ?_⟩
    rw [heq]
    exact ⟨rfl, rfl, rfl, rfl, rfl, rfl, rfl, rfl, fun g => ((hall g).trans (hpair g)).symm,
      fun _ => Iff.rfl⟩
  have hentries : ∀ e ∈ r.hosts, ∃ entry ∈ inventory.hosts,
      e = { entry with groups := e.groups } := by
    intro e he
    obtain ⟨entry, hentry, heq, -⟩ := hmet.entries e he
    exact ⟨entry, hentry, heq⟩
  refine ⟨{ hosts := r.hosts, sourcePath }, bind_ok.mpr ⟨r, hread, rfl⟩, ⟨?_, hdone⟩, hentries⟩
  have hnamesEq : (inventory.hosts.map Host.name).Perm (r.hosts.map Host.name) := by
    refine (List.perm_ext_iff_of_nodup hnames hmet.names).mpr fun name => ?_
    rw [List.mem_map, List.mem_map]
    constructor
    · rintro ⟨entry, hentry, rfl⟩
      obtain ⟨e, he, hsame⟩ := hdone entry hentry
      exact ⟨e, he, hsame.name.symm⟩
    · rintro ⟨e, he, rfl⟩
      obtain ⟨entry, hentry, heq, -⟩ := hmet.entries e he
      exact ⟨entry, hentry, by rw [heq]⟩
  have hlength := hnamesEq.length_eq
  rwa [List.length_map, List.length_map] at hlength

/-- They are all there after a rewrite. -/
theorem rewrite_keeps {iniText sourcePath : Bytes} {inventory : Inventory}
    (hparse : parse iniText sourcePath = .ok inventory)
    (hall : ∀ entry ∈ inventory.hosts, Writable entry) :
    ∃ again, parse inventory.serialize sourcePath = .ok again ∧
      SameFleet inventory.hosts again.hosts := by
  obtain ⟨again, hagain, hsame, -⟩ := serialize_keeps (sound_of_parse hparse) sourcePath hall
  exact ⟨again, hagain, hsame⟩

end psx.inventory
