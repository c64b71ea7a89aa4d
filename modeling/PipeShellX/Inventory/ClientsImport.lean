-- The import of a legacy list as a whole: every line that is not skipped becomes the line of one
-- host, and the hosts are read in the order of the lines.
import PipeShellX.Inventory.ImportedLines
import PipeShellX.Inventory.RewriteLoss

namespace psx.inventory

open Text (ascii getlines)

/-! ## Reading one line -/

/-- In the group of all clients, with these hosts before. -/
def inAll (hosts : List Host) : Reading := { hosts, currentGroup := ascii "all" }

/-- The host that an imported client starts from. -/
def clientHost (user host : Bytes) : Host := { name := host, user, host, groups := [ascii "all"] }

/-- A line that is read as this host when there is none of its name. -/
structure IsHostLine (line : Bytes) (host : Host) : Prop where
  single : newline ∉ line
  nonempty : trim (stripComment line) ≠ []
  plain : (trim (stripComment line)).head? ≠ some 91
  made : ∀ lineNumber,
    (splitWhitespace (trim (stripComment line))).tail.foldlM (hostOption lineNumber)
    (clientHost (target (splitWhitespace (trim (stripComment line)))).1
      (target (splitWhitespace (trim (stripComment line)))).2) = .ok host

theorem IsHostLine.name {line : Bytes} {host : Host} (h : IsHostLine line host) :
    host.name = (target (splitWhitespace (trim (stripComment line)))).2 := options_name (h.made 0)

theorem meet_fresh (hosts : List Host) (user host : Bytes) :
    (inAll hosts).meet user host { name := host, host } = clientHost user host := by
  cases user <;> rfl

/-- What is read of a line does not depend on its number. -/
theorem hostOption_any {lineNumber : Nat} {entry new : Host} {opt : Bytes}
    (h : hostOption lineNumber entry opt = .ok new) (other : Nat) :
    hostOption other entry opt = .ok new := by
  have hport : ∀ {value : Bytes} {change : Nat → Host},
      (parsePort value lineNumber >>= fun port => pure (change port)) = .ok new →
      (parsePort value other >>= fun port => pure (change port)) = .ok new := by
    intro value change h
    obtain ⟨port, hport, h⟩ := bind_ok.mp h
    exact bind_ok.mpr ⟨port, parsePort_ok.mpr (parsePort_ok.mp hport), h⟩
  unfold hostOption at h ⊢
  cases hcut : Scan.cut equals opt with
  | none =>
    rw [hcut] at h
    exact absurd h fail_ok
  | some cutting =>
    rw [hcut] at h
    dsimp only at h ⊢
    split_ifs at h ⊢
    all_goals first
      | exact h
      | exact hport h
      | exact absurd h fail_ok

theorem options_any {lineNumber : Nat} {entry new : Host} {opts : List Bytes}
    (h : opts.foldlM (hostOption lineNumber) entry = .ok new) (other : Nat) :
    opts.foldlM (hostOption other) entry = .ok new := by
  induction opts generalizing entry with
  | nil => exact h
  | cons opt opts ih =>
    rw [List.foldlM_cons] at h ⊢
    obtain ⟨next, hnext, h⟩ := bind_ok.mp h
    exact bind_ok.mpr ⟨next, hostOption_any hnext other, ih h⟩

/-- A new host goes behind the others. -/
theorem IsHostLine.line {line : Bytes} {host : Host} (h : IsHostLine line host) {hosts : List Host}
    (hnew : ∀ e ∈ hosts, e.name ≠ host.name) (lineNumber : Nat) :
    (inAll hosts).line lineNumber line = .ok (inAll (hosts ++ [host])) := by
  have hname := h.name
  have hmade := h.made lineNumber
  rw [hname] at hnew
  have hhost := host_line (r := inAll hosts) ⟨rfl, rfl, rfl, rfl⟩ (by decide : ascii "all" ≠ [])
    lineNumber h.nonempty h.plain
  rw [hhost]
  refine bind_ok.mpr ⟨hosts ++ [host], ?_, rfl⟩
  have htarget : (inAll hosts).target = ({} : Reading).target := rfl
  rw [htarget]
  refine (upsert_fresh hnew).trans (bind_ok.mpr ⟨host, ?_, rfl⟩)
  rw [← meet_fresh hosts] at hmade
  exact hmade

theorem all_line (r : Reading) (lineNumber : Nat) :
    r.line lineNumber (ascii "[all]") =
      .ok { r with inDefaults := false, currentGroup := ascii "all" } := by
  have hgroup : IsGroup (ascii "all") := ⟨⟨by decide, by unfold Kept; decide⟩, by decide, by decide,
    by decide⟩
  have htext : ascii "[all]" = 91 :: ascii "all" ++ [93] := by decide
  rw [htext]
  exact group_line r lineNumber hgroup

/-- A line by itself in the group, which gives one host. -/
theorem isHostLine_of_parse {line : Bytes} {single : Inventory} {host : Host}
    (hline : newline ∉ line) (h : parse (ascii "[all]\n" ++ line ++ [newline]) [] = .ok single)
    (hhosts : single.hosts = [host]) : IsHostLine line host := by
  have htext : ascii "[all]\n" ++ line ++ [newline] =
      ascii "[all]" ++ newline :: (line ++ newline :: []) := by
    have hheader : ascii "[all]\n" = ascii "[all]" ++ [newline] := by decide
    rw [hheader]
    simp
  have hsplit : (ascii "[all]\n" ++ line ++ [newline]).splitOn newline =
      [ascii "[all]", line, []] := by
    rw [htext, splitOn_line (by decide), splitOn_line hline]
    rfl
  obtain ⟨r, hread, h⟩ := bind_ok.mp h
  rw [hsplit] at hread
  obtain ⟨start, hstart, hread⟩ := bind_ok.mp hread
  rw [all_line] at hstart
  obtain rfl := (Except.ok.inj hstart).symm
  obtain ⟨last, hlast, hread⟩ := bind_ok.mp hread
  obtain ⟨last', hlast', hread⟩ := bind_ok.mp hread
  rw [empty_line] at hlast'
  obtain rfl := (Except.ok.inj hlast').symm
  obtain rfl := pure_ok.mp hread
  obtain rfl := pure_ok.mp h
  change (inAll []).line 2 line = .ok _ at hlast
  dsimp only at hhosts
  have hempty : ∀ {hosts : List Host}, hosts = [] → hosts ≠ [host] := fun h => by simp [h]
  unfold Reading.line at hlast
  dsimp only at hlast
  split_ifs at hlast with hnone hplain hdefaults hgroup
  · obtain rfl := pure_ok.mp hlast
    exact absurd hhosts (hempty rfl)
  · exact absurd hhosts (hempty (header_ok hlast).1)
  · cases hdefaults
  · exact absurd hlast fail_ok
  · obtain ⟨hosts, rfl, hupsert⟩ := hostLine_ok hlast
    obtain ⟨new, hnew, hhost⟩ := bind_ok.mp hupsert
    obtain rfl := pure_ok.mp hhost
    obtain rfl : new = host := List.singleton_injective hhosts
    refine ⟨hline, hnone, hplain, @options_any 2 _ _ _ ?_⟩
    rw [← meet_fresh []]
    exact hnew

/-! ## The line of an entry -/

theorem strip_uncommented {line : Bytes} (h : ∀ b ∈ line, isComment b = false) :
    stripComment line = line := by
  have hkept : ∀ {opens : Bool} {text : Bytes}, (∀ b ∈ text, isComment b = false) →
      Kept opens text := by
    intro opens text h
    induction text generalizing opens with
    | nil => exact kept_nil opens
    | cons c rest ih =>
      rw [List.forall_mem_cons] at h
      exact kept_cons.mpr ⟨by rw [h.1, Bool.false_and], ih h.2⟩
  exact hkept h

theorem options_equals {lineNumber : Nat} {entry new : Host} {opts : List Bytes}
    (h : opts.foldlM (hostOption lineNumber) entry = .ok new) : ∀ opt ∈ opts, equals ∈ opt := by
  intro opt hopt
  obtain ⟨e, e', hstep⟩ := foldlM_step h opt hopt
  obtain ⟨key, value, rfl, -⟩ := hostOption_ok hstep
  exact List.mem_append_right _ List.mem_cons_self

/-- A line without comments, between whose ends nothing is trimmed. -/
structure IsTight (line : Bytes) : Prop where
  uncommented : ∀ b ∈ line, isComment b = false
  first : ∀ b ∈ line.head?, isTrimmed b = false
  last : ∀ b ∈ line.getLast?, isTrimmed b = false

theorem IsTight.line {line : Bytes} (h : IsTight line) : trim (stripComment line) = line := by
  rw [strip_uncommented h.uncommented]
  exact Scan.strip_self h.first h.last

theorem isBlank_of_isTrimmed {b : UInt8} (h : isTrimmed b = false) : isBlank b = false := by
  simp only [isTrimmed, Bool.or_eq_false_iff] at h
  simp only [isBlank, Bool.or_eq_false_iff]
  exact h.1.1

/-- A part of a line that neither ends in a blank nor can be taken for the start of something
else. -/
structure IsPart (s : Bytes) : Prop where
  unequal : equals ∉ s
  uncommented : ∀ b ∈ s, isComment b = false
  last : ∀ b ∈ s.getLast?, isTrimmed b = false

/-- A host token and options, in such parts. -/
structure IsParted (token : Bytes) (options : List (Bytes × Bytes)) : Prop where
  nonempty : token ≠ []
  first : ∀ b ∈ token.head?, isTrimmed b = false
  token : IsPart token
  options : ∀ o ∈ options, o.1 ∈ keys ∧ IsPart o.2

theorem IsParted.tight {token : Bytes} {options : List (Bytes × Bytes)}
    (h : IsParted token options) :
    IsTight (lineText token options) := by
  have hkeys : ∀ key ∈ keys, ∀ b ∈ key, isComment b = false := by decide
  refine ⟨fun b hb => ?_, fun b hb => ?_, fun b hb => ?_⟩
  · rcases List.mem_append.mp hb with hb | hb
    · exact h.token.uncommented b hb
    · obtain ⟨o, ho, hb⟩ := List.mem_flatMap.mp hb
      rcases List.mem_cons.mp hb with rfl | hb
      · rfl
      · rcases List.mem_append.mp hb with hb | hb
        · exact hkeys o.1 (h.options o ho).1 b hb
        · rcases List.mem_cons.mp hb with rfl | hb
          · rfl
          · exact (h.options o ho).2.uncommented b hb
  · rw [lineText, List.head?_append_of_ne_nil _ h.nonempty] at hb
    exact h.first b hb
  · rcases List.eq_nil_or_concat options with rfl | ⟨others, o, rfl⟩
    · rw [lineText, List.flatMap_nil, List.append_nil] at hb
      exact h.token.last b hb
    · have htext : lineText token (others.concat o) = lineText token others ++
          32 :: optionText o := by
        simp [lineText]
      rw [htext, optionText, ← List.cons_append, ← List.append_assoc,
        List.getLast?_append_of_ne_nil _ (List.cons_ne_nil _ _)] at hb
      by_cases hnone : o.2 = []
      · rw [hnone] at hb
        exact Option.some.inj hb ▸ rfl
      · obtain ⟨c, rest, hvalue⟩ := List.exists_cons_of_ne_nil hnone
        refine (h.options o (by simp)).2.last b ?_
        rw [hvalue] at hb ⊢
        rwa [List.getLast?_cons_cons] at hb

/-- A line in parts that is read as a host is read part by part: the token, and then every
option. -/
theorem IsHostLine.options {token : Bytes} {options : List (Bytes × Bytes)} {host : Host}
    (h : IsHostLine (lineText token options) host) (hparts : IsParted token options)
    (lineNumber : Nat) : (options.map optionText).foldlM (hostOption lineNumber)
      (clientHost (({} : Reading).target token).1 (({} : Reading).target token).2) = .ok host := by
  have hmade := h.made lineNumber
  rw [hparts.tight.line] at hmade
  have hforms : ∀ o ∈ options, (IsToken o.1 ∧ o.1 ≠ []) ∧ equals ∉ o.2 := fun o ho =>
    ⟨⟨(key_form _ (hparts.options o ho).1).1, (key_form _ (hparts.options o ho).1).2.2.1⟩,
      (hparts.options o ho).2.unequal⟩
  obtain ⟨hwords, hback, hbacks⟩ := line_words hparts.nonempty
    (fun b hb => isBlank_of_isTrimmed (hparts.first b hb)) hparts.token.unequal hforms
    (options_equals hmade)
  have hfront : ∀ {s : Bytes}, IsPart s → (∀ b ∈ back s, isBlank b = true) → front s = s :=
    fun hs hback => front_self (fun b hb => isBlank_of_isTrimmed (hs.last b hb)) hback
  have hfronts : options.map (fun o => optionText (o.1, front o.2)) = options.map optionText :=
    List.map_congr_left fun o ho => by rw [hfront (hparts.options o ho).2 (hbacks o ho)]
  rw [hwords, hfront hparts.token hback, hfronts] at hmade
  exact hmade

/-- Words with blanks between them are a line that is read so. -/
theorem isHostLine_of {token : Bytes} {options : List (Bytes × Bytes)} {host : Host}
    (hparts : IsParted token options) (htoken : IsToken token) (hsection : token.head? ≠ some 91)
    (hoptions : ∀ o ∈ options, IsToken o.2)
    (hmade : ∀ lineNumber, (options.map optionText).foldlM (hostOption lineNumber)
      (clientHost (({} : Reading).target token).1 (({} : Reading).target token).2) = .ok host) :
    IsHostLine (lineText token options) host := by
  have hwords : splitWhitespace (lineText token options) = token :: options.map optionText := by
    have hblank : isBlank 32 = true := rfl
    have hspaced := Scan.words_spaced hblank (fun b hb => (htoken b hb).1)
      (List.forall_mem_map.mpr fun o ho =>
        (isToken_option (hparts.options o ho).1 (hoptions o ho)).2)
    rw [← flatMap_optionText, if_neg hparts.nonempty] at hspaced
    exact hspaced
  have hsome : lineText token options ≠ [] := by simp [lineText, hparts.nonempty]
  refine ⟨fun hin => ?_, by rwa [hparts.tight.line], ?_, fun lineNumber => ?_⟩
  · unfold lineText at hin
    rcases List.mem_append.mp hin with hin | hin
    · exact (htoken _ hin).2 rfl
    · obtain ⟨o, ho, hin⟩ := List.mem_flatMap.mp hin
      rcases List.mem_cons.mp hin with heq | hin
      · exact absurd heq (by decide)
      · exact ((isToken_option (hparts.options o ho).1 (hoptions o ho)).1 _ hin).2 rfl
  · rw [hparts.tight.line, lineText, List.head?_append_of_ne_nil _ hparts.nonempty]
    exact hsection
  · rw [hparts.tight.line, hwords]
    exact hmade lineNumber

/-! ## The whole list -/

/-- The import passes the line by. -/
def ImportSkips (raw : Bytes) : Prop := trim raw = [] ∨ (trim raw).head? = some 35

instance decidable_importSkips (raw : Bytes) : Decidable (ImportSkips raw) :=
  inferInstanceAs (Decidable (_ ∨ _))

/-- The line that a line becomes, and the host that is read from it. -/
def IsRow (raw : Bytes) (row : Bytes × Host) : Prop :=
  (∃ lineNumber, normalize lineNumber (trim raw) = .ok row.1) ∧ IsHostLine row.1 row.2

theorem rows_read {raws : List Bytes} {rows : List (Bytes × Host)}
    (h : List.Forall₂ IsRow raws rows) :
    ∀ row ∈ rows, IsHostLine row.1 row.2 := by
  induction h with
  | nil => exact nofun
  | cons hrow hrows ih => exact List.forall_mem_cons.mpr ⟨hrow.2, ih⟩

/-- The lines of the inventory that a list is turned into. -/
def rowsText (rows : List (Bytes × Host)) : Bytes := rows.flatMap fun row => row.1 ++ [newline]

theorem importParameter_newline {lineNumber : Nat} {done done' : List Bytes × Bytes}
    {parameter : Bytes} (hparameter : newline ∉ parameter) (hdone : newline ∉ done.2)
    (h : importParameter lineNumber done parameter = .ok done') : newline ∉ done'.2 := by
  unfold importParameter at h
  cases hcut : Scan.cut equals parameter with
  | none =>
    rw [hcut] at h
    exact absurd h fail_ok
  | some cutting =>
    obtain ⟨key, value⟩ := cutting
    obtain ⟨rfl, -⟩ := Scan.cut_some.mp hcut
    rw [hcut] at h
    dsimp only at h
    rw [show (if key = ascii "key" then ascii "identity" else key) = importedKey key from rfl] at h
    split_ifs at h with hempty hsecret hunknown hdup
    · exact absurd h fail_ok
    · exact pure_ok.mp h ▸ hdone
    · exact absurd h fail_ok
    · exact absurd h fail_ok
    · obtain rfl := pure_ok.mp h
      have hmarks : newline ∉ ascii " " ∧ newline ∉ [equals] := by decide
      have hvalue : newline ∉ value := fun hin => hparameter (by simp [hin])
      have hkey : newline ∉ importedKey key := by
        unfold importedKey
        split_ifs
        · decide
        · exact fun hin => hparameter (List.mem_append_left _ hin)
      simp only [List.mem_append, not_or]
      exact ⟨⟨⟨⟨hdone, hmarks.1⟩, hkey⟩, hmarks.2⟩, hvalue⟩

theorem importParameters_newline {lineNumber : Nat} {done done' : List Bytes × Bytes}
    {parameters : List Bytes} (hparameters : ∀ parameter ∈ parameters, newline ∉ parameter)
    (hdone : newline ∉ done.2)
    (h : parameters.foldlM (importParameter lineNumber) done = .ok done') : newline ∉ done'.2 := by
  induction parameters generalizing done with
  | nil => exact pure_ok.mp h ▸ hdone
  | cons parameter parameters ih =>
    rw [List.forall_mem_cons] at hparameters
    rw [List.foldlM_cons] at h
    obtain ⟨next, hnext, h⟩ := bind_ok.mp h
    exact ih hparameters.2 (importParameter_newline hparameters.1 hdone hnext) h

/-- The line of an entry has no line end. -/
theorem normalize_newline {lineNumber : Nat} {line normalized : Bytes} (hline : newline ∉ line)
    (h : normalize lineNumber line = .ok normalized) : newline ∉ normalized := by
  unfold normalize at h
  dsimp only at h
  split_ifs at h with hscheme hpassword hpassword
  · exact absurd h fail_ok
  · obtain ⟨done, hdone, h⟩ := bind_ok.mp h
    obtain rfl := pure_ok.mp h
    have hdrop : newline ∉ line.drop 6 := fun hin => hline (List.mem_of_mem_drop hin)
    have hparts : newline ∉ ((Scan.cut 63 (line.drop 6)).getD (line.drop 6, [])).1 ∧
        newline ∉ ((Scan.cut 63 (line.drop 6)).getD (line.drop 6, [])).2 := by
      cases hcut : Scan.cut 63 (line.drop 6) with
      | none => exact ⟨hdrop, List.not_mem_nil⟩
      | some cutting =>
        rw [(Scan.cut_some.mp hcut).1] at hdrop
        exact ⟨fun hin => hdrop (List.mem_append_left _ hin),
          fun hin => hdrop (List.mem_append_right _ (List.mem_cons_of_mem _ hin))⟩
    refine importParameters_newline (fun parameter hparameter hin => ?_) ?_ hdone
    · have hitem := Text.mem_splitOn_of_getlines hparameter
      exact hparts.2 (Scan.mem_splitOnP hitem newline hin).2
    · have hport : newline ∉ ascii " port=" := by decide
      have hlast : ∀ before port, cutLast colon
          ((Scan.cut 63 (line.drop 6)).getD (line.drop 6, [])).1 = some (before, port) →
          newline ∉ before ∧ newline ∉ port := by
        intro before port hcut
        have hin := hparts.1
        rw [cutLast_some hcut] at hin
        exact ⟨fun h => hin (List.mem_append_left _ h),
          fun h => hin (List.mem_append_right _ (List.mem_cons_of_mem _ h))⟩
      split
      · rename_i before port hcut
        split_ifs
        · simp only [List.mem_append, not_or]
          exact ⟨⟨(hlast before port hcut).1, hport⟩, (hlast before port hcut).2⟩
        · exact hparts.1
      · exact hparts.1
  · exact absurd h fail_ok
  · exact pure_ok.mp h ▸ hline

theorem importLine_ok {lineNumber : Nat} {done done' : List Bytes × Bytes} {raw : Bytes}
    (hraw : newline ∉ raw) (h : importLine lineNumber done raw = .ok done') :
    ImportSkips raw ∧ done' = done ∨
      ¬ ImportSkips raw ∧ ∃ row, IsRow raw row ∧ row.2.name ∉ done.1 ∧
        done' = (done.1 ++ [row.2.name], done.2 ++ row.1 ++ [newline]) := by
  unfold importLine at h
  dsimp only at h
  split_ifs at h with hskips
  · exact .inl ⟨hskips, (pure_ok.mp h).symm⟩
  · obtain ⟨normalized, hnormalized, h⟩ := bind_ok.mp h
    obtain ⟨single, hsingle, h⟩ := bind_ok.mp h
    have hline : newline ∉ trim raw := fun hin => hraw ((trim_part raw).subset hin)
    split at h
    · rename_i host hhosts
      split_ifs at h with hdup
      · exact absurd h fail_ok
      · refine .inr ⟨hskips, (normalized, host), ⟨⟨lineNumber, hnormalized⟩, ?_⟩, hdup,
          (pure_ok.mp h).symm⟩
        exact isHostLine_of_parse (normalize_newline hline hnormalized) hsingle hhosts
    · exact absurd h fail_ok

/-- A run over the lines: a row for each line that is not skipped, with names of its own. -/
theorem importLines_ok {raws : List Bytes} (hraws : ∀ raw ∈ raws, newline ∉ raw) {lineNumber : Nat}
    {done done' : List Bytes × Bytes} (hdone : done.1.Nodup)
    (h : importLines lineNumber done raws = .ok done') : ∃ rows : List (Bytes × Host),
      List.Forall₂ IsRow (raws.filter fun raw => ¬ ImportSkips raw) rows ∧
        done'.1 = done.1 ++ rows.map (fun row => row.2.name) ∧ done'.1.Nodup ∧
        done'.2 = done.2 ++ rowsText rows := by
  induction raws generalizing lineNumber done with
  | nil =>
    obtain rfl := pure_ok.mp h
    exact ⟨[], .nil, (List.append_nil _).symm, hdone, (List.append_nil _).symm⟩
  | cons raw raws ih =>
    rw [List.forall_mem_cons] at hraws
    obtain ⟨next, hnext, hrest⟩ := bind_ok.mp h
    rcases importLine_ok hraws.1 hnext with ⟨hskips, rfl⟩ | ⟨hreads, row, hrow, hnew, rfl⟩
    · rw [List.filter_cons_of_neg (by simpa using hskips)]
      exact ih hraws.2 hdone hrest
    · rw [List.filter_cons_of_pos (by simpa using hreads)]
      have hnodup : (done.1 ++ [row.2.name]).Nodup := by
        refine List.nodup_append.mpr ⟨hdone, List.nodup_singleton _, fun a ha b hb heq => hnew ?_⟩
        rwa [← List.mem_singleton.mp hb, ← heq]
      obtain ⟨rows, hrows, hnames, hlast, htext⟩ := ih hraws.2 hnodup hrest
      refine ⟨row :: rows, .cons hrow hrows, ?_, hlast, ?_⟩
      · rw [hnames, List.append_assoc]
        rfl
      · rw [htext]
        simp [rowsText]

/-- The rows are read as their hosts. -/
theorem lines_rows {rows : List (Bytes × Host)} (hrows : ∀ row ∈ rows, IsHostLine row.1 row.2)
    {hosts : List Host} (hnames : (hosts.map Host.name ++ rows.map fun row => row.2.name).Nodup)
    (lineNumber : Nat) :
    (inAll hosts).lines lineNumber ((rowsText rows).splitOn newline) =
      .ok (inAll (hosts ++ rows.map Prod.snd)) := by
  induction rows generalizing hosts lineNumber with
  | nil => rw [List.map_nil, List.append_nil]; rfl
  | cons row rows ih =>
    rw [List.forall_mem_cons] at hrows
    have hnew : ∀ e ∈ hosts, e.name ≠ row.2.name := fun e he heq =>
      (List.nodup_append.mp hnames).2.2 e.name (List.mem_map_of_mem he) row.2.name (by simp) heq
    have htext : rowsText (row :: rows) = row.1 ++ newline :: rowsText rows := by simp [rowsText]
    have hrest : ((hosts ++ [row.2]).map Host.name ++ rows.map fun row => row.2.name).Nodup := by
      rw [List.map_append, List.append_assoc]
      exact hnames
    rw [htext, splitOn_line hrows.1.single]
    refine bind_ok.mpr ⟨_, hrows.1.line hnew lineNumber, ?_⟩
    rw [ih hrows.2 hrest, List.append_assoc]
    rfl

theorem parse_rows {rows : List (Bytes × Host)} (hrows : ∀ row ∈ rows, IsHostLine row.1 row.2)
    (hnames : (rows.map fun row => row.2.name).Nodup) (sourcePath : Bytes) :
    parse (ascii "[all]\n" ++ rowsText rows) sourcePath =
      .ok { hosts := rows.map Prod.snd, sourcePath } := by
  have htext : ascii "[all]\n" ++ rowsText rows = ascii "[all]" ++ newline :: rowsText rows := by
    have hheader : ascii "[all]\n" = ascii "[all]" ++ [newline] := by decide
    rw [hheader, List.append_assoc]
    rfl
  have hread : ({} : Reading).lines 1 ((ascii "[all]\n" ++ rowsText rows).splitOn newline) =
      .ok (inAll (rows.map Prod.snd)) := by
    have hnone : (([] : List Host).map Host.name ++ rows.map fun row => row.2.name).Nodup := hnames
    rw [htext, splitOn_line (by decide)]
    exact bind_ok.mpr ⟨_, all_line _ _, lines_rows hrows hnone 2⟩
  exact bind_ok.mpr ⟨_, hread, rfl⟩

/-- What an import gives: the hosts of the lines that it does not skip. -/
theorem import_rows {text sourcePath : Bytes} {inventory : Inventory}
    (h : importClientsTxt text sourcePath = .ok inventory) : ∃ rows : List (Bytes × Host),
      List.Forall₂ IsRow ((text.splitOn newline).filter fun raw => ¬ ImportSkips raw) rows ∧
        inventory.hosts = rows.map Prod.snd := by
  obtain ⟨done, hdone, h⟩ := bind_ok.mp h
  obtain ⟨rows, hrows, hnames, hnodup, htext⟩ :=
    importLines_ok (fun raw hraw => newline_of_mem_splitOn hraw) List.nodup_nil hdone
  refine ⟨rows, hrows, ?_⟩
  rw [htext, parse_rows (rows_read hrows) (by rwa [hnames] at hnodup)] at h
  rw [← Except.ok.inj h]

/-- Rows that come whatever the numbers of their lines are. -/
def MakesRow (raw : Bytes) (row : Bytes × Host) : Prop :=
  (∀ lineNumber, normalize lineNumber (trim raw) = .ok row.1) ∧ IsHostLine row.1 row.2

theorem importLine_row {raw : Bytes} {row : Bytes × Host} (hreads : ¬ ImportSkips raw)
    (h : MakesRow raw row) {done : List Bytes × Bytes} (hnew : row.2.name ∉ done.1)
    (lineNumber : Nat) :
    importLine lineNumber done raw =
      .ok (done.1 ++ [row.2.name], done.2 ++ row.1 ++ [newline]) := by
  have hsingle : parse (ascii "[all]\n" ++ row.1 ++ [newline]) [] = .ok { hosts := [row.2] } := by
    have hone : parse (ascii "[all]\n" ++ rowsText [row]) [] = .ok { hosts := [row.2] } :=
      parse_rows (by simpa using h.2) (by simp) []
    rw [rowsText, List.flatMap_singleton, ← List.append_assoc] at hone
    exact hone
  have hreads : ¬ (trim raw = [] ∨ (trim raw).head? = some 35) := hreads
  unfold importLine
  dsimp only
  rw [if_neg hreads]
  refine bind_ok.mpr ⟨row.1, h.1 lineNumber, bind_ok.mpr ⟨_, hsingle, ?_⟩⟩
  dsimp only
  rw [if_neg hnew]
  rfl

theorem importLines_rows {raws : List Bytes} {rows : List (Bytes × Host)}
    (h : List.Forall₂ MakesRow (raws.filter fun raw => ¬ ImportSkips raw) rows)
    {done : List Bytes × Bytes} (hnames : (done.1 ++ rows.map fun row => row.2.name).Nodup)
    (lineNumber : Nat) : importLines lineNumber done raws =
      .ok (done.1 ++ rows.map (fun row => row.2.name), done.2 ++ rowsText rows) := by
  induction raws generalizing rows done lineNumber with
  | nil =>
    cases h
    rw [List.map_nil, List.append_nil, rowsText, List.flatMap_nil, List.append_nil]
    rfl
  | cons raw raws ih =>
    by_cases hskips : ImportSkips raw
    · rw [List.filter_cons_of_neg (by simpa using hskips)] at h
      exact bind_ok.mpr ⟨done, if_pos hskips, ih h hnames _⟩
    · rw [List.filter_cons_of_pos (by simpa using hskips)] at h
      obtain ⟨row, rows, hrow, hrows, rfl⟩ := List.forall₂_cons_left_iff.mp h
      have hnew : row.2.name ∉ done.1 := fun hin =>
        (List.nodup_append.mp hnames).2.2 _ hin row.2.name (by simp) rfl
      have hrest : (done.1 ++ [row.2.name] ++ rows.map fun row => row.2.name).Nodup := by
        rw [List.append_assoc]
        exact hnames
      refine bind_ok.mpr ⟨_, importLine_row hskips hrow hnew lineNumber, ?_⟩
      rw [ih hrows hrest]
      simp [rowsText]

/-- The import goes through when every line that it does not skip gives a host of its own name. -/
theorem import_of_rows {text : Bytes} {rows : List (Bytes × Host)}
    (h : List.Forall₂ MakesRow ((text.splitOn newline).filter fun raw => ¬ ImportSkips raw) rows)
    (hnames : (rows.map fun row => row.2.name).Nodup) (sourcePath : Bytes) :
    importClientsTxt text sourcePath = .ok { hosts := rows.map Prod.snd, sourcePath } := by
  have hread : ∀ row ∈ rows, IsHostLine row.1 row.2 :=
    rows_read (h.imp fun raw row hrow => ⟨⟨0, hrow.1 0⟩, hrow.2⟩)
  have hrun : importLines 1 ([], ascii "[all]\n") (text.splitOn newline) =
      .ok (rows.map (fun row => row.2.name), ascii "[all]\n" ++ rowsText rows) := by
    refine importLines_rows h ?_ 1
    exact hnames
  exact bind_ok.mpr ⟨_, hrun, parse_rows hread hnames sourcePath⟩

end psx.inventory
