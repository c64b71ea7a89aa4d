-- The host that `add` makes of its arguments, and when it can stand in a line of the file.
import PipeShellX.Cli.HostsCommand
import PipeShellX.Inventory.OneLine

namespace psx.cli.hosts

open Text (ascii)
open psx.inventory (Host newline sign isComment targetText Writable)

/-! ## The arguments -/

/-- What the arguments have gathered stands in one line. -/
structure Adding.Clean (a : Adding) : Prop where
  group : newline ∉ a.group
  options : ∀ option ∈ a.options, newline ∉ option ∧ 13 ∉ option

theorem rejectUnsafeValue_ok {value description : Bytes}
    (h : rejectUnsafeValue value description = .ok ()) :
    13 ∉ value ∧ newline ∉ value := by
  unfold rejectUnsafeValue at h
  split_ifs at h with hunsafe
  rw [not_or, not_or] at hunsafe
  exact hunsafe.2

section

variable {a a' : Adding}

theorem Adding.Clean.inGroup {group : Bytes} (ha : a.Clean) (h : a.inGroup group = .ok a') :
    a'.Clean := by
  obtain ⟨⟨⟩, hsafe, h⟩ := bind_ok.mp h
  split_ifs at h
  rw [← pure_ok.mp h]
  exact ⟨(rejectUnsafeValue_ok hsafe).2, ha.options⟩

theorem Adding.Clean.option {key value : Bytes} (ha : a.Clean) (h : a.option key value = .ok a') :
    a'.Clean := by
  obtain ⟨⟨⟩, hkey, h⟩ := bind_ok.mp h
  obtain ⟨⟨⟩, hvalue, h⟩ := bind_ok.mp h
  split_ifs at h
  rw [← pure_ok.mp h]
  refine ⟨ha.group, fun option hin => ?_⟩
  rcases List.mem_append.mp hin with hin | hin
  · exact ha.options option hin
  · rw [List.mem_singleton.mp hin]
    obtain ⟨hkeyReturn, hkeyLine⟩ := rejectUnsafeValue_ok hkey
    obtain ⟨hvalueReturn, hvalueLine⟩ := rejectUnsafeValue_ok hvalue
    have hequals : newline ≠ inventory.equals ∧ (13 : UInt8) ≠ inventory.equals := by decide
    simp [hkeyReturn, hkeyLine, hvalueReturn, hvalueLine, hequals]

theorem Adding.Clean.arguments {args : List Bytes} (ha : a.Clean) (h : a.arguments args = .ok a') :
    a'.Clean := by
  fun_induction Adding.arguments a args with
  | case1 =>
    obtain rfl := Except.ok.inj h
    exact ha
  | case4 _ _ _ _ _ _ _ ih =>
    obtain ⟨next, hnext, hrest⟩ := bind_ok.mp h
    exact ih next (ha.inGroup hnext) hrest
  | case7 _ _ _ _ _ _ _ ih =>
    obtain ⟨next, hnext, hrest⟩ := bind_ok.mp h
    exact ih next (ha.option hnext) hrest
  | case10 _ _ _ _ _ _ _ _ ih =>
    obtain ⟨next, hnext, hrest⟩ := bind_ok.mp h
    exact ih next (ha.option hnext) hrest
  | case2 => cases h
  | case3 => cases h
  | case5 => cases h
  | case6 => cases h
  | case8 => cases h
  | case9 => cases h

theorem Adding.Clean.header (ha : a.Clean) : newline ∉ 91 :: a.group ++ [93] := by
  have hends : newline ≠ 91 ∧ newline ≠ 93 := by decide
  simp [ha.group, hends]

/-- The line of the one host. -/
def lineOf (spec : Bytes) (options : List Bytes) : Bytes :=
  spec ++ options.flatMap fun option => 32 :: option

theorem text_eq (a : Adding) (spec : Bytes) :
    a.text spec = (91 :: a.group ++ [93]) ++ newline :: (lineOf spec a.options ++ [newline]) := by
  have hopen : ascii "[" = [91] := by decide
  have hclose : ascii "]\n" = [93, newline] := by decide
  unfold Adding.text lineOf
  rw [hopen, hclose]
  simp

theorem not_mem_line {b : UInt8} {spec : Bytes} {options : List Bytes} (hblank : b ≠ 32)
    (hspec : b ∉ spec) (hoptions : ∀ option ∈ options, b ∉ option) : b ∉ lineOf spec options := by
  intro hin
  rcases List.mem_append.mp hin with hin | hin
  · exact hspec hin
  · obtain ⟨option, hoption, hin⟩ := List.mem_flatMap.mp hin
    rcases List.mem_cons.mp hin with heq | hin
    · exact hblank heq
    · exact hoptions option hoption hin

end

/-- What `add` reads of its arguments. -/
theorem parseHostToAdd_ok {spec : Bytes} {args : List Bytes} {host : Host}
    (h : parseHostToAdd (spec :: args) = .ok host) : 13 ∉ spec ∧ newline ∉ spec ∧ ∃ a parsed,
      ({} : Adding).arguments args = .ok a ∧ inventory.parse (a.text spec) [] = .ok parsed ∧
        parsed.hosts = [host] := by
  unfold parseHostToAdd at h
  dsimp only at h
  split_ifs at h
  obtain ⟨⟨⟩, hspec, h⟩ := bind_ok.mp h
  obtain ⟨a, ha, h⟩ := bind_ok.mp h
  obtain ⟨parsed, hparsed, h⟩ := bind_ok.mp h
  obtain ⟨hreturn, hline⟩ := rejectUnsafeValue_ok hspec
  split at h
  · rename_i one hone
    obtain rfl := pure_ok.mp h
    exact ⟨hreturn, hline, a, parsed, ha, hparsed, hone⟩
  · cases h

theorem added_sound {operands : List Bytes} {host : Host} (h : parseHostToAdd operands = .ok host) :
    inventory.IsHost host ∧ host.groups ≠ [] := by
  cases operands with
  | nil => cases h
  | cons spec args =>
    obtain ⟨-, -, a, parsed, -, hparsed, hhosts⟩ := parseHostToAdd_ok h
    have hsound := (inventory.sound_of_parse hparsed).sound
    rw [hhosts] at hsound
    exact hsound host (List.mem_singleton_self host)

/-- The texts of the host are made of bytes without blanks. -/
theorem added_made {operands : List Bytes} {host : Host} (h : parseHostToAdd operands = .ok host) :
    ∃ bytes, inventory.MadeOf bytes host ∧ ∀ b ∈ bytes, inventory.isBlank b = false ∧ b ≠ 13 := by
  cases operands with
  | nil => cases h
  | cons spec args =>
    obtain ⟨hreturn, hline, a, parsed, ha, hparsed, hhosts⟩ := parseHostToAdd_ok h
    have hclean : a.Clean := Adding.Clean.arguments ⟨by decide, by simp⟩ ha
    rw [text_eq] at hparsed
    have hmade := inventory.made_parse hclean.header
      (not_mem_line (by decide) hline fun option hoption => (hclean.options option hoption).1)
      (not_mem_line (by decide) hreturn fun option hoption =>
        (hclean.options option hoption).2) hparsed
    rw [hhosts] at hmade
    exact hmade host (List.mem_singleton_self host)

/-- A host that is added by itself, as `user@host` or as a bare host, can stand in a line. -/
theorem a_plain_host_stands {spec : Bytes} {host : Host} (h : parseHostToAdd [spec] = .ok host)
    (hblank : ∀ b ∈ spec, inventory.isBlank b = false) (hsign : spec.head? ≠ some sign) :
    Writable host := by
  obtain ⟨hreturn, hline, a, parsed, ha, hparsed, hhosts⟩ := parseHostToAdd_ok h
  rw [Adding.arguments] at ha
  obtain rfl := Except.ok.inj ha
  have htext : ({} : Adding).text spec = ascii "[all]\n" ++ spec ++ [newline] := by
    have hgroup : ascii "[" ++ ascii "all" ++ ascii "]\n" = ascii "[all]\n" := by decide
    simp [Adding.text, ← hgroup]
  rw [htext] at hparsed
  have hmade := inventory.isHostLine_of_parse hline hparsed hhosts
  have htrimmed : ∀ b ∈ spec, inventory.isTrimmed b = false := by
    intro b hb
    have hnot := hblank b hb
    have hnotReturn : b ≠ 13 := fun heq => hreturn (heq ▸ hb)
    have hnotLine : b ≠ 10 := show b ≠ newline from fun heq => hline (heq ▸ hb)
    simp only [inventory.isBlank, Bool.or_eq_false_iff, decide_eq_false_iff_not] at hnot
    simp [inventory.isTrimmed, hnot, hnotReturn, hnotLine]
  obtain ⟨hhost, b, hb, hcomment, hsection⟩ := hmade.one_word htrimmed
  obtain ⟨bytes, hbytes, hall⟩ := added_made h
  refine (hbytes.writable_iff (added_sound h).1 hall).mpr ?_
  rw [hhost]
  unfold inventory.target
  rcases inventory.target_cases {} ([spec].headD []) with ⟨user, name, heq, hnot, htarget⟩ |
    ⟨hnot, htarget⟩
  · rw [htarget]
    rw [List.headD_cons] at heq
    cases user with
    | nil =>
      rw [heq] at hsign
      exact absurd rfl hsign
    | cons c user =>
      rw [heq] at hb
      exact ⟨hnot, b, hb, hcomment, hsection⟩
  · rw [htarget]
    exact ⟨hnot, b, hb, hcomment, hsection⟩

/-- The host that is added can stand in a line exactly when its user has no at sign in it, or it has
no user and its name has none, and its line begins neither a comment nor a section. -/
theorem an_added_host_stands_iff {operands : List Bytes} {host : Host}
    (h : parseHostToAdd operands = .ok host) : Writable host ↔
      (if host.user = [] then sign ∉ host.host else sign ∉ host.user) ∧
        ∃ b ∈ (targetText host).head?, isComment b = false ∧ b ≠ 91 := by
  obtain ⟨bytes, hmade, hbytes⟩ := added_made h
  exact hmade.writable_iff (added_sound h).1 hbytes

theorem a_user_with_a_sign_does_not_stand : ¬ Writable
    { name := ascii "web-1", user := ascii "a@b", host := ascii "web-1",
      groups := [ascii "all"] } := by
  have hadded : parseHostToAdd [ascii "web-1", ascii "--user", ascii "a@b"] = .ok
      { name := ascii "web-1", user := ascii "a@b", host := ascii "web-1",
        groups := [ascii "all"] } := by
    decide
  intro hwritable
  exact absurd ((an_added_host_stands_iff hadded).mp hwritable).1 (by decide)

end psx.cli.hosts
