-- A host that is named again, in a further section: what the defaults do to the entry that is
-- there.
import PipeShellX.Inventory.Rewrite

namespace psx.inventory

open Text (ascii)
open Scan (words)

/-- The text with a section behind it that has one line. -/
def regrouped (iniText group line : Bytes) : Bytes :=
  iniText ++ newline :: (91 :: group ++ [93] ++ newline :: line)

/-- A line that names a host, without a user and without options. -/
structure IsBare (line name : Bytes) : Prop where
  single : newline ∉ line
  text : trim (stripComment line) = name
  word : splitWhitespace name = [name]
  nobody : sign ∉ name
  plain : name.head? ≠ some 91

/-- A host that is also in this group. -/
def joined (group : Bytes) (entry : Host) : Host :=
  { entry with groups := addUnique entry.groups group }

/-- The defaults have nothing to put into the entry. -/
structure Settled (r : Reading) (entry : Host) : Prop where
  user : r.defaultUser = [] ∨ r.defaultUser = entry.user
  identity : r.defaultIdentity = [] ∨ entry.identity ≠ []
  port : r.defaultPortSet = false ∨ r.defaultPort = 22 ∨ entry.port ≠ 22

/-! ## The entry of the line -/

/-- The line changes the entry as the defaults want it. -/
theorem meet_joined_iff {r : Reading} {entry : Host} (hhost : entry.host = entry.name) :
    r.meet r.defaultUser entry.name entry = joined r.currentGroup entry ↔ Settled r entry := by
  have huser : (if r.defaultUser ≠ [] then r.defaultUser
      else if entry.user = [] then r.defaultUser else entry.user) = entry.user ↔
        r.defaultUser = [] ∨ r.defaultUser = entry.user := by
    by_cases hnone : r.defaultUser = []
    · rw [if_neg (not_not.mpr hnone)]
      refine iff_of_true ?_ (.inl hnone)
      split_ifs with hempty
      · rw [hnone, hempty]
      · rfl
    · rw [if_pos hnone]
      exact (or_iff_right hnone).symm
  have hidentity : (if entry.identity = [] then r.defaultIdentity else entry.identity) =
      entry.identity ↔ r.defaultIdentity = [] ∨ entry.identity ≠ [] := by
    split_ifs with hnone
    · rw [hnone]
      exact (or_iff_left (not_not.mpr rfl)).symm
    · exact iff_of_true rfl (.inr hnone)
  have hport : (if r.defaultPortSet ∧ entry.port = 22 then r.defaultPort else entry.port) =
      entry.port ↔ r.defaultPortSet = false ∨ r.defaultPort = 22 ∨ entry.port ≠ 22 := by
    split_ifs with hset
    · rw [hset.1, hset.2]
      simp
    · refine iff_of_true rfl ?_
      rcases not_and_or.mp hset with hunset | hother
      · exact .inl (Bool.eq_false_iff.mpr hunset)
      · exact .inr (.inr hother)
  unfold Reading.meet joined
  rw [Host.mk.injEq]
  constructor
  · rintro ⟨-, hu, -, hp, hi, -⟩
    exact ⟨huser.mp hu, hidentity.mp hi, hport.mp hp⟩
  · rintro ⟨hu, hi, hp⟩
    exact ⟨rfl, huser.mpr hu, hhost.symm, hport.mpr hp, hidentity.mpr hi, rfl, rfl, rfl, rfl, rfl⟩

/-- The entry of a name is changed where it stands. -/
theorem upsert_map {hosts : List Host} (hnames : (hosts.map Host.name).Nodup) {entry : Host}
    (hentry : entry ∈ hosts) (f : Host → Host) :
    upsert entry.name (fun old => .ok (f old)) hosts =
      .ok (hosts.map fun other => if other.name = entry.name then f other else other) := by
  obtain ⟨before, behind, rfl⟩ := List.append_of_mem hentry
  rw [List.map_append, List.map_cons, List.nodup_append, List.nodup_cons] at hnames
  obtain ⟨-, ⟨hbehind, -⟩, hbefore⟩ := hnames
  have hother : ∀ other ∈ before ++ behind, other.name ≠ entry.name := by
    intro other hin heq
    rcases List.mem_append.mp hin with hin | hin
    · exact hbefore _ (List.mem_map_of_mem hin) _ List.mem_cons_self heq
    · exact hbehind (heq ▸ List.mem_map_of_mem hin)
  have hsame : ∀ part : List Host, part ⊆ before ++ behind →
      (part.map fun other => if other.name = entry.name then f other else other) = part := by
    intro part hpart
    refine (List.map_congr_left fun other hin => ?_).trans (List.map_id part)
    exact if_neg (hother other (hpart hin))
  rw [upsert_found (fun other hin => hother other (List.mem_append_left _ hin)) rfl,
    List.map_append,
    List.map_cons, hsame before (List.subset_append_left _ _),
    hsame behind (List.subset_append_right _ _), if_pos rfl]
  rfl

theorem bare_line {r : Reading} {line : Bytes} {entry : Host} (hgroup : r.currentGroup ≠ [])
    (hhosts : r.inDefaults = false) (h : IsBare line entry.name) (hentry : entry ∈ r.hosts)
    (hnames : (r.hosts.map Host.name).Nodup) (lineNumber : Nat) :
    r.line lineNumber line = .ok { r with hosts := r.hosts.map fun other =>
      if other.name = entry.name then r.meet r.defaultUser entry.name other else other } := by
  have hsome : entry.name ≠ [] := by
    intro hnone
    have hword := h.word
    rw [hnone] at hword
    cases hword
  have hdefaults : ¬ r.inDefaults = true := Bool.eq_false_iff.mp hhosts
  have htarget : r.target entry.name = (r.defaultUser, entry.name) := by
    unfold Reading.target
    rw [Scan.cut_none.mpr h.nobody]
  unfold Reading.line
  dsimp only
  rw [h.text, if_neg hsome, if_neg h.plain, if_neg hdefaults, if_neg hgroup,
    Reading.hostLine, h.word]
  dsimp only [List.headD_cons, List.tail_cons]
  rw [htarget]
  exact bind_ok.mpr ⟨_, upsert_map hnames hentry (r.meet r.defaultUser entry.name), rfl⟩

/-! ## The text with the section -/

theorem lines_one {r r' : Reading} {lineNumber : Nat} {line : Bytes}
    (h : r.line lineNumber line = .ok r') : r.lines lineNumber [line] = .ok r' :=
  bind_ok.mpr ⟨r', h, rfl⟩

theorem parse_regrouped (sourcePath : Bytes) {iniText group line : Bytes} {r : Reading}
    {entry : Host}
    (hread : ({} : Reading).lines 1 (iniText.splitOn newline) = .ok r) (hentry : entry ∈ r.hosts)
    (hnames : (r.hosts.map Host.name).Nodup) (hgroup : IsGroup group)
    (hline : IsBare line entry.name) :
    parse (regrouped iniText group line) sourcePath = .ok {
      hosts := r.hosts.map fun other =>
        if other.name = entry.name then
          { r with inDefaults := false, currentGroup := group }.meet r.defaultUser entry.name other
        else other
      sourcePath } := by
  have hsplit : (regrouped iniText group line).splitOn newline =
      iniText.splitOn newline ++ [91 :: group ++ [93], line] := by
    unfold regrouped
    rw [List.splitOn_append_cons_self, splitOn_line (newline_header hgroup),
      List.splitOn_eq_singleton hline.single]
  have hbare :=
    bare_line (r := { r with inDefaults := false, currentGroup := group }) hgroup.some rfl
    hline hentry hnames (1 + (iniText.splitOn newline).length + 1)
  have hlines : ∃ again, ({} : Reading).lines 1 ((regrouped iniText group line).splitOn newline) =
      .ok again ∧ again.hosts = r.hosts.map fun other =>
        if other.name = entry.name then
          { r with inDefaults := false, currentGroup := group }.meet r.defaultUser entry.name other
        else other := by
    rw [hsplit, Reading.lines_append]
    have hlast := lines_one hbare
    exact ⟨_, bind_ok.mpr ⟨r, hread, bind_ok.mpr ⟨_, group_line r _ hgroup, hlast⟩⟩, rfl⟩
  obtain ⟨again, hagain, hhosts⟩ := hlines
  rw [← hhosts]
  exact bind_ok.mpr ⟨again, hagain, rfl⟩

/-- A host that is named again keeps its fields and joins the group, unless the defaults, as they
are at the end of the text, have a user that is not its own, an identity for a host that has none,
or a port for a host that is on port 22. -/
theorem a_host_named_again_only_joins_iff {iniText sourcePath group line : Bytes} {r : Reading}
    {entry : Host} (hread : ({} : Reading).lines 1 (iniText.splitOn newline) = .ok r)
    (hentry : entry ∈ r.hosts) (hgroup : IsGroup group) (hline : IsBare line entry.name) :
    (∃ again, parse (regrouped iniText group line) sourcePath = .ok again ∧
      again.hosts = r.hosts.map fun other =>
        if other.name = entry.name then joined group other else other) ↔ Settled r entry := by
  have hsound : r.Sound := Reading.lines_keep
    (fun r r' n line hline hr => hr.line (newline_of_mem_splitOn hline)) sound_start hread
  have hhost : entry.host = entry.name := (hsound.hosts entry hentry).1.host
  have hsettled :=
    meet_joined_iff (r := { r with inDefaults := false, currentGroup := group }) hhost
  have hparse := parse_regrouped sourcePath hread hentry hsound.names hgroup hline
  constructor
  · rintro ⟨again, hagain, hhosts⟩
    rw [hparse] at hagain
    obtain rfl := Except.ok.inj hagain
    have hsame := List.map_inj_left.mp hhosts entry hentry
    rw [if_pos rfl, if_pos rfl] at hsame
    obtain ⟨huser, hidentity, hport⟩ := hsettled.mp hsame
    exact ⟨huser, hidentity, hport⟩
  · intro h
    refine ⟨_, hparse, List.map_congr_left fun other hother => ?_⟩
    split_ifs with hname
    · obtain rfl := eq_of_name hsound.names hother hentry hname
      exact hsettled.mpr ⟨h.user, h.identity, h.port⟩
    · rfl

/-- A host with its own port, and an identity from the defaults. -/
def settledText : Bytes := ascii "[defaults]\nidentity = /k\n[web]\nroot@h port=2200\n"

/-- A host that was read before. -/
def settledHost : Host where
  name := ascii "h"
  user := ascii "root"
  host := ascii "h"
  port := 2200
  identity := ascii "/k"
  groups := [ascii "web"]

/-- The reader, with defaults that the host does not share. -/
def settledReading : Reading where
  hosts := [settledHost]
  defaultIdentity := ascii "/k"
  currentGroup := ascii "web"

theorem a_settled_host_joins :
    (∃ again, parse (regrouped settledText (ascii "db") (ascii "h # again")) [] = .ok again ∧
      again.hosts = [settledHost].map fun other =>
        if other.name = settledHost.name then joined (ascii "db") other else other) ↔
      Settled settledReading settledHost := by
  have hread : ({} : Reading).lines 1 (settledText.splitOn newline) = .ok settledReading := by
    decide
  have hgroup : IsGroup (ascii "db") :=
    ⟨⟨by decide, by unfold Kept; decide⟩, by decide, by decide, by decide⟩
  have hline : IsBare (ascii "h # again") settledHost.name := by
    constructor <;> decide
  exact a_host_named_again_only_joins_iff hread (List.mem_singleton_self _) hgroup hline

/-- The user of the defaults takes the place of the user that a line gave. -/
theorem the_default_user_comes_back :
    ¬ ∀ (iniText sourcePath group line : Bytes) (r : Reading) (entry : Host),
      ({} : Reading).lines 1 (iniText.splitOn newline) = .ok r → entry ∈ r.hosts → IsGroup group →
      IsBare line entry.name →
      ∃ again, parse (regrouped iniText group line) sourcePath = .ok again ∧
        again.hosts = r.hosts.map fun other =>
          if other.name = entry.name then joined group other else other := by
  intro h
  have hgroup : IsGroup (ascii "db") :=
    ⟨⟨by decide, by unfold Kept; decide⟩, by decide, by decide,
      by decide⟩
  have hline : IsBare (ascii "h") (ascii "h") := by constructor <;> decide
  obtain ⟨again, hagain, hhosts⟩ := h (ascii "[defaults]\nuser = deploy\n[web]\nalice@h") []
    (ascii "db") (ascii "h")
    { hosts := [
        { name := ascii "h", user := ascii "alice", host := ascii "h", groups := [ascii "web"] }]
      defaultUser := ascii "deploy"
      currentGroup := ascii "web" }
    { name := ascii "h", user := ascii "alice", host := ascii "h", groups := [ascii "web"] }
    (by decide) (List.mem_singleton_self _) hgroup hline
  have hread : parse (regrouped (ascii "[defaults]\nuser = deploy\n[web]\nalice@h") (ascii "db")
      (ascii "h")) [] = .ok { hosts := [{
        name := ascii "h"
        user := ascii "deploy"
        host := ascii "h"
        groups := [ascii "web", ascii "db"] }] } := by decide
  rw [hread] at hagain
  rw [← Except.ok.inj hagain] at hhosts
  exact absurd hhosts (by decide)

end psx.inventory
