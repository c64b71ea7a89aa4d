-- An inventory of one line. The texts of its host are made of the words of the line, so it can
-- stand in a line again but for an at sign where none may be, or for what a comment or a section
-- begins with.
import PipeShellX.Inventory.ClientsImport

namespace psx.inventory

open Text (ascii)
open Scan (isWord_of_mem mem_of_words)

/-! ## What the texts of an entry are made of -/

/-- The texts of an entry are made of these bytes. -/
structure MadeOf (bytes : Bytes) (entry : Host) : Prop where
  host : entry.host ⊆ bytes
  user : entry.user ⊆ bytes
  identity : entry.identity ⊆ bytes
  san : entry.san ⊆ bytes
  tags : ∀ tag ∈ entry.tags, tag ⊆ bytes

section

variable {bytes : Bytes} {entry : Host}

theorem MadeOf.option {opt : Bytes} {new : Host} {lineNumber : Nat} (h : MadeOf bytes entry)
    (hopt : opt ⊆ bytes) (hnew : hostOption lineNumber entry opt = .ok new) : MadeOf bytes new := by
  obtain ⟨key, value, rfl, hcases⟩ := hostOption_ok hnew
  have hvalue : value ⊆ bytes := fun b hb => hopt (by simp [hb])
  rcases hcases with ⟨-, rfl⟩ | ⟨-, -, rfl⟩ | ⟨-, rfl⟩ | ⟨-, -, rfl⟩ | ⟨-, rfl⟩ |
    ⟨-, -, rfl⟩ | ⟨-, rfl⟩
  · exact { h with user := hvalue }
  · exact { h with }
  · exact { h with identity := hvalue }
  · exact { h with }
  · exact { h with san := hvalue }
  · exact { h with }
  · refine { h with tags := fun tag htag => ?_ }
    rcases mem_addTags.mp htag with htag | htag
    · exact h.tags tag htag
    · exact fun b hb => hvalue (mem_of_words htag b hb)

theorem meet_first {r : Reading} (huser : r.defaultUser = []) (hidentity : r.defaultIdentity = [])
    (user host : Bytes) : (r.meet user host { name := host, host }).user = user ∧
      (r.meet user host { name := host, host }).identity = [] := by
  unfold Reading.meet
  rw [huser, hidentity]
  cases user <;> exact ⟨rfl, rfl⟩

/-- Without defaults and other hosts, the words of the line are all there is. -/
theorem made_hostLine {r r' : Reading} {lineNumber : Nat} {line : Bytes}
    (huser : r.defaultUser = [])
    (hidentity : r.defaultIdentity = []) (hnone : r.hosts = [])
    (h : r.hostLine lineNumber line = .ok r') :
    ∀ e ∈ r'.hosts, MadeOf (splitWhitespace line).flatten e := by
  obtain ⟨hosts, rfl, hupsert⟩ := hostLine_ok h
  rw [hnone] at hupsert
  obtain ⟨new, hnew, hhosts⟩ := bind_ok.mp hupsert
  obtain rfl := pure_ok.mp hhosts
  intro e he
  rw [List.mem_singleton.mp he]
  have hword : ∀ w ∈ splitWhitespace line, w ⊆ (splitWhitespace line).flatten :=
    fun w hw b hb => List.mem_flatten.mpr ⟨w, hw, hb⟩
  have hhead : (splitWhitespace line).headD [] ⊆ (splitWhitespace line).flatten := by
    cases hws : splitWhitespace line with
    | nil => simp
    | cons w ws => simp
  refine options_keep (p := MadeOf (splitWhitespace line).flatten) ?_ ?_ hnew
  · exact fun e e' opt hopt he hstep => he.option (hword opt (List.mem_of_mem_tail hopt)) hstep
  · obtain ⟨hmeetUser, hmeetIdentity⟩ := meet_first huser hidentity
      (r.target ((splitWhitespace line).headD [])).1 (r.target ((splitWhitespace line).headD [])).2
    have htarget : (r.target ((splitWhitespace line).headD [])).1 ⊆ (splitWhitespace line).flatten ∧
        (r.target ((splitWhitespace line).headD [])).2 ⊆ (splitWhitespace line).flatten := by
      rcases target_cases r ((splitWhitespace line).headD []) with ⟨user, host, heq, -, htarget⟩ |
        ⟨-, htarget⟩
      · rw [htarget]
        rw [heq] at hhead
        exact ⟨fun b hb => hhead (by simp [hb]), fun b hb => hhead (by simp [hb])⟩
      · rw [htarget]
        exact ⟨by simp [huser], hhead⟩
    refine ⟨htarget.2, ?_, ?_, List.nil_subset _, nofun⟩
    · rw [hmeetUser]
      exact htarget.1
    · rw [hmeetIdentity]
      exact List.nil_subset _

/-- A line behind the first one, when the first made no host. -/
theorem made_line {r r' : Reading} {lineNumber : Nat} {raw : Bytes} (huser : r.defaultUser = [])
    (hidentity : r.defaultIdentity = []) (hnone : r.hosts = []) (hraw : 13 ∉ raw)
    (h : r.line lineNumber raw = .ok r') :
    ∀ e ∈ r'.hosts, ∃ bytes, MadeOf bytes e ∧ ∀ b ∈ bytes, isBlank b = false ∧ b ≠ 13 := by
  unfold Reading.line at h
  dsimp only at h
  split_ifs at h with hblank hheader hdefaults hgroup
  · obtain rfl := pure_ok.mp h
    simp [hnone]
  · simp [(header_ok h).1, hnone]
  · have hsame : r'.hosts = r.hosts := by
      unfold Reading.defaultLine at h
      split at h
      · exact absurd h fail_ok
      · dsimp only at h
        split_ifs at h
        · rw [← pure_ok.mp h]
        · rw [← pure_ok.mp h]
        · obtain ⟨port, -, h⟩ := bind_ok.mp h
          rw [← pure_ok.mp h]
        · exact absurd h fail_ok
    simp [hsame, hnone]
  · exact absurd h fail_ok
  · intro e he
    refine ⟨_, made_hostLine huser hidentity hnone h e he, fun b hb => ?_⟩
    obtain ⟨w, hw, hb⟩ := List.mem_flatten.mp hb
    refine ⟨(isWord_of_mem hw).2 b hb, fun heq => hraw ?_⟩
    have hline := mem_of_words hw b hb
    rw [← heq]
    exact (stripComment_front true raw).subset ((trim_part _).subset hline)

/-- The first line makes no host and no default. -/
theorem first_line {r : Reading} {lineNumber : Nat} {raw : Bytes}
    (h : ({} : Reading).line lineNumber raw = .ok r) :
    r.defaultUser = [] ∧ r.defaultIdentity = [] ∧ r.hosts = [] := by
  unfold Reading.line at h
  dsimp only at h
  split_ifs at h with hblank hheader hdefaults hgroup
  · obtain rfl := pure_ok.mp h
    exact ⟨rfl, rfl, rfl⟩
  · obtain ⟨hhosts, huser, hidentity⟩ := header_ok h
    exact ⟨huser, hidentity, hhosts⟩
  · cases hdefaults
  · exact absurd h fail_ok
  · exact absurd rfl hgroup

theorem made_parse {header line sourcePath : Bytes} {inventory : Inventory}
    (hheader : newline ∉ header) (hline : newline ∉ line) (hreturn : 13 ∉ line)
    (h : parse (header ++ newline :: (line ++ [newline])) sourcePath = .ok inventory) :
    ∀ e ∈ inventory.hosts, ∃ bytes, MadeOf bytes e ∧ ∀ b ∈ bytes, isBlank b = false ∧ b ≠ 13 := by
  obtain ⟨r, hread, h⟩ := bind_ok.mp h
  have hend : ([] : Bytes).splitOn newline = [[]] := rfl
  rw [splitOn_line hheader, splitOn_line hline, hend] at hread
  obtain ⟨start, hstart, hread⟩ := bind_ok.mp hread
  obtain ⟨next, hnext, hread⟩ := bind_ok.mp hread
  obtain ⟨last, hlast, hread⟩ := bind_ok.mp hread
  rw [empty_line] at hlast
  obtain rfl := Except.ok.inj hlast
  obtain rfl := pure_ok.mp hread
  obtain rfl := pure_ok.mp h
  obtain ⟨huser, hidentity, hnone⟩ := first_line hstart
  exact made_line huser hidentity hnone hreturn hnext

/-- A line of one word is the target of its host. -/
theorem IsHostLine.one_word {line : Bytes} {host : Host} (h : IsHostLine line host)
    (hline : ∀ b ∈ line, isTrimmed b = false) :
    host = clientHost (target [line]).1 (target [line]).2 ∧
      ∃ b ∈ line.head?, isComment b = false ∧ b ≠ 91 := by
  have hblank : ∀ b ∈ line, isBlank b = false := fun b hb => isBlank_of_isTrimmed (hline b hb)
  have hfirst : ∀ b ∈ line.head?, isComment b = false := by
    intro b hb
    by_contra hcomment
    apply h.nonempty
    obtain ⟨rest, rfl⟩ := List.head?_eq_some_iff.mp hb
    have hopens : stripComment (b :: rest) = [] := by
      unfold stripComment
      rw [stripCommentFrom, if_pos (by simpa using hcomment)]
    rw [hopens]
    rfl
  have hkept : stripComment line = line := kept_of_unblank hblank (.inr hfirst)
  have htrim : trim (stripComment line) = line := by
    rw [hkept]
    exact Scan.strip_self (fun b hb => hline b (List.mem_of_mem_head? hb))
      fun b hb => hline b (List.mem_of_mem_getLast? hb)
  have hne := h.nonempty
  have hplain := h.plain
  have hmade := h.made 0
  have hwords : splitWhitespace line = [line] := by
    rw [htrim] at hne
    exact Scan.words_one ⟨hne, hblank⟩
  rw [htrim] at hne hplain hmade
  rw [hwords] at hmade
  refine ⟨(pure_ok.mp hmade).symm, ?_⟩
  cases line with
  | nil => exact absurd rfl hne
  | cons b rest => exact ⟨b, rfl, hfirst b rfl, fun heq => hplain (by rw [heq]; rfl)⟩

theorem MadeOf.fields (h : MadeOf bytes entry) (hentry : IsHost entry) (hreturn : 13 ∉ bytes) :
    ∀ field ∈ fields entry, 13 ∉ field.2 := by
  intro field hfield
  rcases mem_fields.mp hfield with rfl | ⟨-, rfl⟩ | ⟨-, rfl⟩ | ⟨-, rfl⟩ | ⟨-, rfl⟩ | ⟨-, rfl⟩
  · exact return_transport hentry.transport
  · exact return_natural _
  · exact fun hin => hreturn (h.identity hin)
  · intro hin
    rcases mem_join (fun tag htag => (hentry.tags.2 tag htag).2.1) hin with heq | ⟨tag, htag, hin⟩
    · exact absurd heq (by decide)
    · exact hreturn (h.tags tag htag hin)
  · exact fun hin => hreturn (h.san hin)
  · exact return_natural _

/-- Of the forms that a line asks for, only the at sign and the first byte are left. -/
theorem MadeOf.writable_iff (h : MadeOf bytes entry) (hentry : IsHost entry)
    (hbytes : ∀ b ∈ bytes, isBlank b = false ∧ b ≠ 13) : Writable entry ↔
      (if entry.user = [] then sign ∉ entry.host else sign ∉ entry.user) ∧
        ∃ b ∈ (targetText entry).head?, isComment b = false ∧ b ≠ 91 := by
  have hreturn : (13 : UInt8) ∉ bytes := fun hin => (hbytes 13 hin).2 rfl
  constructor
  · intro hwritable
    obtain ⟨b, hb, hcomment, hsection, -⟩ := hwritable.first
    exact ⟨hwritable.sign, b, hb, hcomment, hsection⟩
  · rintro ⟨hsign, b, hb, hcomment, hsection⟩
    refine ⟨fun c hc => ?_, hsign, ⟨b, hb, hcomment, hsection, ?_⟩, fun field hfield hlast => ?_⟩
    · rcases List.mem_append.mp hc with hc | hc
      · exact (hbytes c (h.user hc)).1
      · exact (hbytes c (h.identity hc)).1
    · rintro rfl
      have hin : (13 : UInt8) ∈ targetText entry := List.mem_of_mem_head? hb
      unfold targetText at hin
      rcases List.mem_append.mp hin with hin | hin
      · split_ifs at hin
        · rcases List.mem_append.mp hin with hin | hin
          · exact hreturn (h.user hin)
          · exact absurd hin (by decide)
        · cases hin
      · exact hreturn (h.host hin)
    · exact h.fields hentry hreturn field (List.mem_of_mem_getLast? hfield)
        (List.mem_of_mem_getLast? hlast)

end

end psx.inventory
