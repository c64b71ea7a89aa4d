-- A rewrite that loses nothing: what it says of the hosts that were written. Every host that is
-- read again comes from a line that was written for one, and as there are as many of both, each
-- line gives one host, and the host of its own name.
import PipeShellX.Inventory.Rewrite
import Mathlib.Data.List.Perm.Subperm

namespace psx.inventory

open Text (ascii)
open Scan (words IsWord isWord_of_mem mem_of_words words_first cut cut_none cut_some cut_append
  strip_first)

/-! ## Where fields come from -/

/-- The user and the host of the words of a line, when there is no default. -/
def target (ws : List Bytes) : Bytes × Bytes := ({} : Reading).target (ws.headD [])

/-- The fields of an entry stand in lines that name it. -/
structure ReadFrom (lines : List (List Bytes)) (e : Host) : Prop where
  name : ∃ ws ∈ lines, (target ws).2 = e.name
  user : e.user = [] ∨ ∃ ws ∈ lines, (target ws).2 = e.name ∧
    (e.user = (target ws).1 ∨ optionText (ascii "user", e.user) ∈ ws.tail)
  nouser : e.user = [] → ∃ ws ∈ lines, (target ws).2 = e.name ∧
    ((target ws).1 = [] ∨ optionText (ascii "user", []) ∈ ws.tail)
  identity : e.identity = [] ∨ ∃ ws ∈ lines, (target ws).2 = e.name ∧
    optionText (ascii "identity", e.identity) ∈ ws.tail
  san : e.san = [] ∨ ∃ ws ∈ lines, (target ws).2 = e.name ∧
    optionText (ascii "san", e.san) ∈ ws.tail
  tags : ∀ tag ∈ e.tags, ∃ ws ∈ lines, (target ws).2 = e.name ∧ ∃ value,
    optionText (ascii "tag", value) ∈ ws.tail ∧ tag ∈ words (fun b => b == comma) value

theorem ReadFrom.option {lines : List (List Bytes)} {ws : List Bytes} {e e' : Host}
    {lineNumber : Nat} {opt : Bytes} (h : ReadFrom lines e) (hws : ws ∈ lines)
    (hname : (target ws).2 = e.name) (hopt : opt ∈ ws.tail)
    (hnew : hostOption lineNumber e opt = .ok e') : ReadFrom lines e' := by
  obtain ⟨key, value, rfl, hcases⟩ := hostOption_ok hnew
  rcases hcases with ⟨rfl, rfl⟩ | ⟨-, -, rfl⟩ | ⟨rfl, rfl⟩ | ⟨-, -, rfl⟩ | ⟨rfl, rfl⟩ |
    ⟨-, -, rfl⟩ | ⟨rfl, rfl⟩
  · exact { h with
      user := .inr ⟨ws, hws, hname, .inr hopt⟩
      nouser := fun hnone => ⟨ws, hws, hname, .inr (hnone ▸ hopt)⟩ }
  · exact { h with }
  · exact { h with identity := .inr ⟨ws, hws, hname, hopt⟩ }
  · exact { h with }
  · exact { h with san := .inr ⟨ws, hws, hname, hopt⟩ }
  · exact { h with }
  · refine { h with tags := fun tag htag => ?_ }
    rcases mem_addTags.mp htag with htag | htag
    · exact h.tags tag htag
    · exact ⟨ws, hws, hname, value, hopt, htag⟩

theorem ReadFrom.meet {lines : List (List Bytes)} {ws : List Bytes} {r : Reading} {e : Host}
    (hr : r.Bare) (hws : ws ∈ lines) (hname : (target ws).2 = e.name)
    (h : ReadFrom lines e ∨ e = { name := (target ws).2, host := (target ws).2 }) :
    ReadFrom lines (r.meet (target ws).1 (target ws).2 e) := by
  have hidentity : (r.meet (target ws).1 (target ws).2 e).identity = e.identity := by
    unfold Reading.meet
    dsimp only
    split_ifs with hnone
    · rw [hr.identity, hnone]
    · rfl
  have huser : (r.meet (target ws).1 (target ws).2 e).user =
      if (target ws).1 ≠ [] then (target ws).1 else e.user := by
    unfold Reading.meet
    dsimp only
    by_cases hnone : e.user = []
    · rw [if_pos hnone, hr.user, hnone]
    · rw [if_neg hnone]
  have hbefore : e.user = [] ∨ ReadFrom lines e := by
    rcases h with h | rfl
    · exact .inr h
    · exact .inl rfl
  refine ⟨⟨ws, hws, hname⟩, ?_, fun hnone => ?_, ?_, ?_, ?_⟩
  · rw [huser]
    split_ifs with hsome
    · exact .inr ⟨ws, hws, hname, .inl rfl⟩
    · exact hbefore.elim .inl ReadFrom.user
  · rw [huser] at hnone
    split_ifs at hnone with hsome
    · exact absurd hnone hsome
    · exact ⟨ws, hws, hname, .inl (not_not.mp hsome)⟩
  · rw [hidentity]
    rcases h with h | rfl
    · exact h.identity
    · exact .inl rfl
  · rcases h with h | rfl
    · exact h.san
    · exact .inl rfl
  · rcases h with h | rfl
    · exact h.tags
    · exact nofun

theorem target_bare {r : Reading} (hr : r.Bare) (spec : Bytes) :
    r.target spec = ({} : Reading).target spec := by
  unfold Reading.target
  rw [hr.user]

/-- A line of a host that is read. -/
theorem ReadFrom.hostLine {lines : List (List Bytes)} {r r' : Reading} {lineNumber : Nat}
    {line : Bytes} (hr : r.Bare) (hhosts : ∀ e ∈ r.hosts, ReadFrom lines e)
    (hline : splitWhitespace line ∈ lines) (h : r.hostLine lineNumber line = .ok r') :
    r'.Bare ∧ ∀ e ∈ r'.hosts, ReadFrom lines e := by
  obtain ⟨hosts, rfl, hupsert⟩ := hostLine_ok h
  rw [target_bare hr] at hupsert
  generalize splitWhitespace line = ws at hline hupsert
  obtain ⟨old, new, hnew, hmade, -, -, hstay, -, -⟩ :=
    upsert_ok hupsert fun e e' he hnew => (options_name hnew).trans he
  refine ⟨{ hr with }, fun e he => (hstay e he).elim (fun heq => heq ▸ ?_) (hhosts e)⟩
  have hname : (target ws).2 = old.name := by
    rcases hmade with ⟨-, hname⟩ | ⟨-, rfl⟩
    · exact hname.symm
    · rfl
  have hold : ReadFrom lines old ∨ old = { name := (target ws).2, host := (target ws).2 } :=
    hmade.imp (fun h => hhosts old h.1) And.right
  have hmeet : (r.meet (target ws).1 (target ws).2 old).name = old.name ∧
      ReadFrom lines (r.meet (target ws).1 (target ws).2 old) :=
    ⟨rfl, ReadFrom.meet hr hline hname hold⟩
  refine (options_keep (p := fun e => e.name = old.name ∧ ReadFrom lines e) ?_ hmeet hnew).2
  intro e e' opt hopt he hstep
  exact ⟨(hostOption_name hstep).trans he.1,
    he.2.option hline (hname.trans he.1.symm) hopt hstep⟩

/-! ## The lines that were written -/

/-- What is left of the line of a host when it is read again. -/
def lineOf (entry : Host) : Bytes := trim (stripComment (hostText entry))

/-- The line is read as a host. -/
def IsRead (entry : Host) : Prop := lineOf entry ≠ [] ∧ (lineOf entry).head? ≠ some 91

instance decidable_isRead (entry : Host) : Decidable (IsRead entry) :=
  inferInstanceAs (Decidable (_ ∧ _))

/-- The words of the line of a host. -/
def wordsOf (entry : Host) : List Bytes := splitWhitespace (lineOf entry)

/-- The lines that the rewritten text has of the hosts, as words. -/
def linesOf (hosts : List Host) : List (List Bytes) :=
  (hosts.filter fun entry => IsRead entry).map wordsOf

/-- A line of which something is left does not begin with a comment. -/
theorem first_of_line {entry : Host} (h : lineOf entry ≠ []) :
    ∀ b ∈ (targetText entry).head?, isComment b = false := by
  intro b hb
  by_contra hcomment
  obtain ⟨rest, htarget⟩ := List.head?_eq_some_iff.mp hb
  have hopen : (isComment b && true) = true := by simpa using hcomment
  refine h ?_
  rw [lineOf, hostText_eq, htarget, List.cons_append, stripComment, stripCommentFrom, if_pos hopen]
  rfl

/-- A line that is read as a section is none of defaults: the options leave an `=` in it. -/
theorem section_hostText {entry : Host} (h : IsHost entry) (hfirst : (lineOf entry).head? = some 91)
    (hlast : (lineOf entry).getLast? = some 93) :
    trim (lineOf entry).tail.dropLast ≠ ascii "defaults" := by
  have hin : equals ∈ lineOf entry := by
    refine mem_trim ?_ (by decide)
    rw [strip_hostText h (first_of_line fun hnone => by rw [hnone] at hfirst; cases hfirst),
      hostText_eq]
    refine List.mem_append_right _ (List.mem_flatMap.mpr ⟨_, mem_fields.mpr (.inl rfl), ?_⟩)
    simp [optionText]
  obtain ⟨inner, hinner⟩ : ∃ inner, lineOf entry = 91 :: inner ++ [93] := by
    obtain ⟨rest, hrest⟩ := List.head?_eq_some_iff.mp hfirst
    rw [hrest] at hlast hin ⊢
    rcases List.eq_nil_or_concat rest with rfl | ⟨inner, b, rfl⟩
    · cases hlast
    · rw [List.concat_eq_append, ← List.cons_append, List.getLast?_concat] at hlast
      exact ⟨inner, by rw [List.concat_eq_append, Option.some.inj hlast]; rfl⟩
  rw [hinner] at hin ⊢
  rw [List.cons_append, List.tail_cons, List.dropLast_concat]
  intro heq
  have hkept : equals ∈ trim inner := by
    refine mem_trim ?_ (by decide)
    simp only [List.cons_append, List.mem_cons, List.mem_append, List.not_mem_nil, or_false] at hin
    rcases hin with hin | hin | hin
    · exact absurd hin (by decide)
    · exact hin
    · exact absurd hin (by decide)
  rw [heq] at hkept
  exact absurd hkept (by decide)

/-- After lines of hosts and groups: no default, and hosts that come from these lines. -/
def Reread (hosts : List Host) (r : Reading) : Prop :=
  r.Bare ∧ ∀ e ∈ r.hosts, ReadFrom (linesOf hosts) e

theorem Reread.line {hosts : List Host} {r r' : Reading} {lineNumber : Nat} {entry : Host}
    (hr : Reread hosts r) (hentry : entry ∈ hosts) (h : IsHost entry)
    (hline : r.line lineNumber (hostText entry) = .ok r') : Reread hosts r' := by
  obtain ⟨hbare, hhosts⟩ := hr
  unfold Reading.line at hline
  dsimp only at hline
  rw [hbare.hosts, if_neg Bool.false_ne_true] at hline
  split_ifs at hline with hnone hsection hgroup
  · exact pure_ok.mp hline ▸ ⟨hbare, hhosts⟩
  · unfold Reading.header at hline
    dsimp only at hline
    split_ifs at hline with hlast hdefaults
    · exact absurd hline fail_ok
    · exact absurd hdefaults (section_hostText h hsection (not_not.mp hlast))
    · obtain rfl := pure_ok.mp hline
      exact ⟨⟨hbare.user, hbare.identity, hbare.port, rfl⟩, hhosts⟩
  · exact absurd hline fail_ok
  · refine ReadFrom.hostLine hbare hhosts (List.mem_map.mpr ⟨entry, ?_, rfl⟩) hline
    exact List.mem_filter.mpr ⟨hentry, decide_eq_true ⟨hnone, hsection⟩⟩

/-- What is read of an inventory that was written. -/
theorem reread {sourcePath : Bytes} {inventory again : Inventory}
    (hfleet : SoundFleet inventory.hosts)
    (hagain : parse inventory.serialize sourcePath = .ok again) :
    ∀ e ∈ again.hosts, ReadFrom (linesOf inventory.hosts) e := by
  obtain ⟨hsound, -⟩ := hfleet
  have hhosts : ∀ entry ∈ inventory.hosts, IsHost entry := fun entry hentry =>
    (hsound entry hentry).1
  obtain ⟨r, hr, hagain⟩ := bind_ok.mp hagain
  rw [← pure_ok.mp hagain]
  have hstart : Reread inventory.hosts {} := ⟨⟨rfl, rfl, rfl, rfl⟩, nofun⟩
  refine (Reading.lines_keep (fun r r' n rawLine hline hr hstep => ?_) hstart hr).2
  have hkinds : rawLine = [] ∨ (∃ group, IsGroup group ∧ rawLine = 91 :: group ++ [93]) ∨
      ∃ entry ∈ inventory.hosts, rawLine = hostText entry := by
    rcases splitOn_serialize hhosts with ⟨htext, -⟩ | htext
    · rw [htext] at hline
      exact .inl (List.mem_singleton.mp hline)
    · rw [htext] at hline
      obtain ⟨group, hgroup, hline⟩ := List.mem_flatMap.mp hline
      obtain ⟨entry, hentry, hin⟩ := mem_groups.mp hgroup
      simp only [sectionLines, List.mem_append, List.mem_cons, List.mem_map, List.mem_filter,
        List.not_mem_nil, or_false] at hline
      rcases hline with (heq | ⟨other, ⟨hother, -⟩, rfl⟩) | heq
      · exact .inr (.inl ⟨group, (hhosts entry hentry).groups group hin, heq⟩)
      · exact .inr (.inr ⟨other, hother, rfl⟩)
      · exact .inl heq
  rcases hkinds with rfl | ⟨group, hgroup, rfl⟩ | ⟨entry, hentry, rfl⟩
  · exact pure_ok.mp hstep ▸ hr
  · rw [group_line r n hgroup] at hstep
    rw [← Except.ok.inj hstep]
    exact ⟨{ hr.1 with hosts := rfl }, hr.2⟩
  · exact hr.line hentry (hhosts entry hentry) hstep

/-! ## One line for each host -/

/-- Where as many things stand for the items as there are items, each stands for one. -/
theorem eq_of_covered {α β : Type} {xs : List α} {ys : List β} {p : α → Bool} {f : α → β}
    (hnodup : ys.Nodup) (hlength : xs.length = ys.length)
    (h : ∀ y ∈ ys, ∃ x ∈ xs, p x = true ∧ f x = y) :
    (∀ x ∈ xs, p x = true) ∧ (xs.map f).Perm ys := by
  have hsub : ys ⊆ (xs.filter p).map f := by
    intro y hy
    obtain ⟨x, hx, hp, rfl⟩ := h y hy
    exact List.mem_map_of_mem (List.mem_filter.mpr ⟨hx, hp⟩)
  have hle : ys.length ≤ (xs.filter p).length := by
    simpa only [List.length_map] using (hnodup.subperm hsub).length_le
  have hall : xs.filter p = xs := List.filter_sublist.eq_of_length_le (hlength ▸ hle)
  refine ⟨List.filter_eq_self.mp hall, ?_⟩
  rw [hall] at hsub
  refine ((hnodup.subperm hsub).perm_of_length_le ?_).symm
  rw [List.length_map, hlength]

/-- The user and the host that the line of a host gives. -/
def given (entry : Host) : Bytes × Bytes := target (wordsOf entry)

/-- Every line is read, and the host that it names is read from no other. -/
structure Covered (hosts : List Host) : Prop where
  read : ∀ x ∈ hosts, IsRead x
  tokens : ∀ x ∈ hosts, IsToken x.user ∧ IsToken x.identity
  named : ∀ x ∈ hosts, ∃ y ∈ hosts, y.name = (given x).2
  only : ∀ x ∈ hosts, ∀ other ∈ hosts, (given x).2 = (given other).2 → x = other
  source : ∀ x ∈ hosts, ∀ y ∈ hosts, y.name = (given x).2 → ReadFrom [wordsOf x] y

theorem ReadFrom.same {lines : List (List Bytes)} {entry other : Host} (h : ReadFrom lines other)
    (hsame : SameHost entry other) : ReadFrom lines entry := by
  obtain ⟨hname, huser, hnouser, hidentity, hsan, htags⟩ := h
  rw [← hsame.name] at hname huser hnouser hidentity hsan htags
  rw [← hsame.user] at huser hnouser
  rw [← hsame.identity] at hidentity
  rw [← hsame.san] at hsan
  exact ⟨hname, huser, hnouser, hidentity, hsan,
    fun tag htag => htags tag ((hsame.tags tag).mp htag)⟩

/-- Of the lines, the one that names the entry is enough. -/
theorem ReadFrom.single {lines : List (List Bytes)} {ws : List Bytes} {e : Host}
    (h : ReadFrom lines e) (honly : ∀ ws' ∈ lines, (target ws').2 = e.name → ws' = ws) :
    ReadFrom [ws] e := by
  have hone : ∀ {p : List Bytes → Prop}, (∃ ws' ∈ lines, (target ws').2 = e.name ∧ p ws') →
      ∃ ws' ∈ [ws], (target ws').2 = e.name ∧ p ws' := by
    rintro p ⟨ws', hin, hname, hp⟩
    exact ⟨ws', List.mem_singleton.mpr (honly ws' hin hname), hname, hp⟩
  obtain ⟨ws', hin, hname⟩ := h.name
  exact ⟨⟨ws', List.mem_singleton.mpr (honly ws' hin hname), hname⟩, h.user.imp_right hone,
    fun hnone => hone (h.nouser hnone), h.identity.imp_right hone, h.san.imp_right hone,
    fun tag htag => hone (h.tags tag htag)⟩

/-- What is read of words has no blank. -/
theorem ReadFrom.unblank {lines : List (List Bytes)} {e : Host} (h : ReadFrom lines e)
    (hlines : ∀ ws ∈ lines, ∀ w ∈ ws, IsWord isBlank w) :
    ∀ b ∈ e.user ++ e.identity, isBlank b = false := by
  have hoption : ∀ ws ∈ lines, ∀ key value, optionText (key, value) ∈ ws.tail →
      ∀ b ∈ value, isBlank b = false := by
    intro ws hws key value hin b hb
    refine (hlines ws hws _ (List.mem_of_mem_tail hin)).2 b ?_
    simp [optionText, hb]
  have htarget : ∀ ws ∈ lines, ∀ b ∈ (target ws).1, isBlank b = false := by
    intro ws hws b hb
    unfold target at hb
    rcases target_cases {} (ws.headD []) with ⟨user, host, heq, -, htarget⟩ | ⟨-, htarget⟩
    · rw [htarget] at hb
      have hin : b ∈ ws.headD [] := heq ▸ List.mem_append_left _ hb
      cases ws with
      | nil => cases hin
      | cons w ws => exact (hlines _ hws w List.mem_cons_self).2 b hin
    · rw [htarget] at hb
      cases hb
  intro b hb
  rcases List.mem_append.mp hb with hb | hb
  · rcases h.user with hnone | ⟨ws, hws, -, heq | hin⟩
    · rw [hnone] at hb
      cases hb
    · exact htarget ws hws b (heq ▸ hb)
    · exact hoption ws hws _ _ hin b hb
  · rcases h.identity with hnone | ⟨ws, hws, -, hin⟩
    · rw [hnone] at hb
      cases hb
    · exact hoption ws hws _ _ hin b hb

theorem covered_of_sound {sourcePath : Bytes} {inventory again : Inventory}
    (hfleet : SoundFleet inventory.hosts)
    (hagain : parse inventory.serialize sourcePath = .ok again)
    (hsame : SameFleet inventory.hosts again.hosts) : Covered inventory.hosts := by
  obtain ⟨hsound, hnames⟩ := hfleet
  have hfrom : ∀ y ∈ inventory.hosts, ReadFrom (linesOf inventory.hosts) y := by
    intro y hy
    obtain ⟨other, hother, hsameHost⟩ := hsame.kept y hy
    exact (reread ⟨hsound, hnames⟩ hagain other hother).same hsameHost
  have hline : ∀ ws ∈ linesOf inventory.hosts, ∃ x ∈ inventory.hosts,
      IsRead x ∧ wordsOf x = ws := by
    intro ws hws
    obtain ⟨x, hx, rfl⟩ := List.mem_map.mp hws
    obtain ⟨hx, hread⟩ := List.mem_filter.mp hx
    exact ⟨x, hx, of_decide_eq_true hread, rfl⟩
  have hcovered : ∀ name ∈ inventory.hosts.map Host.name, ∃ x ∈ inventory.hosts,
      decide (IsRead x) = true ∧ (given x).2 = name := by
    intro name hname
    obtain ⟨y, hy, rfl⟩ := List.mem_map.mp hname
    obtain ⟨ws, hws, hname⟩ := (hfrom y hy).name
    obtain ⟨x, hx, hread, rfl⟩ := hline ws hws
    exact ⟨x, hx, decide_eq_true hread, hname⟩
  obtain ⟨hread, hperm⟩ := eq_of_covered hnames (List.length_map Host.name).symm hcovered
  have honly : ∀ x ∈ inventory.hosts, ∀ other ∈ inventory.hosts,
      (given x).2 = (given other).2 → x = other := fun x hx other hother heq =>
    List.inj_on_of_nodup_map (hperm.nodup_iff.mpr hnames) hx hother heq
  refine ⟨fun x hx => of_decide_eq_true (hread x hx), fun x hx => ?_, fun x hx => ?_, honly,
    fun x hx y hy hname => ?_⟩
  · have hunblank := (hfrom x hx).unblank fun ws hws w hw => by
      obtain ⟨x', -, -, rfl⟩ := hline ws hws
      exact isWord_of_mem hw
    have hhost := (hsound x hx).1
    exact ⟨isToken_of_text hhost.user fun b hb => hunblank b (List.mem_append_left _ hb),
      isToken_of_text hhost.identity fun b hb => hunblank b (List.mem_append_right _ hb)⟩
  · have hin : (given x).2 ∈ inventory.hosts.map Host.name :=
      hperm.subset (List.mem_map.mpr ⟨x, hx, rfl⟩)
    obtain ⟨y, hy, hname⟩ := List.mem_map.mp hin
    exact ⟨y, hy, hname⟩
  · refine (hfrom y hy).single fun ws hws hnamed => ?_
    obtain ⟨x', hx', -, rfl⟩ := hline ws hws
    rw [honly x' hx' x hx (hnamed.trans hname)]

theorem covered {iniText sourcePath : Bytes} {inventory again : Inventory}
    (hparse : parse iniText sourcePath = .ok inventory)
    (hagain : parse inventory.serialize sourcePath = .ok again)
    (hsame : SameFleet inventory.hosts again.hosts) : Covered inventory.hosts :=
  covered_of_sound (sound_of_parse hparse) hagain hsame

/-! ## The line of a host gives the host -/

theorem option_inj {f g : Bytes × Bytes} (hf : equals ∉ f.1) (hg : equals ∉ g.1)
    (h : optionText f = optionText g) : f = g := by
  have hcut := congrArg (cut equals) h
  unfold optionText at hcut
  rw [cut_append hf, cut_append hg] at hcut
  exact Option.some.inj hcut

/-- An option of the line is one that was written. -/
theorem written_of_option {x : Host} (h : IsHost x) (hread : IsRead x)
    (htokens : IsToken x.user ∧ IsToken x.identity) {f : Bytes × Bytes} (hf : equals ∉ f.1)
    (hin : optionText f ∈ (wordsOf x).tail) : f ∈ written x := by
  have hwords : wordsOf x = (if lead x = [] then [] else [lead x]) ++ (written x).map optionText :=
    words_hostText h htokens.1 htokens.2 (first_of_line hread.1)
  have hmap : optionText f ∈ (written x).map optionText := by
    rw [hwords] at hin
    split_ifs at hin
    · exact List.mem_of_mem_tail hin
    · exact hin
  obtain ⟨g, hg, heq⟩ := List.mem_map.mp hmap
  obtain ⟨g', hg', hkey, -⟩ := mem_written hg
  exact option_inj (hkey ▸ (key_form _ (key_fields hg')).2.1) hf heq ▸ hg

/-- No key is written twice. -/
theorem keys_fields (entry : Host) : ((fields entry).map Prod.fst).Nodup := by
  have hpart : ∀ (c : Prop) [Decidable c] (f : Bytes × Bytes),
      ((if c then [f] else []).map Prod.fst).Sublist [f.1] := by
    intro c _ f
    split_ifs
    · exact List.Sublist.refl _
    · exact List.nil_sublist _
  have hkeys : ((fields entry).map Prod.fst).Sublist keys := by
    unfold fields
    simp only [List.map_append]
    exact (((((List.Sublist.refl _).append (hpart _ _)).append (hpart _ _)).append
      (hpart _ _)).append
      (hpart _ _)).append (hpart _ _)
  have hnodup : keys.Nodup := by decide
  exact hnodup.sublist hkeys

theorem written_last {entry : Host} {last : Bytes × Bytes} (hlast : last ∈ (fields entry).getLast?)
    {value : Bytes} (hin : (last.1, value) ∈ written entry) :
    value = last.2.rdropWhile isTrimmed := by
  obtain ⟨front, found, hfields, hwritten⟩ := fields_last entry
  rw [hfields, List.getLast?_concat] at hlast
  obtain rfl := Option.some.inj hlast
  have hnodup := keys_fields entry
  rw [hfields, List.map_append, List.map_singleton, List.nodup_append] at hnodup
  rw [hwritten] at hin
  rcases List.mem_append.mp hin with hin | hin
  · exact absurd rfl (hnodup.2.2 _ (List.mem_map.mpr ⟨_, hin, rfl⟩) _ (List.mem_singleton.mpr rfl))
  · exact congrArg Prod.snd (List.mem_singleton.mp hin)

/-- Tags that are all there when the blanks behind the last one are gone had none. -/
theorem join_unblank {tags : List Bytes} (hnodup : tags.Nodup) (htags : ∀ tag ∈ tags, IsTag tag)
    (hall : ∀ tag ∈ tags, tag ∈ words (fun b => b == comma) ((join tags).rdropWhile isTrimmed)) :
    (join tags).rdropWhile isTrimmed = join tags := by
  have hone : ∀ {tag part : Bytes}, comma ∉ part → tag ∈ words (fun b => b == comma) part →
      tag = part := by
    intro tag part hpart htag
    have hword : ∀ b ∈ part, (b == comma) = false := fun b hb =>
      beq_eq_false_iff_ne.mpr fun heq => hpart (heq ▸ hb)
    by_cases hnone : part = []
    · rw [hnone, Scan.words_nil] at htag
      cases htag
    · rw [Scan.words_one ⟨hnone, hword⟩] at htag
      exact List.mem_singleton.mp htag
  rcases List.eq_nil_or_concat tags with rfl | ⟨front, last, rfl⟩
  · rfl
  · rw [List.concat_eq_append] at hnodup htags hall ⊢
    have hlast : last ∈ front ++ [last] := by simp
    have hcomma : comma ∉ last.rdropWhile isTrimmed := fun hin =>
      (htags last hlast).2.2 ((List.rdropWhile_prefix _ _).subset hin)
    have hmem := hall last hlast
    cases front with
    | nil =>
      have hjoin : join ([] ++ [last]) = last := rfl
      rw [hjoin] at hmem ⊢
      exact (hone hcomma hmem).symm
    | cons first front =>
      have hsome : first ≠ [] := (htags first (by simp)).2.1
      have hjoin : join (first :: front ++ [last]) = join (first :: front) ++ comma :: last := by
        rw [List.cons_append, join_cons hsome, join_cons hsome]
        simp
      have hrest : ∀ tag ∈ first :: front, IsTag tag := fun tag htag =>
        htags tag (List.mem_append_left _ htag)
      rw [hjoin, Scan.rdropWhile_append (by decide)] at hmem ⊢
      rw [Scan.words_append (p := fun b => b == comma) (beq_self_eq_true comma), words_join hrest,
        List.mem_append] at hmem
      rw [List.nodup_append] at hnodup
      have hnot : last ∉ first :: front := fun hin =>
        hnodup.2.2 last hin last (List.mem_singleton.mpr rfl) rfl
      rw [← hone hcomma (hmem.resolve_left hnot)]

section covered

variable {hosts : List Host} (hhosts : ∀ entry ∈ hosts, IsHost entry) (hc : Covered hosts)

include hhosts hc

/-- The user of the host that a line names is the one that the line gives. -/
theorem Covered.user {x y : Host} (hx : x ∈ hosts) (hy : y ∈ hosts) (hname : y.name = (given x).2) :
    given x = (y.user, y.name) := by
  have hnone : ∀ value, optionText (ascii "user", value) ∉ (wordsOf x).tail := by
    intro value hin
    have hkey : equals ∉ ascii "user" := by decide
    obtain ⟨g, hg, heq, -⟩ := mem_written
      (written_of_option (hhosts x hx) (hc.read x hx) (hc.tokens x hx) hkey hin)
    have hnot : ascii "user" ∉ keys := by decide
    have hkeys := key_fields hg
    rw [← heq] at hkeys
    exact hnot hkeys
  have hfrom := hc.source x hx y hy hname
  have huser : y.user = (given x).1 := by
    by_cases hempty : y.user = []
    · obtain ⟨ws, hws, -, heq | hin⟩ := hfrom.nouser hempty
      · rw [List.mem_singleton.mp hws] at heq
        exact hempty.trans heq.symm
      · rw [List.mem_singleton.mp hws] at hin
        exact absurd hin (hnone _)
    · obtain ⟨ws, hws, -, heq | hin⟩ := hfrom.user.resolve_left hempty
      · rw [List.mem_singleton.mp hws] at heq
        exact heq
      · rw [List.mem_singleton.mp hws] at hin
        exact absurd hin (hnone _)
  rw [huser, hname]

/-- The first word of the line is the token that was written, or else the first option. -/
theorem Covered.head {x : Host} (hx : x ∈ hosts) : ∃ w, (wordsOf x).headD [] = w ∧ w ≠ [] ∧
    (∀ b ∈ w.head?, isTrimmed b = false) ∧ (lead x = [] ∧ w.head? ≠ some sign ∨ lead x = w) := by
  have hwords : wordsOf x = (if lead x = [] then [] else [lead x]) ++ (written x).map optionText :=
    words_hostText (hhosts x hx) (hc.tokens x hx).1 (hc.tokens x hx).2
      (first_of_line (hc.read x hx).1)
  by_cases hlead : lead x = []
  · obtain ⟨front, last, -, hwritten⟩ := fields_last x
    have hsome : written x ≠ [] := by simp [hwritten]
    obtain ⟨f, rest, hcons⟩ := List.exists_cons_of_ne_nil hsome
    obtain ⟨g, hg, hkey, -⟩ := mem_written (hcons ▸ List.mem_cons_self : f ∈ written x)
    have hform : ∀ key ∈ keys, key ≠ [] ∧ isTrimmed (key.headD 0) = false ∧ key.headD 0 ≠ sign := by
      decide
    obtain ⟨hne, hblank, hsign⟩ := hform f.1 (hkey ▸ key_fields hg)
    obtain ⟨c, more, hc⟩ := List.exists_cons_of_ne_nil hne
    have hfirst : (optionText f).head? = some c := by simp [optionText, hc]
    rw [hc, List.headD_cons] at hblank hsign
    refine ⟨optionText f, by rw [hwords, if_pos hlead, hcons]; rfl, by simp [optionText],
      fun b hb => ?_, .inl ⟨hlead, fun heq => ?_⟩⟩
    · exact Option.some.inj (hfirst.symm.trans hb) ▸ hblank
    · exact hsign (Option.some.inj (hfirst.symm.trans heq))
  · refine ⟨lead x, by rw [hwords, if_neg hlead]; rfl, hlead, fun b hb => ?_, .inr rfl⟩
    have hnot := List.head?_dropWhile_not isTrimmed (targetText x)
    unfold lead at hb
    rw [Option.mem_def.mp hb] at hnot
    simpa using hnot

/-- A line gives its own host. By induction on the token: one that begins with `@` gives a host of a
shorter token, and this one has a line of its own. -/
theorem Covered.own {x : Host} (hx : x ∈ hosts) :
    given x = (x.user, x.name) ∧ lead x = targetText x ∧ targetText x ≠ [] := by
  induction hn : (targetText x).length using Nat.strongRecOn generalizing x with
  | ind n ih =>
    obtain ⟨w, hw, hsome, hfirst, hlead⟩ := hc.head hhosts hx
    obtain ⟨y, hy, hname⟩ := hc.named x hx
    have hgiven := hc.user hhosts hx hy hname
    have htoken : given x = ({} : Reading).target w := by rw [given, target, hw]
    have htext : targetText y = (if y.user ≠ [] then y.user ++ [sign] else []) ++ y.name := by
      rw [targetText, (hhosts y hy).host]
    have hclean : targetText y = w →
        given x = (x.user, x.name) ∧ lead x = targetText x ∧ targetText x ≠ [] := by
      intro hyw
      have hyLead : lead y = w := by
        unfold lead
        rw [hyw]
        cases w with
        | nil => rfl
        | cons b rest => exact List.dropWhile_cons_of_neg (Bool.eq_false_iff.mp (hfirst b rfl))
      obtain ⟨w', hw', -, -, hown⟩ := hc.head hhosts hy
      have hsame : w' = w := by
        rcases hown with ⟨hnone, -⟩ | heq
        · exact absurd (hyLead.symm.trans hnone) hsome
        · exact heq.symm.trans hyLead
      have heq : given y = given x := by rw [htoken, given, target, hw', hsame]
      obtain rfl := hc.only y hy x hx (congrArg Prod.snd heq)
      exact ⟨hgiven, hyLead.trans hyw.symm, hyw ▸ hsome⟩
    rcases target_cases {} w with ⟨user, host, heq, -, htarget⟩ | ⟨-, htarget⟩
    · rw [htoken, htarget, Prod.mk.injEq] at hgiven
      obtain ⟨rfl, rfl⟩ := hgiven
      by_cases huser : y.user = []
      · -- the host of a shorter token: its own line gives it, and this is not that line
        rw [huser, List.nil_append] at heq
        rw [huser, if_neg (not_not_intro rfl), List.nil_append] at htext
        have hshort : (targetText y).length < n := by
          rcases hlead with ⟨-, hnot⟩ | hlead
          · exact absurd (by rw [heq]; rfl) hnot
          · have hle := (List.dropWhile_sublist (l := targetText x) isTrimmed).length_le
            have hlength : w.length ≤ n := by
              rw [← hlead, ← hn]
              exact hle
            rw [heq, List.length_cons] at hlength
            rw [htext]
            omega
        obtain ⟨hown, -, -⟩ := ih _ hshort hy rfl
        have hxy := hc.only x hx y hy (by rw [hown, hname])
        rw [hxy] at hn
        omega
      · refine hclean ?_
        rw [htext, if_pos huser, heq, List.append_assoc]
        rfl
    · rw [htoken, htarget, Prod.mk.injEq] at hgiven
      refine hclean ?_
      have hnone : y.user = [] := hgiven.1.symm
      rw [htext, hnone, if_neg (not_not_intro rfl), List.nil_append, ← hgiven.2]

/-- What a host says in its last option stands there without a carriage return. -/
theorem Covered.last {x : Host} (hx : x ∈ hosts) : ∀ field ∈ (fields x).getLast?,
    field.2.getLast? ≠ some 13 := by
  intro field hfield
  have h := hhosts x hx
  have hmem := List.mem_of_mem_getLast? hfield
  have hfrom := hc.source x hx x hx (congrArg Prod.snd (hc.own hhosts hx).1).symm
  have hkept : ∀ {key value : Bytes}, equals ∉ key → field = (key, value) →
      (∃ ws ∈ [wordsOf x], (target ws).2 = x.name ∧ optionText (key, value) ∈ ws.tail) →
      field.2.rdropWhile isTrimmed = field.2 := by
    rintro key value hkey rfl ⟨ws, hws, -, hin⟩
    rw [List.mem_singleton.mp hws] at hin
    exact (written_last hfield (written_of_option h (hc.read x hx) (hc.tokens x hx) hkey hin)).symm
  have htoken := token_fields h (hc.tokens x hx).2 hmem
  rcases mem_fields.mp hmem with heq | ⟨-, heq⟩ | ⟨hsome, heq⟩ | ⟨hsome, heq⟩ | ⟨hsome, heq⟩ |
    ⟨-, heq⟩
  · rw [heq]
    exact fun hn => return_transport h.transport (List.mem_of_mem_getLast? hn)
  · rw [heq]
    exact fun hn => return_natural _ (List.mem_of_mem_getLast? hn)
  · exact (rdropWhile_token htoken).mp (hkept (by decide) heq (hfrom.identity.resolve_left hsome))
  · refine (rdropWhile_token htoken).mp ?_
    rw [heq] at hfield ⊢
    refine join_unblank h.tags.1 h.tags.2 fun tag htag => ?_
    obtain ⟨ws, hws, -, value, hin, hword⟩ := hfrom.tags tag htag
    rw [List.mem_singleton.mp hws] at hin
    have hkey : equals ∉ ascii "tag" := by decide
    have hwritten := written_of_option h (hc.read x hx) (hc.tokens x hx) hkey hin
    rw [written_last hfield hwritten] at hword
    exact hword
  · exact (rdropWhile_token htoken).mp (hkept (by decide) heq (hfrom.san.resolve_left hsome))
  · rw [heq]
    exact fun hn => return_natural _ (List.mem_of_mem_getLast? hn)

theorem Covered.writable {x : Host} (hx : x ∈ hosts) : Writable x := by
  obtain ⟨hown, hlead, hsome⟩ := hc.own hhosts hx
  obtain ⟨w, hw, -, -, hhead⟩ := hc.head hhosts hx
  have h := hhosts x hx
  obtain ⟨huser, hidentity⟩ := hc.tokens x hx
  have hcomment := first_of_line (hc.read x hx).1
  obtain ⟨b, rest, htext⟩ := List.exists_cons_of_ne_nil hsome
  have hb : b ∈ (targetText x).head? := by rw [htext]; rfl
  refine ⟨fun c hc => ?_, ?_, ⟨b, hb, hcomment b hb, fun hsection => ?_, fun hreturn => ?_⟩,
    hc.last hhosts hx⟩
  · rcases List.mem_append.mp hc with hc | hc
    · exact (huser c hc).1
    · exact (hidentity c hc).1
  · have htarget : ({} : Reading).target (targetText x) = (x.user, x.name) := by
      rcases hhead with ⟨hnone, -⟩ | heq
      · exact absurd (hlead.symm.trans hnone) hsome
      · rw [← hown, given, target, hw, ← heq, hlead]
    rcases target_cases {} (targetText x) with ⟨user, host, heq, hnot, hcut⟩ | ⟨hnot, hcut⟩
    · rw [hcut, Prod.mk.injEq] at htarget
      obtain ⟨rfl, rfl⟩ := htarget
      split_ifs with hnone
      · -- a token without a user is the host, and this is longer
        have hlength := congrArg List.length heq
        rw [targetText, if_neg (not_not_intro hnone), hnone, h.host] at hlength
        simp at hlength
      · exact hnot
    · rw [hcut, Prod.mk.injEq] at htarget
      have hnone : x.user = [] := htarget.1.symm
      rw [if_pos hnone]
      rw [targetText, if_neg (not_not_intro hnone), List.nil_append] at hnot
      exact hnot
  · refine (hc.read x hx).2 ?_
    rw [lineOf, strip_hostText h hcomment, trim_hostText, hlead, if_neg hsome, htext, hsection]
    rfl
  · have hkept := (dropWhile_token (isToken_target h huser)).mp hlead
    rw [htext, hreturn] at hkept
    exact hkept rfl

end covered

/-- A rewrite keeps the fleet exactly when the line of every host gives the host. -/
theorem rewrite_keeps_iff {iniText sourcePath : Bytes} {inventory : Inventory}
    (hparse : parse iniText sourcePath = .ok inventory) :
    (∃ again, parse inventory.serialize sourcePath = .ok again ∧
      SameFleet inventory.hosts again.hosts) ↔ ∀ entry ∈ inventory.hosts, Writable entry := by
  constructor
  · rintro ⟨again, hagain, hsame⟩ entry hentry
    have hhosts : ∀ entry ∈ inventory.hosts, IsHost entry := fun entry hentry =>
      ((parse_sound hparse).1 entry hentry).1
    exact (covered hparse hagain hsame).writable hhosts hentry
  · exact rewrite_keeps hparse

/-- A host of two groups with fields and tags of its own, and one with the user of the defaults. -/
def twoHosts : List Host :=
  [{ name := ascii "h", user := ascii "root", host := ascii "h", port := 2222,
     transport := ascii "native", groups := [ascii "web", ascii "db"],
     tags := [ascii "a", ascii "b", ascii "c"] },
   { name := ascii "10.0.0.7", user := ascii "deploy", host := ascii "10.0.0.7",
     identity := ascii "/k", groups := [ascii "web"] }]

/-- A list with defaults, options and a host in two groups. -/
def theirText : Bytes :=
  ascii "[defaults]\nuser = deploy\n[web]\nroot@h port=2222 transport=native tag=a,b\n" ++
    ascii "10.0.0.7 identity=/k\n[db]\nroot@h tag=c\n"

theorem twoHosts_read : parse theirText [] = .ok { hosts := twoHosts } := by decide +kernel

theorem twoHosts_writable : ∀ entry ∈ twoHosts, Writable entry := by
  intro entry hentry
  rcases List.mem_pair.mp hentry with rfl | rfl
  · exact ⟨by decide, by decide, ⟨114, rfl, by decide⟩, by decide⟩
  · exact ⟨by decide, by decide, ⟨100, rfl, by decide⟩, by decide⟩

theorem two_hosts_are_kept : ∃ again,
    parse (Inventory.serialize { hosts := twoHosts }) [] = .ok again ∧
      SameFleet twoHosts again.hosts :=
  (rewrite_keeps_iff twoHosts_read).mpr twoHosts_writable

/-- A default user with a blank in it is written before the host, where a blank ends the token. -/
theorem a_default_with_a_blank_is_lost : ¬ ∀ (iniText sourcePath : Bytes) (inventory : Inventory),
    parse iniText sourcePath = .ok inventory → ∃ again,
      parse inventory.serialize sourcePath = .ok again ∧
        SameFleet inventory.hosts again.hosts := by
  intro hall
  let read : Host :=
    { name := ascii "h", user := ascii "a b", host := ascii "h", groups := [ascii "g"] }
  obtain ⟨again, hagain, -⟩ := hall (ascii "[defaults]\nuser = a b\n[g]\nh\n") []
    { hosts := [read] } (by decide)
  have hfails : parse (ascii "[g]\na b@h transport=ssh\n") [] =
      fail 2 (ascii "expected key=value option, got 'b@h'") := by decide
  exact fail_ok (hfails.symm.trans hagain)

end psx.inventory
