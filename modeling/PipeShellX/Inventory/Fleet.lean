-- The hosts that `parse` makes: every name once, and every field in the form that its way into the
-- inventory gives it.
import PipeShellX.Inventory.Lines
import Mathlib.Data.List.Nodup

namespace psx.inventory

open Text (ascii)
open Scan (words IsWord isWord_of_mem mem_of_words mem_splitOnP cut cut_some cut_none)
open Decimal (isDigit natural)

/-! ## Runs over lines -/

/-- What one line preserves, all of them preserve. -/
theorem Reading.lines_keep {p : Reading → Prop} {r r' : Reading} {lineNumber : Nat}
    {rawLines : List Bytes}
    (hstep : ∀ r r' lineNumber, ∀ rawLine ∈ rawLines, p r →
      r.line lineNumber rawLine = .ok r' → p r')
    (hp : p r) (h : r.lines lineNumber rawLines = .ok r') : p r' := by
  induction rawLines generalizing r lineNumber with
  | nil => exact pure_ok.mp h ▸ hp
  | cons rawLine rawLines ih =>
    obtain ⟨next, hnext, h⟩ := bind_ok.mp h
    refine ih (fun r r' n line hline => hstep r r' n line (List.mem_cons_of_mem _ hline)) ?_ h
    exact hstep r next _ rawLine List.mem_cons_self hp hnext

/-! ## Entries -/

section upsert

variable {name : Bytes} {change : Host → Except Bytes Host}

theorem upsert_found {before behind : List Host} {entry : Host}
    (hbefore : ∀ e ∈ before, e.name ≠ name) (hentry : entry.name = name) :
    upsert name change (before ++ entry :: behind) =
      change entry >>= fun entry => .ok (before ++ entry :: behind) := by
  induction before with
  | nil =>
    rw [List.nil_append, upsert, if_pos hentry]
    rfl
  | cons e before ih =>
    rw [List.forall_mem_cons] at hbefore
    rw [List.cons_append, upsert, if_neg hbefore.1, ih hbefore.2]
    cases change entry <;> rfl

theorem upsert_fresh {hosts : List Host} (h : ∀ e ∈ hosts, e.name ≠ name) :
    upsert name change hosts =
      change { name, host := name } >>= fun entry => .ok (hosts ++ [entry]) := by
  induction hosts with
  | nil => rfl
  | cons e hosts ih =>
    rw [List.forall_mem_cons] at h
    rw [upsert, if_neg h.1, ih h.2]
    cases change { name, host := name } <;> rfl

/-- The first entry of a name, or none. -/
theorem find_name (name : Bytes) (hosts : List Host) :
    (∃ before entry behind, hosts = before ++ entry :: behind ∧ (∀ e ∈ before, e.name ≠ name) ∧
      entry.name = name) ∨ ∀ e ∈ hosts, e.name ≠ name := by
  induction hosts with
  | nil => exact .inr nofun
  | cons e hosts ih =>
    by_cases he : e.name = name
    · exact .inl ⟨[], e, hosts, rfl, nofun, he⟩
    · rcases ih with ⟨before, entry, behind, rfl, hbefore, hentry⟩ | hnone
      · exact .inl ⟨e :: before, entry, behind, rfl, List.forall_mem_cons.mpr ⟨he, hbefore⟩, hentry⟩
      · exact .inr (List.forall_mem_cons.mpr ⟨he, hnone⟩)

/-- Every entry but the one of the name stays, and that one is changed from what it was, or made. -/
theorem upsert_ok {hosts hosts' : List Host} (h : upsert name change hosts = .ok hosts')
    (hname : ∀ e e', e.name = name → change e = .ok e' → e'.name = name) :
    ∃ old new, change old = .ok new ∧
      ((old ∈ hosts ∧ old.name = name) ∨
        ((∀ e ∈ hosts, e.name ≠ name) ∧ old = { name, host := name })) ∧ new ∈ hosts' ∧
        new.name = name ∧ (∀ e ∈ hosts', e = new ∨ e ∈ hosts) ∧
      (∀ e ∈ hosts, e = old ∨ e ∈ hosts') ∧
      ((hosts.map Host.name).Nodup → (hosts'.map Host.name).Nodup ∧
        ∀ e ∈ hosts', e.name = name → e = new) := by
  rcases find_name name hosts with ⟨before, old, behind, rfl, hbefore, hold⟩ | hnone
  · rw [upsert_found hbefore hold] at h
    obtain ⟨new, hnew, h⟩ := bind_ok.mp h
    obtain rfl := Except.ok.inj h
    have hsame : new.name = name := hname old new hold hnew
    refine ⟨old, new, hnew, .inl ⟨by simp, hold⟩, by simp, hsame, fun e he => ?_, fun e he => ?_,
      fun hnodup => ?_⟩
    · simp only [List.mem_append, List.mem_cons] at he ⊢
      tauto
    · simp only [List.mem_append, List.mem_cons] at he ⊢
      tauto
    · have hmap : (before ++ new :: behind).map Host.name =
          (before ++ old :: behind).map Host.name := by
        rw [List.map_append, List.map_append, List.map_cons, List.map_cons, hsame, hold]
      rw [← hmap] at hnodup
      refine ⟨hnodup, fun e he hee => ?_⟩
      exact List.inj_on_of_nodup_map hnodup he (by simp) (hee.trans hsame.symm)
  · rw [upsert_fresh hnone] at h
    obtain ⟨new, hnew, h⟩ := bind_ok.mp h
    obtain rfl := Except.ok.inj h
    have hsame : new.name = name := hname _ new rfl hnew
    refine ⟨_, new, hnew, .inr ⟨hnone, rfl⟩, by simp, hsame, fun e he => ?_, fun e he => ?_,
      fun hnodup => ?_⟩
    · simp only [List.mem_append, List.mem_singleton] at he
      tauto
    · exact .inr (List.mem_append_left _ he)
    · refine ⟨?_, fun e he hee => ?_⟩
      · rw [List.map_append, List.map_singleton, List.nodup_append]
        refine ⟨hnodup, List.nodup_singleton _, fun a ha b hb => ?_⟩
        obtain ⟨e, he, rfl⟩ := List.mem_map.mp ha
        rw [List.mem_singleton.mp hb, hsame]
        exact hnone e he
      · rcases List.mem_append.mp he with he | he
        · exact absurd hee (hnone e he)
        · exact List.mem_singleton.mp he

/-- Only what the entry of the name becomes counts. -/
theorem upsert_congr {change' : Host → Except Bytes Host} (hosts : List Host)
    (hfresh : change { name, host := name } = change' { name, host := name })
    (h : ∀ e ∈ hosts, e.name = name → change e = change' e) :
    upsert name change hosts = upsert name change' hosts := by
  rcases find_name name hosts with ⟨before, entry, behind, rfl, hbefore, hentry⟩ | hnone
  · rw [upsert_found hbefore hentry, upsert_found hbefore hentry, h entry (by simp) hentry]
  · rw [upsert_fresh hnone, upsert_fresh hnone, hfresh]

theorem upsert_total (name : Bytes) (f : Host → Host) (hosts : List Host) :
    ∃ hosts', upsert name (fun entry => .ok (f entry)) hosts = .ok hosts' := by
  rcases find_name name hosts with ⟨before, entry, behind, rfl, hbefore, hentry⟩ | hnone
  · exact ⟨_, upsert_found hbefore hentry⟩
  · exact ⟨_, upsert_fresh hnone⟩

end upsert

theorem fail_ok {α : Type} {lineNumber : Nat} {message : Bytes} {a : α} :
    ¬ fail lineNumber message = .ok a := nofun

theorem parsePort_ok {value : Bytes} {lineNumber port : Nat} :
    parsePort value lineNumber = .ok port ↔ IsPort value ∧ port = Decimal.value value := by
  unfold parsePort
  split_ifs with h
  · exact ⟨fun heq => ⟨h, (Except.ok.inj heq).symm⟩, fun heq => congrArg _ heq.2.symm⟩
  · exact iff_of_false fail_ok fun heq => h heq.1

/-- What an option of a host changes. -/
theorem hostOption_ok {lineNumber : Nat} {entry new : Host} {opt : Bytes}
    (h : hostOption lineNumber entry opt = .ok new) : ∃ key value, opt = key ++ equals :: value ∧
      ((key = ascii "user" ∧ new = { entry with user := value }) ∨
        (key = ascii "port" ∧ IsPort value ∧ new = { entry with port := Decimal.value value }) ∨
        (key = ascii "identity" ∧ new = { entry with identity := value }) ∨
        (key = ascii "transport" ∧ isSupportedTransport value = true ∧
          new = { entry with transport := value }) ∨
        (key = ascii "san" ∧ new = { entry with san := value }) ∨
        (key = ascii "native_port" ∧ IsPort value ∧
          new = { entry with nativePort := Decimal.value value }) ∨
        (key = ascii "tag" ∧ new = { entry with tags := addTags entry.tags value })) := by
  unfold hostOption at h
  cases hcut : cut equals opt with
  | none =>
    rw [hcut] at h
    exact absurd h fail_ok
  | some cutting =>
    obtain ⟨key, value⟩ := cutting
    rw [hcut] at h
    dsimp only at h
    refine ⟨key, value, (cut_some.mp hcut).1, ?_⟩
    split_ifs at h with huser hport hidentity htransport hsupported hsan hnative htag
    · exact .inl ⟨huser, (pure_ok.mp h).symm⟩
    · obtain ⟨port, hvalue, h⟩ := bind_ok.mp h
      obtain ⟨hvalid, rfl⟩ := parsePort_ok.mp hvalue
      exact .inr (.inl ⟨hport, hvalid, (pure_ok.mp h).symm⟩)
    · exact .inr (.inr (.inl ⟨hidentity, (pure_ok.mp h).symm⟩))
    · exact .inr (.inr (.inr (.inl ⟨htransport, hsupported, (pure_ok.mp h).symm⟩)))
    · exact absurd h fail_ok
    · exact .inr (.inr (.inr (.inr (.inl ⟨hsan, (pure_ok.mp h).symm⟩))))
    · obtain ⟨port, hvalue, h⟩ := bind_ok.mp h
      obtain ⟨hvalid, rfl⟩ := parsePort_ok.mp hvalue
      exact .inr (.inr (.inr (.inr (.inr (.inl ⟨hnative, hvalid, (pure_ok.mp h).symm⟩)))))
    · exact .inr (.inr (.inr (.inr (.inr (.inr ⟨htag, (pure_ok.mp h).symm⟩)))))
    · exact absurd h fail_ok

theorem hostOption_name {lineNumber : Nat} {entry new : Host} {opt : Bytes}
    (h : hostOption lineNumber entry opt = .ok new) : new.name = entry.name := by
  obtain ⟨key, value, -, h⟩ := hostOption_ok h
  rcases h with ⟨-, rfl⟩ | ⟨-, -, rfl⟩ | ⟨-, rfl⟩ | ⟨-, -, rfl⟩ | ⟨-, rfl⟩ | ⟨-, -, rfl⟩ |
    ⟨-, rfl⟩ <;>
    rfl

/-- What one option preserves, all of them preserve. -/
theorem options_keep {p : Host → Prop} {lineNumber : Nat} {entry new : Host} {opts : List Bytes}
    (hstep : ∀ entry new, ∀ opt ∈ opts, p entry → hostOption lineNumber entry opt = .ok new → p new)
    (hp : p entry) (h : opts.foldlM (hostOption lineNumber) entry = .ok new) : p new := by
  induction opts generalizing entry with
  | nil => exact pure_ok.mp h ▸ hp
  | cons opt opts ih =>
    rw [List.foldlM_cons] at h
    obtain ⟨next, hnext, h⟩ := bind_ok.mp h
    refine ih (fun entry new o ho => hstep entry new o (List.mem_cons_of_mem _ ho)) ?_ h
    exact hstep entry next opt List.mem_cons_self hp hnext

theorem options_name {lineNumber : Nat} {entry new : Host} {opts : List Bytes}
    (h : opts.foldlM (hostOption lineNumber) entry = .ok new) : new.name = entry.name :=
  options_keep (p := fun e => e.name = entry.name)
    (fun _ _ _ _ hname hopt => (hostOption_name hopt).trans hname) rfl h

/-! ## The form of the fields -/

/-- A part of a word: no blank, no line end. -/
def IsToken (text : Bytes) : Prop := ∀ b ∈ text, isBlank b = false ∧ b ≠ newline

instance decidable_isToken (text : Bytes) : Decidable (IsToken text) :=
  List.decidableBAll _ text

/-- A part of a line without its comment. -/
def IsText (text : Bytes) : Prop := newline ∉ text ∧ Kept false text

theorem IsToken.isText {text : Bytes} (h : IsToken text) : IsText text :=
  ⟨fun hin => (h _ hin).2 rfl, kept_of_unblank (fun b hb => (h b hb).1) (.inl rfl)⟩

theorem IsToken.subset {text part : Bytes} (h : IsToken text) (hpart : part ⊆ text) :
    IsToken part :=
  fun b hb => h b (hpart hb)

theorem IsText.part {text part : Bytes} (h : IsText text) (hpart : part <:+: text) : IsText part :=
  ⟨fun hin => h.1 (hpart.subset hin), h.2.part hpart⟩

/-- The name of a section that hosts stand in. -/
structure IsGroup (group : Bytes) : Prop where
  text : IsText group
  some : group ≠ []
  trimmed : trim group = group
  hosts : group ≠ ascii "defaults"

/-- What a tag of a line can be. -/
def IsTag (tag : Bytes) : Prop := IsToken tag ∧ tag ≠ [] ∧ comma ∉ tag

/-- An entry as the reading of lines leaves it. -/
structure IsHost (entry : Host) : Prop where
  host : entry.host = entry.name
  name : IsToken entry.name
  user : IsText entry.user
  identity : IsText entry.identity
  port : entry.port ≠ 0 ∧ entry.port ≤ 65535
  transport : isSupportedTransport entry.transport = true
  san : IsToken entry.san
  nativePort : entry.nativePort ≤ 65535
  tags : entry.tags.Nodup ∧ ∀ tag ∈ entry.tags, IsTag tag
  groups : ∀ group ∈ entry.groups, IsGroup group

theorem mem_addUnique {list : List Bytes} {value a : Bytes} :
    a ∈ addUnique list value ↔ a ∈ list ∨ a = value := by
  unfold addUnique
  split_ifs with h
  · exact (or_iff_left_of_imp fun heq => heq ▸ h).symm
  · rw [List.mem_append, List.mem_singleton]

theorem nodup_addUnique {list : List Bytes} (h : list.Nodup) (value : Bytes) :
    (addUnique list value).Nodup := by
  unfold addUnique
  split_ifs with hin
  · exact h
  · refine List.nodup_append.mpr ⟨h, List.nodup_singleton value, fun a ha b hb hab => hin ?_⟩
    rwa [← List.mem_singleton.mp hb, ← hab]

/-- The items of the value that are not empty are added. -/
theorem addTags_eq (tags : List Bytes) (value : Bytes) : addTags tags value =
    (words (fun b => b == comma) value).foldl addUnique tags := by
  have hfilter : ((value.splitOn comma).filter fun w => !w.isEmpty).foldl addUnique tags =
      (value.splitOn comma).foldl (fun tags tag =>
        if (!tag.isEmpty) = true then addUnique tags tag else tags) tags := List.foldl_filter
  unfold addTags words
  rw [List.splitOn] at hfilter
  rw [hfilter, List.splitOn]
  refine congrArg (fun f => List.foldl f tags _) (funext fun tags => funext fun tag => ?_)
  cases tag <;> rfl

theorem mem_foldl_addUnique {more list : List Bytes} {a : Bytes} :
    a ∈ more.foldl addUnique list ↔ a ∈ list ∨ a ∈ more := by
  induction more generalizing list with
  | nil => simp
  | cons b more ih => rw [List.foldl_cons, ih, mem_addUnique, List.mem_cons, or_assoc]

theorem nodup_foldl_addUnique {list : List Bytes} (h : list.Nodup) (more : List Bytes) :
    (more.foldl addUnique list).Nodup := by
  induction more generalizing list with
  | nil => exact h
  | cons b more ih => exact ih (nodup_addUnique h b)

theorem mem_addTags {tags : List Bytes} {value tag : Bytes} : tag ∈ addTags tags value ↔
    tag ∈ tags ∨ tag ∈ words (fun b => b == comma) value := by
  rw [addTags_eq, mem_foldl_addUnique]

theorem isTag_of_item {value tag : Bytes} (h : IsToken value)
    (htag : tag ∈ words (fun b => b == comma) value) : IsTag tag := by
  obtain ⟨hne, hword⟩ := isWord_of_mem htag
  refine ⟨h.subset fun b hb => mem_of_words htag b hb, hne, fun hin => ?_⟩
  exact absurd (hword comma hin) (by decide)

theorem isPort_range {value : Bytes} (h : IsPort value) :
    Decimal.value value ≠ 0 ∧ Decimal.value value ≤ 65535 := h.2.2

/-- An option in the words of a line keeps the form of an entry. -/
theorem IsHost.option {lineNumber : Nat} {entry new : Host} {opt : Bytes} (h : IsHost entry)
    (hopt : IsToken opt) (hnew : hostOption lineNumber entry opt = .ok new) : IsHost new := by
  obtain ⟨key, value, rfl, hcases⟩ := hostOption_ok hnew
  have hvalue : IsToken value := hopt.subset (by simp)
  rcases hcases with ⟨-, rfl⟩ | ⟨-, hport, rfl⟩ | ⟨-, rfl⟩ | ⟨-, hsupported, rfl⟩ | ⟨-, rfl⟩ |
    ⟨-, hport, rfl⟩ | ⟨-, rfl⟩
  · exact { h with user := hvalue.isText }
  · exact { h with port := isPort_range hport }
  · exact { h with identity := hvalue.isText }
  · exact { h with transport := hsupported }
  · exact { h with san := hvalue }
  · exact { h with nativePort := (isPort_range hport).2 }
  · refine { h with tags := ⟨?_, fun tag htag => ?_⟩ }
    · rw [addTags_eq]
      exact nodup_foldl_addUnique h.tags.1 _
    · rcases mem_addTags.mp htag with htag | htag
      · exact h.tags.2 tag htag
      · exact isTag_of_item hvalue htag

/-! ## The form of the inventory -/

/-- The state of the reading, with entries of that form. -/
structure Reading.Sound (r : Reading) : Prop where
  hosts : ∀ entry ∈ r.hosts, IsHost entry ∧ entry.groups ≠ []
  names : (r.hosts.map Host.name).Nodup
  user : IsText r.defaultUser
  identity : IsText r.defaultIdentity
  port : r.defaultPort ≠ 0 ∧ r.defaultPort ≤ 65535
  group : r.currentGroup = [] ∨ IsGroup r.currentGroup

theorem IsText.nil : IsText [] := ⟨List.not_mem_nil, kept_nil false⟩

theorem isHost_fresh {name : Bytes} (h : IsToken name) : IsHost { name, host := name } where
  host := rfl
  name := h
  user := .nil
  identity := .nil
  port := ⟨Nat.succ_ne_zero 21, Nat.le_of_ble_eq_true rfl⟩
  transport := rfl
  san := nofun
  nativePort := Nat.zero_le _
  tags := ⟨List.nodup_nil, nofun⟩
  groups := nofun

theorem IsHost.meet {r : Reading} {entry : Host} (h : IsHost entry) (hr : r.Sound)
    (hgroup : r.currentGroup ≠ []) {user : Bytes} (huser : IsText user) :
    IsHost (r.meet user entry.name entry) ∧ (r.meet user entry.name entry).groups ≠ [] := by
  have hcurrent : IsGroup r.currentGroup := hr.group.resolve_left hgroup
  refine ⟨{ h with
    host := rfl
    user := ?_
    identity := ?_
    port := ?_
    groups := fun group hin => ?_ }, fun hnone => ?_⟩
  · unfold Reading.meet
    dsimp only
    split_ifs
    · exact huser
    · exact hr.user
    · exact h.user
  · unfold Reading.meet
    dsimp only
    split_ifs
    · exact hr.identity
    · exact h.identity
  · unfold Reading.meet
    dsimp only
    split_ifs
    · exact hr.port
    · exact h.port
  · rcases mem_addUnique.mp hin with hin | rfl
    · exact h.groups group hin
    · exact hcurrent
  · have hin : r.currentGroup ∈ addUnique entry.groups r.currentGroup :=
      mem_addUnique.mpr (.inr rfl)
    exact List.ne_nil_of_mem hin hnone

theorem hostOption_groups {lineNumber : Nat} {entry new : Host} {opt : Bytes}
    (h : hostOption lineNumber entry opt = .ok new) : new.groups = entry.groups := by
  obtain ⟨key, value, -, h⟩ := hostOption_ok h
  rcases h with ⟨-, rfl⟩ | ⟨-, -, rfl⟩ | ⟨-, rfl⟩ | ⟨-, -, rfl⟩ | ⟨-, rfl⟩ | ⟨-, -, rfl⟩ |
    ⟨-, rfl⟩ <;>
    rfl

theorem target_cases (r : Reading) (spec : Bytes) :
    (∃ user host, spec = user ++ sign :: host ∧ sign ∉ user ∧ r.target spec = (user, host)) ∨
      (sign ∉ spec ∧ r.target spec = (r.defaultUser, spec)) := by
  unfold Reading.target
  cases hcut : cut sign spec with
  | none => exact .inr ⟨cut_none.mp hcut, rfl⟩
  | some cutting =>
    obtain ⟨heq, hnot⟩ := cut_some.mp hcut
    exact .inl ⟨cutting.1, cutting.2, heq, hnot, rfl⟩

/-- A line of a host: the entry of its name is changed by the words, or made. -/
theorem hostLine_ok {r r' : Reading} {lineNumber : Nat} {line : Bytes}
    (h : r.hostLine lineNumber line = .ok r') : ∃ hosts, r' = { r with hosts } ∧
      upsert (r.target ((splitWhitespace line).headD [])).2 (fun entry =>
        (splitWhitespace line).tail.foldlM (hostOption lineNumber)
          (r.meet (r.target ((splitWhitespace line).headD [])).1
            (r.target ((splitWhitespace line).headD [])).2 entry)) r.hosts = .ok hosts := by
  obtain ⟨hosts, hhosts, h⟩ := bind_ok.mp h
  exact ⟨hosts, (pure_ok.mp h).symm, hhosts⟩

/-- A header changes where the reading is, and nothing that was read. -/
theorem header_ok {r r' : Reading} {lineNumber : Nat} {line : Bytes}
    (h : r.header lineNumber line = .ok r') :
    r'.hosts = r.hosts ∧ r'.defaultUser = r.defaultUser ∧
      r'.defaultIdentity = r.defaultIdentity := by
  unfold Reading.header at h
  dsimp only at h
  split_ifs at h
  · exact absurd h fail_ok
  · rw [← pure_ok.mp h]
    exact ⟨rfl, rfl, rfl⟩
  · rw [← pure_ok.mp h]
    exact ⟨rfl, rfl, rfl⟩

theorem Reading.Sound.hostLine {r r' : Reading} {lineNumber : Nat} {line : Bytes} (hr : r.Sound)
    (hgroup : r.currentGroup ≠ []) (hline : newline ∉ line)
    (h : r.hostLine lineNumber line = .ok r') : r'.Sound := by
  obtain ⟨hosts, rfl, hupsert⟩ := hostLine_ok h
  obtain ⟨old, new, hnew, hold, -, hname, hhosts, -, hnodup⟩ :=
    upsert_ok hupsert fun e e' he hnew => (options_name hnew).trans he
  have htokens : ∀ w ∈ splitWhitespace line, IsToken w := fun w hw b hb =>
    ⟨(isWord_of_mem hw).2 b hb, fun heq => hline (heq ▸ mem_of_words hw b hb)⟩
  have hspec : IsToken ((splitWhitespace line).headD []) := by
    cases hws : splitWhitespace line with
    | nil => exact nofun
    | cons w ws => exact htokens w (hws ▸ List.mem_cons_self)
  have htarget : IsText (r.target ((splitWhitespace line).headD [])).1 ∧
      IsToken (r.target ((splitWhitespace line).headD [])).2 := by
    rcases target_cases r ((splitWhitespace line).headD []) with ⟨user, host, heq, -, htarget⟩ |
      ⟨-, htarget⟩
    · rw [heq] at hspec
      rw [htarget]
      exact ⟨(hspec.subset (by simp)).isText, hspec.subset (by simp)⟩
    · rw [htarget]
      exact ⟨hr.user, hspec⟩
  have holdName : old.name = (r.target ((splitWhitespace line).headD [])).2 :=
    (options_name hnew).symm.trans hname
  have holdHost : IsHost old := by
    rcases hold with ⟨hold, -⟩ | ⟨-, rfl⟩
    · exact (hr.hosts old hold).1
    · exact isHost_fresh htarget.2
  have hmeet := holdHost.meet hr hgroup htarget.1
  rw [holdName] at hmeet
  have hnewHost : IsHost new ∧ new.groups ≠ [] := by
    refine options_keep (p := fun e => IsHost e ∧ e.groups ≠ []) ?_ hmeet hnew
    intro e e' opt hopt he hstep
    exact ⟨he.1.option (htokens opt (List.mem_of_mem_tail hopt)) hstep,
      (hostOption_groups hstep).symm ▸ he.2⟩
  exact { hr with
    hosts := fun e he => (hhosts e he).elim (fun heq => heq ▸ hnewHost) (hr.hosts e)
    names := (hnodup hr.names).1 }

theorem Reading.Sound.header {r r' : Reading} {lineNumber : Nat} {line : Bytes} (hr : r.Sound)
    (hline : IsText line) (h : r.header lineNumber line = .ok r') : r'.Sound := by
  have hinner : line.tail.dropLast <+: line.tail := List.dropLast_prefix _
  have hsection : IsText (trim line.tail.dropLast) := hline.part
    ((trim_part _).trans (hinner.isInfix.trans (List.tail_suffix _).isInfix))
  unfold Reading.header at h
  dsimp only at h
  split_ifs at h with hlast hdefaults
  · exact absurd h fail_ok
  · rw [← pure_ok.mp h]
    exact { hr with group := .inl rfl }
  · rw [← pure_ok.mp h]
    refine { hr with group := ?_ }
    by_cases hnone : trim line.tail.dropLast = []
    · exact .inl hnone
    · exact .inr ⟨hsection, hnone, trim_trim _, hdefaults⟩

theorem Reading.Sound.defaultLine {r r' : Reading} {lineNumber : Nat} {line : Bytes} (hr : r.Sound)
    (hline : IsText line) (h : r.defaultLine lineNumber line = .ok r') : r'.Sound := by
  unfold Reading.defaultLine at h
  cases hcut : cut equals line with
  | none =>
    rw [hcut] at h
    exact absurd h fail_ok
  | some cutting =>
    obtain ⟨left, right⟩ := cutting
    rw [hcut] at h
    dsimp only at h
    have hvalue : IsText (trim right) := by
      refine hline.part ((trim_part right).trans ?_)
      rw [(cut_some.mp hcut).1]
      exact (List.suffix_append_of_suffix (List.suffix_cons _ _)).isInfix
    split_ifs at h with huser hidentity hport
    · rw [← pure_ok.mp h]
      exact { hr with user := hvalue }
    · rw [← pure_ok.mp h]
      exact { hr with identity := hvalue }
    · obtain ⟨port, hparse, h⟩ := bind_ok.mp h
      obtain ⟨hvalid, rfl⟩ := parsePort_ok.mp hparse
      rw [← pure_ok.mp h]
      exact { hr with port := isPort_range hvalid }
    · exact absurd h fail_ok

theorem isText_line {rawLine : Bytes} (h : newline ∉ rawLine) :
    IsText (trim (stripComment rawLine)) := by
  have hfront : stripComment rawLine <+: rawLine := stripComment_front true rawLine
  have hkept : Kept true (stripComment rawLine) := kept_strip true rawLine
  exact ⟨fun hin => h (hfront.subset ((trim_part _).subset hin)), hkept.part (trim_part _)⟩

theorem Reading.Sound.line {r r' : Reading} {lineNumber : Nat} {rawLine : Bytes} (hr : r.Sound)
    (hline : newline ∉ rawLine) (h : r.line lineNumber rawLine = .ok r') : r'.Sound := by
  have htext := isText_line hline
  unfold Reading.line at h
  dsimp only at h
  split_ifs at h with hnone hheader hdefaults hgroup
  · exact pure_ok.mp h ▸ hr
  · exact hr.header htext h
  · exact hr.defaultLine htext h
  · exact absurd h fail_ok
  · exact hr.hostLine hgroup htext.1 h

theorem sound_start : ({} : Reading).Sound where
  hosts := nofun
  names := List.nodup_nil
  user := .nil
  identity := .nil
  port := ⟨Nat.succ_ne_zero 21, Nat.le_of_ble_eq_true rfl⟩
  group := .inl rfl

theorem newline_of_mem_splitOn {text line : Bytes} (h : line ∈ text.splitOn newline) :
    newline ∉ line := fun hin =>
  absurd (mem_splitOnP h newline hin).1 (by decide)

/-- The hosts of an inventory have names of their own, fields of their form, and groups. -/
theorem parse_sound {iniText sourcePath : Bytes} {inventory : Inventory}
    (h : parse iniText sourcePath = .ok inventory) :
    (∀ entry ∈ inventory.hosts, IsHost entry ∧ entry.groups ≠ []) ∧
      (inventory.hosts.map Host.name).Nodup := by
  obtain ⟨r, hr, h⟩ := bind_ok.mp h
  rw [← pure_ok.mp h]
  have hsound : r.Sound := Reading.lines_keep
    (fun r r' n line hline hr => hr.line (newline_of_mem_splitOn hline)) sound_start hr
  exact ⟨hsound.hosts, hsound.names⟩

end psx.inventory
