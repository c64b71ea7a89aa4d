-- An entry of the client list that was read is written so that it reads back, in either of its two
-- forms, and a list that is saved loads as it was.
import PipeShellX.Inventory.ClientConfig

namespace psx.ClientConfig

open Text (ascii getlines)
open Scan (cut)
open Decimal (isDigit natural)
open psx.inventory (newline sign equals colon)

/-! ## What is read -/

/-- What the parts of an entry are after each step of the reading, up to the user and the host. -/
structure Checked (entry : ClientEntry) : Prop where
  port : 0 < entry.port ∧ entry.port ≤ 65535
  identity : entry.identityFile.all isValidPathChar = true
  san : entry.expectedSan.all isValidSanChar = true
  nativePort : entry.nativePort ≤ 65535
  unset : entry.raw = [] ∧ entry.password = [] ∧ entry.knownHostsFile = []
  transport : entry.transport = ascii "ssh"

/-- And what the user and the host are. -/
structure Sound (entry : ClientEntry) : Prop extends Checked entry where
  fields : validateEntryFields entry = .ok ()

theorem checked_legacy {trimmed : Bytes} {entry : ClientEntry}
    (h : parseLegacyEntry trimmed = .ok entry) : Checked entry := by
  unfold parseLegacyEntry at h
  cases hcut : cut sign trimmed with
  | none =>
    rw [hcut] at h
    cases h
  | some r =>
    rw [hcut] at h
    dsimp only at h
    split_ifs at h
    obtain rfl := pure_ok.mp h
    exact ⟨(by decide : 0 < 22 ∧ 22 ≤ 65535), rfl, rfl, Nat.zero_le _, ⟨rfl, rfl, rfl⟩, rfl⟩

theorem stoulPort_ok {value : Bytes} {port : Nat} (h : stoulPort value = some port) :
    0 < port ∧ port ≤ 65535 := by
  unfold stoulPort at h
  cases hread : stoul value with
  | none =>
    rw [hread] at h
    cases h
  | some r =>
    rw [hread] at h
    dsimp only at h
    split_ifs at h with hbad
    obtain rfl := Option.some.inj h
    omega

theorem Checked.portPart {entry entry' : ClientEntry} (h : Checked entry) {portPart : Bytes}
    (hport : parsePortPart entry portPart = .ok entry') : Checked entry' := by
  unfold parsePortPart at hport
  split_ifs at hport
  · obtain rfl := pure_ok.mp hport
    exact h
  · cases hread : stoulPort portPart with
    | none =>
      rw [hread] at hport
      cases hport
    | some port =>
      rw [hread] at hport
      obtain rfl := pure_ok.mp hport
      exact { h with port := stoulPort_ok hread }

/-- A parameter sets one of the parts, after it has checked the value. -/
theorem Checked.parameter {entry entry' : ClientEntry} (h : Checked entry) {parameter : Bytes}
    (hparameter : parseParameter entry parameter = .ok entry') : Checked entry' := by
  unfold parseParameter at hparameter
  dsimp only at hparameter
  split_ifs at hparameter with hkey hidentity hempty hchars hsan hempty hchars hnative
  · obtain rfl := pure_ok.mp hparameter
    exact { h with identity := hchars }
  · obtain rfl := pure_ok.mp hparameter
    exact { h with san := hchars }
  · cases hread : stoulPort (splitOnce parameter equals).2 with
    | none =>
      rw [hread] at hparameter
      cases hparameter
    | some port =>
      rw [hread] at hparameter
      obtain rfl := pure_ok.mp hparameter
      exact { h with nativePort := (stoulPort_ok hread).2 }

theorem Checked.parameters {parameters : List Bytes} {entry entry' : ClientEntry}
    (h : Checked entry) (hfold : parameters.foldlM parseParameter entry = .ok entry') :
    Checked entry' := by
  induction parameters generalizing entry with
  | nil =>
    obtain rfl := pure_ok.mp hfold
    exact h
  | cons parameter parameters ih =>
    rw [List.foldlM_cons] at hfold
    obtain ⟨next, hnext, hrest⟩ := bind_ok.mp hfold
    exact ih (h.parameter hnext) hrest

theorem checked_url {trimmed : Bytes} {entry : ClientEntry}
    (h : parseUrlEntry trimmed = .ok entry) : Checked entry := by
  unfold parseUrlEntry at h
  split_ifs at h
  obtain ⟨first, hfirst, h⟩ := bind_ok.mp h
  obtain ⟨second, hsecond, h⟩ := bind_ok.mp h
  have hchecked : Checked second := by
    refine Checked.portPart ?_ hsecond
    exact { checked_legacy hfirst with }
  split_ifs at h
  · obtain rfl := pure_ok.mp h
    exact hchecked
  · exact hchecked.parameters h

/-- What is read is sound, and it has what it is written as with it. -/
theorem parseEntry_sound {line : Bytes} {entry : ClientEntry} (h : parseEntry line = .ok entry) :
    ∃ sound, Sound sound ∧ entry = { sound with raw := sound.serialize } := by
  unfold parseEntry at h
  dsimp only at h
  split_ifs at h
  all_goals
    obtain ⟨sound, hsound, h⟩ := bind_ok.mp h
    obtain ⟨⟨⟩, hfields, h⟩ := bind_ok.mp h
    obtain rfl := pure_ok.mp h
  · exact ⟨sound, ⟨checked_url hsound, hfields⟩, rfl⟩
  · exact ⟨sound, ⟨checked_legacy hsound, hfields⟩, rfl⟩

/-! ## What the parts are made of -/

theorem Sound.user {entry : ClientEntry} (h : Sound entry) :
    entry.user ≠ [] ∧ entry.user.all isValidUserChar = true := by
  have hfields := h.fields
  unfold validateEntryFields at hfields
  split_ifs at hfields with hempty huser
  exact ⟨(not_or.mp hempty).1, huser⟩

theorem Sound.host {entry : ClientEntry} (h : Sound entry) :
    entry.host ≠ [] ∧ entry.host.all isValidHostChar = true := by
  have hfields := h.fields
  unfold validateEntryFields at hfields
  split_ifs at hfields with hempty huser hhost
  exact ⟨(not_or.mp hempty).2, hhost⟩

theorem not_mem_of_all {p : UInt8 → Bool} {s : Bytes} (h : s.all p = true) {c : UInt8}
    (hc : p c = false) : c ∉ s := fun hin =>
  Bool.false_ne_true (hc.symm.trans (List.all_eq_true.mp h c hin))

/-- No white space and no `#`. -/
def IsPlain (s : Bytes) : Prop := ∀ c ∈ s, isSpace c = false ∧ c ≠ 35

instance decidable_isPlain (s : Bytes) : Decidable (IsPlain s) := List.decidableBAll _ s

theorem isPlain_of_all {p : UInt8 → Bool} {s : Bytes} (h : s.all p = true)
    (hp : ([32, 9, 10, 11, 12, 13, 35].all fun c => !p c) = true) : IsPlain s := by
  intro c hc
  have hnot : c ∉ [32, 9, 10, 11, 12, 13, 35] := fun hin =>
    not_mem_of_all h (by simpa using List.all_eq_true.mp hp c hin) hc
  simp only [List.mem_cons, List.not_mem_nil, or_false, not_or] at hnot
  refine ⟨Bool.eq_false_iff.mpr fun hspace => ?_, hnot.2.2.2.2.2.2⟩
  rw [isSpace_iff] at hspace
  simp [hnot] at hspace

theorem IsPlain.append {s t : Bytes} (hs : IsPlain s) (ht : IsPlain t) : IsPlain (s ++ t) :=
  List.forall_mem_append.mpr ⟨hs, ht⟩

theorem all_natural (n : Nat) : (natural n).all isDigit = true :=
  List.all_eq_true.mpr fun _ => Decimal.isDigit_natural

theorem isPlain_natural (n : Nat) : IsPlain (natural n) :=
  isPlain_of_all (all_natural n) (by decide)

/-! ## Numbers -/

/-- A number is read back from its digits. -/
theorem stoul_natural {n : Nat} (h : n < 2 ^ 64) :
    stoul (natural n) = some (n, (natural n).length) := by
  obtain ⟨digit, more, hdigits⟩ := List.exists_cons_of_ne_nil (Decimal.natural_ne_nil n)
  have hall : ∀ b ∈ natural n, isDigit b = true := fun _ => Decimal.isDigit_natural
  have hspace : isSpace digit = false :=
    (isPlain_natural n digit (by rw [hdigits]; exact List.mem_cons_self)).1
  have hsign : ∀ b : UInt8, isDigit b = false → (natural n).head? ≠ some b := by
    intro b hb heq
    exact not_mem_of_all (all_natural n) hb (List.mem_of_mem_head? heq)
  have hunsigned : ¬ ((natural n).head? = some 43 ∨ (natural n).head? = some 45) :=
    not_or.mpr ⟨hsign 43 (by decide), hsign 45 (by decide)⟩
  have htake : (natural n).takeWhile isSpace = [] := by
    rw [hdigits, List.takeWhile_cons_of_neg (Bool.eq_false_iff.mp hspace)]
  have hdrop : (natural n).dropWhile isSpace = natural n := by
    rw [hdigits, List.dropWhile_cons_of_neg (Bool.eq_false_iff.mp hspace)]
  have hfits : ¬ (natural n = [] ∨ 2 ^ 64 ≤ n) :=
    not_or.mpr ⟨Decimal.natural_ne_nil n, Nat.not_le.mpr h⟩
  unfold stoul
  simp only [hdrop, htake, if_neg hunsigned, if_neg (hsign 45 (by decide)),
    List.takeWhile_eq_self_iff.mpr hall, Decimal.value_natural]
  rw [if_neg hfits, List.length_nil, Nat.zero_add]

theorem stoulPort_natural {n : Nat} (hpos : 0 < n) (hle : n ≤ 65535) :
    stoulPort (natural n) = some n := by
  have hfits : n < 2 ^ 64 := by omega
  have hport : ¬ ((natural n).length ≠ (natural n).length ∨ n = 0 ∨ 65535 < n) := by omega
  unfold stoulPort
  rw [stoul_natural hfits]
  exact if_neg hport

/-! ## Parts with a separator -/

theorem splitOnce_none {c : UInt8} {value : Bytes} (h : c ∉ value) :
    splitOnce value c = (value, []) := by
  unfold splitOnce
  rw [Scan.cut_none.mpr h]
  rfl

theorem splitOnce_append {c : UInt8} {before : Bytes} (h : c ∉ before) (behind : Bytes) :
    splitOnce (before ++ c :: behind) c = (before, behind) := by
  unfold splitOnce
  rw [Scan.cut_append h]
  rfl

/-! ## The URL form -/

/-- The port of the URL form, when it is written. -/
def portText (entry : ClientEntry) : Bytes :=
  if entry.port ≠ 22 then colon :: natural entry.port else []

/-- The part of the URL that names the host. -/
def authority (entry : ClientEntry) : Bytes := entry.user ++ sign :: (entry.host ++ portText entry)

/-- The query, with its mark, if there is one. -/
def queryText (entry : ClientEntry) : Bytes :=
  if entry.queryParameters = [] then [] else 63 :: [38].intercalate entry.queryParameters

theorem serialize_url {entry : ClientEntry}
    (h : ¬ (entry.port = 22 ∧ entry.identityFile = [] ∧ entry.expectedSan = [] ∧
      entry.nativePort = 0)) :
    entry.serialize = ascii "ssh://" ++ (authority entry ++ queryText entry) := by
  have hmarks : ascii "?" = [63] ∧ ascii "&" = [38] := by decide
  unfold ClientEntry.serialize
  rw [if_neg h]
  unfold authority portText queryText
  cases entry.queryParameters with
  | nil => simp
  | cons parameter parameters =>
    dsimp only
    rw [if_neg (List.cons_ne_nil _ _), Scan.intercalate_cons, hmarks.1, hmarks.2]
    simp

/-- An entry with a user and a host, and nothing else. -/
def named (user host : Bytes) : ClientEntry := { user, host }

theorem Sound.not_mem_user {entry : ClientEntry} (h : Sound entry) {c : UInt8}
    (hc : isValidUserChar c = false) : c ∉ entry.user := not_mem_of_all h.user.2 hc

theorem Sound.not_mem_host {entry : ClientEntry} (h : Sound entry) {c : UInt8}
    (hc : isValidHostChar c = false) : c ∉ entry.host := not_mem_of_all h.host.2 hc

theorem parseLegacyEntry_of {user host : Bytes} (huser : user ≠ [] ∧ sign ∉ user)
    (hhost : host ≠ [] ∧ sign ∉ host) :
    parseLegacyEntry (user ++ sign :: host) = .ok (named user host) := by
  unfold parseLegacyEntry
  rw [Scan.cut_append huser.2]
  dsimp only
  rw [if_neg (not_or.mpr ⟨huser.1, hhost.1⟩), if_neg hhost.2]
  rfl

theorem not_mem_portText {entry : ClientEntry} {c : UInt8} (hc : isDigit c = false)
    (hcolon : c ≠ colon) : c ∉ portText entry := by
  unfold portText
  split_ifs
  · rw [List.mem_cons, not_or]
    exact ⟨hcolon, not_mem_of_all (all_natural _) hc⟩
  · exact List.not_mem_nil

/-- The port is read back, the default one from nothing. -/
theorem parsePortPart_of {entry : ClientEntry} (h : Sound entry) :
    (do let (host, port) := splitOnce (entry.host ++ portText entry) colon
        parsePortPart { named entry.user entry.host with host := host } port) =
      .ok { named entry.user entry.host with port := entry.port } := by
  have hcolon : colon ∉ entry.host := h.not_mem_host (by decide)
  unfold portText
  split_ifs with hport
  · rw [splitOnce_append hcolon]
    dsimp only
    rw [parsePortPart, if_neg (Decimal.natural_ne_nil _), stoulPort_natural h.port.1 h.port.2]
    rfl
  · rw [List.append_nil, splitOnce_none hcolon, not_not.mp hport]
    rfl

/-! ## The parameters -/

theorem parseParameter_identity {entry : ClientEntry} {value : Bytes} (hne : value ≠ [])
    (h : value.all isValidPathChar = true) :
    parseParameter entry (ascii "identity=" ++ value) = .ok { entry with
      identityFile := value } := by
  have hsplit : splitOnce (ascii "identity=" ++ value) equals = (ascii "identity", value) :=
    splitOnce_append (by decide : equals ∉ ascii "identity") value
  unfold parseParameter
  rw [hsplit]
  dsimp only
  rw [if_neg (by decide), if_pos (Or.inl rfl), if_neg hne, if_neg (not_not.mpr h)]
  rfl

theorem parseParameter_san {entry : ClientEntry} {value : Bytes} (hne : value ≠ [])
    (h : value.all isValidSanChar = true) :
    parseParameter entry (ascii "san=" ++ value) = .ok { entry with expectedSan := value } := by
  have hsplit : splitOnce (ascii "san=" ++ value) equals = (ascii "san", value) :=
    splitOnce_append (by decide : equals ∉ ascii "san") value
  unfold parseParameter
  rw [hsplit]
  dsimp only
  rw [if_neg (by decide), if_neg (by decide), if_pos rfl, if_neg hne,
    if_neg (not_not.mpr h)]
  rfl

theorem parseParameter_nativePort {entry : ClientEntry} {port : Nat} (hpos : 0 < port)
    (hle : port ≤ 65535) :
    parseParameter entry (ascii "native_port=" ++ natural port) =
      .ok { entry with nativePort := port } := by
  have hsplit : splitOnce (ascii "native_port=" ++ natural port) equals =
      (ascii "native_port", natural port) :=
    splitOnce_append (by decide : equals ∉ ascii "native_port") _
  unfold parseParameter
  rw [hsplit]
  dsimp only
  rw [if_neg (by decide), if_neg (by decide), if_neg (by decide), if_pos rfl,
    stoulPort_natural hpos hle]
  rfl

/-- The entry as it is when the port is read. -/
def ported (entry : ClientEntry) : ClientEntry :=
  { named entry.user entry.host with port := entry.port }

/-- What is known of a client once its identity is read. -/
def identified (entry : ClientEntry) : ClientEntry :=
  { ported entry with identityFile := entry.identityFile }

/-- What is known of a client once its certificate name is read too. -/
def pinned (entry : ClientEntry) : ClientEntry :=
  { identified entry with expectedSan := entry.expectedSan }

/-- The parameters give the parts that have no place in front of them. -/
theorem parseParameters_of {entry : ClientEntry} (h : Checked entry) :
    entry.queryParameters.foldlM parseParameter (ported entry) =
      .ok { pinned entry with nativePort := entry.nativePort } := by
  have hidentity : (if entry.identityFile ≠ [] then [ascii "identity=" ++ entry.identityFile]
      else []).foldlM parseParameter (ported entry) = .ok (identified entry) := by
    split_ifs with hne
    · rw [List.foldlM_cons, parseParameter_identity hne h.identity]
      rfl
    · rw [identified, not_not.mp hne]
      rfl
  have hsan : (if entry.expectedSan ≠ [] then [ascii "san=" ++ entry.expectedSan]
      else []).foldlM parseParameter (identified entry) = .ok (pinned entry) := by
    split_ifs with hne
    · rw [List.foldlM_cons, parseParameter_san hne h.san]
      rfl
    · rw [pinned, not_not.mp hne]
      rfl
  have hnative : (if entry.nativePort ≠ 0 then [ascii "native_port=" ++ natural entry.nativePort]
      else []).foldlM parseParameter (pinned entry) =
        .ok { pinned entry with nativePort := entry.nativePort } := by
    split_ifs with hne
    · rw [List.foldlM_cons, parseParameter_nativePort (Nat.pos_of_ne_zero hne) h.nativePort]
      rfl
    · rw [not_not.mp hne]
      rfl
  unfold ClientEntry.queryParameters
  rw [List.foldlM_append, List.foldlM_append]
  exact bind_ok.mpr ⟨_, bind_ok.mpr ⟨_, hidentity, hsan⟩, hnative⟩

/-- And nothing else is in an entry that was read. -/
theorem Checked.whole {entry : ClientEntry} (h : Checked entry) :
    { pinned entry with nativePort := entry.nativePort } = entry := by
  obtain ⟨hraw, hpassword, hknown⟩ := h.unset
  have htransport := h.transport
  cases entry
  dsimp only at hraw hpassword hknown htransport
  rw [hraw, hpassword, hknown, htransport]
  rfl

theorem not_mem_parameter {entry : ClientEntry} (h : Checked entry) {c : UInt8}
    (hkeys : c ∉ ascii "identity=" ∧ c ∉ ascii "san=" ∧ c ∉ ascii "native_port=")
    (hvalues : isValidPathChar c = false ∧ isValidSanChar c = false ∧ isDigit c = false) :
    ∀ parameter ∈ entry.queryParameters, c ∉ parameter := by
  intro parameter hparameter
  unfold ClientEntry.queryParameters at hparameter
  rw [List.mem_append, List.mem_append] at hparameter
  rcases hparameter with (hin | hin) | hin
  all_goals split_ifs at hin
  · rw [List.mem_singleton.mp hin, List.mem_append, not_or]
    exact ⟨hkeys.1, not_mem_of_all h.identity hvalues.1⟩
  · exact absurd hin List.not_mem_nil
  · rw [List.mem_singleton.mp hin, List.mem_append, not_or]
    exact ⟨hkeys.2.1, not_mem_of_all h.san hvalues.2.1⟩
  · exact absurd hin List.not_mem_nil
  · rw [List.mem_singleton.mp hin, List.mem_append, not_or]
    exact ⟨hkeys.2.2, not_mem_of_all (all_natural _) hvalues.2.2⟩
  · exact absurd hin List.not_mem_nil

/-! ## The entry -/

theorem not_mem_authority {entry : ClientEntry} (h : Sound entry) : 63 ∉ authority entry := by
  unfold authority
  rw [List.mem_append, List.mem_cons, List.mem_append]
  rintro (huser | hsign | hhost | hport)
  · exact h.not_mem_user (by decide) huser
  · exact absurd hsign (by decide)
  · exact h.not_mem_host (by decide) hhost
  · exact not_mem_portText (by decide) (by decide) hport

theorem parseUrlEntry_of {entry : ClientEntry} (h : Sound entry) :
    parseUrlEntry (ascii "ssh://" ++ (authority entry ++ queryText entry)) = .ok entry := by
  have hprefix : (ascii "ssh://").isPrefixOf (ascii "ssh://" ++
      (authority entry ++ queryText entry)) =
      true := List.isPrefixOf_iff_prefix.mpr (List.prefix_append _ _)
  have hdrop : (ascii "ssh://" ++ (authority entry ++ queryText entry)).drop 6 =
      authority entry ++ queryText entry := List.drop_left' (by decide)
  have hsplit : splitOnce (authority entry ++ queryText entry) 63 =
      (authority entry, [38].intercalate entry.queryParameters) := by
    unfold queryText
    split_ifs with hnone
    · rw [List.append_nil, splitOnce_none (not_mem_authority h), hnone]
      rfl
    · exact splitOnce_append (not_mem_authority h) _
  have hhost : entry.host ++ portText entry ≠ [] ∧ sign ∉ entry.host ++ portText entry := by
    refine ⟨List.append_ne_nil_of_left_ne_nil h.host.1 _, ?_⟩
    rw [List.mem_append, not_or]
    exact ⟨h.not_mem_host (by decide), not_mem_portText (by decide) (by decide)⟩
  have hlegacy : parseLegacyEntry (authority entry) =
      .ok (named entry.user (entry.host ++ portText entry)) :=
    parseLegacyEntry_of ⟨h.user.1, h.not_mem_user (by decide)⟩ hhost
  have hport := parsePortPart_of h
  unfold parseUrlEntry
  rw [if_neg (not_not.mpr hprefix), hdrop, hsplit]
  refine bind_ok.mpr ⟨_, hlegacy, ?_⟩
  refine bind_ok.mpr ⟨ported entry, hport, ?_⟩
  have hwhole := parseParameters_of h.toChecked
  rw [h.whole] at hwhole
  by_cases hnone : entry.queryParameters = []
  · rw [hnone] at hwhole ⊢
    exact (if_pos rfl).trans hwhole
  · have hparts : ([38].intercalate entry.queryParameters).splitOn 38 = entry.queryParameters :=
      List.splitOn_intercalate 38
        (not_mem_parameter h.toChecked (by decide) (by decide)) hnone
    have hsome : [38].intercalate entry.queryParameters ≠ [] := by
      intro hempty
      rw [hempty, List.splitOn_nil] at hparts
      have hin : [] ∈ entry.queryParameters := by
        rw [← hparts]
        exact List.mem_singleton_self _
      unfold ClientEntry.queryParameters at hin
      simp [ascii] at hin
    rw [if_neg hsome, hparts]
    exact hwhole

theorem isPlain_user {entry : ClientEntry} (h : Sound entry) : IsPlain entry.user :=
  isPlain_of_all h.user.2 (by decide)

theorem isPlain_host {entry : ClientEntry} (h : Sound entry) : IsPlain entry.host :=
  isPlain_of_all h.host.2 (by decide)

theorem isPlain_cons {c : UInt8} (hc : isSpace c = false ∧ c ≠ 35) {s : Bytes} (hs : IsPlain s) :
    IsPlain (c :: s) := List.forall_mem_cons.mpr ⟨hc, hs⟩

theorem isPlain_query {entry : ClientEntry} (h : Checked entry) : IsPlain (queryText entry) := by
  have hparameter : ∀ parameter ∈ entry.queryParameters, IsPlain parameter := by
    intro parameter hparameter c hc
    have hnot : ∀ b : UInt8, (b ∉ ascii "identity=" ∧ b ∉ ascii "san=" ∧ b ∉ ascii "native_port=") →
        (isValidPathChar b = false ∧ isValidSanChar b = false ∧ isDigit b = false) → c ≠ b := by
      rintro b hkeys hvalues rfl
      exact not_mem_parameter h hkeys hvalues parameter hparameter hc
    refine ⟨Bool.eq_false_iff.mpr fun hspace => ?_, hnot 35 (by decide) (by decide)⟩
    rcases (isSpace_iff c).mp hspace with rfl | rfl | rfl | rfl | rfl | rfl
    all_goals exact hnot _ (by decide) (by decide) rfl
  unfold queryText
  split_ifs
  · exact nofun
  · refine isPlain_cons (by decide) fun c hc => ?_
    rcases Scan.mem_intercalate hc with hmark | ⟨parameter, hin, hc⟩
    · obtain rfl := List.mem_singleton.mp hmark
      decide
    · exact hparameter parameter hin c hc

theorem isPlain_serialize {entry : ClientEntry} (h : Sound entry) : IsPlain entry.serialize := by
  by_cases hlegacy : entry.port = 22 ∧ entry.identityFile = [] ∧ entry.expectedSan = [] ∧
      entry.nativePort = 0
  · unfold ClientEntry.serialize
    rw [if_pos hlegacy]
    have hsign : IsPlain [sign] := by decide
    exact ((isPlain_user h).append hsign).append (isPlain_host h)
  · have hscheme : IsPlain (ascii "ssh://") := by decide
    have hport : IsPlain (portText entry) := by
      unfold portText
      split_ifs
      · exact isPlain_cons (by decide) (isPlain_natural _)
      · exact nofun
    rw [serialize_url hlegacy]
    refine hscheme.append (IsPlain.append ?_ (isPlain_query h.toChecked))
    exact (isPlain_user h).append (isPlain_cons (by decide) ((isPlain_host h).append hport))

theorem trim_plain {s : Bytes} (h : IsPlain s) : trim s = s :=
  Scan.strip_self (fun c hc => (h c (List.mem_of_mem_head? hc)).1)
    fun c hc => (h c (List.mem_of_mem_getLast? hc)).1

theorem serialize_ne_nil (entry : ClientEntry) : entry.serialize ≠ [] := by
  have hsign : sign ∈ entry.serialize := by
    unfold ClientEntry.serialize
    split_ifs
    all_goals simp
  exact List.ne_nil_of_mem hsign

theorem parseEntry_serialize {entry : ClientEntry} (h : Sound entry) :
    parseEntry entry.serialize = .ok { entry with raw := entry.serialize } := by
  have hread : (if (ascii "ssh://").isPrefixOf entry.serialize then parseUrlEntry entry.serialize
      else parseLegacyEntry entry.serialize) = .ok entry := by
    by_cases hlegacy : entry.port = 22 ∧ entry.identityFile = [] ∧ entry.expectedSan = [] ∧
        entry.nativePort = 0
    · have htext : entry.serialize = entry.user ++ sign :: entry.host := by
        unfold ClientEntry.serialize
        rw [if_pos hlegacy, List.append_assoc]
        rfl
      -- a user and a host have no slash
      have hscheme : ¬ (ascii "ssh://").isPrefixOf (entry.user ++ sign :: entry.host) = true := by
        intro hprefix
        have hslash : (47 : UInt8) ∈ entry.user ++ sign :: entry.host :=
          (List.isPrefixOf_iff_prefix.mp hprefix).subset (by decide)
        rw [List.mem_append, List.mem_cons] at hslash
        rcases hslash with huser | hsign | hhost
        · exact h.not_mem_user (by decide) huser
        · exact absurd hsign (by decide)
        · exact h.not_mem_host (by decide) hhost
      have hwhole := h.whole
      unfold pinned identified ported at hwhole
      rw [hlegacy.1, hlegacy.2.1, hlegacy.2.2.1, hlegacy.2.2.2] at hwhole
      rw [htext, if_neg hscheme, parseLegacyEntry_of ⟨h.user.1, h.not_mem_user (by decide)⟩
        ⟨h.host.1, h.not_mem_host (by decide)⟩]
      exact congrArg Except.ok hwhole
    · have hprefix : (ascii "ssh://").isPrefixOf entry.serialize = true := by
        rw [serialize_url hlegacy]
        exact List.isPrefixOf_iff_prefix.mpr (List.prefix_append _ _)
      rw [if_pos hprefix, serialize_url hlegacy]
      exact parseUrlEntry_of h
  unfold parseEntry
  rw [trim_plain (isPlain_serialize h)]
  dsimp only
  rw [if_neg (serialize_ne_nil entry)]
  split_ifs at hread ⊢
  · exact bind_ok.mpr ⟨entry, hread, bind_ok.mpr ⟨(), h.fields, rfl⟩⟩
  · exact bind_ok.mpr ⟨entry, hread, bind_ok.mpr ⟨(), h.fields, rfl⟩⟩

theorem entry_reads_back {line : Bytes} {entry : ClientEntry} (h : parseEntry line = .ok entry) :
    parseEntry entry.serialize = .ok entry := by
  obtain ⟨sound, hsound, rfl⟩ := parseEntry_sound h
  have hread := parseEntry_serialize hsound
  exact hread

/-! ## The file -/

/-- A client as a load gives it: an entry, with the known hosts of the file. -/
def IsClient (knownHostsFile : Bytes) (client : ClientEntry) : Prop :=
  ∃ entry, Sound entry ∧ client = { entry with raw := entry.serialize, knownHostsFile }

/-- The clients that are loaded have ids of their own. -/
structure IsList (knownHostsFile : Bytes) (clients : List ClientEntry) : Prop where
  sound : ∀ client ∈ clients, IsClient knownHostsFile client
  distinct : (clients.map ClientEntry.clientId).Nodup

theorem IsList.line {knownHostsFile : Bytes} {clients clients' : List ClientEntry}
    (h : IsList knownHostsFile clients) {lineNumber : Nat} {line : Bytes}
    (hload : loadLine knownHostsFile lineNumber clients line = .ok clients') :
    IsList knownHostsFile clients' := by
  unfold loadLine at hload
  dsimp only at hload
  split_ifs at hload with hskip
  · obtain rfl := pure_ok.mp hload
    exact h
  · cases hparse : parseEntry (trim line) with
    | error what =>
      rw [hparse] at hload
      cases hload
    | ok entry =>
      rw [hparse] at hload
      dsimp only at hload
      split_ifs at hload with hseen
      obtain rfl := pure_ok.mp hload
      obtain ⟨sound, hsound, rfl⟩ := parseEntry_sound hparse
      refine ⟨List.forall_mem_append.mpr ⟨h.sound, List.forall_mem_singleton.mpr ?_⟩, ?_⟩
      · exact ⟨sound, hsound, rfl⟩
      · rw [List.map_append, List.map_singleton, List.nodup_append]
        refine ⟨h.distinct, List.pairwise_singleton _ _, ?_⟩
        rintro id hid _ hlast rfl
        rw [List.mem_singleton.mp hlast] at hid
        exact hseen hid

theorem IsList.lines {knownHostsFile : Bytes} {clients clients' : List ClientEntry}
    (h : IsList knownHostsFile clients) {lineNumber : Nat} {lines : List Bytes}
    (hload : loadLines knownHostsFile lineNumber clients lines = .ok clients') :
    IsList knownHostsFile clients' := by
  induction lines generalizing lineNumber clients with
  | nil =>
    obtain rfl := pure_ok.mp hload
    exact h
  | cons line lines ih =>
    obtain ⟨next, hnext, hrest⟩ := bind_ok.mp hload
    exact ih (h.line hnext) hrest

theorem IsClient.plain {knownHostsFile : Bytes} {client : ClientEntry}
    (h : IsClient knownHostsFile client) : IsPlain client.serialize := by
  obtain ⟨entry, hsound, rfl⟩ := h
  have hplain := isPlain_serialize hsound
  exact hplain

/-- A client with a new id is loaded from its line. -/
theorem loadLine_serialize {knownHostsFile : Bytes} {client : ClientEntry}
    (h : IsClient knownHostsFile client) {clients : List ClientEntry}
    (hnew : client.clientId ∉ clients.map ClientEntry.clientId) (lineNumber : Nat) :
    loadLine knownHostsFile lineNumber clients client.serialize = .ok (clients ++ [client]) := by
  have hplain := h.plain
  obtain ⟨entry, hsound, rfl⟩ := h
  have hread : parseEntry entry.serialize = .ok { entry with raw := entry.serialize } :=
    parseEntry_serialize hsound
  have htext : trim entry.serialize = entry.serialize := trim_plain hplain
  have hshown : ¬ (entry.serialize = [] ∨ entry.serialize.head? = some 35) := by
    refine not_or.mpr ⟨serialize_ne_nil entry, fun hhash => ?_⟩
    exact (hplain 35 (List.mem_of_mem_head? hhash)).2 rfl
  change loadLine knownHostsFile lineNumber clients entry.serialize = _
  unfold loadLine
  rw [htext]
  dsimp only
  rw [if_neg hshown, hread]
  dsimp only
  exact if_neg hnew

theorem loadLines_serialize {knownHostsFile : Bytes} (loaded : List ClientEntry)
    {clients : List ClientEntry}
    (h : IsList knownHostsFile (loaded ++ clients)) (lineNumber : Nat) :
    loadLines knownHostsFile lineNumber loaded (clients.map ClientEntry.serialize) =
      .ok (loaded ++ clients) := by
  induction clients generalizing loaded lineNumber with
  | nil =>
    rw [List.append_nil]
    rfl
  | cons client clients ih =>
    have hclient := h.sound client (List.mem_append_right _ List.mem_cons_self)
    have hnew : client.clientId ∉ loaded.map ClientEntry.clientId := by
      have hdistinct := h.distinct
      rw [List.map_append, List.map_cons] at hdistinct
      intro hin
      exact (List.nodup_append.mp hdistinct).2.2 _ hin _ List.mem_cons_self rfl
    have hload := loadLine_serialize hclient hnew lineNumber
    rw [List.append_cons] at h ⊢
    exact bind_ok.mpr ⟨_, hload, ih _ h (lineNumber + 1)⟩

theorem loadFromFile_saveToFile {knownHostsFile : Bytes} {clients : List ClientEntry}
    (h : IsList knownHostsFile clients) :
    loadFromFile knownHostsFile (saveToFile clients) = .ok clients := by
  have hlines : getlines newline (saveToFile clients) = clients.map ClientEntry.serialize := by
    have hplain : ∀ client ∈ clients, newline ∉ client.serialize := fun client hclient hin =>
      absurd ((h.sound client hclient).plain newline hin).1 (by decide)
    clear h
    unfold saveToFile
    induction clients with
    | nil => rfl
    | cons client clients ih =>
      rw [List.forall_mem_cons] at hplain
      rw [List.flatMap_cons, List.append_assoc, List.singleton_append,
        Text.getlines_first hplain.1, ih hplain.2]
      rfl
  unfold loadFromFile
  rw [hlines]
  exact loadLines_serialize [] h 1

/-- What an entry is written as reads back as the entry, with all its parts and the same text, and a
file of clients that is loaded and saved loads as the same list. -/
theorem a_client_file_reads_back :
    (∀ (line : Bytes) (entry : ClientEntry), parseEntry line = .ok entry →
      parseEntry entry.serialize = .ok entry) ∧
    ∀ (knownHostsFile text : Bytes) (clients : List ClientEntry),
      loadFromFile knownHostsFile text = .ok clients →
        loadFromFile knownHostsFile (saveToFile clients) = .ok clients := by
  refine ⟨fun line entry => entry_reads_back, fun knownHostsFile text clients h => ?_⟩
  have hnone : IsList knownHostsFile [] := ⟨fun _ => nofun, List.nodup_nil⟩
  exact loadFromFile_saveToFile (hnone.lines h)

/-- Both names of the identity, a port with a sign and a zero in front of it, and a native port. -/
def fullLine : Bytes :=
  ascii " ssh://root@web-1:+0443?key=/k&native_port=9&san=spiffe://x&identity=~/id "

/-- A client with everything set. -/
def fullEntry : ClientEntry where
  raw := ascii "ssh://root@web-1:443?identity=~/id&san=spiffe://x&native_port=9"
  user := ascii "root"
  host := ascii "web-1"
  port := 443
  identityFile := ascii "~/id"
  expectedSan := ascii "spiffe://x"
  nativePort := 9

theorem a_full_entry_reads_back :
    parseEntry fullEntry.serialize = .ok fullEntry ∧
      loadFromFile [47] (saveToFile [{ fullEntry with knownHostsFile := [47] }]) =
        .ok [{ fullEntry with knownHostsFile := [47] }] := by
  have hline : parseEntry fullLine = .ok fullEntry := by decide
  have hfile : loadFromFile [47] fullLine = .ok [{ fullEntry with knownHostsFile := [47] }] := by
    decide
  exact ⟨a_client_file_reads_back.1 fullLine fullEntry hline,
    a_client_file_reads_back.2 [47] fullLine _ hfile⟩

end psx.ClientConfig
