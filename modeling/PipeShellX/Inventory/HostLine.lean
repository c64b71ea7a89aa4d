-- The line that `serialize` writes for a host, and the words that `parse` finds in it.
import PipeShellX.Inventory.Fleet
import Mathlib.Data.List.ModifyLast

namespace psx.inventory

open Text (ascii)
open Scan (words IsWord words_spaced words_flatMap strip_middle)
open Decimal (isDigit natural isDigit_natural natural_ne_nil)

/-- The options that are written: keys with their values. -/
def fields (entry : Host) : List (Bytes × Bytes) :=
  [(ascii "transport", entry.transport)] ++
    (if entry.port ≠ 22 then [(ascii "port", natural entry.port)] else []) ++
    (if entry.identity ≠ [] then [(ascii "identity", entry.identity)] else []) ++
    (if entry.tags ≠ [] then [(ascii "tag", join entry.tags)] else []) ++
    (if entry.san ≠ [] then [(ascii "san", entry.san)] else []) ++
    (if entry.nativePort ≠ 0 then [(ascii "native_port", natural entry.nativePort)] else [])

/-- An option as it stands in a line. -/
def optionText (field : Bytes × Bytes) : Bytes := field.1 ++ equals :: field.2

/-- The host token. -/
def targetText (entry : Host) : Bytes :=
  (if entry.user ≠ [] then entry.user ++ [sign] else []) ++ entry.host

theorem hostText_eq (entry : Host) :
    hostText entry = targetText entry ++ (fields entry).flatMap fun f => 32 :: optionText f := by
  have hpart : ∀ (c : Prop) [Decidable c] (f : Bytes × Bytes),
      (if c then [f] else []).flatMap (fun f => 32 :: optionText f) =
        if c then 32 :: f.1 ++ [equals] ++ f.2 else [] := by
    intro c _ f
    split_ifs
    · simp [optionText]
    · rfl
  have hfirst : ∀ f : Bytes × Bytes, [f].flatMap (fun f => 32 :: optionText f) =
      32 :: f.1 ++ [equals] ++ f.2 := fun f => hpart True f
  unfold hostText targetText fields
  simp only [List.flatMap_append, hpart, hfirst, List.append_assoc]
  rfl

theorem mem_fields {entry : Host} {f : Bytes × Bytes} : f ∈ fields entry ↔
    f = (ascii "transport", entry.transport) ∨
      (entry.port ≠ 22 ∧ f = (ascii "port", natural entry.port)) ∨
      (entry.identity ≠ [] ∧ f = (ascii "identity", entry.identity)) ∨
      (entry.tags ≠ [] ∧ f = (ascii "tag", join entry.tags)) ∨
      (entry.san ≠ [] ∧ f = (ascii "san", entry.san)) ∨
      (entry.nativePort ≠ 0 ∧ f = (ascii "native_port", natural entry.nativePort)) := by
  have hif : ∀ (c : Prop) [Decidable c] (g : Bytes × Bytes),
      f ∈ (if c then [g] else []) ↔ c ∧ f = g := by
    intro c _ g
    split_ifs with hc <;> simp [hc]
  unfold fields
  simp only [List.mem_append, hif, List.mem_singleton, or_assoc]

/-! ## The values -/

theorem join_cons {v : Bytes} (hv : v ≠ []) (vs : List Bytes) :
    join (v :: vs) = v ++ vs.flatMap fun v => comma :: v := by
  have hstep : ∀ (vs : List Bytes) (result : Bytes), result ≠ [] →
      vs.foldl (fun result value => (if result ≠ [] then result ++ [comma] else result) ++ value)
        result = result ++ vs.flatMap fun v => comma :: v := by
    intro vs
    induction vs with
    | nil => exact fun result _ => (List.append_nil result).symm
    | cons w vs ih =>
      intro result hresult
      rw [List.foldl_cons, if_pos hresult, ih _ (by simp [hresult]), List.flatMap_cons]
      simp only [List.append_assoc, List.cons_append, List.nil_append]
  unfold join
  rw [List.foldl_cons, if_neg (not_not_intro rfl), List.nil_append]
  exact hstep vs v hv

/-- The items of the tags that are written are the tags. -/
theorem words_join {tags : List Bytes} (h : ∀ tag ∈ tags, IsTag tag) :
    words (fun b => b == comma) (join tags) = tags := by
  have hword : ∀ tag ∈ tags, IsWord (fun b => b == comma) tag := fun tag htag =>
    ⟨(h tag htag).2.1, fun b hb => beq_eq_false_iff_ne.mpr fun heq => (h tag htag).2.2 (heq ▸ hb)⟩
  cases tags with
  | nil => exact Scan.words_nil
  | cons tag tags =>
    rw [List.forall_mem_cons] at hword
    rw [join_cons hword.1.1,
      words_spaced (p := fun b => b == comma) (beq_self_eq_true comma) hword.1.2
      hword.2, if_neg hword.1.1]
    rfl

theorem isToken_natural (n : Nat) : IsToken (natural n) := by
  intro b hb
  have hdigit := isDigit_natural hb
  simp only [isDigit, Bool.and_eq_true, decide_eq_true_eq] at hdigit
  refine ⟨?_, fun heq => ?_⟩
  · simp only [isBlank, Bool.or_eq_false_iff, decide_eq_false_iff_not]
    constructor <;> rintro rfl <;> exact absurd hdigit.1 (by decide)
  · rw [heq] at hdigit
    exact absurd hdigit.1 (by decide)

theorem return_natural (n : Nat) : 13 ∉ natural n := fun hin =>
  absurd (isDigit_natural hin) (show ¬ isDigit 13 = true by decide)

/-- Between the items of a list there are only commas. -/
theorem mem_join {tags : List Bytes} (h : ∀ tag ∈ tags, tag ≠ []) {b : UInt8} (hb : b ∈ join tags) :
    b = comma ∨ ∃ tag ∈ tags, b ∈ tag := by
  cases tags with
  | nil => cases hb
  | cons tag tags =>
    rw [List.forall_mem_cons] at h
    rw [join_cons h.1] at hb
    rcases List.mem_append.mp hb with hb | hb
    · exact .inr ⟨tag, List.mem_cons_self, hb⟩
    · obtain ⟨tag', htag', hb⟩ := List.mem_flatMap.mp hb
      rcases List.mem_cons.mp hb with rfl | hb
      · exact .inl rfl
      · exact .inr ⟨tag', List.mem_cons_of_mem _ htag', hb⟩

theorem isToken_join {tags : List Bytes} (h : ∀ tag ∈ tags, IsToken tag ∧ tag ≠ []) :
    IsToken (join tags) := by
  intro b hb
  rcases mem_join (fun tag htag => (h tag htag).2) hb with rfl | ⟨tag, htag, hb⟩
  · exact ⟨by decide, by decide⟩
  · exact (h tag htag).1 b hb

theorem isToken_transport {transport : Bytes} (h : isSupportedTransport transport = true) :
    IsToken transport := by
  simp only [isSupportedTransport, Bool.or_eq_true, decide_eq_true_eq] at h
  rcases h with rfl | rfl <;> exact (by decide)

theorem return_transport {transport : Bytes} (h : isSupportedTransport transport = true) :
    13 ∉ transport := by
  simp only [isSupportedTransport, Bool.or_eq_true, decide_eq_true_eq] at h
  rcases h with rfl | rfl <;> decide

/-- The options that a line may have. -/
def keys : List Bytes :=
  [ascii "transport", ascii "port", ascii "identity", ascii "tag", ascii "san",
  ascii "native_port"]

theorem key_fields {entry : Host} {f : Bytes × Bytes} (h : f ∈ fields entry) : f.1 ∈ keys := by
  rcases mem_fields.mp h with rfl | ⟨-, rfl⟩ | ⟨-, rfl⟩ | ⟨-, rfl⟩ | ⟨-, rfl⟩ | ⟨-, rfl⟩ <;>
    simp [keys]

/-- Keys are words, and none begins a comment or a section. -/
theorem key_form : ∀ key ∈ keys, IsToken key ∧ equals ∉ key ∧ key ≠ [] ∧
    (key.headD 0 ≠ 91 ∧ isTrimmed (key.headD 0) = false ∧ isComment (key.headD 0) = false) := by
  decide

/-- Only an identity can have a blank in it. -/
theorem value_fields {entry : Host} (hentry : IsHost entry) {f : Bytes × Bytes}
    (h : f ∈ fields entry) : IsToken f.2 ∨ f = (ascii "identity", entry.identity) := by
  rcases mem_fields.mp h with rfl | ⟨-, rfl⟩ | ⟨-, rfl⟩ | ⟨-, rfl⟩ | ⟨-, rfl⟩ | ⟨-, rfl⟩
  · exact .inl (isToken_transport hentry.transport)
  · exact .inl (isToken_natural _)
  · exact .inr rfl
  · exact .inl (isToken_join fun tag htag =>
      ⟨(hentry.tags.2 tag htag).1, (hentry.tags.2 tag htag).2.1⟩)
  · exact .inl hentry.san
  · exact .inl (isToken_natural _)

theorem text_fields {entry : Host} (hentry : IsHost entry) {f : Bytes × Bytes}
    (h : f ∈ fields entry) : IsText f.2 := by
  rcases value_fields hentry h with hvalue | rfl
  · exact hvalue.isText
  · exact hentry.identity

theorem token_fields {entry : Host} (hentry : IsHost entry) (hidentity : IsToken entry.identity)
    {f : Bytes × Bytes} (h : f ∈ fields entry) : IsToken f.2 := by
  rcases value_fields hentry h with hvalue | rfl
  · exact hvalue
  · exact hidentity

/-! ## The words -/

/-- The options as they are read: the blanks behind the last value are gone. -/
def written (entry : Host) : List (Bytes × Bytes) :=
  (fields entry).modifyLast fun f => (f.1, f.2.rdropWhile isTrimmed)

/-- The host token as it is read: the blanks before it are gone. -/
def lead (entry : Host) : Bytes := (targetText entry).dropWhile isTrimmed

theorem fields_ne_nil (entry : Host) : fields entry ≠ [] :=
  List.ne_nil_of_mem (mem_fields.mpr (.inl rfl))

theorem fields_last (entry : Host) : ∃ front last, fields entry = front ++ [last] ∧
    written entry = front ++ [(last.1, last.2.rdropWhile isTrimmed)] := by
  rcases List.eq_nil_or_concat (fields entry) with hnone | ⟨front, last, hfields⟩
  · exact absurd hnone (fields_ne_nil entry)
  · rw [List.concat_eq_append] at hfields
    refine ⟨front, last, hfields, ?_⟩
    rw [written, hfields, List.modifyLast_concat]

/-- What is left between the blanks at the ends of the line. -/
theorem trim_hostText (entry : Host) : trim (hostText entry) =
    (if lead entry = [] then [] else lead entry ++ [32]) ++
      ((written entry).flatMap fun f => 32 :: optionText f).tail := by
  obtain ⟨front, last, hfields, hwritten⟩ := fields_last entry
  have hfirst : ∃ key middle, key ∈ keys ∧
      (front.flatMap fun f => 32 :: optionText f) ++ 32 :: last.1 ++ [equals] =
        32 :: (key ++ middle ++ [equals]) := by
    have hkeys : ∀ f ∈ front ++ [last], f.1 ∈ keys := fun f hf => key_fields (hfields ▸ hf)
    cases front with
    | nil => exact ⟨last.1, [], hkeys last (by simp), by simp⟩
    | cons f front => exact ⟨f.1, equals :: f.2 ++ (front.flatMap fun f => 32 :: optionText f) ++
        32 :: last.1, hkeys f (by simp), by simp [optionText]⟩
  obtain ⟨key, middle, hkey, hmiddle⟩ := hfirst
  have hsplit : ∀ value, (front ++ [(last.1, value)]).flatMap (fun f => 32 :: optionText f) =
      32 :: (key ++ middle ++ [equals] ++ value) := by
    intro value
    rw [← List.cons_append, ← hmiddle]
    simp [optionText]
  have hwhole : hostText entry =
      (targetText entry ++ [32]) ++ (key ++ middle ++ [equals]) ++ last.2 := by
    rw [hostText_eq, hfields, hsplit]
    simp
  obtain ⟨-, -, hsome, -, hblank, -⟩ := key_form key hkey
  have hhead : ∀ b ∈ (key ++ middle ++ [equals]).head?, isTrimmed b = false := by
    obtain ⟨c, rest, rfl⟩ := List.exists_cons_of_ne_nil hsome
    intro b hb
    exact Option.some.inj hb ▸ hblank
  have hlast : ∀ b ∈ (key ++ middle ++ [equals]).getLast?, isTrimmed b = false := by
    intro b hb
    rw [List.getLast?_concat] at hb
    exact Option.some.inj hb ▸ (by decide)
  have hlead : (targetText entry ++ [32]).dropWhile isTrimmed =
      if lead entry = [] then [] else lead entry ++ [32] := by
    unfold lead
    rw [List.dropWhile_append]
    by_cases hnone : (targetText entry).dropWhile isTrimmed = []
    · rw [if_pos hnone, hnone]
      rfl
    · rw [if_neg hnone, if_neg (by simpa using hnone)]
  unfold trim
  rw [hwhole, strip_middle (by simp) hhead hlast, hlead, hwritten, hsplit, List.tail_cons,
    List.append_assoc]

theorem isToken_target {entry : Host} (h : IsHost entry) (huser : IsToken entry.user) :
    IsToken (targetText entry) := by
  unfold targetText
  rw [h.host]
  intro b hb
  rcases List.mem_append.mp hb with hb | hb
  · split_ifs at hb
    · rcases List.mem_append.mp hb with hb | hb
      · exact huser b hb
      · rw [List.mem_singleton.mp hb]
        exact ⟨by decide, by decide⟩
    · cases hb
  · exact h.name b hb

theorem isToken_option {f : Bytes × Bytes} (hkey : f.1 ∈ keys) (hvalue : IsToken f.2) :
    IsToken (optionText f) ∧ IsWord isBlank (optionText f) := by
  have htoken : IsToken (optionText f) := by
    intro b hb
    rcases List.mem_append.mp hb with hb | hb
    · exact (key_form _ hkey).1 b hb
    · rcases List.mem_cons.mp hb with rfl | hb
      · exact ⟨by decide, by decide⟩
      · exact hvalue b hb
  exact ⟨htoken, by simp [optionText], fun b hb => (htoken b hb).1⟩

theorem mem_written {entry : Host} {f : Bytes × Bytes} (h : f ∈ written entry) :
    ∃ g ∈ fields entry, f.1 = g.1 ∧ f.2 <+: g.2 := by
  obtain ⟨front, last, hfields, hwritten⟩ := fields_last entry
  rw [hwritten] at h
  rcases List.mem_append.mp h with h | h
  · exact ⟨f, by simp [hfields, h], rfl, List.prefix_rfl⟩
  · rw [List.mem_singleton.mp h]
    exact ⟨last, by simp [hfields], rfl, List.rdropWhile_prefix _ _⟩

theorem flatMap_optionText (fs : List (Bytes × Bytes)) :
    (fs.flatMap fun f => 32 :: optionText f) = (fs.map optionText).flatMap fun w => 32 :: w := by
  rw [List.flatMap_map]

/-- The line has no comment, unless it begins with one. -/
theorem strip_hostText {entry : Host} (h : IsHost entry)
    (hfirst : ∀ b ∈ (targetText entry).head?, isComment b = false) :
    stripComment (hostText entry) = hostText entry := by
  have hoptions : ∀ w ∈ (fields entry).map optionText, Kept true w := by
    rw [List.forall_mem_map]
    intro f hf
    obtain ⟨hkey, -, hsome, -, -, hcomment⟩ := key_form _ (key_fields hf)
    refine kept_append.mpr ⟨kept_of_unblank (fun b hb => (hkey b hb).1) (.inr fun b hb => ?_),
      kept_cons.mpr ⟨rfl, (text_fields h hf).2⟩⟩
    obtain ⟨c, rest, heq⟩ := List.exists_cons_of_ne_nil hsome
    rw [heq] at hb hcomment
    exact Option.some.inj hb ▸ hcomment
  have htarget : Kept true (targetText entry) := by
    unfold targetText at hfirst ⊢
    by_cases huser : entry.user = []
    · rw [if_neg (not_not_intro huser), List.nil_append] at hfirst ⊢
      rw [h.host] at hfirst ⊢
      exact h.name.isText.2.opened hfirst true
    · rw [if_pos huser, List.append_assoc] at hfirst ⊢
      obtain ⟨c, rest, heq⟩ := List.exists_cons_of_ne_nil huser
      have hopen : Kept true entry.user := h.user.2.opened (fun b hb => hfirst b (by
        rw [heq] at hb ⊢
        exact hb)) true
      exact kept_append.mpr ⟨hopen, kept_cons.mpr ⟨rfl, h.host ▸ h.name.isText.2⟩⟩
  refine (?_ : Kept true (hostText entry))
  rw [hostText_eq, flatMap_optionText]
  exact kept_append.mpr ⟨htarget, kept_flatMap hoptions⟩

/-- The words of the line, when there is no blank in a value. -/
theorem words_hostText {entry : Host} (h : IsHost entry) (huser : IsToken entry.user)
    (hidentity : IsToken entry.identity)
    (hfirst : ∀ b ∈ (targetText entry).head?, isComment b = false) :
    splitWhitespace (trim (stripComment (hostText entry))) =
      (if lead entry = [] then [] else [lead entry]) ++ (written entry).map optionText := by
  have hwritten : ∀ w ∈ (written entry).map optionText, IsWord isBlank w := by
    rw [List.forall_mem_map]
    intro f hf
    obtain ⟨g, hg, hkey, hvalue⟩ := mem_written hf
    exact (isToken_option (hkey ▸ key_fields hg)
      ((token_fields h hidentity hg).subset hvalue.subset)).2
  have hlead : ∀ b ∈ lead entry, isBlank b = false := fun b hb =>
    (isToken_target h huser b ((List.dropWhile_sublist _).subset hb)).1
  have hspaces : (written entry).flatMap (fun f => 32 :: optionText f) =
      32 :: ((written entry).flatMap fun f => 32 :: optionText f).tail := by
    obtain ⟨front, last, -, heq⟩ := fields_last entry
    rw [heq]
    cases front <;> rfl
  have hblank : isBlank 32 = true := rfl
  unfold splitWhitespace
  rw [strip_hostText h hfirst, trim_hostText,
    ← words_spaced hblank hlead hwritten, ← flatMap_optionText, hspaces]
  split_ifs with hnone
  · rw [hnone, List.nil_append, List.nil_append, Scan.words_blank hblank, List.tail_cons]
  · rw [List.append_assoc]
    rfl

end psx.inventory
