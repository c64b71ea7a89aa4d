-- An inline pipeline that is written from its stages reads back as these stages, and its plan is
-- the order that they are written in.
import PipeShellX.Cli.PipeCommand
import PipeShellX.Pipeline.Parser

namespace psx.pipeline.Parser

open Scan (strip words IsWord)
open Text (ascii)
open psx.ClientConfig (isSpace)

/-- A stage as a spec has it: the id is its place. -/
structure Inline where
  argv : List Bytes
  placement : Bytes

/-- The command in single quotes, a blank between its words, and the placement behind it. -/
def Inline.render (stage : Inline) : Bytes :=
  quote :: [32].intercalate stage.argv ++
    quote :: if stage.placement = [] then [] else sign :: stage.placement

/-- The spec of a list of stages. -/
def render (stages : List Inline) : Bytes :=
  (ascii " | ").intercalate (stages.map Inline.render)

/-- What can stand between the quotes, and what can stand behind the `@`. -/
structure Inline.Fits (stage : Inline) : Prop where
  words : ∀ w ∈ stage.argv, IsWord isSpace w
  unquoted : ∀ w ∈ stage.argv, quote ∉ w
  first : ∀ c ∈ stage.placement.head?, isSpace c = false
  last : ∀ c ∈ stage.placement.getLast?, isSpace c = false
  plain : quote ∉ stage.placement ∧ bar ∉ stage.placement

/-- The stages in a row, each feeding the next one. -/
def chain (stages : List Inline) : Pipeline where
  stages := stages.mapIdx fun i stage =>
    { id := name i, argv := stage.argv, placement := text stage.placement }
  edges := (List.range (stages.length - 1)).map fun i => ⟨name i, name (i + 1)⟩

/-- The ids of `n` stages. -/
def names (n : Nat) : List String := (List.range n).map name

/-! ## Ids -/

theorem text_injective : Function.Injective text := by
  intro s t h
  refine List.map_injective_iff.mpr ?_ (String.ofList_injective h)
  intro b c hbc
  have hbyte : ∀ b : UInt8, (Char.ofNat b.toNat).toNat = b.toNat := by
    intro b
    have hlt := b.toNat_lt
    rw [Char.ofNat, dif_pos (Or.inl (by omega))]
    rfl
  have hnat := congrArg Char.toNat hbc
  rw [hbyte b, hbyte c] at hnat
  exact UInt8.toNat_inj.mp hnat

theorem name_injective : Function.Injective name := by
  intro i j h
  have hdigits := List.append_cancel_left (text_injective h)
  rw [← Decimal.value_natural i, hdigits, Decimal.value_natural]

theorem names_nodup (n : Nat) : (names n).Nodup :=
  List.nodup_range.map name_injective

theorem ids_chain (stages : List Inline) : (chain stages).ids = names stages.length := by
  apply List.ext_getElem
  · simp [Pipeline.ids, chain, names]
  · intro i _ _
    simp [Pipeline.ids, chain, names]

/-! ## The chain is planned in its order -/

theorem mem_edges_chain {stages : List Inline} {a b : String} :
    ⟨a, b⟩ ∈ (chain stages).edges ↔ ∃ i, i + 1 < stages.length ∧ a = name i ∧ b = name (i + 1) := by
  unfold chain
  rw [List.mem_map]
  constructor
  · rintro ⟨i, hi, heq⟩
    obtain ⟨rfl, rfl⟩ := Edge.mk.inj heq
    have hlt := List.mem_range.mp hi
    exact ⟨i, by omega, rfl, rfl⟩
  · rintro ⟨i, hlt, rfl, rfl⟩
    exact ⟨i, List.mem_range.mpr (by omega), rfl⟩

theorem mem_names {i n : Nat} (h : i < n) : name i ∈ names n :=
  List.mem_map_of_mem (List.mem_range.mpr h)

theorem idxOf_name {i n : Nat} (h : i < n) : (names n).idxOf (name i) = i := by
  have hi : i < (names n).length := by simpa [names] using h
  have hget : (names n)[i] = name i := by simp [names]
  rw [← hget]
  exact (names_nodup n).idxOf_getElem i hi

/-- A stage feeds later ones only. -/
theorem acyclic_chain (stages : List Inline) : Kahn.Graph.Acyclic (chain stages).Feeds := by
  intro id hloop
  have hlater := hloop.lift (p := (· < ·)) (names stages.length).idxOf fun a b hfeeds => by
    obtain ⟨i, hlt, rfl, rfl⟩ := mem_edges_chain.mp hfeeds
    change (names stages.length).idxOf (name i) < (names stages.length).idxOf (name (i + 1))
    rw [idxOf_name hlt, idxOf_name (Nat.lt_of_succ_lt hlt)]
    exact Nat.lt_succ_self i
  rw [Relation.transGen_eq_self] at hlater
  exact absurd hlater (Nat.lt_irrefl _)

theorem valid_chain {stages : List Inline} (hne : stages ≠ [])
    (hcommands : ∀ stage ∈ stages, stage.argv ≠ []) : Planner.Valid (chain stages) where
  nonempty := by
    simpa [chain] using hne
  ids := by
    intro stage hstage hnone
    obtain ⟨i, hi, rfl⟩ := List.mem_mapIdx.mp hstage
    have hbytes : ascii "s" ++ Decimal.natural i = [] := text_injective hnone
    exact absurd (List.append_eq_nil_iff.mp hbytes).1 (by decide)
  distinct := by
    rw [ids_chain]
    exact names_nodup _
  commands := by
    intro stage hstage
    obtain ⟨i, hi, rfl⟩ := List.mem_mapIdx.mp hstage
    exact hcommands _ (List.getElem_mem hi)
  known := by
    rintro ⟨a, b⟩ hedge
    obtain ⟨i, hlt, rfl, rfl⟩ := mem_edges_chain.mp hedge
    rw [ids_chain]
    exact ⟨mem_names (Nat.lt_of_succ_lt hlt), mem_names hlt⟩
  loops := by
    rintro ⟨a, b⟩ hedge
    obtain ⟨i, hlt, rfl, rfl⟩ := mem_edges_chain.mp hedge
    intro hsame
    exact absurd (name_injective hsame) (Nat.ne_of_lt (Nat.lt_succ_self i))
  acyclic := acyclic_chain stages

theorem isChain_chain (stages : List Inline) :
    cli.IsChain (chain stages) (names stages.length) where
  stages := by rw [ids_chain]
  edges := by
    intro a b
    have hlength : (names stages.length).length = stages.length := by simp [names]
    have hget : ∀ i, i < stages.length → (names stages.length).getD i "" = name i := by
      intro i hlt
      simp [names, hlt]
    rw [mem_edges_chain, cli.mem_links_range, hlength]
    constructor
    · rintro ⟨i, hlt, rfl, rfl⟩
      refine ⟨i, List.mem_range.mpr (by omega), ?_⟩
      rw [hget i (by omega), hget (i + 1) hlt]
    · rintro ⟨i, hi, heq⟩
      have hlt : i + 1 < stages.length := by
        have := List.mem_range.mp hi
        omega
      rw [hget i (by omega), hget (i + 1) hlt] at heq
      obtain ⟨rfl, rfl⟩ := Prod.mk.inj heq
      exact ⟨i, hlt, rfl, rfl⟩

theorem plan_chain {stages : List Inline} (hne : stages ≠ [])
    (hcommands : ∀ stage ∈ stages, stage.argv ≠ []) :
    Planner.plan (chain stages) = .ok { order := names stages.length } := by
  have hvalid := valid_chain hne hcommands
  rw [hvalid.plan, (isChain_chain stages).order hvalid.distinct hvalid.sorted]

/-! ## The spec is split where it was joined -/

/-- Text without quotes goes to the segment, bars as well when a quote is open. -/
theorem push_plain {t : Bytes} (hquote : quote ∉ t) {s : Splitter}
    (hbar : s.inQuote = true ∨ bar ∉ t) :
    t.foldl Splitter.push s = { s with current := s.current ++ t } := by
  induction t generalizing s with
  | nil => simp
  | cons c t ih =>
    rw [List.mem_cons, not_or] at hquote
    have hcut : ¬ (c = bar ∧ s.inQuote = false) := by
      rintro ⟨rfl, hclosed⟩
      rcases hbar with hopen | hnone
      · exact absurd (hopen.symm.trans hclosed) (by decide)
      · exact hnone List.mem_cons_self
    have hstep : s.push c = { s with current := s.current ++ [c] } := by
      rw [Splitter.push, if_neg (Ne.symm hquote.1), if_neg hcut]
    rw [List.foldl_cons, hstep, ih hquote.2]
    · simp
    · exact hbar.imp_right fun hnone hin => hnone (List.mem_cons_of_mem _ hin)

theorem push_quote (s : Splitter) :
    s.push quote = { s with inQuote := !s.inQuote, current := s.current ++ [quote] } := if_pos rfl

theorem Inline.Fits.unquoted_command {stage : Inline} (h : stage.Fits) :
    quote ∉ [32].intercalate stage.argv := by
  intro hin
  rcases Scan.mem_intercalate hin with hblank | ⟨w, hw, hin⟩
  · exact absurd hblank (by decide)
  · exact h.unquoted w hw hin

/-- A stage stays in its segment. -/
theorem push_stage {stage : Inline} (h : stage.Fits) {s : Splitter} (hclosed : s.inQuote = false) :
    stage.render.foldl Splitter.push s = { s with current := s.current ++ stage.render } := by
  have hplacement : quote ∉ (if stage.placement = [] then [] else sign :: stage.placement) ∧
      bar ∉ (if stage.placement = [] then [] else sign :: stage.placement) := by
    split_ifs with hnone
    · exact ⟨List.not_mem_nil, List.not_mem_nil⟩
    · simp only [List.mem_cons, not_or]
      exact ⟨⟨by decide, h.plain.1⟩, ⟨by decide, h.plain.2⟩⟩
  unfold Inline.render
  rw [List.cons_append, List.foldl_cons, push_quote, List.foldl_append,
    push_plain h.unquoted_command (Or.inl (by simp [hclosed])), List.foldl_cons, push_quote,
    push_plain hplacement.1 (Or.inr hplacement.2)]
  simp

theorem getLast?_sign {placement : Bytes} (hne : placement ≠ []) :
    (sign :: placement).getLast? = placement.getLast? := by
  obtain ⟨c, rest, rfl⟩ := List.exists_cons_of_ne_nil hne
  exact List.getLast?_cons_cons

/-- A stage begins and ends with no blank. -/
theorem trim_render {stage : Inline} (h : stage.Fits) {l r : Bytes}
    (hl : ∀ c ∈ l, isSpace c = true) (hr : ∀ c ∈ r, isSpace c = true) :
    trim (l ++ stage.render ++ r) = stage.render := by
  refine Scan.strip_of hl hr ?_ ?_
  · rintro c hc
    obtain rfl := Option.some.inj hc
    decide
  · intro c hc
    unfold Inline.render at hc
    rw [List.getLast?_append, List.getLast?_cons] at hc
    split_ifs at hc with hnone
    · obtain rfl := Option.some.inj hc
      decide
    · cases hend : stage.placement.getLast? with
      | none => exact absurd (List.getLast?_eq_none_iff.mp hend) hnone
      | some last =>
        rw [List.getLast?_cons, hend] at hc
        obtain rfl := Option.some.inj hc
        exact h.last last hend

/-- Behind the text of a stage, each further stage is a segment. -/
theorem push_stages {stages : List Inline} (h : ∀ stage ∈ stages, stage.Fits) {s : Splitter}
    {stage : Inline} (hstage : stage.Fits) {l : Bytes} (hl : ∀ c ∈ l, isSpace c = true)
    (hclosed : s.inQuote = false) (hcurrent : s.current = l ++ stage.render) :
    ∃ segments current, (stages.flatMap fun stage => ascii " | " ++ stage.render).foldl
        Splitter.push s = ⟨s.segments ++ segments, current, false⟩ ∧
      (segments ++ [current]).map trim = (stage :: stages).map Inline.render := by
  induction stages generalizing s stage l with
  | nil =>
    refine ⟨[], s.current, ?_, ?_⟩
    · rw [List.flatMap_nil, List.foldl_nil, List.append_nil, ← hclosed]
    · have htrim := trim_render hstage hl (r := []) nofun
      rw [List.append_nil, ← hcurrent] at htrim
      simp [htrim]
  | cons next stages ih =>
    obtain ⟨hnext, hstages⟩ := List.forall_mem_cons.mp h
    have hbar : (ascii " | ").foldl Splitter.push s =
        ⟨s.segments ++ [s.current ++ [32]], [32], false⟩ := by
      have hbytes : ascii " | " = [32, bar, 32] := by decide
      rw [hbytes]
      simp [Splitter.push, hclosed, show (32 : UInt8) ≠ quote from by decide,
        show (32 : UInt8) ≠ bar from by decide, show bar ≠ quote from by decide]
    obtain ⟨segments, current, hfold, hmap⟩ := ih hstages
      (s := ⟨s.segments ++ [s.current ++ [32]], [32] ++ next.render, false⟩) hnext (l := [32])
      (by decide) rfl rfl
    refine ⟨(s.current ++ [32]) :: segments, current, ?_, ?_⟩
    · rw [List.flatMap_cons, List.foldl_append, List.foldl_append, hbar, push_stage hnext rfl]
      rw [hfold]
      simp
    · have htrim := trim_render hstage hl (r := [32]) (by decide)
      rw [← hcurrent] at htrim
      rw [List.cons_append, List.map_cons, List.map_cons, hmap, htrim]

theorem split_render {stages : List Inline} (hne : stages ≠ [])
    (h : ∀ stage ∈ stages, stage.Fits) :
    ∃ segments, split (render stages) = .ok segments ∧
      segments.map trim = stages.map Inline.render := by
  obtain ⟨stage, stages, rfl⟩ := List.exists_cons_of_ne_nil hne
  obtain ⟨hstage, hstages⟩ := List.forall_mem_cons.mp h
  obtain ⟨segments, current, hfold, hmap⟩ := push_stages hstages (s := { current := stage.render })
    hstage (l := []) nofun rfl rfl
  refine ⟨segments ++ [current], ?_, hmap⟩
  have hspec : render (stage :: stages) =
      stage.render ++ stages.flatMap fun stage => ascii " | " ++ stage.render := by
    unfold render
    rw [List.map_cons, Scan.intercalate_cons, List.flatMap_map]
  have hfirst : stage.render.foldl Splitter.push {} = { current := stage.render } :=
    push_stage hstage rfl
  unfold split
  rw [hspec, List.foldl_append, hfirst, hfold]
  rfl

/-! ## Each segment reads back as its stage -/

theorem parseCommand_render {stage : Inline} (h : stage.Fits) :
    parseCommand stage.render = .ok ([32].intercalate stage.argv, stage.placement) := by
  unfold Inline.render
  rw [List.cons_append, parseCommand, if_pos rfl, parseQuoted,
    Scan.cut_append h.unquoted_command]
  have hplacement : trim stage.placement = stage.placement := Scan.strip_self h.first h.last
  by_cases hnone : stage.placement = []
  · rw [if_pos hnone, hnone]
    rfl
  · have htrim : trim (sign :: stage.placement) = sign :: stage.placement := by
      refine Scan.strip_self ?_ ?_
      · intro c hc
        obtain rfl := Option.some.inj hc
        decide
      · rw [getLast?_sign hnone]
        exact h.last
    rw [if_neg hnone]
    simp only [htrim]
    rw [if_neg (not_not.mpr rfl), hplacement, if_neg hnone]

theorem tokenize_command {stage : Inline} (h : stage.Fits) :
    tokenize ([32].intercalate stage.argv) = stage.argv := by
  have hblank : isSpace 32 = true := by decide
  have hwords := h.words
  unfold tokenize
  cases hargv : stage.argv with
  | nil => exact Scan.words_nil
  | cons w ws =>
    rw [hargv, List.forall_mem_cons] at hwords
    rw [Scan.intercalate_cons]
    refine (Scan.words_spaced hblank hwords.1.2 hwords.2).trans ?_
    rw [if_neg hwords.1.1]
    rfl

theorem parseStage_render {stage : Inline} (h : stage.Fits) (hcommand : stage.argv ≠ [])
    {segment : Bytes} (hsegment : trim segment = stage.render) (i : Nat) :
    parseStage segment i =
      .ok { id := name i, argv := stage.argv, placement := text stage.placement } := by
  refine parseStage_ok.mpr ⟨[32].intercalate stage.argv, stage.placement, ?_, ?_, ?_⟩
  · rw [hsegment]
    exact parseCommand_render h
  · rwa [tokenize_command h]
  · rw [tokenize_command h]

/-! ## The round trip -/

theorem edgesFrom_zero (n : Nat) :
    edgesFrom 0 n = (List.range (n - 1)).map fun i => ⟨name i, name (i + 1)⟩ := by
  cases n with
  | zero => rfl
  | succ n =>
    unfold edgesFrom
    rw [List.range'_succ, List.flatMap_cons, if_neg (Nat.lt_irrefl 0), List.nil_append,
      List.range'_eq_map_range, List.flatMap_map, Nat.add_sub_cancel, List.map_eq_flatMap]
    refine List.flatMap_congr fun i _ => ?_
    rw [if_pos (by omega), show 0 + 1 + i - 1 = i by omega, show 0 + 1 + i = i + 1 by omega]

theorem parsePipeSpec_render {stages : List Inline} (hne : stages ≠ [])
    (h : ∀ stage ∈ stages, stage.Fits) (hcommands : ∀ stage ∈ stages, stage.argv ≠ []) :
    parsePipeSpec (render stages) = .ok (chain stages) := by
  obtain ⟨segments, hsplit, hmap⟩ := split_render hne h
  have hlength : segments.length = stages.length := by simpa using congrArg List.length hmap
  refine parsePipeSpec_ok.mpr ⟨segments, (chain stages).stages, hsplit, ?_, ?_⟩
  · refine List.forall₂_iff_get.mpr ⟨by simp [chain, hlength], fun i hi hi' => ?_⟩
    have hlt : i < stages.length := by simpa [chain] using hi'
    have htrim : trim segments[i] = stages[i].render := by
      have hboth := congrArg (fun l => l[i]?) hmap
      simpa [hlt, hlength ▸ hlt] using hboth
    have hstage :=
      parseStage_render (h _ (List.getElem_mem hlt)) (hcommands _ (List.getElem_mem hlt))
      htrim i
    simpa [chain] using hstage
  · rw [edgesFrom_zero, hlength]
    rfl

/-- Stages that are written inline are read as they are, in a chain, and planned in their order. -/
theorem an_inline_pipeline_reads_back {stages : List Inline} (hne : stages ≠ [])
    (h : ∀ stage ∈ stages, stage.Fits) (hcommands : ∀ stage ∈ stages, stage.argv ≠ []) :
    parsePipeSpec (render stages) = .ok (chain stages) ∧
      Planner.plan (chain stages) = .ok { order := names stages.length } :=
  ⟨parsePipeSpec_render hne h hcommands, plan_chain hne hcommands⟩

/-- A bar in a word, and a placement with a blank and an `@`. -/
def twoStages : List Inline :=
  [⟨[ascii "grep", ascii "a|b"], []⟩, ⟨[ascii "wc"], ascii "w @x"⟩]

theorem two_stages_read_back :
    parsePipeSpec (render twoStages) = .ok (chain twoStages) ∧
      Planner.plan (chain twoStages) = .ok { order := names 2 } := by
  have hfits : ∀ stage ∈ twoStages, stage.Fits := by
    intro stage hstage
    rcases List.mem_pair.mp hstage with rfl | rfl
    all_goals constructor <;> decide
  exact an_inline_pipeline_reads_back (List.cons_ne_nil _ _) hfits (by decide)

/-- A stage without words is not read back. -/
theorem an_empty_command_is_refused :
    ¬ ∀ stages : List Inline, stages ≠ [] → (∀ stage ∈ stages, stage.Fits) →
      parsePipeSpec (render stages) = .ok (chain stages) ∧
        Planner.plan (chain stages) = .ok { order := names stages.length } := by
  intro h
  have hfits : ∀ stage ∈ [(⟨[], []⟩ : Inline)], stage.Fits := by
    intro stage hstage
    obtain rfl := List.mem_singleton.mp hstage
    exact ⟨nofun, nofun, nofun, nofun, ⟨List.not_mem_nil, List.not_mem_nil⟩⟩
  have hread := (h [⟨[], []⟩] (List.cons_ne_nil _ _) hfits).1
  have hrefused : parsePipeSpec (render [⟨[], []⟩]) =
      .error (invalid "empty command in pipe spec") := by decide
  rw [hrefused] at hread
  cases hread

end psx.pipeline.Parser
