-- The gate of `pipeshellx pipe` in front of the remote runner (pipe_command.cpp): the runner takes
-- a sequence, and a graph gets through when it is that sequence and nothing else.
import Mathlib.Data.List.Dedup
import PipeShellX.Chains
import PipeShellX.Pipeline.PlannerLaws

namespace psx.cli

open Chains (links)
open psx.pipeline
open psx.pipeline.Planner (Plan)

/-- The stage that `byId` has for an id is the first one that is named so. -/
def stagesInPlanOrder (pipeline : Pipeline) (plan : Plan) : Option (List Stage) :=
  plan.order.mapM fun id => pipeline.stages.find? fun stage => stage.id = id

/-- The edges of the file are those between neighbours of the plan and no others. -/
def isDeclaredChain (pipeline : Pipeline) (plan : Plan) : Bool :=
  let edges := (pipeline.edges.map fun edge => (edge.producer, edge.consumer)).dedup
  if plan.order.length = 1 then edges = []
  else if edges.length + 1 ≠ plan.order.length then false
  else
    (List.range (plan.order.length - 1)).all fun i =>
      (plan.order.getD i "", plan.order.getD (i + 1) "") ∈ edges

/-- All stages in some order, and the edges lead from each to the next one. -/
structure IsChain (pipeline : Pipeline) (v : List String) : Prop where
  stages : v.Perm pipeline.ids
  edges : ∀ a b, ⟨a, b⟩ ∈ pipeline.edges ↔ (a, b) ∈ links v

variable {pipeline : Pipeline} {plan : Plan}

/-- The distinct edges. -/
def edgeSet (pipeline : Pipeline) : List (String × String) :=
  (pipeline.edges.map fun edge => (edge.producer, edge.consumer)).dedup

theorem mem_edgeSet {a b : String} : (a, b) ∈ edgeSet pipeline ↔ ⟨a, b⟩ ∈ pipeline.edges := by
  rw [edgeSet, List.mem_dedup, List.mem_map]
  constructor
  · rintro ⟨edge, hedge, heq⟩
    obtain ⟨rfl, rfl⟩ := Prod.mk.inj heq
    exact hedge
  · intro h
    exact ⟨_, h, rfl⟩

theorem mem_links_range {order : List String} {p : String × String} :
    p ∈ links order ↔
      ∃ i ∈ List.range (order.length - 1), (order.getD i "", order.getD (i + 1) "") = p := by
  rw [List.mem_iff_getElem]
  constructor
  · rintro ⟨i, hi, rfl⟩
    have hlength := Chains.length_links order
    refine ⟨i, List.mem_range.mpr (by omega), ?_⟩
    rw [List.getD_eq_getElem _ _ (by omega), List.getD_eq_getElem _ _ (by omega)]
    simp [links]
  · rintro ⟨i, hi, rfl⟩
    have hlength := Chains.length_links order
    rw [List.mem_range] at hi
    refine ⟨i, by omega, ?_⟩
    rw [List.getD_eq_getElem _ _ (by omega), List.getD_eq_getElem _ _ (by omega)]
    simp [links]

/-- The gate says that the edges are the links of the plan. -/
theorem isDeclaredChain_iff (hne : plan.order ≠ []) (hnodup : plan.order.Nodup) :
    isDeclaredChain pipeline plan = true ↔
      ∀ p, p ∈ edgeSet pipeline ↔ p ∈ links plan.order := by
  have hlength := Chains.length_links plan.order
  have hpos := List.length_pos_iff.mpr hne
  unfold isDeclaredChain
  rw [← edgeSet]
  dsimp only
  by_cases hone : plan.order.length = 1
  · have hnone : links plan.order = [] := List.length_eq_zero_iff.mp (by omega)
    rw [if_pos hone, hnone, decide_eq_true_iff, List.eq_nil_iff_forall_not_mem]
    simp
  · have hall : ((List.range (plan.order.length - 1)).all fun i =>
          (plan.order.getD i "", plan.order.getD (i + 1) "") ∈ edgeSet pipeline) = true ↔
        ∀ p ∈ links plan.order, p ∈ edgeSet pipeline := by
      simp only [List.all_eq_true, decide_eq_true_iff, mem_links_range]
      grind
    rw [if_neg hone]
    constructor
    · intro h p
      split_ifs at h with hsize
      have hsub := hall.mp h
      have hperm := (List.subperm_of_subset (Chains.links_nodup hnodup) hsub).perm_of_length_le
        (by omega)
      exact hperm.mem_iff.symm
    · intro h
      have hperm := (List.perm_ext_iff_of_nodup (List.nodup_dedup _)
        (Chains.links_nodup hnodup)).mpr h
      have hsize : (edgeSet pipeline).length = (links plan.order).length := hperm.length_eq
      rw [if_neg (by omega)]
      exact hall.mpr fun p hp => (h p).mpr hp

theorem IsChain.iff {v : List String} (hperm : v.Perm pipeline.ids) :
    IsChain pipeline v ↔ ∀ p, p ∈ edgeSet pipeline ↔ p ∈ links v := by
  constructor
  · rintro ⟨-, hedges⟩ ⟨a, b⟩
    exact mem_edgeSet.trans (hedges a b)
  · intro h
    exact ⟨hperm, fun a b => mem_edgeSet.symm.trans (h (a, b))⟩

/-- The plan of a chain is the chain. -/
theorem IsChain.order {v : List String} (h : IsChain pipeline v) (hids : pipeline.ids.Nodup)
    {order : List String} (hsorted : Planner.Sorted pipeline order) : order = v := by
  refine Chains.eq_of_links (hsorted.perm.symm.nodup hids) (hsorted.perm.trans h.stages.symm) ?_
  rintro ⟨a, b⟩ hlink
  exact hsorted.before ⟨a, b⟩ ((h.edges a b).mpr hlink)

theorem find_in_order {order : List String} (hsub : ∀ id ∈ order, id ∈ pipeline.ids) :
    ∃ stages, (order.mapM fun id => pipeline.stages.find? fun stage => stage.id = id) =
      some stages ∧
      stages.map (fun stage => stage.id) = order ∧ ∀ stage ∈ stages, stage ∈ pipeline.stages := by
  induction order with
  | nil => exact ⟨[], rfl, rfl, fun _ h => absurd h List.not_mem_nil⟩
  | cons id order ih =>
    obtain ⟨hid, hrest⟩ := List.forall_mem_cons.mp hsub
    obtain ⟨stages, hstages, hids, hmem⟩ := ih hrest
    obtain ⟨named, hnamed, rfl⟩ := List.mem_map.mp hid
    cases hfind : pipeline.stages.find? fun stage => stage.id = named.id with
    | none => exact absurd (List.find?_eq_none.mp hfind named hnamed) (by simp)
    | some stage =>
      have hstage : stage.id = named.id := by simpa using List.find?_some hfind
      refine ⟨stage :: stages, ?_, by rw [List.map_cons, hstage, hids], ?_⟩
      · rw [List.mapM_cons, hfind, hstages]
        rfl
      · rw [List.forall_mem_cons]
        exact ⟨List.mem_of_find?_eq_some hfind, hmem⟩

theorem sorted_of_ok (hplan : Planner.plan pipeline = .ok plan) :
    Planner.Sorted pipeline plan.order := by
  have hvalid := Planner.valid_of_ok hplan
  have horder := hvalid.plan
  rw [hplan, Except.ok.injEq] at horder
  rw [horder]
  exact hvalid.sorted

/-- A planned graph gets to the remote runner when its edges are a chain of all stages, and then the
runner has the stages of the chain, in its order. -/
theorem no_graph_is_linearised (hplan : Planner.plan pipeline = .ok plan) :
    (isDeclaredChain pipeline plan = true ↔ ∃ v, IsChain pipeline v) ∧
    ∀ v, IsChain pipeline v → plan.order = v ∧ ∃ stages,
      stagesInPlanOrder pipeline plan = some stages ∧ stages.Perm pipeline.stages ∧
        stages.map (fun stage => stage.id) = v := by
  have hvalid := Planner.valid_of_ok hplan
  have hsorted := sorted_of_ok hplan
  have hids := hvalid.distinct
  have hnodup : plan.order.Nodup := hsorted.perm.symm.nodup hids
  have hne : plan.order ≠ [] := by
    intro hnil
    have hlength := hsorted.perm.length_eq
    rw [hnil, Planner.length_ids] at hlength
    exact hvalid.nonempty (List.length_eq_zero_iff.mp hlength.symm)
  refine ⟨⟨fun h => ?_, ?_⟩, fun v hchain => ?_⟩
  · exact ⟨plan.order, (IsChain.iff hsorted.perm).mpr ((isDeclaredChain_iff hne hnodup).mp h)⟩
  · rintro ⟨v, hchain⟩
    have horder := hchain.order hids hsorted
    rw [isDeclaredChain_iff hne hnodup, horder]
    exact (IsChain.iff hchain.stages).mp hchain
  · have horder := hchain.order hids hsorted
    have hsub : ∀ id ∈ plan.order, id ∈ pipeline.ids := fun id => hsorted.perm.mem_iff.mp
    obtain ⟨stages, hstages, hnames, hmem⟩ := find_in_order hsub
    refine ⟨horder, stages, hstages, ?_, hnames.trans horder⟩
    have hdistinct : stages.Nodup := List.Nodup.of_map _ (hnames ▸ hnodup)
    have hlength : stages.length = pipeline.stages.length := by
      rw [← List.length_map fun stage => stage.id, hnames, hsorted.perm.length_eq,
        Planner.length_ids]
    exact (List.subperm_of_subset hdistinct hmem).perm_of_length_le (by omega)

/-- Three stages, declared out of order, with an edge that is written twice. -/
def outOfOrder : Pipeline where
  stages := [⟨"c", [[116]], ""⟩, ⟨"a", [[116]], ""⟩, ⟨"b", [[116]], ""⟩]
  edges := [⟨"b", "c"⟩, ⟨"a", "b"⟩, ⟨"b", "c"⟩]

theorem a_chain_in_any_order_is_one :
    (isDeclaredChain outOfOrder ⟨["a", "b", "c"]⟩ = true ↔ ∃ v, IsChain outOfOrder v) ∧
    ∀ v, IsChain outOfOrder v → ["a", "b", "c"] = v ∧ ∃ stages,
      stagesInPlanOrder outOfOrder ⟨["a", "b", "c"]⟩ = some stages ∧
        stages.Perm outOfOrder.stages ∧ stages.map (fun stage => stage.id) = v :=
  no_graph_is_linearised (by decide)

end psx.cli
