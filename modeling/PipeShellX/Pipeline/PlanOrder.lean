-- What the plan makes of the order in which the edges are written: stages that one stage makes
-- ready come in that order, and so does the code that a run reports.
import PipeShellX.KahnLevels
import PipeShellX.Pipeline.DagRunner
import PipeShellX.Pipeline.PlannerLaws

namespace psx.pipeline.Planner

open Kahn (Graph)
open DagRunner (Node)

variable {p q : Pipeline}

/-- The same stages and the same edges, in another order or written more than once. -/
structure SameGraph (p q : Pipeline) : Prop where
  stages : q.stages = p.stages
  edges : ∀ edge, edge ∈ q.edges ↔ edge ∈ p.edges

/-- One stage feeds another one, by position. -/
def FeedsAt (p : Pipeline) (i j : Nat) : Prop :=
  ∃ edge ∈ p.edges, p.ids.idxOf edge.producer = i ∧ p.ids.idxOf edge.consumer = j

/-- No two stages have longest chains into them that are equally long and of which the latest to
start, by definition order, start at the same stage. -/
def Untied (p : Pipeline) : Prop := Graph.Untied (List.range p.stages.length) (FeedsAt p)

/-- The exit code of a run whose stages exit with `codes`. -/
def pipefail (p : Pipeline) (order : List String) (codes : String → Int) : Int :=
  ({ nodes := (DagRunner.planned p order).map fun node =>
      { node with exitCode := codes node.stage.id } } : DagRunner 1).outcome.exitCode

/-- The plan does not change with the order of the edges. -/
def PlanFree (p : Pipeline) : Prop := ∀ q, SameGraph p q → Planner.plan q = Planner.plan p

/-- The exit code of a run does not change with the order of the edges. -/
def PipefailFree (p : Pipeline) : Prop :=
  ∀ q, SameGraph p q → ∀ plan plan', Planner.plan p = .ok plan → Planner.plan q = .ok plan' →
    ∀ codes, pipefail q plan'.order codes = pipefail p plan.order codes

/-! ## The exit code -/

theorem find_stage {id : String} (hin : id ∈ p.ids) :
    ((p.stages.find? fun stage => stage.id = id).getD { argv := [] }).id = id := by
  cases hfind : p.stages.find? fun stage => stage.id = id with
  | none =>
    obtain ⟨stage, hstage, rfl⟩ := List.mem_map.mp hin
    have hnone := List.find?_eq_none.mp hfind stage hstage
    simp at hnone
  | some stage => simpa using List.find?_some hfind

theorem pipefail_eq {order : List String} (hsub : order ⊆ p.ids) (codes : String → Int) :
    pipefail p order codes = rightmostNonzero (order.map codes) := by
  unfold pipefail DagRunner.outcome DagRunner.planned
  dsimp only
  rw [List.map_map, List.map_map]
  congr 1
  apply List.map_congr_left
  intro id hin
  simp only [Function.comp_apply]
  rw [find_stage (hsub hin)]

theorem rightmostNonzero_snoc (codes : List Int) (code : Int) :
    rightmostNonzero (codes ++ [code]) = if code ≠ 0 then code else rightmostNonzero codes := by
  unfold rightmostNonzero
  rw [List.foldl_append]
  rfl

/-- Two orders of the same stages that report the same code, whatever the stages exit with, are
the same. -/
theorem order_of_codes {order order' : List String} (hnodup : order.Nodup)
    (hperm : order'.Perm order)
    (hcodes : ∀ codes : String → Int,
      rightmostNonzero (order'.map codes) = rightmostNonzero (order.map codes)) :
    order' = order := by
  induction order using List.reverseRecOn generalizing order' with
  | nil => exact hperm.eq_nil
  | append_singleton order id ih =>
    rcases List.eq_nil_or_concat order' with rfl | ⟨order', id', rfl⟩
    · simp at hperm
    rw [List.concat_eq_append] at hperm hcodes ⊢
    -- Codes for the two last stages only tell which of them is the last.
    have hlast : id' = id := by
      by_contra hne
      have hsame := hcodes fun x => if x = id then 1 else if x = id' then 2 else 0
      simp [rightmostNonzero_snoc, hne] at hsame
    subst hlast
    rw [List.nodup_append] at hnodup
    have hnot : id' ∉ order := fun hin => hnodup.2.2 id' hin id' (by simp) rfl
    have hrest : order'.Perm order := by
      have hcons := (List.perm_append_comm.trans (hperm.trans List.perm_append_comm) :
        ([id'] ++ order').Perm ([id'] ++ order))
      simpa using hcons
    have hnot' : id' ∉ order' := fun hin => hnot (hrest.subset hin)
    congr 1
    refine ih hnodup.1 hrest fun codes => ?_
    have hsame := hcodes fun x => if x = id' then 0 else codes x
    rw [List.map_append, List.map_append, List.map_singleton, rightmostNonzero_snoc,
      rightmostNonzero_snoc] at hsame
    have hmap : ∀ l : List String, id' ∉ l →
        (l.map fun x => if x = id' then 0 else codes x) = l.map codes := by
      intro l hl
      apply List.map_congr_left
      intro x hx
      rw [if_neg (fun heq : x = id' => hl (heq ▸ hx))]
    simpa [hmap order hnot, hmap order' hnot'] using hsame

/-! ## The plan -/

theorem SameGraph.ids (h : SameGraph p q) : q.ids = p.ids := by
  rw [Pipeline.ids, Pipeline.ids, h.stages]

theorem SameGraph.feeds (h : SameGraph p q) : q.Feeds = p.Feeds := by
  funext producer consumer
  exact propext (h.edges _)

theorem SameGraph.valid (h : SameGraph p q) (hvalid : Valid p) : Valid q where
  nonempty := h.stages ▸ hvalid.nonempty
  ids := h.stages ▸ hvalid.ids
  distinct := h.ids ▸ hvalid.distinct
  commands := h.stages ▸ hvalid.commands
  known := fun edge hin => h.ids ▸ hvalid.known edge ((h.edges edge).mp hin)
  loops := fun edge hin => hvalid.loops edge ((h.edges edge).mp hin)
  acyclic := h.feeds ▸ hvalid.acyclic

theorem feeds_graph (h : Linked p) : (graph p h).Feeds = FeedsAt p := by
  funext i j
  exact propext feeds_iff

theorem SameGraph.feedsAt (h : SameGraph p q) : FeedsAt q = FeedsAt p := by
  funext i j
  unfold FeedsAt
  rw [h.ids]
  simp only [h.edges]

/-- Without ties the plan depends on the graph only. -/
theorem planFree_of_untied (hvalid : Valid p) (huntied : Untied p) : PlanFree p := by
  intro q h
  have hvalid' := h.valid hvalid
  have hfeeds := feeds_graph hvalid.linked
  have hsort : (graph q hvalid'.linked).sort = (graph p hvalid.linked).sort := by
    apply Graph.sort_unique (acyclic_iff.mpr hvalid.acyclic)
    · rw [hfeeds]
      exact huntied
    · change List.range _ = List.range _
      rw [h.stages]
    · rw [hfeeds, feeds_graph, h.feedsAt]
  rw [hvalid.plan, hvalid'.plan, orderOf, orderOf, hsort, h.ids]

theorem pipefailFree_of_planFree (h : PlanFree p) : PipefailFree p := by
  intro q hsame plan plan' hplan hplan' codes
  rw [h q hsame, hplan, Except.ok.injEq] at hplan'
  rw [← hplan']
  unfold pipefail DagRunner.planned
  rw [hsame.stages]

/-- The edges of a graph over the positions, by name. -/
def written (p : Pipeline) (edges : List (Nat × Nat)) : Pipeline :=
  { p with edges := edges.map fun e => ⟨p.ids.getD e.1 "", p.ids.getD e.2 ""⟩ }

theorem idxOf_getD (hids : p.ids.Nodup) {i : Nat} (hlt : i < p.stages.length) :
    p.ids.idxOf (p.ids.getD i "") = i := by
  rw [← length_ids] at hlt
  rw [List.getD_eq_getElem _ _ hlt]
  exact hids.idxOf_getElem i hlt

theorem link_written (hids : p.ids.Nodup) {e : Nat × Nat}
    (hlt : e.1 < p.stages.length ∧ e.2 < p.stages.length) :
    link p.ids ⟨p.ids.getD e.1 "", p.ids.getD e.2 ""⟩ = e := by
  unfold link
  rw [idxOf_getD hids hlt.1, idxOf_getD hids hlt.2]

/-- Without an influence of the edge order on the exit code there are no ties. -/
theorem untied_of_pipefailFree (hvalid : Valid p) (h : PipefailFree p) : Untied p := by
  have hfeeds := feeds_graph hvalid.linked
  unfold Untied
  rw [← hfeeds]
  refine (Graph.sort_unique_iff (acyclic_iff.mpr hvalid.acyclic)).mp fun g hnodes hsame => ?_
  -- The edges of `g`, written in their order.
  have hlt : ∀ e ∈ g.edges, e.1 < p.stages.length ∧ e.2 < p.stages.length := by
    intro e hin
    have hends := g.ends e hin
    rw [hnodes] at hends
    exact ⟨List.mem_range.mp hends.1, List.mem_range.mp hends.2⟩
  have hgraph : SameGraph p (written p g.edges) := by
    refine ⟨rfl, fun edge => ⟨fun hin => ?_, fun hin => ?_⟩⟩
    · obtain ⟨e, he, rfl⟩ := List.mem_map.mp hin
      have hfeed : g.Feeds e.1 e.2 := he
      rw [hsame] at hfeed
      exact feeds_ids hfeed
    · have hfeed := feeds_positions hvalid.linked hin
      rw [← hsame] at hfeed
      refine List.mem_map.mpr ⟨_, hfeed, ?_⟩
      rw [getD_idxOf (hvalid.known edge hin).1, getD_idxOf (hvalid.known edge hin).2]
  have hvalid' := hgraph.valid hvalid
  have hsort : (graph (written p g.edges) hvalid'.linked).sort = g.sort := by
    have hrange : (graph (written p g.edges) hvalid'.linked).nodes = g.nodes := hnodes.symm
    apply Graph.sort_congr hrange
    have hlinks : ((written p g.edges).edges.map (link p.ids)) = g.edges := by
      unfold written
      rw [List.map_map]
      conv_rhs => rw [← List.map_id g.edges]
      exact List.map_congr_left fun e he => link_written hvalid.distinct (hlt e he)
    change (((written p g.edges).edges.map (link p.ids)).foldl Adjacency.enter _).seen = g.edges
    rw [hlinks, seen_of_nodup g.simple fun _ _ => List.not_mem_nil]
    rfl
  have hperm := hvalid.sorted.perm
  have hperm' := hvalid'.sorted.perm
  have horder : orderOf (written p g.edges) hvalid'.linked = orderOf p hvalid.linked := by
    refine order_of_codes (hperm.symm.nodup hvalid.distinct) (hperm'.trans hperm.symm)
      fun codes => ?_
    have hcodes := h _ hgraph _ _ hvalid.plan hvalid'.plan codes
    rw [pipefail_eq hperm.subset, pipefail_eq hperm'.subset] at hcodes
    exact hcodes
  have hback : ∀ {sort : List Nat}, (∀ i ∈ sort, i < p.stages.length) →
      (sort.map fun i => p.ids.getD i "").map p.ids.idxOf = sort := by
    intro sort hall
    rw [List.map_map]
    conv_rhs => rw [← List.map_id sort]
    exact List.map_congr_left fun i hi => idxOf_getD hvalid.distinct (hall i hi)
  have hsorted : ∀ g : Graph Nat, g.nodes = List.range p.stages.length →
      ∀ i ∈ g.sort, i < p.stages.length := by
    intro g hnodes i hin
    rw [← List.mem_range, ← hnodes]
    exact (Graph.mem_sort.mp hin).1
  rw [← hsort, ← hback (hsorted (graph (written p g.edges) hvalid'.linked) rfl),
    ← hback (hsorted (graph p hvalid.linked) rfl)]
  exact congrArg (List.map p.ids.idxOf) horder

/-- The plan, and the exit code, depend on the graph only exactly when no two stages are tied. -/
theorem the_edge_order_is_free_without_ties (hvalid : Valid p) :
    (PlanFree p ↔ Untied p) ∧ (PipefailFree p ↔ Untied p) :=
  ⟨⟨fun h => untied_of_pipefailFree hvalid (pipefailFree_of_planFree h),
      planFree_of_untied hvalid⟩,
    ⟨untied_of_pipefailFree hvalid,
      fun h => pipefailFree_of_planFree (planFree_of_untied hvalid h)⟩⟩

/-- A stage with a command of one word. -/
def command (id : String) : Stage := { id, argv := [[116]] }

/-- One stage feeds two others. -/
def fork : Pipeline :=
  { stages := [command "a", command "b", command "c"], edges := [⟨"a", "b"⟩, ⟨"a", "c"⟩] }

/-- The fork with its edges in the other order. -/
def forkSwapped : Pipeline := { fork with edges := [⟨"a", "c"⟩, ⟨"a", "b"⟩] }

theorem fork_plan : Planner.plan fork = .ok { order := ["a", "b", "c"] } := by decide

theorem fork_is_free_without_ties :
    (PlanFree fork ↔ Untied fork) ∧ (PipefailFree fork ↔ Untied fork) :=
  the_edge_order_is_free_without_ties (valid_of_ok fork_plan)

theorem fork_swapped : SameGraph fork forkSwapped where
  stages := rfl
  edges := by
    intro edge
    simp [fork, forkSwapped, or_comm]

/-- The two consumers come in the order of the edges, and not in the order of the stages, and the
code of the later one is reported. -/
theorem the_plan_follows_the_edges :
    (¬ ∀ p, Valid p → PlanFree p) ∧ ¬ ∀ p, Valid p → PipefailFree p := by
  have hswapped : Planner.plan forkSwapped = .ok { order := ["a", "c", "b"] } := by decide
  refine ⟨fun hall => ?_, fun hall => ?_⟩
  · have hplan := hall fork (valid_of_ok fork_plan) forkSwapped fork_swapped
    rw [fork_plan, hswapped] at hplan
    simp at hplan
  · have hcode := hall fork (valid_of_ok fork_plan) forkSwapped fork_swapped _ _ fork_plan hswapped
      fun id => if id = "b" then 1 else if id = "c" then 2 else 0
    revert hcode
    decide

end psx.pipeline.Planner
