-- The planner is a topological sort: it accepts the graphs without a cycle, and in the order
-- that it gives every producer comes before its consumers.
import Mathlib.Data.List.Count
import PipeShellX.Counts
import PipeShellX.Kahn
import PipeShellX.Pipeline.Planner

namespace psx.pipeline.Planner

open Kahn (Graph Queue)

variable {p : Pipeline}

/-- A loop that checks each element first. -/
theorem foldlM_ok {α β : Type} {f : β → α → Result β} {check : β → α → Prop} {g : β → α → β}
    (hturn : ∀ b a b', f b a = .ok b' ↔ check b a ∧ b' = g b a) {xs : List α} {b b' : β} :
    xs.foldlM f b = .ok b' ↔
      Trace.Lawful (fun pre a => check (pre.foldl g b) a) xs ∧ b' = xs.foldl g b := by
  induction xs generalizing b with
  | nil =>
    rw [List.foldlM_nil, pure_ok]
    exact ⟨fun h => ⟨Trace.Lawful.nil, h.symm⟩, fun h => h.2.symm⟩
  | cons x xs ih =>
    rw [List.foldlM_cons, bind_ok]
    constructor
    · rintro ⟨next, hnext, hrest⟩
      obtain ⟨hcheck, rfl⟩ := (hturn _ _ _).mp hnext
      obtain ⟨hlawful, rfl⟩ := ih.mp hrest
      refine ⟨fun pre a post heq => ?_, rfl⟩
      cases pre with
      | nil =>
        obtain ⟨rfl, -⟩ := List.cons.inj heq
        exact hcheck
      | cons y pre =>
        obtain ⟨rfl, hxs⟩ := List.cons.inj heq
        exact hlawful pre a post hxs
    · rintro ⟨hlawful, rfl⟩
      refine ⟨g b x, (hturn _ _ _).mpr ⟨hlawful [] x xs rfl, rfl⟩, ih.mpr ⟨?_, rfl⟩⟩
      intro pre a post heq
      exact hlawful (x :: pre) a post (by rw [heq]; rfl)

/-! ## The stages -/

/-- Each stage has a name of its own and a command. -/
structure Named (p : Pipeline) : Prop where
  named : ∀ stage ∈ p.stages, stage.id ≠ "" ∧ stage.argv ≠ []
  distinct : p.ids.Nodup

theorem index_ok {position position' : List String} {stage : Stage} :
    index position stage = .ok position' ↔
      (stage.id ≠ "" ∧ stage.argv ≠ [] ∧ stage.id ∉ position) ∧
        position' = position ++ [stage.id] := by
  unfold index
  by_cases hid : stage.id = "" <;> by_cases hargv : stage.argv = [] <;>
    by_cases hin : stage.id ∈ position <;> simp [hid, hargv, hin, eq_comm]

theorem foldl_index (stages : List Stage) (position : List String) :
    stages.foldl (fun position stage => position ++ [stage.id]) position =
      position ++ stages.map fun stage => stage.id := by
  induction stages generalizing position with
  | nil => simp
  | cons stage stages ih => rw [List.foldl_cons, ih, List.append_assoc, List.map_cons]; rfl

theorem foldlM_index {position : List String} :
    p.stages.foldlM index [] = .ok position ↔ Named p ∧ position = p.ids := by
  rw [foldlM_ok fun _ _ _ => index_ok, foldl_index, List.nil_append]
  refine and_congr_left fun _ => ⟨fun h => ?_, fun h pre stage post heq => ?_⟩
  · have hall : ∀ stage ∈ p.stages, stage.id ≠ "" ∧ stage.argv ≠ [] := by
      intro stage hin
      obtain ⟨pre, post, heq⟩ := List.append_of_mem hin
      have hcheck := h pre stage post heq
      exact ⟨hcheck.1, hcheck.2.1⟩
    refine ⟨hall, Trace.lawful_nodup.mp fun pre id post heq => ?_⟩
    obtain ⟨pre, rest, hstages, rfl, hrest⟩ := List.map_eq_append_iff.mp heq
    obtain ⟨stage, post, rfl, rfl, -⟩ := List.map_eq_cons_iff.mp hrest
    have hcheck := h pre stage post hstages
    have hnew := hcheck.2.2
    rw [foldl_index, List.nil_append] at hnew
    exact hnew
  · obtain ⟨hid, hargv⟩ := h.named stage (by simp [heq])
    refine ⟨hid, hargv, ?_⟩
    rw [foldl_index, List.nil_append]
    apply Trace.lawful_nodup.mpr h.distinct _ _ (post.map fun stage => stage.id)
    simp [Pipeline.ids, heq]

/-! ## The edges -/

/-- The positions of the ends of an edge. -/
def link (position : List String) (edge : Edge) : Nat × Nat :=
  (position.idxOf edge.producer, position.idxOf edge.consumer)

/-- An edge between two stages. -/
def Known (position : List String) (edge : Edge) : Prop :=
  edge.producer ∈ position ∧ edge.consumer ∈ position ∧ edge.producer ≠ edge.consumer

/-- An edge that was not seen before is entered. -/
def Adjacency.enter (a : Adjacency) (edge : Nat × Nat) : Adjacency :=
  if edge ∈ a.seen then a
  else
    { successors := a.successors.modify edge.1 (· ++ [edge.2])
      indegree := a.indegree.modify edge.2 (· + 1)
      seen := a.seen ++ [edge] }

theorem idxOf?_mem {position : List String} {id : String} (hin : id ∈ position) :
    position.idxOf? id = some (position.idxOf id) := by
  induction position with
  | nil => simp at hin
  | cons x position ih =>
    rw [List.idxOf?_cons, List.idxOf_cons]
    by_cases heq : x = id
    · simp [heq]
    · have hrest := ih ((List.mem_cons.mp hin).resolve_left (Ne.symm heq))
      have hne : (x == id) = false := by simpa using heq
      rw [hne, hrest]
      rfl

theorem add_ok {position : List String} {a a' : Adjacency} {edge : Edge} :
    a.add position edge = .ok a' ↔ Known position edge ∧ a' = a.enter (link position edge) := by
  unfold Adjacency.add Known link
  by_cases hproducer : edge.producer ∈ position
  · by_cases hconsumer : edge.consumer ∈ position
    · have hsame : position.idxOf edge.producer = position.idxOf edge.consumer ↔
          edge.producer = edge.consumer := List.idxOf_inj hproducer
      rw [idxOf?_mem hproducer, idxOf?_mem hconsumer]
      dsimp only
      unfold Adjacency.enter
      by_cases heq : edge.producer = edge.consumer
      · simp [heq]
      · rw [if_neg (mt hsame.mp heq)]
        simp only [hproducer, hconsumer, ne_eq, heq, not_false_eq_true, and_self, true_and]
        split_ifs <;> simp [eq_comm]
    · simp [hconsumer, List.idxOf?_eq_none_iff.mpr hconsumer]
  · simp [hproducer, List.idxOf?_eq_none_iff.mpr hproducer]

theorem foldlM_add {position : List String} {edges : List Edge} {a a' : Adjacency} :
    edges.foldlM (Adjacency.add position) a = .ok a' ↔
      (∀ edge ∈ edges, Known position edge) ∧
        a' = (edges.map (link position)).foldl Adjacency.enter a := by
  rw [foldlM_ok fun _ _ _ => add_ok, List.foldl_map]
  refine and_congr_left fun _ => ⟨fun h edge hin => ?_, fun h pre edge post heq => ?_⟩
  · obtain ⟨pre, post, heq⟩ := List.append_of_mem hin
    exact h pre edge post heq
  · exact h edge (by simp [heq])

/-! ## The graph -/

/-- A graph of this many stages without edges. -/
def noEdges (n : Nat) : Adjacency :=
  { successors := List.replicate n [], indegree := List.replicate n 0 }

/-- The lists and the counts are those of the edges that were seen. -/
structure Adjacency.Of (n : Nat) (a : Adjacency) : Prop where
  lengths : a.successors.length = n ∧ a.indegree.length = n
  successors : ∀ i < n, a.successors.getD i [] = (a.seen.filter fun e => e.1 = i).map Prod.snd
  indegree : ∀ j < n, a.indegree.getD j 0 = ((a.seen.filter fun e => e.2 = j).length : Int)
  simple : a.seen.Nodup
  ends : ∀ e ∈ a.seen, e.1 < n ∧ e.2 < n

theorem noEdges_of (n : Nat) : (noEdges n).Of n where
  lengths := by simp [noEdges]
  successors := by
    intro i hi
    simp [noEdges, hi]
  indegree := by
    intro j hj
    simp [noEdges, hj]
  simple := List.nodup_nil
  ends := by simp [noEdges]

theorem Adjacency.Of.enter {n : Nat} {a : Adjacency} (h : a.Of n) {edge : Nat × Nat}
    (hends : edge.1 < n ∧ edge.2 < n) : (a.enter edge).Of n := by
  unfold Adjacency.enter
  split_ifs with hseen
  · exact h
  refine ⟨?_, fun i hi => ?_, fun j hj => ?_, ?_, ?_⟩
  · simp only [List.length_modify]
    exact h.lengths
  · dsimp only
    rw [Counts.getD_modify _ _ _ _ _ (h.lengths.1 ▸ hends.1), h.successors i hi, List.filter_append,
      List.map_append]
    by_cases heq : i = edge.1
    · simp [heq]
    · simp [heq, Ne.symm heq]
  · dsimp only
    rw [Counts.getD_modify _ _ _ _ _ (h.lengths.2 ▸ hends.2), h.indegree j hj, List.filter_append,
      List.length_append]
    by_cases heq : j = edge.2
    · simp [heq]
    · simp [heq, Ne.symm heq]
  · rw [← List.concat_eq_append, List.nodup_concat]
    exact ⟨hseen, h.simple⟩
  · intro e hin
    rcases List.mem_append.mp hin with hin | hin
    · exact h.ends e hin
    · rw [List.mem_singleton.mp hin]
      exact hends

theorem mem_enter {a : Adjacency} {edge e : Nat × Nat} :
    e ∈ (a.enter edge).seen ↔ e ∈ a.seen ∨ e = edge := by
  unfold Adjacency.enter
  split_ifs with hseen
  · exact ⟨.inl, fun h => h.elim id fun heq => heq ▸ hseen⟩
  · simp

/-- All edges join two stages. -/
def Linked (p : Pipeline) : Prop := ∀ edge ∈ p.edges, Known p.ids edge

/-- The lists of a pipeline once all of its edges are entered. -/
def adjacency (p : Pipeline) : Adjacency :=
  (p.edges.map (link p.ids)).foldl Adjacency.enter (noEdges p.stages.length)

theorem length_ids (p : Pipeline) : p.ids.length = p.stages.length := by
  simp [Pipeline.ids]

theorem adjacency_of (h : Linked p) : (adjacency p).Of p.stages.length := by
  unfold adjacency
  apply Trace.foldl_induction (P := Adjacency.Of p.stages.length) (noEdges_of _)
  intro pre e post heq hof
  have hin : e ∈ p.edges.map (link p.ids) := by simp [heq]
  obtain ⟨edge, hedge, rfl⟩ := List.mem_map.mp hin
  obtain ⟨hproducer, hconsumer, -⟩ := h edge hedge
  apply hof.enter
  rw [← length_ids]
  exact ⟨List.idxOf_lt_length_of_mem hproducer, List.idxOf_lt_length_of_mem hconsumer⟩

/-- Edges that are all different are seen as they are written. -/
theorem seen_of_nodup {edges : List (Nat × Nat)} {a : Adjacency} (hnodup : edges.Nodup)
    (hnew : ∀ e ∈ edges, e ∉ a.seen) : (edges.foldl Adjacency.enter a).seen = a.seen ++ edges := by
  induction edges generalizing a with
  | nil => simp
  | cons edge edges ih =>
    rw [List.nodup_cons] at hnodup
    have henter : (a.enter edge).seen = a.seen ++ [edge] := by
      unfold Adjacency.enter
      rw [if_neg (hnew edge (by simp))]
    rw [List.foldl_cons, ih hnodup.2, henter, List.append_assoc]
    · rfl
    · intro e hin hseen
      rw [henter, List.mem_append, List.mem_singleton] at hseen
      rcases hseen with hseen | rfl
      · exact hnew e (by simp [hin]) hseen
      · exact hnodup.1 hin

theorem mem_foldl_enter {edges : List (Nat × Nat)} {a : Adjacency} {e : Nat × Nat} :
    e ∈ (edges.foldl Adjacency.enter a).seen ↔ e ∈ a.seen ∨ e ∈ edges := by
  induction edges generalizing a with
  | nil => simp
  | cons edge edges ih => rw [List.foldl_cons, ih, mem_enter, List.mem_cons, or_assoc]

theorem mem_adjacency {e : Nat × Nat} :
    e ∈ (adjacency p).seen ↔ ∃ edge ∈ p.edges, link p.ids edge = e := by
  unfold adjacency
  rw [mem_foldl_enter, List.mem_map]
  simp [noEdges]

/-- The graph that the planner sorts: the positions of the stages. -/
def graph (p : Pipeline) (h : Linked p) : Graph Nat where
  nodes := List.range p.stages.length
  edges := (adjacency p).seen
  nodup := List.nodup_range
  simple := (adjacency_of h).simple
  ends := by simpa using (adjacency_of h).ends

/-! ## The queue -/

/-- The queue of the planner is the queue of the graph, and the counts are those of the
predecessors that are not done. -/
structure Worklist.Of (p : Pipeline) (h : Linked p) (w : Worklist) (q : Queue Nat) : Prop where
  ready : w.ready = q.ready
  order : w.order = q.order.map fun i => p.ids.getD i ""
  length : w.indegree.length = p.stages.length
  indegree : ∀ v < p.stages.length,
    w.indegree.getD v 0 = (((graph p h).preds v).countP (· ∉ q.order) : Int)

theorem release_length (w : Worklist) (next : Nat) :
    (release w next).indegree.length = w.indegree.length := by
  unfold release
  dsimp only
  split_ifs <;> simp

/-- The counts of the successors go down by one, and those that reach zero are ready. -/
theorem foldl_release {successors : List Nat} {w : Worklist} (hnodup : successors.Nodup)
    (hlt : ∀ v ∈ successors, v < w.indegree.length) :
    (∀ v, (successors.foldl release w).indegree.getD v 0 =
        if v ∈ successors then w.indegree.getD v 0 - 1 else w.indegree.getD v 0) ∧
      (successors.foldl release w).ready =
        w.ready ++ successors.filter (fun v => w.indegree.getD v 0 - 1 = 0) ∧
      (successors.foldl release w).order = w.order ∧
      (successors.foldl release w).indegree.length = w.indegree.length := by
  induction successors generalizing w with
  | nil => simp
  | cons next successors ih =>
    rw [List.nodup_cons] at hnodup
    have hnext : next < w.indegree.length := hlt next (by simp)
    have hlength := release_length w next
    have hget : ∀ v, (release w next).indegree.getD v 0 =
        if v = next then w.indegree.getD v 0 - 1 else w.indegree.getD v 0 := by
      intro v
      have hmodify := Counts.getD_modify (· - 1) w.indegree next v 0 hnext
      unfold release
      dsimp only
      split_ifs <;> simp_all
    have hrest : ∀ v ∈ successors, (release w next).indegree.getD v 0 = w.indegree.getD v 0 := by
      intro v hin
      rw [hget, if_neg (fun heq : v = next => hnodup.1 (heq ▸ hin))]
    obtain ⟨hcounts, hready, horder, hsame⟩ := ih (w := release w next) hnodup.2
      fun v hin => hlength ▸ hlt v (by simp [hin])
    rw [List.foldl_cons]
    refine ⟨fun v => ?_, ?_, ?_, hsame.trans hlength⟩
    · rw [hcounts]
      by_cases heq : v = next
      · rw [heq, if_neg hnodup.1, hget, if_pos rfl, if_pos (by simp)]
      · rw [hget, if_neg heq]
        simp [heq]
    · have hfirst : (release w next).ready =
          w.ready ++ if w.indegree.getD next 0 - 1 = 0 then [next] else [] := by
        have hself := Counts.getD_modify (· - 1) w.indegree next next 0 hnext
        rw [if_pos rfl] at hself
        unfold release
        dsimp only
        rw [hself]
        split_ifs <;> simp
      have hfilter : successors.filter (fun v => (release w next).indegree.getD v 0 - 1 = 0) =
          successors.filter fun v => w.indegree.getD v 0 - 1 = 0 := by
        apply List.filter_congr
        intro v hin
        rw [hrest v hin]
      rw [hready, hfirst, hfilter, List.filter_cons, List.append_assoc]
      by_cases hzero : w.indegree.getD next 0 - 1 = 0
      · rw [if_pos hzero, if_pos (decide_eq_true hzero)]
        rfl
      · rw [if_neg hzero, if_neg fun hd => hzero (of_decide_eq_true hd)]
        rfl
    · rw [horder]
      unfold release
      dsimp only
      split_ifs <;> rfl

/-- What is not done once `u` is done. -/
theorem countP_done {l done : List Nat} {u : Nat} (hnodup : l.Nodup) (hu : u ∉ done) :
    l.countP (· ∉ done) = l.countP (· ∉ done ++ [u]) + if u ∈ l then 1 else 0 := by
  induction l with
  | nil => simp
  | cons x l ih =>
    rw [List.nodup_cons] at hnodup
    rw [List.countP_cons, List.countP_cons, ih hnodup.2]
    by_cases heq : x = u
    · rw [heq] at hnodup ⊢
      simp [hu, hnodup.1]
    · by_cases hin : x ∈ done <;> by_cases hl : u ∈ l <;> simp [hin, hl, heq, Ne.symm heq]

theorem preds_nodup (g : Graph Nat) (v : Nat) : (g.preds v).Nodup := by
  refine (g.simple.filter _).map_on ?_
  rintro ⟨a, b⟩ ha ⟨c, d⟩ hc hac
  simp only [List.mem_filter, decide_eq_true_eq] at ha hc
  rw [Prod.mk.injEq]
  exact ⟨hac, ha.2.trans hc.2.symm⟩

variable {h : Linked p}

theorem getD_successors {u : Nat} (hlt : u < p.stages.length) :
    (adjacency p).successors.getD u [] = (graph p h).succs u :=
  (adjacency_of h).successors u hlt

theorem getD_indegree {v : Nat} (hlt : v < p.stages.length) :
    (adjacency p).indegree.getD v 0 = (((graph p h).preds v).length : Int) := by
  rw [(adjacency_of h).indegree v hlt, Graph.preds, List.length_map]
  rfl

theorem feeds_lt {u v : Nat} (hfeeds : (graph p h).Feeds u v) :
    u < p.stages.length ∧ v < p.stages.length := by
  have hends := (graph p h).ends _ hfeeds
  exact ⟨List.mem_range.mp hends.1, List.mem_range.mp hends.2⟩

/-- One turn of the planner is one turn of the queue. -/
theorem Worklist.Of.turn {w : Worklist} {q : Queue Nat} (hof : w.Of p h q)
    (hsound : (graph p h).Sound q) :
    (turn p (adjacency p).successors w = none ∧ (graph p h).turn q = none) ∨
      ∃ w' q', turn p (adjacency p).successors w = some (w', []) ∧
        (graph p h).turn q = some (q', []) ∧ w'.Of p h q' := by
  cases hready : q.ready with
  | nil =>
    refine .inl ⟨?_, ?_⟩
    · unfold Planner.turn
      rw [hof.ready, hready]
    · unfold Graph.turn
      rw [hready]
  | cons u ready =>
    have hin : u ∈ q.order ++ q.ready := by simp [hready]
    have hu : u < p.stages.length := List.mem_range.mp ((hsound.mem u).mp hin).1
    have hnew : u ∉ q.order := by
      have hnodup := hsound.nodup
      rw [hready, List.nodup_append] at hnodup
      exact fun hdone => hnodup.2.2 u hdone u (by simp) rfl
    have hlt : ∀ v ∈ (graph p h).succs u, v < w.indegree.length := by
      intro v hv
      rw [hof.length]
      exact (feeds_lt (Graph.mem_succs.mp hv)).2
    obtain ⟨hcounts, hqueue, horder, hlength⟩ := foldl_release
      (w := { w with ready, order := w.order ++ [p.ids.getD u ""] })
      ((graph p h).succs_nodup u) hlt
    -- A count is the number of predecessors that are left once `u` is done.
    have hleft : ∀ v < p.stages.length,
        (if v ∈ (graph p h).succs u then w.indegree.getD v 0 - 1 else w.indegree.getD v 0) =
          (((graph p h).preds v).countP (· ∉ q.order ++ [u]) : Int) := by
      intro v hv
      rw [hof.indegree v hv, countP_done (preds_nodup _ v) hnew]
      by_cases hfeeds : (graph p h).Feeds u v
      · rw [if_pos (Graph.mem_succs.mpr hfeeds), if_pos (Graph.mem_preds.mpr hfeeds)]
        push_cast
        omega
      · rw [if_neg (mt Graph.mem_succs.mp hfeeds), if_neg (mt Graph.mem_preds.mp hfeeds)]
        rfl
    refine .inr ⟨((graph p h).succs u).foldl release
        { w with ready, order := w.order ++ [p.ids.getD u ""] },
      ⟨ready ++ (graph p h).released (q.order ++ [u]) u, q.order ++ [u]⟩, ?_, ?_, ?_⟩
    · unfold Planner.turn
      rw [hof.ready, hready]
      dsimp only
      rw [getD_successors (h := h) hu]
    · unfold Graph.turn
      rw [hready]
    · refine ⟨?_, ?_, hlength.trans hof.length, fun v hv => (hcounts v).trans (hleft v hv)⟩
      · rw [hqueue]
        change ready ++ _ = ready ++ _
        congr 1
        apply List.filter_congr
        intro v hv
        have hv' := hleft v (feeds_lt (Graph.mem_succs.mp hv)).2
        rw [if_pos hv] at hv'
        dsimp only
        rw [hv', decide_eq_decide, Int.natCast_eq_zero, List.countP_eq_zero]
        simp [or_iff_not_imp_left]
      · rw [horder, hof.order]
        simp

/-- The loop of the planner is the loop of the queue. -/
theorem Worklist.Of.loop {w : Worklist} {q : Queue Nat} (hof : w.Of p h q)
    (hsound : (graph p h).Sound q) (fuel : Nat) :
    (Loop.run (Planner.turn p (adjacency p).successors) fuel w).1.Of p h
      (Loop.run (graph p h).turn fuel q).1 := by
  induction fuel generalizing w q with
  | zero => exact hof
  | succ fuel ih =>
    rcases hof.turn hsound with ⟨hw, hq⟩ | ⟨w', q', hw, hq, hof'⟩
    · rw [Loop.run_none hw, Loop.run_none hq]
      exact hof
    · rw [Loop.run_some hw, Loop.run_some hq]
      exact ih hof' (hsound.turn hq)

theorem start_of : Worklist.Of p h
    { ready := (List.range p.stages.length).filter fun i => (adjacency p).indegree.getD i 0 = 0
      indegree := (adjacency p).indegree } (graph p h).start where
  ready := by
    apply List.filter_congr
    intro v hin
    rw [getD_indegree (h := h) (List.mem_range.mp hin)]
    simp
  order := rfl
  length := (adjacency_of h).lengths.2
  indegree := by
    intro v hv
    rw [getD_indegree (h := h) hv]
    congr 1
    symm
    rw [List.countP_eq_length]
    intro u _
    simp [Graph.start]

/-! ## The plan -/

/-- The order of the graph, by name. -/
def orderOf (p : Pipeline) (h : Linked p) : List String :=
  (graph p h).sort.map fun i => p.ids.getD i ""

/-- The end of the loop over the queue. -/
def planned (p : Pipeline) : Worklist :=
  (Loop.run (turn p (adjacency p).successors) p.stages.length
    { ready := (List.range p.stages.length).filter fun i => (adjacency p).indegree.getD i 0 = 0
      indegree := (adjacency p).indegree }).1

theorem planned_order (h : Linked p) : (planned p).order = orderOf p h := by
  have hof : (planned p).Of p h (Loop.run (graph p h).turn p.stages.length (graph p h).start).1 :=
    start_of.loop Graph.sound_start _
  have hlength : (graph p h).nodes.length = p.stages.length := List.length_range
  rw [hof.order, orderOf, Graph.sort, Graph.run, hlength]

theorem length_orderOf (h : Linked p) : (orderOf p h).length = (graph p h).sort.length :=
  List.length_map _

/-- What the planner answers: an order of the full length. -/
theorem plan_ok {plan : Plan} :
    Planner.plan p = .ok plan ↔
      p.stages ≠ [] ∧ Named p ∧ ∃ h : Linked p,
        (graph p h).sort.length = p.stages.length ∧ plan.order = orderOf p h := by
  unfold Planner.plan
  by_cases hempty : p.stages = []
  · simp [hempty, bind, Except.bind, throw, throwThe, MonadExceptOf.throw]
  rw [if_neg hempty]
  simp only [bind_ok, foldlM_index, foldlM_add]
  constructor
  · rintro ⟨-, ⟨hnamed, rfl⟩, -, ⟨hlinked, rfl⟩, hplan⟩
    change (if (planned p).order.length ≠ p.stages.length then _ else
      pure (Plan.mk (planned p).order)) = _ at hplan
    rw [planned_order hlinked, length_orderOf hlinked] at hplan
    by_cases hlength : (graph p hlinked).sort.length = p.stages.length
    · rw [if_neg (not_not.mpr hlength), pure_ok] at hplan
      exact ⟨hempty, hnamed, hlinked, hlength, by rw [← hplan]⟩
    · rw [if_pos hlength] at hplan
      cases hplan
  · rintro ⟨-, hnamed, hlinked, hlength, horder⟩
    refine ⟨p.ids, ⟨hnamed, rfl⟩, adjacency p, ⟨hlinked, rfl⟩, ?_⟩
    change (if (planned p).order.length ≠ p.stages.length then _ else
      pure (Plan.mk (planned p).order)) = _
    rw [planned_order hlinked, length_orderOf hlinked, if_neg (not_not.mpr hlength),
      pure_ok, ← horder]

/-! ## Correctness -/

/-- A pipeline that can be run: a graph without cycles over stages with names of their own. -/
structure Valid (p : Pipeline) : Prop where
  nonempty : p.stages ≠ []
  ids : ∀ stage ∈ p.stages, stage.id ≠ ""
  distinct : p.ids.Nodup
  commands : ∀ stage ∈ p.stages, stage.argv ≠ []
  known : ∀ edge ∈ p.edges, edge.producer ∈ p.ids ∧ edge.consumer ∈ p.ids
  loops : ∀ edge ∈ p.edges, edge.producer ≠ edge.consumer
  acyclic : Kahn.Graph.Acyclic p.Feeds

/-- Every stage comes once, and every producer before its consumers. -/
structure Sorted (p : Pipeline) (order : List String) : Prop where
  perm : order.Perm p.ids
  before : ∀ edge ∈ p.edges, order.idxOf edge.producer < order.idxOf edge.consumer

theorem feeds_iff {i j : Nat} :
    (graph p h).Feeds i j ↔
      ∃ edge ∈ p.edges, p.ids.idxOf edge.producer = i ∧ p.ids.idxOf edge.consumer = j := by
  change (i, j) ∈ (adjacency p).seen ↔ _
  rw [mem_adjacency]
  simp [link]

theorem getD_idxOf {id : String} (hin : id ∈ p.ids) : p.ids.getD (p.ids.idxOf id) "" = id := by
  rw [List.getD_eq_getElem _ _ (List.idxOf_lt_length_of_mem hin)]
  exact List.getElem_idxOf _

theorem feeds_ids {i j : Nat} (hfeeds : (graph p h).Feeds i j) :
    p.Feeds (p.ids.getD i "") (p.ids.getD j "") := by
  obtain ⟨edge, hedge, rfl, rfl⟩ := feeds_iff.mp hfeeds
  obtain ⟨hproducer, hconsumer, -⟩ := h edge hedge
  rw [getD_idxOf hproducer, getD_idxOf hconsumer]
  exact hedge

theorem feeds_positions (h : Linked p) {producer consumer : String}
    (hfeeds : p.Feeds producer consumer) :
    (graph p h).Feeds (p.ids.idxOf producer) (p.ids.idxOf consumer) :=
  feeds_iff.mpr ⟨_, hfeeds, rfl, rfl⟩

/-- A cycle of names is a cycle of positions. -/
theorem acyclic_iff : Graph.Acyclic (graph p h).Feeds ↔ Graph.Acyclic p.Feeds := by
  constructor
  · intro hacyclic id hloop
    exact hacyclic _ (hloop.lift p.ids.idxOf fun _ _ => feeds_positions h)
  · intro hacyclic i hloop
    exact hacyclic _ (hloop.lift (fun i => p.ids.getD i "") fun _ _ => feeds_ids)

theorem orderOf_perm (hperm : (graph p h).sort.Perm (graph p h).nodes) :
    (orderOf p h).Perm p.ids := by
  have hmap := hperm.map fun i => p.ids.getD i ""
  have hids : ((graph p h).nodes.map fun i => p.ids.getD i "") = p.ids := by
    apply List.ext_getElem
    · simp [graph, length_ids]
    · intro i _ hi
      simp [graph, hi]
  rw [hids] at hmap
  exact hmap

/-- The producers of a stage come first, by name too. -/
theorem orderOf_lawful (hids : p.ids.Nodup) :
    Trace.Lawful (Graph.Follows p.Feeds) (orderOf p h) := by
  intro pre id post heq producer hfeeds
  obtain ⟨before, rest, hsort, rfl, hrest⟩ := List.map_eq_append_iff.mp heq
  obtain ⟨i, after, rfl, rfl, -⟩ := List.map_eq_cons_iff.mp hrest
  have hin : i ∈ (graph p h).sort := by simp [hsort]
  have hlt : i < p.ids.length := by
    rw [length_ids]
    exact List.mem_range.mp (Graph.mem_sort.mp hin).1
  have hfollows := Graph.sort_lawful before i after hsort
  have hposition := feeds_positions h hfeeds
  have hself : p.ids.idxOf (p.ids.getD i "") = i := by
    rw [List.getD_eq_getElem _ _ hlt]
    exact hids.idxOf_getElem i hlt
  rw [hself] at hposition
  refine List.mem_map.mpr ⟨_, hfollows _ hposition, ?_⟩
  exact getD_idxOf (h _ hfeeds).1

theorem Valid.linked (hvalid : Valid p) : Linked p := fun edge hin =>
  ⟨(hvalid.known edge hin).1, (hvalid.known edge hin).2, hvalid.loops edge hin⟩

theorem Valid.plan (hvalid : Valid p) :
    Planner.plan p = .ok { order := orderOf p hvalid.linked } := by
  refine plan_ok.mpr ⟨hvalid.nonempty, ⟨fun stage hin =>
    ⟨hvalid.ids stage hin, hvalid.commands stage hin⟩, hvalid.distinct⟩, hvalid.linked, ?_, rfl⟩
  have hlength := Graph.length_sort.mpr ((acyclic_iff (h := hvalid.linked)).mpr hvalid.acyclic)
  exact hlength.trans List.length_range

theorem Valid.sorted (hvalid : Valid p) : Sorted p (orderOf p hvalid.linked) := by
  have hperm := orderOf_perm (Graph.sort_perm.mpr
    ((acyclic_iff (h := hvalid.linked)).mpr hvalid.acyclic))
  refine ⟨hperm, fun edge hin => ?_⟩
  exact Graph.feeds_before (orderOf_lawful hvalid.distinct) hin
    (hperm.symm.subset (hvalid.known edge hin).2)

theorem valid_of_ok {plan : Plan} (hplan : Planner.plan p = .ok plan) : Valid p := by
  obtain ⟨hnonempty, hnamed, hlinked, hlength, -⟩ := plan_ok.mp hplan
  have hacyclic : Graph.Acyclic (graph p hlinked).Feeds :=
    Graph.length_sort.mp (hlength.trans List.length_range.symm)
  exact
    { nonempty := hnonempty
      ids := fun stage hin => (hnamed.named stage hin).1
      distinct := hnamed.distinct
      commands := fun stage hin => (hnamed.named stage hin).2
      known := fun edge hin => ⟨(hlinked edge hin).1, (hlinked edge hin).2.1⟩
      loops := fun edge hin => (hlinked edge hin).2.2
      acyclic := acyclic_iff.mp hacyclic }

/-- A pipeline is planned exactly when it is valid, and then the order has every stage once and
every producer before its consumers, whatever edges are written twice. -/
theorem plan_is_a_topological_sort (p : Pipeline) :
    ((∃ plan, Planner.plan p = .ok plan) ↔ Valid p) ∧
      ∀ plan, Planner.plan p = .ok plan → Sorted p plan.order := by
  refine ⟨⟨fun ⟨plan, hplan⟩ => valid_of_ok hplan, fun h => ⟨_, h.plan⟩⟩, fun plan hplan => ?_⟩
  have hsame := (valid_of_ok hplan).plan
  rw [hplan, Except.ok.injEq] at hsame
  rw [hsame]
  exact (valid_of_ok hplan).sorted

end psx.pipeline.Planner
