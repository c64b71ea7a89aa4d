-- What a local graph is made of: a stage lists the edges at its two ends, each edge of the
-- pipeline has one buffer, and nothing that happens later changes that.
import PipeShellX.Pipeline.DagRunnerLaws
import PipeShellX.Pipeline.PlanOrder

namespace psx.pipeline.DagRunner

open psx.os (ExitStatus Interest Waits)
open psx.stream (BoundedBuffer)

variable {capacity : Nat} {r r' : DagRunner capacity}

/-- Every stage knows its edges. -/
structure Wired (r : DagRunner capacity) : Prop where
  producer : ∀ e < r.edges.length, (r.edge e).producer < r.nodes.length
  consumer : ∀ e < r.edges.length, (r.edge e).consumer < r.nodes.length
  outgoing : ∀ i e, e ∈ (r.node i).outgoing ↔ e < r.edges.length ∧ (r.edge e).producer = i
  incoming : ∀ i e, e ∈ (r.node i).incoming ↔ e < r.edges.length ∧ (r.edge e).consumer = i
  nodup : ∀ i, (r.node i).outgoing.Nodup

theorem Aside.length_edges (h : Aside r r') : r'.edges.length = r.edges.length := by
  have hlength := congrArg List.length h.links
  unfold DagRunner.links at hlength
  rwa [List.length_map, List.length_map] at hlength

theorem Aside.edge (h : Aside r r') (e : Nat) : (r'.edge e).ends = (r.edge e).ends := by
  have hmap : ∀ r : DagRunner capacity, (r.edge e).ends = r.links.getD e (0, 0) :=
    fun r => (List.getD_map ..).symm
  rw [hmap, hmap, h.links]

theorem Aside.producer (h : Aside r r') (e : Nat) : (r'.edge e).producer = (r.edge e).producer :=
  congrArg Prod.fst (h.edge e)

theorem Aside.consumer (h : Aside r r') (e : Nat) : (r'.edge e).consumer = (r.edge e).consumer :=
  congrArg Prod.snd (h.edge e)

theorem Wired.congr (h : Wired r) (hlength : r'.nodes.length = r.nodes.length)
    (hedges : r'.edges.length = r.edges.length)
    (hnodes : ∀ i, (r'.node i).outgoing = (r.node i).outgoing ∧
      (r'.node i).incoming = (r.node i).incoming)
    (hends : ∀ e, (r'.edge e).producer = (r.edge e).producer ∧
      (r'.edge e).consumer = (r.edge e).consumer) : Wired r' := by
  constructor
  · intro e he
    rw [(hends e).1, hlength]
    exact h.producer e (hedges ▸ he)
  · intro e he
    rw [(hends e).2, hlength]
    exact h.consumer e (hedges ▸ he)
  · intro i e
    rw [(hnodes i).1, (hends e).1, hedges]
    exact h.outgoing i e
  · intro i e
    rw [(hnodes i).2, (hends e).2, hedges]
    exact h.incoming i e
  · intro i
    rw [(hnodes i).1]
    exact h.nodup i

theorem Wired.aside (h : Wired r) (haside : Aside r r') : Wired r' := by
  apply h.congr haside.length haside.length_edges
  · intro i
    have houtgoing := congrArg Node.outgoing (haside.node i)
    have hincoming := congrArg Node.incoming (haside.node i)
    exact ⟨houtgoing, hincoming⟩
  · exact fun e => ⟨haside.producer e, haside.consumer e⟩

/-! ## The loop over the edges -/

/-- The places of the two stages of an edge in the order of the plan. -/
def places (order : List String) (edge : Edge) : Nat × Nat :=
  (order.idxOf edge.producer, order.idxOf edge.consumer)

theorem connected_iff {order : List String} {edge : Edge} :
    (r.edges.any fun e => e.producer = order.idxOf edge.producer &&
      e.consumer = order.idxOf edge.consumer) = true ↔ places order edge ∈ r.links := by
  unfold links places EdgeState.ends
  simp [List.mem_map]

/-- An edge that is new has the next place. -/
theorem connect_new {order : List String} {edge : Edge} (hnew : places order edge ∉ r.links) :
    (connect order r edge).edges =
        r.edges ++
          [{ producer := order.idxOf edge.producer, consumer := order.idxOf edge.consumer }] ∧
      (connect order r edge).nodes =
        (r.nodes.modify (order.idxOf edge.producer) fun node =>
          { node with outgoing := node.outgoing ++ [r.edges.length] }).modify
            (order.idxOf edge.consumer) fun node =>
          { node with incoming := node.incoming ++ [r.edges.length] } := by
  unfold connect
  dsimp only
  rw [if_neg (mt connected_iff.mp hnew)]
  exact ⟨rfl, rfl⟩

theorem connect_old {order : List String} {edge : Edge} (hold : places order edge ∈ r.links) :
    connect order r edge = r := by
  unfold connect
  dsimp only
  rw [if_pos (connected_iff.mpr hold)]

theorem links_connect (order : List String) (r : DagRunner capacity) (edge : Edge) :
    (connect order r edge).links =
      if places order edge ∈ r.links then r.links else r.links ++ [places order edge] := by
  split_ifs with hin
  · rw [connect_old hin]
  · unfold links
    rw [(connect_new hin).1, List.map_append]
    rfl

theorem Wired.connect (h : Wired r) {order : List String} {edge : Edge}
    (hproducer : order.idxOf edge.producer < r.nodes.length)
    (hconsumer : order.idxOf edge.consumer < r.nodes.length) : Wired (connect order r edge) := by
  by_cases hin : places order edge ∈ r.links
  · rw [connect_old hin]
    exact h
  · obtain ⟨hedges, hnodes⟩ := connect_new hin
    generalize DagRunner.connect order r edge = r' at *
    have hlength : r'.nodes.length = r.nodes.length := by
      rw [hnodes, List.length_modify, List.length_modify]
    have hcount : r'.edges.length = r.edges.length + 1 := by
      rw [hedges, List.length_append]
      rfl
    have hedge : ∀ e, r'.edge e = if e = r.edges.length then
        { producer := order.idxOf edge.producer, consumer := order.idxOf edge.consumer }
        else r.edge e := by
      intro e
      unfold DagRunner.edge
      rw [hedges]
      rcases Nat.lt_trichotomy e r.edges.length with hlt | heq | hgt
      · rw [if_neg (Nat.ne_of_lt hlt), List.getD_append _ _ _ _ hlt]
      · rw [if_pos heq, heq, List.getD_append_right _ _ _ _ (Nat.le_refl _), Nat.sub_self]
        rfl
      · rw [if_neg (Nat.ne_of_gt hgt), List.getD_eq_default _ _ (Nat.le_of_lt hgt),
          List.getD_eq_default]
        rw [List.length_append]
        exact hgt
    have hnode : ∀ i, (r'.node i).outgoing = (r.node i).outgoing ++
          (if i = order.idxOf edge.producer then [r.edges.length] else []) ∧
        (r'.node i).incoming = (r.node i).incoming ++
          (if i = order.idxOf edge.consumer then [r.edges.length] else []) := by
      intro i
      unfold DagRunner.node
      rw [hnodes, Counts.getD_modify _ _ _ _ _ (by rw [List.length_modify]; exact hconsumer),
        Counts.getD_modify _ _ _ _ _ hproducer]
      split_ifs <;> simp
    have hfresh : ∀ i, r.edges.length ∉ (r.node i).outgoing ∧
        r.edges.length ∉ (r.node i).incoming := by
      intro i
      rw [h.outgoing, h.incoming]
      exact ⟨fun hlt => absurd hlt.1 (Nat.lt_irrefl _), fun hlt => absurd hlt.1 (Nat.lt_irrefl _)⟩
    constructor
    · intro e he
      rw [hlength, hedge]
      split_ifs with heq
      · exact hproducer
      · exact h.producer e (by omega)
    · intro e he
      rw [hlength, hedge]
      split_ifs with heq
      · exact hconsumer
      · exact h.consumer e (by omega)
    · intro i e
      rw [(hnode i).1, List.mem_append, h.outgoing, hedge, hcount]
      by_cases heq : e = r.edges.length
      · subst heq
        by_cases hi : i = order.idxOf edge.producer <;> simp [hi, eq_comm]
      · rw [if_neg heq]
        split_ifs <;> simp [heq] <;> omega
    · intro i e
      rw [(hnode i).2, List.mem_append, h.incoming, hedge, hcount]
      by_cases heq : e = r.edges.length
      · subst heq
        by_cases hi : i = order.idxOf edge.consumer <;> simp [hi, eq_comm]
      · rw [if_neg heq]
        split_ifs <;> simp [heq] <;> omega
    · intro i
      rw [(hnode i).1]
      split_ifs
      · rw [List.nodup_append]
        refine ⟨h.nodup i, List.nodup_singleton _, fun e he e' he' => ?_⟩
        rintro rfl
        rw [List.mem_singleton.mp he'] at he
        exact (hfresh i).1 he
      · rw [List.append_nil]
        exact h.nodup i

/-! ## The start -/

/-- Nothing has happened on the pipes. -/
structure Fresh (r : DagRunner capacity) : Prop where
  nodes : ∀ i, (r.node i).stdoutClosed = false ∧ (r.node i).stdoutReadable = true
  edges : ∀ e, (r.edge e).buffer = BoundedBuffer.create capacity .Block ∧
    (r.edge e).sourceClosed = false ∧ (r.edge e).consumerClosed = false
  buffered : r.buffered = 0

/-- What the loop over the edges builds up, beside the links. -/
structure Connected (order : List String) (r : DagRunner capacity) : Prop where
  wired : Wired r
  fresh : Fresh r
  length : r.nodes.length = order.length
  nodup : r.links.Nodup

theorem Connected.connect {order : List String} (h : Connected order r) {edge : Edge}
    (hproducer : edge.producer ∈ order) (hconsumer : edge.consumer ∈ order) :
    Connected order (connect order r edge) := by
  have hin : ∀ {id}, id ∈ order → order.idxOf id < r.nodes.length := by
    intro id hid
    rw [h.length]
    exact List.idxOf_lt_length_of_mem hid
  by_cases hold : places order edge ∈ r.links
  · rw [connect_old hold]
    exact h
  · have hwired := h.wired.connect (hin hproducer) (hin hconsumer)
    have hlinks := links_connect order r edge
    rw [if_neg hold] at hlinks
    obtain ⟨hedges, hnodes⟩ := connect_new hold
    have hbuffered : (DagRunner.connect order r edge).buffered = r.buffered := by
      unfold DagRunner.connect
      dsimp only
      split <;> rfl
    generalize DagRunner.connect order r edge = r' at *
    refine ⟨hwired, ⟨fun i => ?_, fun e => ?_, hbuffered.trans h.fresh.buffered⟩, ?_, ?_⟩
    · unfold DagRunner.node
      rw [hnodes, Counts.getD_modify _ _ _ _ _ (by rw [List.length_modify]; exact hin hconsumer),
        Counts.getD_modify _ _ _ _ _ (hin hproducer)]
      have hwas := h.fresh.nodes i
      split_ifs <;> exact hwas
    · unfold DagRunner.edge
      rw [hedges]
      by_cases hlt : e < r.edges.length
      · rw [List.getD_append _ _ _ _ hlt]
        exact h.fresh.edges e
      · rw [List.getD_append_right _ _ _ _ (Nat.le_of_not_lt hlt)]
        cases e - r.edges.length <;> exact ⟨rfl, rfl, rfl⟩
    · rw [hnodes, List.length_modify, List.length_modify, h.length]
    · rw [hlinks, List.nodup_append]
      refine ⟨h.nodup, List.nodup_singleton _, fun pair hpair pair' hpair' => ?_⟩
      rintro rfl
      rw [List.mem_singleton.mp hpair'] at hpair
      exact hold hpair

theorem Connected.foldl {order : List String} (h : Connected order r) {edges : List Edge}
    (hknown : ∀ edge ∈ edges, edge.producer ∈ order ∧ edge.consumer ∈ order) :
    Connected order (edges.foldl (DagRunner.connect order) r) ∧
      ∀ pair, pair ∈ (edges.foldl (DagRunner.connect order) r).links ↔
        pair ∈ r.links ∨ pair ∈ edges.map (places order) := by
  induction edges generalizing r with
  | nil => exact ⟨h, fun pair => by simp⟩
  | cons edge edges ih =>
    obtain ⟨hproducer, hconsumer⟩ := hknown edge List.mem_cons_self
    obtain ⟨hrest, hlinks⟩ := ih (h.connect hproducer hconsumer) fun edge' hin =>
      hknown edge' (List.mem_cons_of_mem edge hin)
    refine ⟨hrest, fun pair => ?_⟩
    rw [List.foldl_cons, hlinks, links_connect, List.map_cons, List.mem_cons]
    split_ifs with hold
    · constructor
      · rintro (hin | hin)
        · exact .inl hin
        · exact .inr (.inr hin)
      · rintro (hin | rfl | hin)
        · exact .inl hin
        · exact .inl hold
        · exact .inr hin
    · rw [List.mem_append, List.mem_singleton, or_assoc]

/-- A run that knows its stages, and none of its edges yet. -/
def staged (capacity : Nat) (onOutput : Bool) (p : Pipeline) (order : List String) :
    DagRunner capacity :=
  { onOutput, started := true, onComplete := true, nodes := planned p order }

theorem planned_bare (p : Pipeline) (order : List String) (i : Nat) :
    ∃ stage, (planned p order).getD i { stage := { argv := [] } } = { stage } := by
  by_cases hi : i < (planned p order).length
  · rw [List.getD_eq_getElem _ _ hi]
    obtain ⟨id, -, heq⟩ := List.mem_map.mp (List.getElem_mem hi)
    exact ⟨_, heq.symm⟩
  · rw [List.getD_eq_default _ _ (Nat.le_of_not_lt hi)]
    exact ⟨_, rfl⟩

theorem connected_start (onOutput : Bool) (p : Pipeline) (order : List String) :
    Connected order (staged capacity onOutput p order) := by
  have hnode : ∀ i, ∃ stage, (staged capacity onOutput p order).node i = { stage } :=
    planned_bare p order
  have hlength : (staged capacity onOutput p order).nodes.length = order.length := List.length_map _
  have hbuffered : (staged capacity onOutput p order).buffered = 0 := rfl
  have hedges : (staged capacity onOutput p order).edges = [] := rfl
  generalize staged capacity onOutput p order = r at *
  have hnone : ∀ e, ¬ e < r.edges.length := by simp [hedges]
  refine ⟨⟨fun e he => absurd he (hnone e), fun e he => absurd he (hnone e), fun i e => ?_,
    fun i e => ?_, fun i => ?_⟩, ⟨fun i => ?_, fun e => ?_, hbuffered⟩, hlength, ?_⟩
  · obtain ⟨stage, hstage⟩ := hnode i
    simp [hstage, hnone]
  · obtain ⟨stage, hstage⟩ := hnode i
    simp [hstage, hnone]
  · obtain ⟨stage, hstage⟩ := hnode i
    simp [hstage]
  · obtain ⟨stage, hstage⟩ := hnode i
    rw [hstage]
    exact ⟨rfl, rfl⟩
  · unfold DagRunner.edge
    rw [hedges]
    exact ⟨rfl, rfl, rfl⟩
  · unfold links
    rw [hedges]
    exact List.nodup_nil

/-- The graph of a run: its nodes are the stages in the order of the plan, and its edges are
those of the pipeline, each once. -/
structure Models (p : Pipeline) (order : List String) (r : DagRunner capacity) : Prop where
  stages : r.nodes.map (·.stage.id) = order
  links : ∀ pair, pair ∈ r.links ↔ pair ∈ p.edges.map (places order)
  nodup : r.links.Nodup

/-- The state of a node whose pipes are watched, and of an edge with nothing in it. -/
structure Started (r : DagRunner capacity) : Prop where
  wired : Wired r
  nodes : ∀ i < r.nodes.length, (r.node i).stdoutClosed = false ∧ (r.node i).stdoutReadable = true ∧
    (r.node i).stdoutWatch = some .Readable ∧
    ((r.node i).stdinOpen = true ↔ (r.node i).incoming ≠ []) ∧
    ((r.node i).stdinOpen = true → (r.node i).stdinWatch ≠ none)
  edges : ∀ e, (r.edge e).buffer = BoundedBuffer.create capacity .Block ∧
    (r.edge e).sourceClosed = false ∧ (r.edge e).consumerClosed = false
  buffered : r.buffered = 0
  log : r.log = []

theorem ready_started (onOutput : Bool) {p : Pipeline} {plan : Planner.Plan}
    (hplan : Planner.plan p = .ok plan) : Started (ready capacity onOutput p plan.order) ∧
      Models p plan.order (ready capacity onOutput p plan.order) := by
  have hvalid := Planner.valid_of_ok hplan
  have hperm := ((Planner.plan_is_a_topological_sort p).2 plan hplan).perm
  have hknown : ∀ edge ∈ p.edges, edge.producer ∈ plan.order ∧ edge.consumer ∈ plan.order := by
    intro edge hin
    obtain ⟨hproducer, hconsumer⟩ := hvalid.known edge hin
    exact ⟨hperm.mem_iff.mpr hproducer, hperm.mem_iff.mpr hconsumer⟩
  obtain ⟨hconnected, hlinks⟩ := (@connected_start capacity onOutput p plan.order).foldl
    hknown
  obtain ⟨hbare, -, -, -, hlog⟩ := @ready_bare capacity onOutput p plan.order
  have hedges : (ready capacity onOutput p plan.order).edges =
      (p.edges.foldl (DagRunner.connect plan.order)
        (staged capacity onOutput p plan.order)).edges := rfl
  have hnodes : (ready capacity onOutput p plan.order).nodes = (p.edges.foldl
      (DagRunner.connect plan.order) (staged capacity onOutput p plan.order)).nodes.map
        opened := rfl
  have hbuffered : (ready capacity onOutput p plan.order).buffered = (p.edges.foldl
      (DagRunner.connect plan.order) (staged capacity onOutput p plan.order)).buffered := rfl
  have hnone : (staged capacity onOutput p plan.order).links = [] := rfl
  generalize p.edges.foldl (DagRunner.connect plan.order) (staged capacity onOutput p plan.order) =
    r at *
  generalize ready capacity onOutput p plan.order = r' at *
  have hlength : r'.nodes.length = r.nodes.length := by rw [hnodes, List.length_map]
  have hnode : ∀ i < r.nodes.length, r'.node i = opened (r.node i) := by
    intro i hi
    unfold DagRunner.node
    rw [hnodes, List.getD_eq_getElem _ _ hi, List.getD_eq_getElem _ _ (by simpa using hi),
      List.getElem_map]
  have hends : ∀ i, (r'.node i).outgoing = (r.node i).outgoing ∧
      (r'.node i).incoming = (r.node i).incoming := by
    intro i
    by_cases hi : i < r.nodes.length
    · rw [hnode i hi]
      exact ⟨rfl, rfl⟩
    · rw [node_outside hi, node_outside (hlength ▸ hi)]
      exact ⟨rfl, rfl⟩
  have hedge : ∀ e, r'.edge e = r.edge e := by
    intro e
    unfold DagRunner.edge
    rw [hedges]
  have hlinked : r'.links = r.links := by
    unfold DagRunner.links
    rw [hedges]
  refine ⟨⟨?_, fun i hi => ?_, fun e => ?_, hbuffered.trans hconnected.fresh.buffered, hlog⟩,
    ?_, fun pair => ?_, ?_⟩
  · apply hconnected.wired.congr hlength (congrArg List.length hedges) hends
    intro e
    rw [hedge]
    exact ⟨rfl, rfl⟩
  · obtain ⟨hclosed, hreadable⟩ := hconnected.fresh.nodes i
    rw [hlength] at hi
    rw [hnode i hi]
    refine ⟨hclosed, hreadable, rfl, by simp [opened], fun hopen => ?_⟩
    unfold opened at hopen ⊢
    dsimp only at hopen ⊢
    rw [if_pos (by simpa using hopen)]
    exact nofun
  · rw [hedge]
    exact hconnected.fresh.edges e
  · have hids : r'.nodes.map (·.stage.id) = (r'.nodes.map Node.bare).map (·.stage.id) := by
      rw [List.map_map]
      rfl
    rw [hids, hbare]
    unfold planned
    rw [List.map_map]
    refine (List.map_congr_left fun id hin => ?_).trans (List.map_id _)
    exact Planner.find_stage (hperm.mem_iff.mp hin)
  · rw [hlinked, hlinks, hnone]
    simp
  · rw [hlinked]
    exact hconnected.nodup

end psx.pipeline.DagRunner
