-- The end of a local graph: its outcome is told once, when every child has exited and every stdout
-- is closed, with the codes that the children were reaped with.
import PipeShellX.Counts
import PipeShellX.Pipeline.DagRunner
import PipeShellX.Pipeline.PlannerLaws
import PipeShellX.Trace

namespace psx.pipeline.DagRunner

open psx.os (ExitStatus Interest Waits)

variable {capacity : Nat} {r r' : DagRunner capacity} {index : Nat}

/-! ## Nodes and edges -/

theorem length_setNode (f : Node → Node) : (r.setNode index f).nodes.length = r.nodes.length :=
  List.length_modify ..

theorem node_setNode (hi : index < r.nodes.length) (f : Node → Node) (j : Nat) :
    (r.setNode index f).node j = if j = index then f (r.node j) else r.node j :=
  Counts.getD_modify f r.nodes index j _ hi

theorem node_outside (hi : ¬ index < r.nodes.length) : r.node index = { stage := { argv := [] } } :=
  List.getD_eq_default _ _ (Nat.le_of_not_lt hi)

theorem edge_setEdge (hi : index < r.edges.length) (f : EdgeState capacity → EdgeState capacity)
    (j : Nat) : (r.setEdge index f).edge j = if j = index then f (r.edge j) else r.edge j :=
  Counts.getD_modify f r.edges index j _ hi

/-- The stages that an edge joins, by their places in the plan. -/
def EdgeState.ends (edge : EdgeState capacity) : Nat × Nat := (edge.producer, edge.consumer)

/-- From where to where the edges lead. -/
def links (r : DagRunner capacity) : List (Nat × Nat) := r.edges.map EdgeState.ends

theorem links_setEdge (index : Nat) {f : EdgeState capacity → EdgeState capacity}
    (hf : ∀ edge, (f edge).ends = edge.ends) : (r.setEdge index f).links = r.links :=
  Counts.map_modify hf r.edges index

/-! ## What the pipes leave alone -/

/-- A node without its watches, and without what the traffic on its pipes changes. -/
def Node.still (node : Node) : Node :=
  { node with
    stdoutWatch := none
    stdinWatch := none
    nextIncoming := 0
    stdoutReadable := true
    stdinOpen := false
    childWatched := false }

/-- The events of the pipes. -/
def Event.Flows : Event → Prop
  | .read .. | .output _ | .wrote .. | .failed _ | .closedStdin _ => True
  | .closedStdout _ | .exited .. | .complete _ => False

/-- Traffic on the pipes of a run. -/
structure Aside (r r' : DagRunner capacity) : Prop where
  nodes : r'.nodes.map Node.still = r.nodes.map Node.still
  exitedCount : r'.exitedCount = r.exitedCount
  done : r'.done = r.done
  onComplete : r'.onComplete = r.onComplete
  links : r'.links = r.links
  log : ∃ more, r'.log = r.log ++ more ∧ ∀ e ∈ more, e.Flows

theorem Aside.refl (r : DagRunner capacity) : Aside r r :=
  ⟨rfl, rfl, rfl, rfl, rfl, [], by simp, by simp⟩

theorem Aside.trans {a b c : DagRunner capacity} (h : Aside a b) (h' : Aside b c) : Aside a c := by
  obtain ⟨first, hfirst, hflows⟩ := h.log
  obtain ⟨second, hsecond, hflows'⟩ := h'.log
  refine ⟨h'.nodes.trans h.nodes, h'.exitedCount.trans h.exitedCount, h'.done.trans h.done,
    h'.onComplete.trans h.onComplete, h'.links.trans h.links, first ++ second, ?_, fun e he => ?_⟩
  · rw [hsecond, hfirst, List.append_assoc]
  · rcases List.mem_append.mp he with he | he
    · exact hflows e he
    · exact hflows' e he

theorem Aside.foldl {α : Type} {f : DagRunner capacity → α → DagRunner capacity}
    (h : ∀ r a, Aside r (f r a)) (l : List α) (r : DagRunner capacity) : Aside r (l.foldl f r) :=
  Trace.foldl_induction (P := Aside r) (.refl r) fun _ a _ _ hpre => hpre.trans (h _ a)

theorem Aside.length (h : Aside r r') : r'.nodes.length = r.nodes.length := by
  rw [← List.length_map (f := Node.still), h.nodes, List.length_map]

theorem Aside.node (h : Aside r r') (i : Nat) : (r'.node i).still = (r.node i).still := by
  have hmap : ∀ r : DagRunner capacity,
      (r.node i).still = (r.nodes.map Node.still).getD i (Node.still { stage := { argv := [] } }) :=
    fun r => (List.getD_map ..).symm
  rw [hmap, hmap, h.nodes]

theorem aside_setNode (index : Nat) {f : Node → Node} (hf : ∀ node, (f node).still = node.still) :
    Aside r (r.setNode index f) :=
  ⟨Counts.map_modify hf r.nodes index, rfl, rfl, rfl, rfl, [], by simp [setNode], by simp⟩

theorem aside_note {e : Event} (he : e.Flows) : Aside r (r.note e) :=
  ⟨rfl, rfl, rfl, rfl, rfl, [e], rfl, by simpa using he⟩

/-- The buffers and the counts of bytes are no part of it. -/
theorem aside_edges (hnodes : r'.nodes = r.nodes) (hlinks : r'.links = r.links)
    (hcount : r'.exitedCount = r.exitedCount) (hdone : r'.done = r.done)
    (hcallback : r'.onComplete = r.onComplete) (hlog : r'.log = r.log) : Aside r r' :=
  ⟨by rw [hnodes], hcount, hdone, hcallback, hlinks, [], by simp [hlog], by simp⟩

theorem aside_setProducerReadable (index : Nat) (readable : Bool) :
    Aside r (r.setProducerReadable index readable) := by
  unfold setProducerReadable
  dsimp only
  split
  · exact .refl r
  · exact aside_setNode index fun node => rfl

theorem aside_setConsumerWritable (index : Nat) (writable : Bool) :
    Aside r (r.setConsumerWritable index writable) := by
  unfold setConsumerWritable
  dsimp only
  split
  · exact .refl r
  · exact aside_setNode index fun node => rfl

theorem aside_closeEdge (r : DagRunner capacity) (index : Nat) : Aside r (r.closeEdge index) := by
  unfold closeEdge
  refine Aside.trans ?_ (aside_setProducerReadable ..)
  exact aside_edges rfl (links_setEdge _ fun edge => rfl) rfl rfl rfl rfl

theorem aside_closeConsumer (r : DagRunner capacity) (index : Nat) :
    Aside r (r.closeConsumer index) := by
  unfold closeConsumer
  split
  · exact .refl r
  · refine Aside.trans ?_ (.foldl aside_closeEdge ..)
    have hshut : Aside r (r.setNode index fun node =>
        { node with stdinWatch := none, stdinOpen := false }) := aside_setNode index fun node => rfl
    exact hshut.trans (aside_note trivial)

theorem aside_wrote (r : DagRunner capacity) (index slot count : Nat) :
    Aside r (r.wrote index slot count) := by
  unfold wrote
  refine Aside.trans ?_ (aside_setProducerReadable ..)
  refine Aside.trans ?_ (aside_note trivial)
  refine Aside.trans ?_ (aside_setNode index fun node => rfl)
  exact aside_edges rfl (links_setEdge _ fun edge => rfl) rfl rfl rfl rfl

theorem aside_drained (r : DagRunner capacity) (index : Nat) : Aside r (r.drained index) := by
  unfold drained
  split_ifs
  · exact aside_closeConsumer r index
  · exact aside_setConsumerWritable index false

theorem aside_drainLoop (index : Nat) (writes : List (Result Nat)) (r : DagRunner capacity) :
    Aside r (drainLoop index writes r) := by
  have hwrites : ∀ (r : DagRunner capacity) writes, Aside r { r with writes } :=
    fun r writes => aside_edges rfl rfl rfl rfl rfl rfl
  induction writes generalizing r with
  | nil =>
    unfold drainLoop
    split
    · exact (hwrites r []).trans (aside_drained _ index)
    · exact (hwrites r []).trans (aside_setConsumerWritable index true)
  | cons write writes ih =>
    unfold drainLoop
    split
    · exact (hwrites r _).trans (aside_drained _ index)
    · split
      · exact (hwrites r writes).trans (aside_setConsumerWritable index true)
      · exact (aside_wrote r ..).trans (ih _)
      · split_ifs
        · exact (hwrites r writes).trans (aside_setConsumerWritable index true)
        · have hfailed : Aside r ({ r with writes }.note (.failed index)) :=
            (hwrites r writes).trans (aside_note trivial)
          exact hfailed.trans (aside_closeConsumer _ index)

theorem aside_drainConsumer (r : DagRunner capacity) (index : Nat) :
    Aside r (r.drainConsumer index) := by
  unfold drainConsumer
  split_ifs
  · exact aside_drainLoop index r.writes r
  · exact .refl r

theorem aside_deliver (r : DagRunner capacity) (index : Nat) (chunk : Bytes) :
    Aside r (r.deliver index chunk) := by
  have hnoted : Aside r (r.note (.read index chunk)) := aside_note trivial
  unfold deliver
  dsimp only
  split
  · split
    · exact hnoted.trans (aside_note trivial)
    · exact hnoted
  · refine Aside.trans ?_ (.foldl aside_drainConsumer ..)
    refine hnoted.trans (.foldl (fun r i => ?_) ..)
    exact aside_edges rfl (links_setEdge _ fun edge => rfl) rfl rfl rfl rfl

/-! ## The outcome -/

/-- The outcome that an event tells. -/
def Event.told : Event → Option Outcome
  | .complete outcome => some outcome
  | _ => none

/-- Every child has exited, and every stdout is closed. -/
def Over (r : DagRunner capacity) : Prop :=
  ∀ node ∈ r.nodes, node.exited = true ∧ node.stdoutClosed = true

/-- A run that told its outcome if it is done, and whose end may still be noticed. -/
structure Settling (r : DagRunner capacity) : Prop where
  counted : r.exitedCount = r.nodes.countP (·.exited)
  over_ : r.done = true → r.Over
  armed : r.onComplete = !r.done
  told : r.log.filterMap Event.told = if r.done then [r.outcome] else []
  reaped : ∀ i < r.nodes.length, (r.node i).exited = true →
    ∃ answer, .exited i answer ∈ r.log ∧
      (r.node i).exitCode = toExitCode (answer.getD ⟨.Exited, 1⟩)

/-- A run between two callbacks. -/
structure Settled (r : DagRunner capacity) : Prop extends Settling r where
  noticed : r.Over → r.done = true

theorem Aside.over_ (h : Aside r r') : r'.Over ↔ r.Over := by
  have hmap : ∀ r : DagRunner capacity,
      r.Over ↔ ∀ node ∈ r.nodes.map Node.still, node.exited = true ∧ node.stdoutClosed = true := by
    intro r
    rw [List.forall_mem_map]
    rfl
  rw [hmap, hmap, h.nodes]

theorem Aside.outcome (h : Aside r r') : r'.outcome = r.outcome := by
  have hmap : ∀ {α : Type} (f : Node → α), (∀ node, f node.still = f node) →
      r'.nodes.map f = r.nodes.map f := by
    intro α f hf
    have hall : ∀ r : DagRunner capacity, r.nodes.map f = (r.nodes.map Node.still).map f := by
      intro r
      rw [List.map_map]
      exact List.map_congr_left fun node _ => (hf node).symm
    rw [hall, hall, h.nodes]
  unfold DagRunner.outcome
  rw [hmap (·.exitCode) fun node => rfl, hmap (·.stage.id) fun node => rfl]

theorem Settling.aside (h : r.Settling) (haside : Aside r r') : r'.Settling := by
  obtain ⟨more, hlog, hflows⟩ := haside.log
  have hmore : more.filterMap Event.told = [] := by
    rw [List.filterMap_eq_nil_iff]
    intro e he
    have := hflows e he
    cases e <;> first | rfl | exact this.elim
  refine ⟨?_, fun hdone => ?_, ?_, ?_, fun i hi hexited => ?_⟩
  · have hcount : ∀ r : DagRunner capacity,
        r.nodes.countP (·.exited) = (r.nodes.map Node.still).countP (·.exited) := by
      intro r
      rw [List.countP_map]
      rfl
    rw [haside.exitedCount, h.counted, hcount, hcount, haside.nodes]
  · exact haside.over_.mpr (h.over_ (haside.done ▸ hdone))
  · rw [haside.onComplete, haside.done, h.armed]
  · rw [hlog, List.filterMap_append, hmore, List.append_nil, h.told, haside.done, haside.outcome]
  · have hnode := haside.node i
    have hwas : (r.node i).exited = true :=
      (congrArg Node.exited hnode).symm.trans hexited
    obtain ⟨answer, hmem, hcode⟩ := h.reaped i (haside.length ▸ hi) hwas
    refine ⟨answer, ?_, (congrArg Node.exitCode hnode).trans hcode⟩
    rw [hlog]
    exact List.mem_append_left more hmem

theorem Settled.aside (h : r.Settled) (haside : Aside r r') : r'.Settled :=
  ⟨h.toSettling.aside haside, fun hover => haside.done.trans (h.noticed (haside.over_.mp hover))⟩

theorem Settling.finishIfDone (h : r.Settling) : r.finishIfDone.Settled := by
  have hexited : r.exitedCount = r.nodes.length ↔ ∀ node ∈ r.nodes, node.exited = true := by
    rw [h.counted, List.countP_eq_length]
  unfold DagRunner.finishIfDone
  by_cases hwait : r.done ∨ r.exitedCount ≠ r.nodes.length ∨ ¬ r.nodes.all (·.stdoutClosed)
  · rw [if_pos hwait]
    refine ⟨h, fun hover => ?_⟩
    rcases hwait with hdone | hcount | hopen
    · exact hdone
    · exact absurd (hexited.mpr fun node hnode => (hover node hnode).1) hcount
    · exact absurd (List.all_eq_true.mpr fun node hnode => (hover node hnode).2) hopen
  · rw [if_neg hwait]
    push Not at hwait
    obtain ⟨hdone, hcount, hclosed⟩ := hwait
    have hrunning : r.done = false := by simpa using hdone
    have hover : r.Over := fun node hnode =>
      ⟨hexited.mp hcount node hnode, List.all_eq_true.mp hclosed node hnode⟩
    have harmed : r.onComplete = true := by rw [h.armed, hrunning, Bool.not_false]
    have htold : r.log.filterMap Event.told = [] := by rw [h.told, hrunning]; rfl
    dsimp only
    rw [if_pos harmed]
    refine ⟨⟨h.counted, fun _ => hover, rfl, ?_, fun i hi hexit => ?_⟩, fun _ => rfl⟩
    · unfold note
      dsimp only
      rw [List.filterMap_append, htold]
      rfl
    · obtain ⟨answer, hmem, hcode⟩ := h.reaped i hi hexit
      exact ⟨answer, List.mem_append_left _ hmem, hcode⟩

/-! ## What ends -/

theorem Over.node (h : r.Over) (hi : index < r.nodes.length) :
    (r.node index).exited = true ∧ (r.node index).stdoutClosed = true := by
  apply h
  unfold DagRunner.node
  rw [List.getD_eq_getElem _ _ hi]
  exact List.getElem_mem hi

/-- A run with a stdout that is still open has told nothing. -/
theorem Settling.running (h : r.Settling) (hnot : ¬ r.Over) :
    r.done = false ∧ r.log.filterMap Event.told = [] := by
  have hrunning : r.done = false := by
    by_contra hdone
    exact hnot (h.over_ (by simpa using hdone))
  refine ⟨hrunning, ?_⟩
  rw [h.told, hrunning]
  rfl

/-- The end of a stdout, before it is noticed. -/
theorem Settling.closeStdout (h : r.Settling) (hi : index < r.nodes.length)
    (hopen : (r.node index).stdoutClosed = false) :
    ((r.setNode index fun node =>
      { node with stdoutClosed := true, stdoutReadable := false, stdoutWatch := none }).note
        (.closedStdout index)).Settling := by
  have hnot : ¬ r.Over := fun hover => absurd (hopen.symm.trans (hover.node hi).2) nofun
  obtain ⟨hrunning, htold⟩ := h.running hnot
  have hcount : ∀ r : DagRunner capacity,
      r.nodes.countP (·.exited) = (r.nodes.map Node.exited).countP id := by
    intro r
    rw [List.countP_map]
    rfl
  refine ⟨?_, fun hdone => ?_, h.armed, ?_, fun j hj hexited => ?_⟩
  · rw [hcount]
    simp only [note, setNode]
    rw [Counts.map_modify (fun node => by rfl), ← hcount]
    exact h.counted
  · exact absurd (hrunning.symm.trans hdone) nofun
  · simp only [note, setNode, List.filterMap_append, htold, hrunning]
    rfl
  · have hsame : ∀ j, ((r.setNode index fun node => { node with
          stdoutClosed := true, stdoutReadable := false, stdoutWatch := none }).node j).exited =
        (r.node j).exited ∧ ((r.setNode index fun node => { node with
          stdoutClosed := true, stdoutReadable := false, stdoutWatch := none }).node j).exitCode =
          (r.node j).exitCode := by
      intro j
      rw [node_setNode hi]
      split_ifs <;> exact ⟨rfl, rfl⟩
    obtain ⟨answer, hmem, hcode⟩ := h.reaped j (by simpa [note, length_setNode] using hj)
      ((hsame j).1.symm.trans hexited)
    exact ⟨answer, List.mem_append_left _ hmem, (hsame j).2.trans hcode⟩

theorem Settled.closeProducer (h : r.Settled) (hi : index < r.nodes.length) :
    (r.closeProducer index).Settled := by
  unfold DagRunner.closeProducer
  by_cases hclosed : (r.node index).stdoutClosed = true
  · rw [if_pos hclosed]
    exact h
  · rw [if_neg hclosed]
    apply Settling.finishIfDone
    have hnext := h.toSettling.closeStdout hi (by simpa using hclosed)
    refine (hnext.aside (.foldl (fun r i => ?_) ..)).aside (.foldl aside_drainConsumer ..)
    exact aside_edges rfl (links_setEdge _ fun edge => rfl) rfl rfl rfl rfl

theorem Settled.readLoop (h : r.Settled) (hi : index < r.nodes.length)
    (reads : List (Result Bytes)) : (readLoop index reads r).Settled := by
  induction reads generalizing r with
  | nil =>
    unfold DagRunner.readLoop
    split_ifs
    · exact h
    · exact h.aside (aside_setProducerReadable index false)
    · exact h
  | cons read reads ih =>
    unfold DagRunner.readLoop
    split_ifs
    · exact h
    · exact h.aside (aside_setProducerReadable index false)
    · cases read with
      | ok bytes =>
        dsimp only
        split_ifs
        · exact h.closeProducer hi
        · have haside := aside_deliver r index (bytes.take (r.readLimit index))
          exact ih (h.aside haside) (haside.length.symm ▸ hi)
      | error e =>
        dsimp only
        split_ifs
        · exact h
        · exact h.closeProducer hi

theorem Settled.onChildExit (h : r.Settled) (hi : index < r.nodes.length) (waits : Waits) :
    (r.onChildExit index waits).Settled := by
  unfold DagRunner.onChildExit
  by_cases hexited : (r.node index).exited = true
  · rw [if_pos hexited]
    exact h
  · rw [if_neg hexited]
    apply Settling.finishIfDone
    refine Settling.aside ?_ (aside_closeConsumer ..)
    have hnot : ¬ r.Over := fun hover => hexited (hover.node hi).1
    obtain ⟨hrunning, htold⟩ := h.running hnot
    have hcount := Counts.countP_modify (·.exited) (fun node : Node =>
        { node with
          childWatched := false
          exitCode := toExitCode (waits.status ⟨.Exited, 1⟩)
          exited := true }) ({ stage := { argv := [] } } : Node) hi
    have hwas : (r.nodes.getD index { stage := { argv := [] } }).exited = false := by
      simpa [DagRunner.node] using hexited
    simp only [hwas, Bool.toNat_false, Bool.toNat_true] at hcount
    refine ⟨?_, fun hdone => ?_, h.armed, ?_, fun j hj hexit => ?_⟩
    · simp only [note, setNode]
      rw [h.counted]
      exact hcount.symm
    · exact absurd (hrunning.symm.trans hdone) nofun
    · simp only [note, setNode, List.filterMap_append, htold, hrunning]
      rfl
    · have hj : j < r.nodes.length := by simpa [note, length_setNode] using hj
      have hnode := node_setNode hi (fun node : Node =>
        { node with
          childWatched := false
          exitCode := toExitCode (waits.status ⟨.Exited, 1⟩)
          exited := true }) j
      by_cases hself : j = index
      · rw [if_pos hself] at hnode
        refine ⟨waits.answer, ?_, ?_⟩
        · rw [hself]
          exact List.mem_append_right _ (List.mem_singleton.mpr rfl)
        · rw [← waits.status_eq]
          exact congrArg Node.exitCode hnode
      · rw [if_neg hself] at hnode
        obtain ⟨answer, hmem, hcode⟩ :=
          h.reaped j hj ((congrArg Node.exited hnode).symm.trans hexit)
        exact ⟨answer, List.mem_append_left _ hmem, (congrArg Node.exitCode hnode).trans hcode⟩

/-! ## The start -/

/-- A node without its edges too. -/
def Node.bare (node : Node) : Node := { node.still with incoming := [], outgoing := [] }

/-- A run with its pipes watched, before its children are. -/
def ready (capacity : Nat) (onOutput : Bool) (p : Pipeline) (order : List String) :
    DagRunner capacity :=
  let r := p.edges.foldl (connect order)
    { onOutput, started := true, onComplete := true, nodes := planned p order }
  { r with nodes := r.nodes.map opened }

theorem run_ok {launch : Launch} {onOutput : Bool} {p : Pipeline}
    (hrun : ({ onOutput } : DagRunner capacity).run launch p true = (r, .ok ())) :
    capacity ≠ 0 ∧ ∃ plan, Planner.plan p = .ok plan ∧
      watchChildren launch (List.range (ready capacity onOutput p plan.order).nodes.length)
        (ready capacity onOutput p plan.order) = (r, .ok ()) := by
  unfold run at hrun
  rw [if_neg Bool.false_ne_true] at hrun
  by_cases hcapacity : capacity = 0
  · rw [if_pos hcapacity] at hrun
    cases hrun
  · rw [if_neg hcapacity] at hrun
    refine ⟨hcapacity, ?_⟩
    split at hrun
    · cases hrun
    · split at hrun
      · cases hrun
      · rename_i plan hplan
        refine ⟨plan, hplan, ?_⟩
        dsimp only at hrun
        split at hrun
        · cases hrun
        · unfold ready
          dsimp only
          rw [List.length_map]
          exact hrun

theorem connect_bare (order : List String) (r : DagRunner capacity) (edge : Edge) :
    (connect order r edge).nodes.map Node.bare = r.nodes.map Node.bare ∧
      (connect order r edge).exitedCount = r.exitedCount ∧ (connect order r edge).done = r.done ∧
      (connect order r edge).onComplete = r.onComplete ∧ (connect order r edge).log = r.log := by
  unfold connect
  dsimp only
  split
  · exact ⟨rfl, rfl, rfl, rfl, rfl⟩
  · refine ⟨?_, rfl, rfl, rfl, rfl⟩
    unfold setNode
    refine (Counts.map_modify ?_ _ _).trans (Counts.map_modify ?_ _ _)
    · exact fun node => rfl
    · exact fun node => rfl

theorem ready_bare (onOutput : Bool) (p : Pipeline) (order : List String) :
    (ready capacity onOutput p order).nodes.map Node.bare = planned p order ∧
      (ready capacity onOutput p order).exitedCount = 0 ∧
      (ready capacity onOutput p order).done = false ∧
      (ready capacity onOutput p order).onComplete = true ∧
      (ready capacity onOutput p order).log = [] := by
  have hconnected : ∀ edges : List Edge, ∀ r : DagRunner capacity,
      (edges.foldl (connect order) r).nodes.map Node.bare = r.nodes.map Node.bare ∧
        (edges.foldl (connect order) r).exitedCount = r.exitedCount ∧
        (edges.foldl (connect order) r).done = r.done ∧
        (edges.foldl (connect order) r).onComplete = r.onComplete ∧
        (edges.foldl (connect order) r).log = r.log := by
    intro edges
    induction edges with
    | nil => exact fun r => ⟨rfl, rfl, rfl, rfl, rfl⟩
    | cons edge edges ih =>
      intro r
      obtain ⟨hnodes, hcount, hdone, hcallback, hlog⟩ := connect_bare order r edge
      have h := ih (connect order r edge)
      rw [hnodes, hcount, hdone, hcallback, hlog] at h
      exact h
  obtain ⟨hnodes, hcount, hdone, hcallback, hlog⟩ := hconnected p.edges
    { onOutput, started := true, onComplete := true, nodes := planned p order }
  refine ⟨?_, hcount, hdone, hcallback, hlog⟩
  unfold ready
  dsimp only
  rw [List.map_map]
  refine Eq.trans (List.map_congr_left fun node _ => ?_) (hnodes.trans ?_)
  · rfl
  · unfold planned
    rw [List.map_map]
    rfl

/-- Nothing has ended at the start, and there is something to end. -/
theorem ready_settled (onOutput : Bool) {p : Pipeline} {plan : Planner.Plan}
    (hplan : Planner.plan p = .ok plan) : (ready capacity onOutput p plan.order).Settled := by
  obtain ⟨hnodes, hcount, hdone, hcallback, hlog⟩ :=
    @ready_bare capacity onOutput p plan.order
  have hnew : ∀ node ∈ (ready capacity onOutput p plan.order).nodes,
      node.exited = false ∧ node.stdoutClosed = false := by
    intro node hnode
    have hbare : node.bare ∈ planned p plan.order := hnodes ▸ List.mem_map_of_mem hnode
    obtain ⟨id, -, heq⟩ := List.mem_map.mp hbare
    exact ⟨(congrArg Node.exited heq).symm, (congrArg Node.stdoutClosed heq).symm⟩
  refine ⟨⟨?_, fun hd => ?_, ?_, ?_, fun i hi hexited => ?_⟩, fun hover => ?_⟩
  · rw [hcount, eq_comm, List.countP_eq_zero]
    intro node hnode
    simp [(hnew node hnode).1]
  · exact absurd (hdone.symm.trans hd) nofun
  · rw [hcallback, hdone, Bool.not_false]
  · rw [hlog, hdone]
    rfl
  · have hmem : (ready capacity onOutput p plan.order).node i ∈
        (ready capacity onOutput p plan.order).nodes := by
      unfold DagRunner.node
      rw [List.getD_eq_getElem _ _ hi]
      exact List.getElem_mem hi
    exact absurd ((hnew _ hmem).1.symm.trans hexited) nofun
  · have hsome : plan.order ≠ [] := by
      have hsorted := (Planner.plan_is_a_topological_sort p).2 plan hplan
      have hvalid := Planner.valid_of_ok hplan
      intro hnil
      have hids := hsorted.perm
      rw [hnil, List.nil_perm] at hids
      exact hvalid.nonempty (List.map_eq_nil_iff.mp hids)
    have hlength := congrArg List.length hnodes
    rw [List.length_map, planned, List.length_map] at hlength
    have hfirst : 0 < (ready capacity onOutput p plan.order).nodes.length := by
      rw [hlength]
      exact List.length_pos_iff.mpr hsome
    have hmem := List.getElem_mem hfirst
    exact absurd ((hnew _ hmem).1.symm.trans (hover _ hmem).1) nofun

theorem length_onChildExit (r : DagRunner capacity) (index : Nat) (waits : Waits) :
    (r.onChildExit index waits).nodes.length = r.nodes.length := by
  have hfinish : ∀ r : DagRunner capacity, r.finishIfDone.nodes = r.nodes := by
    intro r
    unfold finishIfDone
    dsimp only
    split
    · rfl
    · split
      · rfl
      · rfl
  unfold onChildExit
  split
  · rfl
  · dsimp only
    rw [hfinish, (aside_closeConsumer ..).length]
    exact length_setNode _

theorem Settled.watchChildren (h : r.Settled) {launch : Launch} {indices : List Nat}
    (hindices : ∀ i ∈ indices, i < r.nodes.length)
    (hwatch : watchChildren launch indices r = (r', .ok ())) : r'.Settled := by
  induction indices generalizing r with
  | nil =>
    obtain rfl : r = r' := congrArg Prod.fst hwatch
    exact h
  | cons i indices ih =>
    unfold DagRunner.watchChildren at hwatch
    split at hwatch
    · have haside : Aside r (r.setNode i fun node => { node with childWatched := true }) :=
        aside_setNode i fun node => rfl
      refine ih (h.aside haside) (fun j hj => ?_) hwatch
      rw [haside.length]
      exact hindices j (by simp [hj])
    · split_ifs at hwatch
      · refine ih (h.onChildExit (hindices i (by simp)) (launch.waits i)) (fun j hj => ?_) hwatch
        rw [length_onChildExit]
        exact hindices j (by simp [hj])
      · cases hwatch

theorem Reachable.settled {p : Pipeline} (h : Reachable p r) : r.Settled := by
  induction h with
  | run hrun =>
    obtain ⟨-, plan, hplan, hwatch⟩ := run_ok hrun
    exact (ready_settled _ hplan).watchChildren (fun i hi => List.mem_range.mp hi) hwatch
  | step input _ henabled ih =>
    have hwrites : ∀ r : DagRunner capacity, ∀ writes, Aside r { r with writes } :=
      fun r writes => aside_edges rfl rfl rfl rfl rfl rfl
    cases input with
    | readable index reads writes =>
      refine Settled.readLoop (ih.aside (hwrites _ writes)) ?_ reads
      by_contra hi
      exact henabled (congrArg Node.stdoutWatch (node_outside hi))
    | writable index writes =>
      exact (ih.aside (hwrites _ writes)).aside (aside_drainConsumer _ index)
    | childExit index waits =>
      refine ih.onChildExit ?_ waits
      by_contra hi
      exact absurd (henabled.symm.trans (congrArg Node.childWatched (node_outside hi))) nofun

/-- What a run tells. -/
theorem Reachable.tells {p : Pipeline} (h : Reachable p r) {outcome : Outcome}
    (htold : .complete outcome ∈ r.log) : outcome = r.outcome ∧ r.Over := by
  have hsettled := h.settled
  have hin : outcome ∈ r.log.filterMap Event.told := List.mem_filterMap.mpr ⟨_, htold, rfl⟩
  rw [hsettled.told] at hin
  by_cases hdone : r.done = true
  · rw [if_pos hdone, List.mem_singleton] at hin
    exact ⟨hin, hsettled.over_ hdone⟩
  · rw [if_neg hdone] at hin
    cases hin

end psx.pipeline.DagRunner
