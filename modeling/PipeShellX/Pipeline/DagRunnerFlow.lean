-- The bytes in a local graph: every edge has an exact account of its own, and the interest in
-- the pipes follows the buffers, whatever is read, written, closed and reaped in which order.
import PipeShellX.Pipeline.DagRunnerWiring

namespace psx.pipeline.DagRunner

open psx.os (ExitStatus Interest Waits)
open psx.stream (BoundedBuffer)

variable {capacity : Nat} {r r' : DagRunner capacity}

/-! ## The log -/

/-- What an event reads from a node. -/
def Event.readFrom (node : Nat) : Event → Bytes
  | .read i bytes => if i = node then bytes else []
  | _ => []

/-- What an event writes for an edge. -/
def Event.wroteTo (edge : Nat) : Event → Bytes
  | .wrote i bytes => if i = edge then bytes else []
  | _ => []

/-- What was read from the stdout of a node. -/
def readOf (node : Nat) (log : List Event) : Bytes := log.flatMap (Event.readFrom node)

/-- What an edge brought to the stdin of its consumer. -/
def wroteOf (edge : Nat) (log : List Event) : Bytes := log.flatMap (Event.wroteTo edge)

/-- Why the stdin of a node may be closed: a write to it failed, or its child has exited, or
every source is at its end and every byte of it was written. -/
def Cause (links : List (Nat × Nat)) (log : List Event) (i : Nat) : Prop :=
  .failed i ∈ log ∨ (∃ answer, .exited i answer ∈ log) ∨
    ∀ e producer, links[e]? = some (producer, i) →
      .closedStdout producer ∈ log ∧ readOf producer log = wroteOf e log

/-- An input is closed only for a reason. -/
def Allowed (links : List (Nat × Nat)) (log : List Event) : Event → Prop
  | .closedStdin i => Cause links log i
  | _ => True

/-- The events that move no bytes and close no stdin. -/
def Event.Quiet : Event → Prop
  | .read .. | .wrote .. | .closedStdin _ => False
  | .output _ | .failed _ | .closedStdout _ | .exited .. | .complete _ => True

/-! ## What holds of a run -/

/-- The account of the edges. The edges of `left` have lost their consumer, and are about to be
closed. -/
structure Books (left : List Nat) (r : DagRunner capacity) : Prop where
  policy : ∀ e, (r.edge e).buffer.policy = .Block
  gone : ∀ e < r.edges.length, e ∉ left →
    (r.edge e).consumerClosed = !(r.node (r.edge e).consumer).stdinOpen
  leaving : ∀ e ∈ left, (r.node (r.edge e).consumer).stdinOpen = false
  kept : ∀ e < r.edges.length, (r.edge e).consumerClosed = false →
    readOf (r.edge e).producer r.log = wroteOf e r.log ++ (r.edge e).buffer.contents
  buffered : r.buffered = (r.edges.map (·.buffer.contents.length)).sum

/-- The interest in every stdout is that in the room of its edges. The node `reading` is read
right now, and the interest in `stale` is about to be set. -/
structure Interest (reading stale : Option Nat) (r : DagRunner capacity) : Prop where
  watch : ∀ i < r.nodes.length, (r.node i).stdoutClosed = false →
    (r.node i).stdoutWatch = some (if (r.node i).stdoutReadable then .Readable else .None)
  runs : ∀ i, stale ≠ some i → (r.node i).stdoutClosed = false → r.producerCanRead i = true →
    (r.node i).stdoutReadable = true
  rests : ∀ i, stale ≠ some i → reading ≠ some i → (r.node i).stdoutClosed = false →
    (r.node i).stdoutReadable = true → r.producerCanRead i = true

/-- Every open stdin waits for something: to be written, or to be fed. The nodes of `pending`
are about to be drained. -/
structure Served (pending : List Nat) (r : DagRunner capacity) : Prop where
  watch : ∀ i, (r.node i).stdinOpen = true → (r.node i).stdinWatch ≠ none
  armed : ∀ i, i ∉ pending → (r.node i).stdinOpen = true → ∀ e < r.edges.length,
    (r.edge e).consumer = i → (r.edge e).buffer.contents ≠ [] →
      (r.node i).stdinWatch = some .Writable
  fed : ∀ i, i ∉ pending → (r.node i).stdinOpen = true → ∃ e < r.edges.length,
    (r.edge e).consumer = i ∧ ((r.edge e).sourceClosed = false ∨ (r.edge e).buffer.contents ≠ [])

/-- The edges know which sources are at their end, and the log knows which pipes are closed. -/
structure Ends (r : DagRunner capacity) : Prop where
  sourced : ∀ e < r.edges.length,
    (r.edge e).sourceClosed = (r.node (r.edge e).producer).stdoutClosed
  noted : ∀ i, (r.node i).stdoutClosed = true → .closedStdout i ∈ r.log
  shut : ∀ e < r.edges.length, (r.node (r.edge e).consumer).stdinOpen = false →
    .closedStdin (r.edge e).consumer ∈ r.log
  lawful : Trace.Lawful (Allowed r.links) r.log

/-- What holds of the edges between two steps, and within one. -/
structure Flow (reading stale : Option Nat) (pending left : List Nat) (r : DagRunner capacity) :
    Prop where
  wired : Wired r
  books : Books left r
  interest : Interest reading stale r
  served : Served pending r
  ends : Ends r

/-! ## What each of them depends on -/

/-- What a node has of its output. -/
def Node.stdout (node : Node) : Bool × Option psx.os.Interest × Bool × List Nat :=
  (node.stdoutClosed, node.stdoutWatch, node.stdoutReadable, node.outgoing)

/-- What a node has of its input. -/
def Node.stdin (node : Node) : Bool × Option psx.os.Interest := (node.stdinOpen, node.stdinWatch)

theorem keeps_setNode {α : Type} (g : Node → α) {f : Node → Node} (hf : ∀ node, g (f node) = g node)
    (i j : Nat) : g ((r.setNode i f).node j) = g (r.node j) := by
  have hmap : ∀ nodes : List Node, g (nodes.getD j { stage := { argv := [] } }) =
      (nodes.map g).getD j (g { stage := { argv := [] } }) := fun nodes => (List.getD_map ..).symm
  unfold node setNode
  rw [hmap, hmap, Counts.map_modify hf]

theorem edge_congr (h : r'.edges = r.edges) (e : Nat) : r'.edge e = r.edge e := by
  unfold edge
  rw [h]

variable {reading stale : Option Nat} {pending left : List Nat}

theorem Books.congr (h : Books left r) (hedges : r'.edges = r.edges)
    (hbuffered : r'.buffered = r.buffered) (hlog : r'.log = r.log)
    (hopen : ∀ i, (r'.node i).stdinOpen = (r.node i).stdinOpen) : Books left r' := by
  constructor
  · intro e
    rw [edge_congr hedges]
    exact h.policy e
  · intro e he
    rw [edge_congr hedges, hopen]
    exact h.gone e (hedges ▸ he)
  · intro e he
    rw [edge_congr hedges, hopen]
    exact h.leaving e he
  · intro e he
    rw [edge_congr hedges, hlog]
    exact h.kept e (hedges ▸ he)
  · rw [hbuffered, hedges]
    exact h.buffered

theorem canRead_congr (hedges : r'.edges = r.edges) {i : Nat}
    (hnode : (r'.node i).outgoing = (r.node i).outgoing) :
    r'.producerCanRead i = r.producerCanRead i := by
  unfold producerCanRead
  rw [hnode]
  congr 1
  funext e
  rw [edge_congr hedges]

theorem Interest.congr (h : Interest reading stale r) (hedges : r'.edges = r.edges)
    (hlength : r'.nodes.length = r.nodes.length)
    (hstdout : ∀ i, (r'.node i).stdout = (r.node i).stdout) : Interest reading stale r' := by
  have hclosed : ∀ i, (r'.node i).stdoutClosed = (r.node i).stdoutClosed :=
    fun i => congrArg Prod.fst (hstdout i)
  have hwatch : ∀ i, (r'.node i).stdoutWatch = (r.node i).stdoutWatch :=
    fun i => congrArg (·.2.1) (hstdout i)
  have hreadable : ∀ i, (r'.node i).stdoutReadable = (r.node i).stdoutReadable :=
    fun i => congrArg (·.2.2.1) (hstdout i)
  have hcan : ∀ i, r'.producerCanRead i = r.producerCanRead i :=
    fun i => canRead_congr hedges (congrArg (·.2.2.2) (hstdout i))
  constructor
  · intro i hi
    rw [hclosed, hwatch, hreadable]
    exact h.watch i (hlength ▸ hi)
  · intro i
    rw [hclosed, hreadable, hcan]
    exact h.runs i
  · intro i
    rw [hclosed, hreadable, hcan]
    exact h.rests i

theorem Served.congr (h : Served pending r) (hedges : r'.edges = r.edges)
    (hstdin : ∀ i, (r'.node i).stdin = (r.node i).stdin) : Served pending r' := by
  have hopen : ∀ i, (r'.node i).stdinOpen = (r.node i).stdinOpen :=
    fun i => congrArg Prod.fst (hstdin i)
  have hwatch : ∀ i, (r'.node i).stdinWatch = (r.node i).stdinWatch :=
    fun i => congrArg Prod.snd (hstdin i)
  constructor
  · intro i
    rw [hopen, hwatch]
    exact h.watch i
  · intro i hi
    rw [hopen, hwatch, hedges]
    intro hin e he
    rw [edge_congr hedges]
    exact h.armed i hi hin e he
  · intro i hi
    rw [hopen]
    intro hin
    obtain ⟨e, he, hfed⟩ := h.fed i hi hin
    refine ⟨e, hedges ▸ he, ?_⟩
    rw [edge_congr hedges]
    exact hfed

theorem Ends.congr (h : Ends r) (hedges : r'.edges = r.edges) (hlog : r'.log = r.log)
    (hclosed : ∀ i, (r'.node i).stdoutClosed = (r.node i).stdoutClosed)
    (hopen : ∀ i, (r'.node i).stdinOpen = (r.node i).stdinOpen) : Ends r' := by
  constructor
  · intro e he
    rw [edge_congr hedges, hclosed]
    exact h.sourced e (hedges ▸ he)
  · intro i
    rw [hclosed, hlog]
    exact h.noted i
  · intro e he
    rw [edge_congr hedges, hopen, hlog]
    exact h.shut e (hedges ▸ he)
  · unfold links
    rw [hedges, hlog]
    exact h.lawful

theorem mem_links {e producer consumer : Nat} (h : r.links[e]? = some (producer, consumer)) :
    e < r.edges.length ∧ (r.edge e).producer = producer ∧ (r.edge e).consumer = consumer := by
  unfold links at h
  rw [List.getElem?_map, Option.map_eq_some_iff] at h
  obtain ⟨edge, hedge, hends⟩ := h
  obtain ⟨hlt, rfl⟩ := List.getElem?_eq_some_iff.mp hedge
  obtain ⟨hproducer, hconsumer⟩ := Prod.mk.inj hends
  have hget : r.edge e = r.edges[e] := List.getD_eq_getElem _ _ hlt
  rw [hget]
  exact ⟨hlt, hproducer, hconsumer⟩

/-! ## One event more -/

theorem Books.note (h : Books left r) {e : Event} (hread : ∀ i, e.readFrom i = [])
    (hwrote : ∀ i, e.wroteTo i = []) : Books left (r.note e) := by
  refine ⟨h.policy, h.gone, h.leaving, fun i hi hopen => ?_, h.buffered⟩
  have hkept := h.kept i hi hopen
  unfold readOf wroteOf at hkept ⊢
  simp only [DagRunner.note, List.flatMap_append, List.flatMap_singleton, hread, hwrote,
    List.append_nil]
  exact hkept

theorem Ends.note (h : Ends r) {e : Event} (he : Allowed r.links r.log e) : Ends (r.note e) := by
  refine ⟨h.sourced, fun i hi => ?_, fun j hj hshut => ?_, h.lawful.snoc he⟩
  · exact List.mem_append_left [e] (h.noted i hi)
  · exact List.mem_append_left [e] (h.shut j hj hshut)

theorem Flow.note (h : Flow reading stale pending left r) {e : Event} (he : e.Quiet) :
    Flow reading stale pending left (r.note e) := by
  refine ⟨⟨h.wired.producer, h.wired.consumer, h.wired.outgoing, h.wired.incoming, h.wired.nodup⟩,
    h.books.note (fun i => ?_) fun i => ?_, h.interest.congr rfl rfl fun i => rfl,
    h.served.congr rfl fun i => rfl, h.ends.note ?_⟩
  all_goals
    cases e
    all_goals first | rfl | exact he.elim | exact trivial

/-- What the account and the interest do not look at. -/
theorem Flow.same (h : Flow reading stale pending left r) (hedges : r'.edges = r.edges)
    (hbuffered : r'.buffered = r.buffered) (hlog : r'.log = r.log) (hwired : Wired r')
    (hlength : r'.nodes.length = r.nodes.length)
    (hstdin : ∀ i, (r'.node i).stdin = (r.node i).stdin)
    (hstdout : ∀ i, (r'.node i).stdout = (r.node i).stdout) :
    Flow reading stale pending left r' :=
  ⟨hwired, h.books.congr hedges hbuffered hlog fun i => congrArg Prod.fst (hstdin i),
    h.interest.congr hedges hlength hstdout, h.served.congr hedges hstdin,
    h.ends.congr hedges hlog (fun i => congrArg Prod.fst (hstdout i))
      fun i => congrArg Prod.fst (hstdin i)⟩

theorem Flow.writes (h : Flow reading stale pending left r) (writes : List (Result Nat)) :
    Flow reading stale pending left { r with writes } :=
  h.same rfl rfl rfl
    ⟨h.wired.producer, h.wired.consumer, h.wired.outgoing, h.wired.incoming, h.wired.nodup⟩ rfl
    (fun _ => rfl) fun _ => rfl

/-! ## Interest -/

theorem keeps_setProducerReadable {α : Type} (g : Node → α)
    (hg : ∀ node readable watch,
      g { node with stdoutReadable := readable, stdoutWatch := watch } = g node)
    (p : Nat) (readable : Bool) (i : Nat) :
    g ((r.setProducerReadable p readable).node i) = g (r.node i) := by
  unfold setProducerReadable
  dsimp only
  split
  · rfl
  · exact keeps_setNode g (fun node => hg node _ _) p i

theorem setProducerReadable_rest (r : DagRunner capacity) (p : Nat) (readable : Bool) :
    (r.setProducerReadable p readable).edges = r.edges ∧
      (r.setProducerReadable p readable).buffered = r.buffered ∧
      (r.setProducerReadable p readable).log = r.log := by
  unfold setProducerReadable
  dsimp only
  split
  · exact ⟨rfl, rfl, rfl⟩
  · exact ⟨rfl, rfl, rfl⟩

/-- The interest that is set is right. -/
theorem Interest.settle {p : Nat} (h : Interest reading (some p) r) (hp : p < r.nodes.length) :
    Interest reading none (r.setProducerReadable p (r.producerCanRead p)) := by
  have hother : ∀ {i}, i ≠ p → some p ≠ some i := fun hi heq => hi (Option.some.inj heq).symm
  unfold setProducerReadable
  dsimp only
  split
  · rename_i hsame
    have hagree : (r.node p).stdoutClosed = false →
        (r.node p).stdoutReadable = r.producerCanRead p := by
      intro hopen
      rcases hsame with hclosed | hnone | heq
      · exact absurd (hopen.symm.trans hclosed) nofun
      · rw [h.watch p hp hopen] at hnone
        cases hnone
      · exact heq
    refine ⟨h.watch, fun i _ hopen hcan => ?_, fun i _ hreading hopen hreadable => ?_⟩
    · by_cases hi : i = p
      · subst hi
        rw [hagree hopen]
        exact hcan
      · exact h.runs i (hother hi) hopen hcan
    · by_cases hi : i = p
      · subst hi
        rw [← hagree hopen]
        exact hreadable
      · exact h.rests i (hother hi) hreading hopen hreadable
  · have hnode := node_setNode hp fun node =>
      { node with
        stdoutReadable := r.producerCanRead p
        stdoutWatch := some (if r.producerCanRead p then .Readable else .None) }
    generalize hr : (r.setNode p fun node =>
      { node with
        stdoutReadable := r.producerCanRead p
        stdoutWatch := some (if r.producerCanRead p then .Readable else .None) }) = r' at *
    have hcan : ∀ i, r'.producerCanRead i = r.producerCanRead i := by
      intro i
      refine canRead_congr (by rw [← hr]; rfl) ?_
      rw [hnode]
      split_ifs <;> rfl
    constructor
    · intro i hi hopen
      rw [← hr, length_setNode] at hi
      by_cases heq : i = p
      · rw [hnode, if_pos heq]
      · rw [hnode, if_neg heq] at hopen ⊢
        exact h.watch i hi hopen
    · intro i _ hopen hcan'
      rw [hcan] at hcan'
      by_cases heq : i = p
      · rw [hnode, if_pos heq, ← heq]
        exact hcan'
      · rw [hnode, if_neg heq] at hopen ⊢
        exact h.runs i (hother heq) hopen hcan'
    · intro i _ hreading hopen hreadable
      rw [hcan]
      by_cases heq : i = p
      · rw [hnode, if_pos heq] at hreadable
        rw [heq]
        exact hreadable
      · rw [hnode, if_neg heq] at hopen hreadable
        exact h.rests i (hother heq) hreading hopen hreadable

/-- Only the producer of an edge looks at it. -/
theorem Interest.touch (h : Interest reading none r) {e p : Nat}
    (hp : ∀ i, e ∈ (r.node i).outgoing → i = p) (hedges : ∀ j, j ≠ e → r'.edge j = r.edge j)
    (hlength : r'.nodes.length = r.nodes.length)
    (hstdout : ∀ i, (r'.node i).stdout = (r.node i).stdout) : Interest reading (some p) r' := by
  have hclosed : ∀ i, (r'.node i).stdoutClosed = (r.node i).stdoutClosed :=
    fun i => congrArg Prod.fst (hstdout i)
  have hwatch : ∀ i, (r'.node i).stdoutWatch = (r.node i).stdoutWatch :=
    fun i => congrArg (·.2.1) (hstdout i)
  have hreadable : ∀ i, (r'.node i).stdoutReadable = (r.node i).stdoutReadable :=
    fun i => congrArg (·.2.2.1) (hstdout i)
  have houtgoing : ∀ i, (r'.node i).outgoing = (r.node i).outgoing :=
    fun i => congrArg (·.2.2.2) (hstdout i)
  have hcan : ∀ i, some p ≠ some i → r'.producerCanRead i = r.producerCanRead i := by
    intro i hi
    unfold producerCanRead
    rw [houtgoing]
    refine Bool.eq_iff_iff.mpr ?_
    rw [List.all_eq_true, List.all_eq_true]
    refine forall₂_congr fun j hj => ?_
    have hne : j ≠ e := by
      rintro rfl
      exact hi (congrArg some (hp i hj).symm)
    rw [hedges j hne]
  constructor
  · intro i hi
    rw [hclosed, hwatch, hreadable]
    exact h.watch i (hlength ▸ hi)
  · intro i hi
    rw [hclosed, hreadable, hcan i hi]
    exact h.runs i nofun
  · intro i hi
    rw [hclosed, hreadable, hcan i hi]
    exact h.rests i nofun

/-- The interest of a producer is set again. -/
theorem Flow.settle {p : Nat} (h : Flow reading (some p) pending left r)
    (hp : p < r.nodes.length) :
    Flow reading none pending left (r.setProducerReadable p (r.producerCanRead p)) := by
  obtain ⟨hedges, hbuffered, hlog⟩ := setProducerReadable_rest r p (r.producerCanRead p)
  have hstdin : ∀ i, ((r.setProducerReadable p (r.producerCanRead p)).node i).stdin =
      (r.node i).stdin := keeps_setProducerReadable Node.stdin (fun node _ _ => rfl) p _
  exact ⟨h.wired.aside (aside_setProducerReadable ..),
    h.books.congr hedges hbuffered hlog fun i => congrArg Prod.fst (hstdin i), h.interest.settle hp,
    h.served.congr hedges hstdin, h.ends.congr hedges hlog
      (keeps_setProducerReadable Node.stdoutClosed (fun node _ _ => rfl) p _)
      fun i => congrArg Prod.fst (hstdin i)⟩

end psx.pipeline.DagRunner
