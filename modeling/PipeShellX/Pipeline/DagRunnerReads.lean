-- The reading half of a local graph: a chunk is copied to every edge whose consumer is there, a
-- full edge stops the reads, and the end of a stdout is told to the edges.
import PipeShellX.Pipeline.DagRunnerWrites

namespace psx.pipeline.DagRunner

open psx.os (ExitStatus Interest Waits)
open psx.stream (BoundedBuffer)

variable {capacity : Nat} {r r' : DagRunner capacity} {reading stale : Option Nat}
  {pending left : List Nat}

/-! ## The end of a stdout -/

theorem foldl_keeps {α : Type} (g : DagRunner capacity → α)
    {f : DagRunner capacity → Nat → DagRunner capacity} (hf : ∀ r e, g (f r e) = g r)
    (edges : List Nat) (r : DagRunner capacity) : g (edges.foldl f r) = g r :=
  Trace.foldl_induction (P := fun s => g s = g r) rfl fun _ e _ _ hpre => (hf _ e).trans hpre

/-- A loop that changes some edges, each once. -/
theorem edge_foldl {f : DagRunner capacity → Nat → DagRunner capacity}
    (change : EdgeState capacity → EdgeState capacity)
    (hf : ∀ r e, (f r e).edges = r.edges.modify e change) {edges : List Nat} (hnodup : edges.Nodup)
    (hlt : ∀ e ∈ edges, e < r.edges.length) (j : Nat) :
    (edges.foldl f r).edge j = if j ∈ edges then change (r.edge j) else r.edge j := by
  induction edges generalizing r with
  | nil => simp
  | cons e edges ih =>
    obtain ⟨hnot, hnodup'⟩ := List.nodup_cons.mp hnodup
    have hlength : (f r e).edges.length = r.edges.length := by rw [hf, List.length_modify]
    have hfirst : (f r e).edge j = if j = e then change (r.edge j) else r.edge j := by
      unfold edge
      rw [hf]
      exact Counts.getD_modify change r.edges e j _ (hlt e List.mem_cons_self)
    rw [List.foldl_cons,
      ih hnodup' fun e' he' => hlength.symm ▸ hlt e' (List.mem_cons_of_mem e he'),
      hfirst]
    by_cases heq : j = e
    · rw [if_neg (heq ▸ hnot), if_pos heq, if_pos (heq ▸ List.mem_cons_self)]
    · rw [if_neg heq]
      simp [heq]

theorem sizes_setEdge (e : Nat) {f : EdgeState capacity → EdgeState capacity}
    (hf : ∀ edge, (f edge).buffer = edge.buffer) :
    (r.setEdge e f).edges.map (·.buffer.contents.length) = r.edges.map (·.buffer.contents.length) :=
  Counts.map_modify (fun edge => by rw [hf]) r.edges e

theorem mem_consumersOf {edges : List Nat} {i : Nat} :
    i ∈ r.consumersOf edges ↔ i < r.nodes.length ∧ ∃ e ∈ edges, (r.edge e).consumer = i := by
  unfold consumersOf
  simp

/-- `closeProducer` before it drains the consumers. -/
def shutStdout (r : DagRunner capacity) (index : Nat) : DagRunner capacity :=
  let r := (r.setNode index fun node =>
    { node with stdoutClosed := true, stdoutReadable := false, stdoutWatch := none }).note
      (.closedStdout index)
  (r.node index).outgoing.foldl
    (fun r i => r.setEdge i fun edge => { edge with sourceClosed := true }) r

/-- What the end of a stdout changes. -/
structure Shut (i : Nat) (r r' : DagRunner capacity) : Prop where
  node : ∀ j, r'.node j = if j = i then
    { r.node j with stdoutClosed := true, stdoutReadable := false, stdoutWatch := none }
    else r.node j
  edge : ∀ e, r'.edge e = if e ∈ (r.node i).outgoing then
    { r.edge e with sourceClosed := true } else r.edge e
  length : r'.nodes.length = r.nodes.length
  edges : r'.edges.length = r.edges.length
  links : r'.links = r.links
  log : r'.log = r.log ++ [.closedStdout i]
  buffered : r'.buffered = r.buffered
  sizes : r'.edges.map (·.buffer.contents.length) = r.edges.map (·.buffer.contents.length)

theorem shut_shutStdout (hwired : Wired r) {i : Nat} (hi : i < r.nodes.length) :
    Shut i r (r.shutStdout i) := by
  have hnode := node_setNode hi fun node =>
    { node with stdoutClosed := true, stdoutReadable := false, stdoutWatch := none }
  have houtgoing : (((r.setNode i fun node =>
      { node with stdoutClosed := true, stdoutReadable := false, stdoutWatch := none }).note
        (.closedStdout i)).node i).outgoing = (r.node i).outgoing := by
    refine (congrArg Node.outgoing (hnode i)).trans ?_
    rw [if_pos rfl]
  unfold shutStdout
  dsimp only
  rw [houtgoing]
  constructor
  · intro j
    refine Eq.trans (foldl_keeps (fun r => r.node j) (fun r e => ?_) _ _) (hnode j)
    rfl
  · exact edge_foldl (fun edge => { edge with sourceClosed := true }) (fun r e => by rfl)
      (hwired.nodup i) fun e he => ((hwired.outgoing i e).mp he).1
  · exact (foldl_keeps (fun r => r.nodes.length) (fun r e => by rfl) _ _).trans (length_setNode _)
  · exact foldl_keeps (fun r => r.edges.length) (fun r e => length_setEdge ..) _ _
  · exact foldl_keeps DagRunner.links (fun r e => links_setEdge _ fun edge => by rfl) _ _
  · exact foldl_keeps DagRunner.log (fun r e => by rfl) _ _
  · exact foldl_keeps DagRunner.buffered (fun r e => by rfl) _ _
  · refine foldl_keeps (fun r : DagRunner capacity => r.edges.map (·.buffer.contents.length))
      (fun r e => ?_) _ _
    exact sizes_setEdge e fun edge => rfl

theorem Flow.shutStdout {i : Nat} (h : Flow reading none [] [] r) (hi : i < r.nodes.length)
    (hreading : reading = none ∨ reading = some i) :
    Flow none none ((r.shutStdout i).consumersOf (r.node i).outgoing) [] (r.shutStdout i) := by
  have hshut := shut_shutStdout h.wired hi
  generalize r.shutStdout i = r' at *
  have hother : ∀ j, j ≠ i → r'.node j = r.node j := fun j hj => by rw [hshut.node, if_neg hj]
  have hclosed : (r'.node i).stdoutClosed = true := by rw [hshut.node, if_pos rfl]
  have hnodes : ∀ j, (r'.node j).outgoing = (r.node j).outgoing ∧
      (r'.node j).incoming = (r.node j).incoming ∧ (r'.node j).stdinOpen = (r.node j).stdinOpen ∧
      (r'.node j).stdinWatch = (r.node j).stdinWatch := by
    intro j
    rw [hshut.node]
    split_ifs <;> exact ⟨rfl, rfl, rfl, rfl⟩
  have hsame : ∀ e, (r'.edge e).producer = (r.edge e).producer ∧
      (r'.edge e).consumer = (r.edge e).consumer ∧ (r'.edge e).buffer = (r.edge e).buffer ∧
      (r'.edge e).consumerClosed = (r.edge e).consumerClosed := by
    intro e
    rw [hshut.edge]
    split_ifs <;> exact ⟨rfl, rfl, rfl, rfl⟩
  have hcan : ∀ j, r'.producerCanRead j = r.producerCanRead j := by
    intro j
    unfold producerCanRead
    rw [(hnodes j).1]
    congr 1
    funext e
    rw [(hsame e).2.2.2, (hsame e).2.2.1]
  refine ⟨h.wired.congr hshut.length hshut.edges (fun j => ⟨(hnodes j).1, (hnodes j).2.1⟩)
    fun e => ⟨(hsame e).1, (hsame e).2.1⟩, ?_, ?_, ?_, ?_⟩
  · refine ⟨fun e => ?_, fun e he hleft => ?_, fun e he => absurd he List.not_mem_nil,
      fun e he hkept => ?_, ?_⟩
    · rw [(hsame e).2.2.1]
      exact h.books.policy e
    · rw [(hsame e).2.2.2, (hsame e).2.1, (hnodes _).2.2.1]
      exact h.books.gone e (hshut.edges ▸ he) hleft
    · rw [(hsame e).2.2.2] at hkept
      rw [(hsame e).1, (hsame e).2.2.1, hshut.log]
      unfold readOf wroteOf
      simp only [List.flatMap_append, List.flatMap_singleton, Event.readFrom, Event.wroteTo,
        List.append_nil]
      exact h.books.kept e (hshut.edges ▸ he) hkept
    · rw [hshut.buffered, hshut.sizes]
      exact h.books.buffered
  · have hne : ∀ j, (r'.node j).stdoutClosed = false → j ≠ i := by
      rintro j hopen rfl
      exact absurd (hopen.symm.trans hclosed) (by decide)
    refine ⟨fun j hj hopen => ?_, fun j _ hopen hcan' => ?_, fun j _ _ hopen hreadable => ?_⟩
    · have hji := hne j hopen
      rw [hother j hji] at hopen ⊢
      exact h.interest.watch j (hshut.length ▸ hj) hopen
    · have hji := hne j hopen
      rw [hother j hji] at hopen ⊢
      rw [hcan] at hcan'
      exact h.interest.runs j (Option.some_ne_none j).symm hopen hcan'
    · have hji := hne j hopen
      rw [hother j hji] at hopen hreadable
      rw [hcan]
      refine h.interest.rests j (Option.some_ne_none j).symm ?_ hopen hreadable
      rcases hreading with rfl | rfl
      · exact (Option.some_ne_none j).symm
      · exact fun heq => hji (Option.some.inj heq).symm
  · refine ⟨fun j hopen => ?_, fun j _ hopen => ?_, fun j hj hopen => ?_⟩
    · rw [(hnodes j).2.2.1] at hopen
      rw [(hnodes j).2.2.2]
      exact h.served.watch j hopen
    · rw [(hnodes j).2.2.1] at hopen
      rw [(hnodes j).2.2.2]
      intro e he hconsumer hsome
      rw [(hsame e).2.1] at hconsumer
      rw [(hsame e).2.2.1] at hsome
      exact h.served.armed j List.not_mem_nil hopen e (hshut.edges ▸ he) hconsumer hsome
    · rw [(hnodes j).2.2.1] at hopen
      obtain ⟨e, he, hconsumer, hfed⟩ := h.served.fed j List.not_mem_nil hopen
      refine ⟨e, hshut.edges.symm ▸ he, (hsame e).2.1.trans hconsumer, ?_⟩
      rw [(hsame e).2.2.1]
      refine hfed.imp_left fun hsource => ?_
      have hnot : e ∉ (r.node i).outgoing := by
        intro hmem
        apply hj
        rw [mem_consumersOf, hshut.length]
        exact ⟨hconsumer ▸ h.wired.consumer e he, e, hmem, (hsame e).2.1.trans hconsumer⟩
      rw [hshut.edge, if_neg hnot]
      exact hsource
  · refine ⟨fun e he => ?_, fun j hj => ?_, fun e he hopen => ?_, ?_⟩
    · rw [hshut.edges] at he
      rw [(hsame e).1, hshut.edge, hshut.node]
      by_cases hmem : e ∈ (r.node i).outgoing
      · rw [if_pos hmem, if_pos ((h.wired.outgoing i e).mp hmem).2]
      · have hne : (r.edge e).producer ≠ i := fun heq => hmem ((h.wired.outgoing i e).mpr ⟨he, heq⟩)
        rw [if_neg hmem, if_neg hne]
        exact h.ends.sourced e he
    · rw [hshut.log]
      by_cases heq : j = i
      · rw [heq]
        exact List.mem_append_right _ (List.mem_singleton_self _)
      · rw [hother j heq] at hj
        exact List.mem_append_left _ (h.ends.noted j hj)
    · rw [(hsame e).2.1] at hopen ⊢
      rw [(hnodes _).2.2.1] at hopen
      rw [hshut.log]
      exact List.mem_append_left _ (h.ends.shut e (hshut.edges ▸ he) hopen)
    · rw [hshut.links, hshut.log]
      exact h.ends.lawful.snoc trivial

theorem Flow.finishIfDone (h : Flow reading stale pending left r) :
    Flow reading stale pending left r.finishIfDone := by
  have hwired := h.wired
  have hdone : Flow reading stale pending left { r with done := true, onComplete := false } :=
    h.same rfl rfl rfl (hwired.congr rfl rfl (fun i => ⟨rfl, rfl⟩) fun e => ⟨rfl, rfl⟩) rfl
      (fun _ => rfl) fun _ => rfl
  unfold DagRunner.finishIfDone
  dsimp only
  split_ifs
  · exact h
  · exact hdone.note (e := .complete r.outcome) trivial
  · exact h.same rfl rfl rfl (hwired.congr rfl rfl (fun i => ⟨rfl, rfl⟩) fun e => ⟨rfl, rfl⟩) rfl
      (fun _ => rfl) fun _ => rfl

/-- A producer that is closed is read no more. -/
theorem Flow.unread {i : Nat} (h : Flow (some i) none [] [] r)
    (hclosed : (r.node i).stdoutClosed = true) : Flow none none [] [] r := by
  refine ⟨h.wired, h.books, ⟨h.interest.watch, h.interest.runs, fun j hstale _ hopen => ?_⟩,
    h.served, h.ends⟩
  refine h.interest.rests j hstale ?_ hopen
  intro heq
  obtain rfl := Option.some.inj heq
  exact absurd (hopen.symm.trans hclosed) nofun

theorem Flow.closeProducer {i : Nat} (h : Flow (some i) none [] [] r) (hi : i < r.nodes.length) :
    Flow none none [] [] (r.closeProducer i) := by
  unfold DagRunner.closeProducer
  by_cases hclosed : (r.node i).stdoutClosed = true
  · rw [if_pos hclosed]
    exact h.unread hclosed
  · rw [if_neg hclosed]
    apply Flow.finishIfDone
    have hdrained := (h.shutStdout hi (.inr rfl)).drainConsumers
    have houtgoing : (((r.setNode i fun node =>
        { node with stdoutClosed := true, stdoutReadable := false, stdoutWatch := none }).note
          (.closedStdout i)).node i).outgoing = (r.node i).outgoing :=
      keeps_setNode Node.outgoing (fun node => by rfl) i i
    rw [← houtgoing] at hdrained
    exact hdrained

/-! ## The read loop -/

/-- The limit of a read is the room of the slowest consumer. -/
theorem limit_le (rooms : Nat → Nat) (edges : List Nat) (start : Nat) :
    edges.foldl (fun limit e => min limit (rooms e)) start ≤ start ∧
      ∀ e ∈ edges, edges.foldl (fun limit e => min limit (rooms e)) start ≤ rooms e := by
  induction edges generalizing start with
  | nil => simp
  | cons e edges ih =>
    obtain ⟨hstart, hall⟩ := ih (min start (rooms e))
    rw [List.foldl_cons]
    refine ⟨by omega, fun e' he' => ?_⟩
    rcases List.mem_cons.mp he' with rfl | he'
    · omega
    · exact hall e' he'

theorem limit_pos (rooms : Nat → Nat) {edges : List Nat} {start : Nat} (hstart : 0 < start)
    (hall : ∀ e ∈ edges, 0 < rooms e) :
    0 < edges.foldl (fun limit e => min limit (rooms e)) start := by
  induction edges generalizing start with
  | nil => exact hstart
  | cons e edges ih =>
    rw [List.foldl_cons]
    have hroom := hall e List.mem_cons_self
    exact ih (by omega) fun e' he' => hall e' (List.mem_cons_of_mem e he')

theorem mem_activeEdges (hwired : Wired r) {i e : Nat} :
    e ∈ r.activeEdges i ↔
      e < r.edges.length ∧ (r.edge e).producer = i ∧ (r.edge e).consumerClosed = false := by
  unfold activeEdges
  rw [List.mem_filter, hwired.outgoing, and_assoc]
  simp

/-- A producer whose next read has room may be read, and no other. -/
theorem canRead_iff {i : Nat} :
    r.producerCanRead i = true ↔ r.activeEdges i = [] ∨ r.readLimit i ≠ 0 := by
  have hfull : ∀ e, (r.edge e).buffer.full = true ↔ (r.edge e).buffer.available = 0 := by
    intro e
    have hle := (r.edge e).buffer.length_contents_le
    rw [BoundedBuffer.full_iff, BoundedBuffer.available_eq]
    omega
  have hcan : r.producerCanRead i = true ↔ ∀ e ∈ r.activeEdges i,
      (r.edge e).buffer.available ≠ 0 := by
    unfold producerCanRead activeEdges
    rw [List.all_eq_true]
    refine ⟨fun h e he => ?_, fun h e he => ?_⟩
    · obtain ⟨hmem, hopen⟩ := List.mem_filter.mp he
      have hroom := h e hmem
      rw [Ne, ← hfull]
      simp only [Bool.not_eq_eq_eq_not, Bool.not_true] at hopen
      simpa [hopen] using hroom
    · by_cases hclosed : (r.edge e).consumerClosed = true
      · simp [hclosed]
      · have hroom := h e (List.mem_filter.mpr ⟨he, by simpa using hclosed⟩)
        rw [Ne, ← hfull] at hroom
        simp [hroom]
  rw [hcan]
  unfold readLimit
  constructor
  · intro hrooms
    right
    have hstart : 0 < kReadBytes := by decide
    have hpos := limit_pos (fun e => (r.edge e).buffer.available) hstart fun e he =>
      Nat.pos_of_ne_zero (hrooms e he)
    omega
  · rintro (hnone | hlimit) e he
    · rw [hnone] at he
      cases he
    · have hle :=
        (limit_le (fun e => (r.edge e).buffer.available) (r.activeEdges i) kReadBytes).2 e he
      omega

/-- The buffers count what they are fed. -/
theorem feed_counts {e : Nat} (he : e < r.edges.length)
    (hpolicy : ∀ e, (r.edge e).buffer.policy = .Block)
    (hbuffered : r.buffered = (r.edges.map (·.buffer.contents.length)).sum) (chunk : Bytes) :
    (∀ j, ((feed chunk r e).edge j).buffer.policy = .Block) ∧
      (feed chunk r e).buffered = ((feed chunk r e).edges.map (·.buffer.contents.length)).sum := by
  have hblocks : ∀ j, psx.stream.dropsOnOverflow (r.edge j).buffer.policy = false := by
    intro j
    rw [hpolicy]
    rfl
  constructor
  · intro j
    have hedge : (feed chunk r e).edge j = if j = e then
        { r.edge j with buffer := ((r.edge j).buffer.append chunk).1 } else r.edge j :=
      edge_setEdge he _ j
    rw [hedge]
    split_ifs
    · exact (BoundedBuffer.append_blocks (hblocks j) chunk).2.1.trans (hpolicy j)
    · exact hpolicy j
  · have hsum := buffered_setEdge he
      (fun edge => { edge with buffer := (edge.buffer.append chunk).1 }) hbuffered
    obtain ⟨hcontents, -, hcount⟩ := BoundedBuffer.append_blocks (hblocks e) chunk
    dsimp only at hsum
    rw [hcontents, List.length_append, List.length_take] at hsum
    unfold feed
    dsimp only
    omega

/-- A chunk that was read, in the buffers of all edges whose consumer is there. -/
def fedAll (r : DagRunner capacity) (index : Nat) (chunk : Bytes) : DagRunner capacity :=
  (r.activeEdges index).foldl (feed chunk) (r.note (.read index chunk))

/-- What a chunk changes. -/
structure Fed (i : Nat) (chunk : Bytes) (r r' : DagRunner capacity) : Prop where
  edge : ∀ e, r'.edge e = if e ∈ r.activeEdges i then
    { r.edge e with buffer := ((r.edge e).buffer.append chunk).1 } else r.edge e
  nodes : r'.nodes = r.nodes
  edges : r'.edges.length = r.edges.length
  links : r'.links = r.links
  log : r'.log = r.log ++ [.read i chunk]
  policy : ∀ e, (r'.edge e).buffer.policy = .Block
  buffered : r'.buffered = (r'.edges.map (·.buffer.contents.length)).sum

theorem fed_fedAll {i : Nat} (h : Flow reading none [] [] r) (chunk : Bytes) :
    Fed i chunk r (r.fedAll i chunk) := by
  have hlt : ∀ e ∈ r.activeEdges i, e < r.edges.length :=
    fun e he => ((mem_activeEdges h.wired).mp he).1
  have hnodup : (r.activeEdges i).Nodup := (h.wired.nodup i).filter _
  have hcounts : (r.fedAll i chunk).edges.length = r.edges.length ∧
      (∀ e, ((r.fedAll i chunk).edge e).buffer.policy = .Block) ∧
      (r.fedAll i chunk).buffered =
        ((r.fedAll i chunk).edges.map (·.buffer.contents.length)).sum := by
    refine Trace.foldl_induction (P := fun s : DagRunner capacity =>
      s.edges.length = r.edges.length ∧ (∀ e, (s.edge e).buffer.policy = .Block) ∧
        s.buffered = (s.edges.map (·.buffer.contents.length)).sum)
      ⟨rfl, h.books.policy, h.books.buffered⟩ fun pre e post hsplit hpre => ?_
    have he : e < r.edges.length := hlt e (by rw [hsplit]; simp)
    refine ⟨(length_setEdge ..).trans hpre.1, ?_⟩
    exact feed_counts (hpre.1.symm ▸ he) hpre.2.1 hpre.2.2 chunk
  unfold fedAll at *
  constructor
  · exact edge_foldl (fun edge => { edge with buffer := (edge.buffer.append chunk).1 })
      (fun r e => by rfl) hnodup hlt
  · exact foldl_keeps DagRunner.nodes (fun r e => by rfl) _ _
  · exact hcounts.1
  · refine foldl_keeps DagRunner.links (fun r e => ?_) _ _
    exact links_setEdge _ fun edge => rfl
  · exact foldl_keeps DagRunner.log (fun r e => by rfl) _ _
  · exact hcounts.2.1
  · exact hcounts.2.2

theorem Flow.fedAll {i : Nat} (h : Flow (some i) none [] [] r) {chunk : Bytes}
    (hfits : ∀ e ∈ r.activeEdges i, chunk.length ≤ (r.edge e).buffer.available) :
    Flow (some i) none ((r.fedAll i chunk).consumersOf (r.activeEdges i)) []
      (r.fedAll i chunk) := by
  have hfed := fed_fedAll (i := i) h chunk
  generalize r.fedAll i chunk = r' at *
  have hnode : ∀ j, r'.node j = r.node j := by
    intro j
    unfold node
    rw [hfed.nodes]
  have hcontents : ∀ e, (r'.edge e).buffer.contents =
      (r.edge e).buffer.contents ++ if e ∈ r.activeEdges i then chunk else [] := by
    intro e
    rw [hfed.edge]
    by_cases hmem : e ∈ r.activeEdges i
    · rw [if_pos hmem, if_pos hmem]
      have hblocks : psx.stream.dropsOnOverflow (r.edge e).buffer.policy = false := by
        rw [h.books.policy]
        rfl
      refine (BoundedBuffer.append_blocks hblocks chunk).1.trans ?_
      rw [List.take_of_length_le (hfits e hmem)]
    · rw [if_neg hmem, if_neg hmem, List.append_nil]
  have hsame : ∀ e, (r'.edge e).producer = (r.edge e).producer ∧
      (r'.edge e).consumer = (r.edge e).consumer ∧
      (r'.edge e).sourceClosed = (r.edge e).sourceClosed ∧
      (r'.edge e).consumerClosed = (r.edge e).consumerClosed := by
    intro e
    rw [hfed.edge]
    split_ifs <;> exact ⟨rfl, rfl, rfl, rfl⟩
  have hother : ∀ j, j ≠ i → r'.producerCanRead j = r.producerCanRead j := by
    intro j hj
    unfold producerCanRead
    rw [hnode]
    refine Bool.eq_iff_iff.mpr ?_
    rw [List.all_eq_true, List.all_eq_true]
    refine forall₂_congr fun e he => ?_
    have hnot : e ∉ r.activeEdges i := by
      rw [mem_activeEdges h.wired]
      rintro ⟨-, hproducer, -⟩
      exact hj (((h.wired.outgoing j e).mp he).2.symm.trans hproducer)
    rw [hfed.edge, if_neg hnot]
  have hless : r'.producerCanRead i = true → r.producerCanRead i = true := by
    unfold producerCanRead
    rw [hnode, List.all_eq_true, List.all_eq_true]
    intro hall e he
    have hroom := hall e he
    rw [(hsame e).2.2.2] at hroom
    simp only [Bool.or_eq_true, Bool.not_eq_true', ← Bool.not_eq_true] at hroom ⊢
    refine hroom.imp_right fun hnot hfull => hnot ?_
    have hle := (r'.edge e).buffer.length_contents_le
    rw [BoundedBuffer.full_iff] at hfull ⊢
    rw [hcontents, List.length_append] at hle ⊢
    omega
  refine ⟨h.wired.congr (by rw [hfed.nodes]) hfed.edges (fun j => by rw [hnode]; exact ⟨rfl, rfl⟩)
    fun e => ⟨(hsame e).1, (hsame e).2.1⟩, ?_, ?_, ?_, ?_⟩
  · refine ⟨hfed.policy, fun e he hleft => ?_, fun e he => absurd he List.not_mem_nil,
      fun e he hopen => ?_, hfed.buffered⟩
    · rw [(hsame e).2.2.2, (hsame e).2.1, hnode]
      exact h.books.gone e (hfed.edges ▸ he) hleft
    · rw [hfed.edges] at he
      rw [(hsame e).2.2.2] at hopen
      have hkept := h.books.kept e he hopen
      rw [(hsame e).1, hcontents, hfed.log]
      unfold readOf wroteOf at hkept ⊢
      simp only [List.flatMap_append, List.flatMap_singleton, Event.readFrom, Event.wroteTo,
        List.append_nil]
      rw [hkept, List.append_assoc]
      by_cases hproducer : (r.edge e).producer = i
      · rw [if_pos hproducer.symm, if_pos ((mem_activeEdges h.wired).mpr ⟨he, hproducer, hopen⟩)]
      · rw [if_neg (Ne.symm hproducer), if_neg]
        rw [mem_activeEdges h.wired]
        exact fun hmem => hproducer hmem.2.1
  · refine ⟨fun j hj => ?_, fun j _ hopen hcan => ?_, fun j _ hreading hopen hreadable => ?_⟩
    · rw [hnode]
      exact h.interest.watch j (by rw [← hfed.nodes]; exact hj)
    · rw [hnode] at hopen ⊢
      by_cases heq : j = i
      · subst heq
        exact h.interest.runs j (Option.some_ne_none j).symm hopen (hless hcan)
      · rw [hother j heq] at hcan
        exact h.interest.runs j (Option.some_ne_none j).symm hopen hcan
    · rw [hnode] at hopen hreadable
      rw [hother j fun heq => hreading (congrArg some heq.symm)]
      exact h.interest.rests j (Option.some_ne_none j).symm hreading hopen hreadable
  · have hquiet : ∀ j, j ∉ r'.consumersOf (r.activeEdges i) → ∀ e < r.edges.length,
        (r.edge e).consumer = j → e ∉ r.activeEdges i := by
      intro j hj e he hconsumer hmem
      apply hj
      rw [mem_consumersOf, hfed.nodes]
      exact ⟨hconsumer ▸ h.wired.consumer e he, e, hmem, (hsame e).2.1.trans hconsumer⟩
    refine ⟨fun j hj => ?_, fun j hj hopen e he hconsumer hsome => ?_, fun j hj hopen => ?_⟩
    · rw [hnode] at hj ⊢
      exact h.served.watch j hj
    · rw [hfed.edges] at he
      rw [(hsame e).2.1] at hconsumer
      rw [hcontents, if_neg (hquiet j hj e he hconsumer), List.append_nil] at hsome
      rw [hnode] at hopen ⊢
      exact h.served.armed j List.not_mem_nil hopen e he hconsumer hsome
    · rw [hnode] at hopen
      obtain ⟨e, he, hconsumer, hsource⟩ := h.served.fed j List.not_mem_nil hopen
      refine ⟨e, hfed.edges.symm ▸ he, (hsame e).2.1.trans hconsumer, ?_⟩
      rw [(hsame e).2.2.1, hcontents, if_neg (hquiet j hj e he hconsumer), List.append_nil]
      exact hsource
  · refine ⟨fun e he => ?_, fun j hj => ?_, fun e he hshut => ?_, ?_⟩
    · rw [(hsame e).2.2.1, (hsame e).1, hnode]
      exact h.ends.sourced e (hfed.edges ▸ he)
    · rw [hnode] at hj
      rw [hfed.log]
      exact List.mem_append_left _ (h.ends.noted j hj)
    · rw [(hsame e).2.1] at hshut ⊢
      rw [hnode] at hshut
      rw [hfed.log]
      exact List.mem_append_left _ (h.ends.shut e (hfed.edges ▸ he) hshut)
    · rw [hfed.links, hfed.log]
      exact h.ends.lawful.snoc trivial

theorem Flow.deliver {i : Nat} (h : Flow (some i) none [] [] r) {chunk : Bytes}
    (hfits : ∀ e ∈ r.activeEdges i, chunk.length ≤ (r.edge e).buffer.available) :
    Flow (some i) none [] [] (r.deliver i chunk) := by
  have hfed := h.fedAll hfits
  unfold DagRunner.deliver
  dsimp only
  by_cases hnone : (r.node i).outgoing = []
  · have hactive : r.activeEdges i = [] := by
      unfold activeEdges
      rw [hnone]
      rfl
    have hnobody : (r.fedAll i chunk).consumersOf [] = [] := by
      unfold consumersOf
      simp
    rw [hactive, hnobody] at hfed
    have hread : Flow (some i) none [] [] (r.note (.read i chunk)) := by
      unfold DagRunner.fedAll at hfed
      rw [hactive] at hfed
      exact hfed
    have hsink : ((r.note (.read i chunk)).node i).outgoing = [] := hnone
    rw [if_pos hsink]
    split_ifs
    · exact hread.note (e := .output chunk) trivial
    · exact hread
  · have hproducer : ¬ ((r.note (.read i chunk)).node i).outgoing = [] := hnone
    rw [if_neg hproducer]
    exact hfed.drainConsumers

/-- The loop stopped before the read that would have blocked. -/
theorem Flow.blocked {i : Nat} (h : Flow (some i) none [] [] r)
    (hroom : ¬ (r.activeEdges i ≠ [] ∧ r.readLimit i = 0)) : Flow none none [] [] r := by
  have hcan : r.producerCanRead i = true := by
    rw [canRead_iff]
    by_cases hactive : r.activeEdges i = []
    · exact .inl hactive
    · exact .inr fun hzero => hroom ⟨hactive, hzero⟩
  refine ⟨h.wired, h.books, ⟨h.interest.watch, h.interest.runs,
    fun j hstale _ hopen hreadable => ?_⟩,
    h.served, h.ends⟩
  by_cases heq : j = i
  · rw [heq]
    exact hcan
  · exact h.interest.rests j hstale (fun hsome => heq (Option.some.inj hsome).symm) hopen hreadable

/-- The loop stopped because a consumer has no room. -/
theorem Flow.rest {i : Nat} (h : Flow (some i) none [] [] r) (hi : i < r.nodes.length)
    (hfull : r.activeEdges i ≠ [] ∧ r.readLimit i = 0) :
    Flow none none [] [] (r.setProducerReadable i false) := by
  have hcannot : r.producerCanRead i = false := by
    rw [← Bool.not_eq_true, canRead_iff]
    rintro (hnone | hlimit)
    · exact hfull.1 hnone
    · exact hlimit hfull.2
  have hstale : Flow none (some i) [] [] r := by
    refine ⟨h.wired, h.books, ⟨h.interest.watch, fun j hstale => h.interest.runs j nofun,
      fun j hstale _ => h.interest.rests j nofun hstale⟩, h.served, h.ends⟩
  rw [← hcannot]
  exact hstale.settle hi

theorem Flow.readLoop {i : Nat} (h : Flow (some i) none [] [] r) (hi : i < r.nodes.length)
    (reads : List (Result Bytes)) : Flow none none [] [] (readLoop i reads r) := by
  induction reads generalizing r with
  | nil =>
    unfold DagRunner.readLoop
    split_ifs with hclosed hfull
    · exact h.unread hclosed
    · exact h.rest hi hfull
    · exact h.blocked hfull
  | cons read reads ih =>
    unfold DagRunner.readLoop
    split_ifs with hclosed hfull
    · exact h.unread hclosed
    · exact h.rest hi hfull
    · cases read with
      | ok bytes =>
        dsimp only
        split_ifs
        · exact h.closeProducer hi
        · have hside := aside_deliver r i (bytes.take (r.readLimit i))
          apply ih (h.deliver fun e he => ?_)
          · rw [hside.length]
            exact hi
          · have hlimit := (limit_le (fun e => (r.edge e).buffer.available) (r.activeEdges i)
              kReadBytes).2 e he
            exact (List.length_take_le _ _).trans hlimit
      | error e =>
        dsimp only
        split_ifs
        · exact h.blocked hfull
        · exact h.closeProducer hi

end psx.pipeline.DagRunner
