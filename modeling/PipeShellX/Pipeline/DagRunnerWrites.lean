-- The writing half of a local graph: the edges of a consumer are drained in turn, until they are
-- empty, the pipe is full, or the stdin is closed.
import PipeShellX.Pipeline.DagRunnerFlow

namespace psx.pipeline.DagRunner

open psx.os (ExitStatus Interest Waits)
open psx.stream (BoundedBuffer)

variable {capacity : Nat} {r r' : DagRunner capacity} {reading stale : Option Nat}
  {pending left : List Nat}

/-! ## The end of a stdin -/

theorem length_setEdge (e : Nat) (f : EdgeState capacity → EdgeState capacity) :
    (r.setEdge e f).edges.length = r.edges.length := List.length_modify ..

/-- The bytes of one edge change, and the count of all bytes with them. -/
theorem buffered_setEdge {e : Nat} (he : e < r.edges.length)
    (f : EdgeState capacity → EdgeState capacity)
    (hbuffered : r.buffered = (r.edges.map (·.buffer.contents.length)).sum) :
    ((r.setEdge e f).edges.map (·.buffer.contents.length)).sum + (r.edge e).buffer.contents.length =
      r.buffered + (f (r.edge e)).buffer.contents.length := by
  rw [hbuffered]
  exact Counts.sum_map_modify (fun edge : EdgeState capacity => edge.buffer.contents.length) f _ he

/-- `closeEdge` before it sets the interest. -/
def dropEdge (r : DagRunner capacity) (index : Nat) : DagRunner capacity :=
  { r.setEdge index fun edge =>
      { edge with buffer := edge.buffer.clear, consumerClosed := true } with
    buffered := r.buffered - (r.edge index).buffer.contents.length }

theorem edge_dropEdge {e : Nat} (he : e < r.edges.length) (j : Nat) :
    (r.dropEdge e).edge j = if j = e then
      { r.edge j with buffer := (r.edge j).buffer.clear, consumerClosed := true } else r.edge j :=
  edge_setEdge he _ j

theorem Flow.dropEdge {e : Nat} (h : Flow reading none pending (e :: left) r)
    (he : e < r.edges.length) :
    Flow reading (some (r.edge e).producer) pending left (r.dropEdge e) := by
  have hshut := h.books.leaving e List.mem_cons_self
  have hedge := edge_dropEdge he
  have hlength : (r.dropEdge e).edges.length = r.edges.length := length_setEdge ..
  have hother : ∀ j, j ≠ e → (r.dropEdge e).edge j = r.edge j :=
    fun j hj => by rw [hedge, if_neg hj]
  have hends : ∀ j, ((r.dropEdge e).edge j).producer = (r.edge j).producer ∧
      ((r.dropEdge e).edge j).consumer = (r.edge j).consumer ∧
      ((r.dropEdge e).edge j).sourceClosed = (r.edge j).sourceClosed := by
    intro j
    rw [hedge]
    split_ifs <;> exact ⟨rfl, rfl, rfl⟩
  have haside : Aside r (r.dropEdge e) :=
    aside_edges rfl (links_setEdge _ fun edge => rfl) rfl rfl rfl rfl
  refine ⟨h.wired.aside haside, ?_, ?_, ?_, ?_⟩
  · constructor
    · intro j
      rw [hedge]
      split_ifs
      · exact h.books.policy j
      · exact h.books.policy j
    · intro j hj hleft'
      rw [hlength] at hj
      rw [(hends j).2.1]
      by_cases heq : j = e
      · rw [hedge, if_pos heq, heq]
        change true = !(r.node (r.edge e).consumer).stdinOpen
        rw [hshut]
        rfl
      · rw [hother j heq]
        exact h.books.gone j hj (by simp [heq, hleft'])
    · intro j hj
      rw [(hends j).2.1]
      exact h.books.leaving j (List.mem_cons_of_mem e hj)
    · intro j hj hopen
      rw [hlength] at hj
      by_cases heq : j = e
      · rw [hedge, if_pos heq] at hopen
        cases hopen
      · rw [hother j heq] at hopen ⊢
        exact h.books.kept j hj hopen
    · have hsum := buffered_setEdge he
        (fun edge => { edge with buffer := edge.buffer.clear, consumerClosed := true })
          h.books.buffered
      simp only [BoundedBuffer.contents_clear, List.length_nil] at hsum
      unfold DagRunner.dropEdge
      dsimp only
      omega
  · exact h.interest.touch (fun i hi => ((h.wired.outgoing i e).mp hi).2.symm)
      hother rfl fun i => rfl
  · refine ⟨h.served.watch, fun i hi hopen j hj hconsumer hsome => ?_, fun i hi hopen => ?_⟩
    · rw [hlength] at hj
      rw [(hends j).2.1] at hconsumer
      by_cases heq : j = e
      · rw [hedge, if_pos heq] at hsome
        exact absurd (BoundedBuffer.contents_clear _) hsome
      · rw [hother j heq] at hsome
        exact h.served.armed i hi hopen j hj hconsumer hsome
    · obtain ⟨j, hj, hconsumer, hfed⟩ := h.served.fed i hi hopen
      have heq : j ≠ e := by
        rintro rfl
        rw [hconsumer] at hshut
        exact absurd (hshut.symm.trans hopen) nofun
      refine ⟨j, hlength.symm ▸ hj, ?_⟩
      rw [hother j heq]
      exact ⟨hconsumer, hfed⟩
  · refine ⟨fun j hj => ?_, h.ends.noted, fun j hj => ?_, ?_⟩
    · rw [(hends j).2.2, (hends j).1]
      exact h.ends.sourced j (hlength ▸ hj)
    · rw [(hends j).2.1]
      exact h.ends.shut j (hlength ▸ hj)
    · rw [haside.links]
      exact h.ends.lawful

theorem Flow.closeEdge {e : Nat} (h : Flow reading none pending (e :: left) r)
    (he : e < r.edges.length) : Flow reading none pending left (r.closeEdge e) := by
  have hproducer : ((r.dropEdge e).edge e).producer = (r.edge e).producer := by
    rw [edge_dropEdge he, if_pos rfl]
  have hclose : r.closeEdge e = (r.dropEdge e).setProducerReadable ((r.dropEdge e).edge e).producer
      ((r.dropEdge e).producerCanRead ((r.dropEdge e).edge e).producer) := rfl
  rw [hclose, hproducer]
  exact (h.dropEdge he).settle (h.wired.producer e he)

/-- `closeConsumer` before it closes the edges. -/
def shutStdin (r : DagRunner capacity) (index : Nat) : DagRunner capacity :=
  (r.setNode index fun node => { node with stdinWatch := none, stdinOpen := false }).note
    (.closedStdin index)

theorem Flow.shutStdin {i : Nat} (h : Flow reading none (i :: pending) [] r)
    (hopen : (r.node i).stdinOpen = true) (hcause : Cause r.links r.log i) :
    Flow reading none pending ((r.shutStdin i).node i).incoming (r.shutStdin i) := by
  have hi : i < r.nodes.length := by
    by_contra hout
    rw [node_outside hout] at hopen
    cases hopen
  have hnode : ∀ j, (r.shutStdin i).node j = if j = i then
      { r.node j with stdinWatch := none, stdinOpen := false } else r.node j := node_setNode hi _
  have hstdout : ∀ j, ((r.shutStdin i).node j).stdout = (r.node j).stdout := by
    intro j
    rw [hnode]
    split_ifs <;> rfl
  have hother : ∀ j, j ≠ i → (r.shutStdin i).node j = r.node j :=
    fun j hj => by rw [hnode, if_neg hj]
  have hself : ((r.shutStdin i).node i).stdinOpen = false := by rw [hnode, if_pos rfl]
  have haside : Aside r (r.shutStdin i) := by
    have hshut : Aside r (r.setNode i fun node =>
        { node with stdinWatch := none, stdinOpen := false }) := aside_setNode i fun node => rfl
    exact hshut.trans (aside_note trivial)
  have hwired := h.wired.aside haside
  have hlinks := haside.links
  have hedges : (r.shutStdin i).edges = r.edges := rfl
  have hlog : (r.shutStdin i).log = r.log ++ [.closedStdin i] := rfl
  have hbuffered : (r.shutStdin i).buffered = r.buffered := rfl
  have hlength : (r.shutStdin i).nodes.length = r.nodes.length := haside.length
  generalize r.shutStdin i = r' at *
  have hedge := edge_congr hedges
  refine ⟨hwired, ?_, h.interest.congr hedges hlength hstdout, ?_, ?_⟩
  · constructor
    · intro e
      rw [hedge]
      exact h.books.policy e
    · intro e he hleft
      rw [hwired.incoming] at hleft
      have hne : (r'.edge e).consumer ≠ i := fun heq => hleft ⟨he, heq⟩
      rw [hother _ hne, hedge]
      exact h.books.gone e (hedges ▸ he) List.not_mem_nil
    · intro e he
      rw [((hwired.incoming i e).mp he).2]
      exact hself
    · intro e he
      rw [hedge, hlog]
      unfold readOf wroteOf
      simp only [List.flatMap_append, List.flatMap_singleton, Event.readFrom, Event.wroteTo,
        List.append_nil]
      exact h.books.kept e (hedges ▸ he)
    · rw [hbuffered, hedges]
      exact h.books.buffered
  · have hne : ∀ j, (r'.node j).stdinOpen = true → j ≠ i := by
      rintro j hin rfl
      exact absurd (hself.symm.trans hin) nofun
    refine ⟨fun j hin => ?_, fun j hj hin => ?_, fun j hj hin => ?_⟩
    · have hji := hne j hin
      rw [hother j hji] at hin ⊢
      exact h.served.watch j hin
    · have hji := hne j hin
      have hpending : j ∉ i :: pending := by simp [hji, hj]
      rw [hother j hji] at hin ⊢
      intro e he
      rw [hedge]
      exact h.served.armed j hpending hin e (hedges ▸ he)
    · have hji := hne j hin
      have hpending : j ∉ i :: pending := by simp [hji, hj]
      rw [hother j hji] at hin
      obtain ⟨e, he, hfed⟩ := h.served.fed j hpending hin
      refine ⟨e, hedges ▸ he, ?_⟩
      rw [hedge]
      exact hfed
  · have hclosed : ∀ j, (r'.node j).stdoutClosed = (r.node j).stdoutClosed :=
      fun j => congrArg Prod.fst (hstdout j)
    refine ⟨fun e he => ?_, fun j hj => ?_, fun e he hshut => ?_, ?_⟩
    · rw [hedge, hclosed]
      exact h.ends.sourced e (hedges ▸ he)
    · rw [hclosed] at hj
      rw [hlog]
      exact List.mem_append_left _ (h.ends.noted j hj)
    · rw [hlog]
      by_cases heq : (r'.edge e).consumer = i
      · rw [heq]
        exact List.mem_append_right _ (List.mem_singleton_self _)
      · rw [hother _ heq] at hshut
        rw [hedge] at hshut ⊢
        exact List.mem_append_left _ (h.ends.shut e (hedges ▸ he) hshut)
    · rw [hlinks, hlog]
      exact h.ends.lawful.snoc hcause

theorem Flow.closeEdges {edges : List Nat} (h : Flow reading none pending edges r)
    (hedges : ∀ e ∈ edges, e < r.edges.length) :
    Flow reading none pending [] (edges.foldl DagRunner.closeEdge r) := by
  induction edges generalizing r with
  | nil => exact h
  | cons e edges ih =>
    apply ih (h.closeEdge (hedges e List.mem_cons_self))
    intro e' he'
    rw [(aside_closeEdge r e).length_edges]
    exact hedges e' (List.mem_cons_of_mem e he')

/-- A node whose stdin is closed needs no draining. -/
theorem Flow.shut {i : Nat} (h : Flow reading stale (i :: pending) left r)
    (hshut : (r.node i).stdinOpen = false) : Flow reading stale pending left r := by
  have hne : ∀ j, j ∉ pending → (r.node j).stdinOpen = true → j ∉ i :: pending := by
    intro j hj hopen
    have : j ≠ i := by
      rintro rfl
      exact absurd (hshut.symm.trans hopen) nofun
    simp [this, hj]
  refine ⟨h.wired, h.books, h.interest, ⟨h.served.watch, fun j hj hopen => ?_,
    fun j hj hopen => ?_⟩,
    h.ends⟩
  · exact h.served.armed j (hne j hj hopen) hopen
  · exact h.served.fed j (hne j hj hopen) hopen

theorem Flow.closeConsumer {i : Nat} (h : Flow reading none (i :: pending) [] r)
    (hcause : Cause r.links r.log i) : Flow reading none pending [] (r.closeConsumer i) := by
  unfold DagRunner.closeConsumer
  by_cases hopen : (r.node i).stdinOpen = true
  · rw [if_neg (by simpa using hopen)]
    have hshut := h.shutStdin hopen hcause
    exact hshut.closeEdges fun e he => ((hshut.wired.incoming i e).mp he).1
  · rw [if_pos (by simpa using hopen)]
    exact h.shut (by simpa using hopen)

/-! ## The write loop -/

/-- The node is drained no more: it waits for the pipe. -/
theorem Flow.setConsumerWritable {i : Nat} (h : Flow reading none (i :: pending) [] r)
    (writable : Bool) (harmed : (r.node i).stdinOpen = true → ∀ e < r.edges.length,
      (r.edge e).consumer = i → (r.edge e).buffer.contents ≠ [] → writable = true)
    (hfed : (r.node i).stdinOpen = true → ∃ e < r.edges.length, (r.edge e).consumer = i ∧
      ((r.edge e).sourceClosed = false ∨ (r.edge e).buffer.contents ≠ [])) :
    Flow reading none pending [] (r.setConsumerWritable i writable) := by
  have haside := aside_setConsumerWritable (r := r) i writable
  unfold DagRunner.setConsumerWritable at haside ⊢
  by_cases hopen : (r.node i).stdinOpen = true
  · have hwatch := h.served.watch i hopen
    rw [if_neg (by simp [hopen, hwatch])] at haside ⊢
    have hi : i < r.nodes.length := by
      by_contra hout
      rw [node_outside hout] at hopen
      cases hopen
    have hnode := node_setNode hi fun node =>
      { node with stdinWatch := some (if writable then .Writable else .None) }
    have hstdin : ∀ j, ((r.setNode i fun node => { node with
          stdinWatch := some (if writable then .Writable else .None) }).node j).stdinOpen =
          (r.node j).stdinOpen := keeps_setNode Node.stdinOpen (fun node => by rfl) i
    refine ⟨h.wired.aside haside, h.books.congr rfl rfl rfl hstdin,
      h.interest.congr rfl haside.length (keeps_setNode Node.stdout (fun node => by rfl) i),
      ⟨fun j hj => ?_, fun j hj hin => ?_, fun j hj hin => ?_⟩,
      h.ends.congr rfl rfl (keeps_setNode Node.stdoutClosed (fun node => by rfl) i) hstdin⟩
    · rw [hstdin] at hj
      rw [hnode]
      split_ifs
      · exact nofun
      · exact nofun
      · exact h.served.watch j hj
    · rw [hstdin] at hin
      rw [hnode]
      by_cases heq : j = i
      · subst heq
        rw [if_pos rfl]
        intro e he hconsumer hsome
        have hwritable := harmed hin e he hconsumer hsome
        simp [hwritable]
      · rw [if_neg heq]
        exact h.served.armed j (by simp [heq, hj]) hin
    · rw [hstdin] at hin
      by_cases heq : j = i
      · subst heq
        exact hfed hin
      · exact h.served.fed j (by simp [heq, hj]) hin
  · rw [if_pos (by simp [hopen])]
    exact h.shut (by simpa using hopen)

/-- Whatever place a round starts from, it comes to each. -/
theorem round_visits {n slot : Nat} (start : Nat) (hslot : slot < n) :
    ∃ offset < n, (start + offset) % n = slot := by
  have hn : 0 < n := by omega
  have hlt := Nat.mod_lt start hn
  refine ⟨(slot + (n - start % n)) % n, Nat.mod_lt _ hn, ?_⟩
  rw [Nat.add_mod_mod, ← Nat.mod_add_mod, ← Nat.add_assoc, Nat.add_comm _ slot, Nat.add_assoc,
    Nat.add_sub_cancel' (Nat.le_of_lt hlt), Nat.add_mod_right, Nat.mod_eq_of_lt hslot]

/-- The search visits every edge. -/
theorem nextSlot_none {i : Nat} (h : r.nextSlot i = none) :
    ∀ e ∈ (r.node i).incoming, (r.edge e).buffer.contents = [] := by
  unfold nextSlot at h
  dsimp only at h
  rw [List.find?_eq_none] at h
  intro e he
  obtain ⟨slot, hslot, rfl⟩ := List.mem_iff_getElem.mp he
  obtain ⟨offset, hoffset, hvisits⟩ := round_visits (r.node i).nextIncoming hslot
  have hmem : slot ∈ (List.range (r.node i).incoming.length).map fun offset =>
      ((r.node i).nextIncoming + offset) % (r.node i).incoming.length :=
    List.mem_map.mpr ⟨offset, List.mem_range.mpr hoffset, hvisits⟩
  have hempty := h slot hmem
  rw [List.getD_eq_getElem _ _ hslot] at hempty
  rw [← BoundedBuffer.empty_iff]
  simpa using hempty

theorem nextSlot_some {i slot : Nat} (h : r.nextSlot i = some slot) :
    (r.node i).incoming.getD slot 0 ∈ (r.node i).incoming ∧
      (r.edge ((r.node i).incoming.getD slot 0)).buffer.contents ≠ [] := by
  unfold nextSlot at h
  dsimp only at h
  have hsome := List.find?_some h
  obtain ⟨offset, hoffset, rfl⟩ := List.mem_map.mp (List.mem_of_find?_eq_some h)
  have hn := List.mem_range.mp hoffset
  have hslot : ((r.node i).nextIncoming + offset) % (r.node i).incoming.length <
      (r.node i).incoming.length := Nat.mod_lt _ (by omega)
  rw [List.getD_eq_getElem _ _ hslot] at hsome ⊢
  refine ⟨List.getElem_mem hslot, fun hnil => ?_⟩
  rw [(BoundedBuffer.empty_iff _).mpr hnil] at hsome
  cases hsome

/-- `wrote` before it sets the interest. -/
def took (r : DagRunner capacity) (index slot e : Nat) (bytes : Bytes) : DagRunner capacity :=
  (({ r.setEdge e fun edge => { edge with buffer := edge.buffer.drop bytes.length } with
      buffered := r.buffered - bytes.length }.setNode index) fun node =>
    { node with nextIncoming := (slot + 1) % (r.node index).incoming.length }).note (.wrote e bytes)

theorem aside_took (r : DagRunner capacity) (i slot e : Nat) (bytes : Bytes) :
    Aside r (r.took i slot e bytes) := by
  unfold took
  refine Aside.trans ?_ (aside_note trivial)
  refine Aside.trans ?_ (aside_setNode i fun node => rfl)
  exact aside_edges rfl (links_setEdge _ fun edge => rfl) rfl rfl rfl rfl

theorem Flow.took {i e : Nat} {bytes : Bytes} (h : Flow reading none (i :: pending) [] r)
    (slot : Nat) (he : e ∈ (r.node i).incoming) (hbytes : bytes <+: (r.edge e).buffer.contents) :
    Flow reading (some (r.edge e).producer) (i :: pending) [] (r.took i slot e bytes) := by
  obtain ⟨hlt, hconsumer⟩ := (h.wired.incoming i e).mp he
  have hedge : ∀ j, (r.took i slot e bytes).edge j = if j = e then
      { r.edge j with buffer := (r.edge j).buffer.drop bytes.length } else r.edge j :=
    edge_setEdge hlt _
  have hcontents : ((r.edge e).buffer.drop bytes.length).contents =
      (r.edge e).buffer.contents.drop bytes.length := BoundedBuffer.contents_discardFront ..
  have hsplit : bytes ++ (r.edge e).buffer.contents.drop bytes.length =
      (r.edge e).buffer.contents := by
    obtain ⟨rest, hrest⟩ := hbytes
    rw [← hrest, List.drop_left]
  have hedges : (r.took i slot e bytes).edges.length = r.edges.length := length_setEdge ..
  have hstdout : ∀ j, ((r.took i slot e bytes).node j).stdout = (r.node j).stdout :=
    keeps_setNode Node.stdout (fun node => by rfl) i
  have hstdin : ∀ j, ((r.took i slot e bytes).node j).stdin = (r.node j).stdin :=
    keeps_setNode Node.stdin (fun node => by rfl) i
  have hin : ∀ j, ((r.took i slot e bytes).node j).stdinOpen = (r.node j).stdinOpen :=
    fun j => congrArg Prod.fst (hstdin j)
  have hlog : (r.took i slot e bytes).log = r.log ++ [.wrote e bytes] := rfl
  have hbuffered : (r.took i slot e bytes).buffered =
      ((r.took i slot e bytes).edges.map (·.buffer.contents.length)).sum := by
    have hsum := buffered_setEdge hlt
      (fun edge => { edge with buffer := edge.buffer.drop bytes.length }) h.books.buffered
    rw [hcontents, List.length_drop] at hsum
    have hle := hbytes.length_le
    unfold DagRunner.took DagRunner.note
    dsimp only [DagRunner.setNode]
    omega
  have haside := aside_took r i slot e bytes
  have hwired := h.wired.aside haside
  have hlinks := haside.links
  have hlength := haside.length
  generalize r.took i slot e bytes = r' at *
  have hother : ∀ j, j ≠ e → r'.edge j = r.edge j := fun j hj => by rw [hedge, if_neg hj]
  have hends : ∀ j, (r'.edge j).producer = (r.edge j).producer ∧
      (r'.edge j).consumer = (r.edge j).consumer ∧
      (r'.edge j).sourceClosed = (r.edge j).sourceClosed ∧
      (r'.edge j).consumerClosed = (r.edge j).consumerClosed ∧
      (r'.edge j).buffer.policy = (r.edge j).buffer.policy := by
    intro j
    rw [hedge]
    split_ifs <;> exact ⟨rfl, rfl, rfl, rfl, rfl⟩
  refine ⟨hwired, ?_, ?_, ?_, ?_⟩
  · constructor
    · intro j
      rw [(hends j).2.2.2.2]
      exact h.books.policy j
    · intro j hj hleft
      rw [(hends j).2.2.2.1, (hends j).2.1, hin]
      exact h.books.gone j (hedges ▸ hj) hleft
    · exact fun j hj => absurd hj List.not_mem_nil
    · intro j hj hkept
      rw [hedges] at hj
      rw [(hends j).2.2.2.1] at hkept
      have hwas := h.books.kept j hj hkept
      rw [(hends j).1, hlog]
      unfold readOf wroteOf at hwas ⊢
      simp only [List.flatMap_append, List.flatMap_singleton, Event.readFrom, Event.wroteTo,
        List.append_nil]
      by_cases heq : j = e
      · subst heq
        rw [hwas, hedge, if_pos rfl, if_pos rfl, List.append_assoc]
        dsimp only
        rw [hcontents, hsplit]
      · rw [hother j heq, if_neg (Ne.symm heq), List.append_nil]
        exact hwas
    · exact hbuffered
  · exact h.interest.touch (fun j hj => ((h.wired.outgoing j e).mp hj).2.symm)
      hother hlength hstdout
  · refine ⟨fun j hj => ?_, fun j hj hopen' => ?_, fun j hj hopen' => ?_⟩
    · rw [hin] at hj
      rw [show (r'.node j).stdinWatch = _ from congrArg Prod.snd (hstdin j)]
      exact h.served.watch j hj
    · rw [hin] at hopen'
      rw [show (r'.node j).stdinWatch = _ from congrArg Prod.snd (hstdin j)]
      intro k hk hkj hsome
      rw [(hends k).2.1] at hkj
      have hne : k ≠ e := by
        rintro rfl
        exact hj (by simp [← hkj, hconsumer])
      rw [hother k hne] at hsome
      exact h.served.armed j hj hopen' k (hedges ▸ hk) hkj hsome
    · rw [hin] at hopen'
      obtain ⟨k, hk, hkj, hfed⟩ := h.served.fed j hj hopen'
      have hne : k ≠ e := by
        rintro rfl
        exact hj (by simp [← hkj, hconsumer])
      refine ⟨k, hedges.symm ▸ hk, ?_⟩
      rw [hother k hne]
      exact ⟨hkj, hfed⟩
  · have hclosed : ∀ j, (r'.node j).stdoutClosed = (r.node j).stdoutClosed :=
      fun j => congrArg Prod.fst (hstdout j)
    refine ⟨fun j hj => ?_, fun j hj => ?_, fun j hj hshut => ?_, ?_⟩
    · rw [(hends j).2.2.1, (hends j).1, hclosed]
      exact h.ends.sourced j (hedges ▸ hj)
    · rw [hclosed] at hj
      rw [hlog]
      exact List.mem_append_left _ (h.ends.noted j hj)
    · rw [(hends j).2.1] at hshut ⊢
      rw [hin] at hshut
      rw [hlog]
      exact List.mem_append_left _ (h.ends.shut j (hedges ▸ hj) hshut)
    · rw [hlinks, hlog]
      exact h.ends.lawful.snoc trivial

/-- What a write takes is the first part of a buffer. -/
theorem take_peek (b : BoundedBuffer capacity) (count : Nat) :
    b.peek.take count <+: b.contents := by
  obtain ⟨n, hpeek, -⟩ := b.peek_spec
  rw [hpeek]
  exact (List.take_prefix _ _).trans (List.take_prefix _ _)

theorem Flow.wrote {i slot : Nat} (h : Flow reading none (i :: pending) [] r)
    (hslot : r.nextSlot i = some slot) (count : Nat) :
    Flow reading none (i :: pending) [] (r.wrote i slot count) := by
  obtain ⟨hmem, -⟩ := nextSlot_some hslot
  obtain ⟨hlt, -⟩ := (h.wired.incoming i _).mp hmem
  have htook := h.took slot hmem (take_peek _ count)
  have hproducer := (aside_took r i slot ((r.node i).incoming.getD slot 0)
    ((r.edge ((r.node i).incoming.getD slot 0)).buffer.peek.take count)).producer
      ((r.node i).incoming.getD slot 0)
  have hsettled := htook.settle ((aside_took ..).length.symm ▸ h.wired.producer _ hlt)
  rw [← hproducer] at hsettled
  exact hsettled

theorem stdinOpen_wrote (r : DagRunner capacity) (i slot count j : Nat) :
    ((r.wrote i slot count).node j).stdinOpen = (r.node j).stdinOpen := by
  unfold DagRunner.wrote
  exact (keeps_setProducerReadable Node.stdinOpen (fun node _ _ => rfl) _ _ j).trans
    (keeps_setNode Node.stdinOpen (fun node => by rfl) i j)

/-- Nothing is left in the edges of a node. -/
theorem Flow.drained {i : Nat} (h : Flow reading none (i :: pending) [] r)
    (hopen : (r.node i).stdinOpen = true) (hnone : r.nextSlot i = none) :
    Flow reading none pending [] (r.drained i) := by
  have hempty := nextSlot_none hnone
  unfold DagRunner.drained
  by_cases hall : ((r.node i).incoming.all fun e => (r.edge e).sourceClosed ||
    (r.edge e).consumerClosed) = true
  · rw [if_pos hall]
    apply h.closeConsumer
    refine .inr (.inr fun e producer hlink => ?_)
    obtain ⟨hlt, hproducer, hconsumer⟩ := mem_links hlink
    have hmem := (h.wired.incoming i e).mpr ⟨hlt, hconsumer⟩
    have hhere : (r.edge e).consumerClosed = false := by
      rw [h.books.gone e hlt List.not_mem_nil, hconsumer, hopen]
      rfl
    have hover : (r.edge e).sourceClosed = true := by
      have := List.all_eq_true.mp hall e hmem
      rw [hhere, Bool.or_false] at this
      exact this
    have hkept := h.books.kept e hlt hhere
    rw [hempty e hmem, List.append_nil, hproducer] at hkept
    refine ⟨h.ends.noted producer ?_, hkept⟩
    rw [← hproducer, ← h.ends.sourced e hlt]
    exact hover
  · rw [if_neg hall]
    apply h.setConsumerWritable
    · intro _ e he hconsumer hsome
      exact absurd (hempty e ((h.wired.incoming i e).mpr ⟨he, hconsumer⟩)) hsome
    · intro _
      rw [Bool.not_eq_true, List.all_eq_false] at hall
      obtain ⟨e, he, hsource⟩ := hall
      obtain ⟨hlt, hconsumer⟩ := (h.wired.incoming i e).mp he
      refine ⟨e, hlt, hconsumer, .inl ?_⟩
      simp only [Bool.or_eq_true, not_or, Bool.not_eq_true] at hsource
      exact hsource.1

/-- Every way out of the write loop leaves the node closed, armed, or empty and fed. -/
theorem Flow.drainLoop {i : Nat} (h : Flow reading none (i :: pending) [] r)
    (hopen : (r.node i).stdinOpen = true) (writes : List (Result Nat)) :
    Flow reading none pending [] (drainLoop i writes r) := by
  have hwait : ∀ {r : DagRunner capacity} {slot : Nat} (writes : List (Result Nat)),
      Flow reading none (i :: pending) [] r → r.nextSlot i = some slot →
      Flow reading none pending [] ({ r with writes }.setConsumerWritable i true) := by
    intro r slot writes h hslot
    obtain ⟨hmem, hsome⟩ := nextSlot_some hslot
    obtain ⟨hlt, hconsumer⟩ := (h.wired.incoming i _).mp hmem
    apply (h.writes writes).setConsumerWritable
    · exact fun _ _ _ _ _ => rfl
    · exact fun _ => ⟨_, hlt, hconsumer, .inr hsome⟩
  induction writes generalizing r with
  | nil =>
    unfold DagRunner.drainLoop
    cases hslot : r.nextSlot i with
    | none => exact (h.writes []).drained hopen hslot
    | some slot => exact hwait [] h hslot
  | cons write writes ih =>
    unfold DagRunner.drainLoop
    cases hslot : r.nextSlot i with
    | none => exact (h.writes _).drained hopen hslot
    | some slot =>
      dsimp only
      split
      · exact hwait writes h hslot
      · apply ih (h.wrote hslot _)
        rw [stdinOpen_wrote]
        exact hopen
      · split_ifs
        · exact hwait writes h hslot
        · apply Flow.closeConsumer ((h.writes writes).note (e := .failed i) trivial)
          exact .inl (List.mem_append_right _ (List.mem_singleton_self _))

theorem Flow.drainConsumer {i : Nat} (h : Flow reading none (i :: pending) [] r) :
    Flow reading none pending [] (r.drainConsumer i) := by
  unfold DagRunner.drainConsumer
  by_cases hopen : (r.node i).stdinOpen = true
  · rw [if_neg (by simpa using hopen)]
    exact h.drainLoop hopen r.writes
  · rw [if_pos (by simpa using hopen)]
    exact h.shut (by simpa using hopen)

theorem Flow.drainConsumers {nodes : List Nat} (h : Flow reading none nodes [] r) :
    Flow reading none [] [] (nodes.foldl DagRunner.drainConsumer r) := by
  induction nodes generalizing r with
  | nil => exact h
  | cons i nodes ih => exact ih h.drainConsumer

end psx.pipeline.DagRunner
