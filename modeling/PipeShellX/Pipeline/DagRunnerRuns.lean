-- A local graph from its start on: the bytes of every edge are accounted for and no pipe waits in
-- vain, in every state between two callbacks.
import PipeShellX.Pipeline.DagRunnerReads

namespace psx.pipeline.DagRunner

open psx.os (ExitStatus Interest Waits)
open psx.stream (BoundedBuffer)

variable {capacity : Nat} {r r' : DagRunner capacity} {reading stale : Option Nat}
  {pending left : List Nat}

/-! ## The start and the runs -/

/-- Any node may be drained. -/
theorem Flow.visit (h : Flow reading stale [] left r) (i : Nat) :
    Flow reading stale [i] left r :=
  ⟨h.wired, h.books, h.interest, ⟨h.served.watch, fun j _ => h.served.armed j List.not_mem_nil,
    fun j _ => h.served.fed j List.not_mem_nil⟩, h.ends⟩

/-- What the reactor and the children know of a node is not part of it. -/
theorem Flow.setNode (h : Flow reading stale pending left r) {i : Nat} {f : Node → Node}
    (hstdin : ∀ node, (f node).stdin = node.stdin) (hstdout : ∀ node, (f node).stdout = node.stdout)
    (hincoming : ∀ node, (f node).incoming = node.incoming) (count : Nat) :
    Flow reading stale pending left { r.setNode i f with exitedCount := count } := by
  have hout := keeps_setNode (r := r) Node.stdout hstdout i
  refine h.same ?_ ?_ ?_ (h.wired.congr (length_setNode _) ?_ (fun j => ⟨?_, ?_⟩) fun e => ⟨?_, ?_⟩)
    (length_setNode _) (keeps_setNode Node.stdin hstdin i) hout
  · rfl
  · rfl
  · rfl
  · rfl
  · exact congrArg (·.2.2.2) (hout j)
  · exact keeps_setNode Node.incoming hincoming i j
  · rfl
  · rfl

theorem Flow.onChildExit (h : Flow none none [] [] r) (i : Nat) (waits : Waits) :
    Flow none none [] [] (r.onChildExit i waits) := by
  unfold DagRunner.onChildExit
  split_ifs
  · exact h
  · apply Flow.finishIfDone
    have hexit : Flow none none [] [] { r.setNode i fun node =>
        { node with
          childWatched := false
          exitCode := toExitCode (waits.status ⟨.Exited, 1⟩)
          exited := true } with
        exitedCount := r.exitedCount + 1 } := by
      apply h.setNode
      · exact fun node => rfl
      · exact fun node => rfl
      · exact fun node => rfl
    apply ((hexit.note (e := .exited i waits.answer) trivial).visit i).closeConsumer
    exact .inr (.inl ⟨_, List.mem_append_right _ (List.mem_singleton_self _)⟩)

theorem Flow.watchChildren (h : Flow none none [] [] r) {launch : Launch} {indices : List Nat}
    (hwatch : watchChildren launch indices r = (r', .ok ())) : Flow none none [] [] r' := by
  induction indices generalizing r with
  | nil =>
    obtain rfl : r = r' := congrArg Prod.fst hwatch
    exact h
  | cons i indices ih =>
    unfold DagRunner.watchChildren at hwatch
    split at hwatch
    · refine ih ?_ hwatch
      apply h.setNode
      · exact fun node => rfl
      · exact fun node => rfl
      · exact fun node => rfl
    · split_ifs at hwatch
      · exact ih (h.onChildExit i (launch.waits i)) hwatch
      · cases hwatch

/-- Nothing is in the pipes at the start, and every edge has room. -/
theorem Started.flow (h : Started r) (hcapacity : capacity ≠ 0) : Flow none none [] [] r := by
  have hcontents : ∀ e, (r.edge e).buffer.contents = [] := by
    intro e
    rw [(h.edges e).1]
    exact BoundedBuffer.contents_create _
  have hcan : ∀ i, r.producerCanRead i = true := by
    intro i
    unfold producerCanRead
    rw [List.all_eq_true]
    intro e _
    have hroom : (r.edge e).buffer.full ≠ true := by
      rw [Ne, BoundedBuffer.full_iff, hcontents]
      exact fun heq => hcapacity heq.symm
    simp [hroom]
  have hlt : ∀ i, (r.node i).stdinOpen = true → i < r.nodes.length := by
    intro i hopen
    by_contra hout
    rw [node_outside hout] at hopen
    cases hopen
  have hopen : ∀ i, (r.node i).stdoutClosed = false ∧ (r.node i).stdoutReadable = true := by
    intro i
    by_cases hi : i < r.nodes.length
    · exact ⟨(h.nodes i hi).1, (h.nodes i hi).2.1⟩
    · rw [node_outside hi]
      exact ⟨rfl, rfl⟩
  have hfed : ∀ e < r.edges.length, (r.node (r.edge e).consumer).stdinOpen = true := by
    intro e he
    have hmem := (h.wired.incoming _ e).mpr ⟨he, rfl⟩
    exact (h.nodes _ (h.wired.consumer e he)).2.2.2.1.mpr (List.ne_nil_of_mem hmem)
  refine ⟨h.wired, ⟨fun e => ?_, fun e he _ => ?_, fun e he => absurd he List.not_mem_nil,
    fun e he _ => ?_, ?_⟩, ⟨fun i hi _ => ?_, fun i _ _ _ => (hopen i).2, fun i _ _ _ _ => hcan i⟩,
    ⟨fun i hin => ?_, fun i _ _ e he _ hsome => absurd (hcontents e) hsome, fun i _ hin => ?_⟩,
    ⟨fun e he => ?_, fun i hclosed => ?_, fun e he hshut => ?_, ?_⟩⟩
  · rw [(h.edges e).1]
    rfl
  · rw [(h.edges e).2.2, hfed e he]
    rfl
  · rw [h.log, hcontents]
    rfl
  · rw [h.buffered, eq_comm, List.sum_eq_zero]
    intro size hsize
    obtain ⟨edge, hedge, rfl⟩ := List.mem_map.mp hsize
    obtain ⟨e, he, rfl⟩ := List.mem_iff_getElem.mp hedge
    have hget : r.edge e = r.edges[e] := List.getD_eq_getElem _ _ he
    rw [← hget, hcontents]
    rfl
  · rw [(h.nodes i hi).2.2.1, (h.nodes i hi).2.1]
    rfl
  · exact (h.nodes i (hlt i hin)).2.2.2.2 hin
  · have hsome := (h.nodes i (hlt i hin)).2.2.2.1.mp hin
    obtain ⟨e, hmem⟩ := List.exists_mem_of_ne_nil _ hsome
    obtain ⟨he, hconsumer⟩ := (h.wired.incoming i e).mp hmem
    exact ⟨e, he, hconsumer, .inl (h.edges e).2.1⟩
  · rw [(h.edges e).2.1, (hopen _).1]
  · exact absurd ((hopen i).1.symm.trans hclosed) nofun
  · exact absurd (hshut.symm.trans (hfed e he)) nofun
  · rw [h.log]
    exact .nil

theorem Reachable.flow {p : Pipeline} (h : Reachable p r) : Flow none none [] [] r := by
  induction h with
  | run hrun =>
    obtain ⟨hcapacity, plan, hplan, hwatch⟩ := run_ok hrun
    exact ((ready_started _ hplan).1.flow hcapacity).watchChildren hwatch
  | @step r input _ henabled ih =>
    cases input with
    | readable index reads writes =>
      have hwrites := ih.writes writes
      have hread : Flow (some index) none [] [] { r with writes } := by
        exact ⟨hwrites.wired, hwrites.books, ⟨hwrites.interest.watch, hwrites.interest.runs,
          fun j hstale _ => hwrites.interest.rests j hstale nofun⟩, hwrites.served, hwrites.ends⟩
      refine hread.readLoop ?_ reads
      by_contra hi
      exact henabled (congrArg Node.stdoutWatch (node_outside hi))
    | writable index writes => exact ((ih.writes writes).visit index).drainConsumer
    | childExit index waits => exact ih.onChildExit index waits

/-! ## The graph stays the same -/

/-- The stages and the links, which nothing changes. -/
structure Rooted (r r' : DagRunner capacity) : Prop where
  stages : r'.nodes.map (·.stage) = r.nodes.map (·.stage)
  links : r'.links = r.links

theorem Rooted.refl (r : DagRunner capacity) : Rooted r r := ⟨rfl, rfl⟩

theorem Rooted.trans {a b c : DagRunner capacity} (h : Rooted a b) (h' : Rooted b c) : Rooted a c :=
  ⟨h'.stages.trans h.stages, h'.links.trans h.links⟩

theorem Aside.rooted (h : Aside r r') : Rooted r r' := by
  have hmap : ∀ r : DagRunner capacity,
      r.nodes.map (·.stage) = (r.nodes.map Node.still).map (·.stage) := by
    intro r
    rw [List.map_map]
    rfl
  refine ⟨?_, h.links⟩
  rw [hmap, hmap, h.nodes]

theorem rooted_finishIfDone (r : DagRunner capacity) : Rooted r r.finishIfDone := by
  unfold finishIfDone
  dsimp only
  split_ifs
  · exact .refl r
  · exact ⟨rfl, rfl⟩
  · exact ⟨rfl, rfl⟩

theorem rooted_closeProducer (r : DagRunner capacity) (i : Nat) : Rooted r (r.closeProducer i) := by
  unfold closeProducer
  split_ifs
  · exact .refl r
  · refine Rooted.trans ?_ (rooted_finishIfDone _)
    refine Rooted.trans ?_ (Aside.foldl aside_drainConsumer _ _).rooted
    refine Rooted.trans ?_ (Aside.foldl (fun r e => ?_) _ _).rooted
    · refine ⟨Counts.map_modify (fun node => ?_) r.nodes i, rfl⟩
      rfl
    · exact aside_edges rfl (links_setEdge _ fun edge => rfl) rfl rfl rfl rfl

theorem rooted_readLoop (i : Nat) (reads : List (Result Bytes)) (r : DagRunner capacity) :
    Rooted r (readLoop i reads r) := by
  induction reads generalizing r with
  | nil =>
    unfold readLoop
    split_ifs
    · exact .refl r
    · exact (aside_setProducerReadable ..).rooted
    · exact .refl r
  | cons read reads ih =>
    unfold readLoop
    split_ifs
    · exact .refl r
    · exact (aside_setProducerReadable ..).rooted
    · cases read with
      | ok bytes =>
        dsimp only
        split_ifs
        · exact rooted_closeProducer r i
        · exact (aside_deliver ..).rooted.trans (ih _)
      | error e =>
        dsimp only
        split_ifs
        · exact .refl r
        · exact rooted_closeProducer r i

theorem rooted_onChildExit (r : DagRunner capacity) (i : Nat) (waits : Waits) :
    Rooted r (r.onChildExit i waits) := by
  unfold onChildExit
  split_ifs
  · exact .refl r
  · refine Rooted.trans ?_ (rooted_finishIfDone _)
    refine Rooted.trans ?_ (aside_closeConsumer ..).rooted
    refine ⟨Counts.map_modify (fun node => ?_) r.nodes i, rfl⟩
    rfl

theorem rooted_watchChildren {launch : Launch} {indices : List Nat}
    (hwatch : watchChildren launch indices r = (r', .ok ())) : Rooted r r' := by
  induction indices generalizing r with
  | nil =>
    obtain rfl : r = r' := congrArg Prod.fst hwatch
    exact .refl r
  | cons i indices ih =>
    unfold watchChildren at hwatch
    split at hwatch
    · refine Rooted.trans ?_ (ih hwatch)
      refine ⟨Counts.map_modify (fun node => ?_) r.nodes i, rfl⟩
      rfl
    · split_ifs at hwatch
      · exact (rooted_onChildExit r i _).trans (ih hwatch)
      · cases hwatch

theorem Models.rooted {p : Pipeline} {order : List String} (h : Models p order r)
    (hrooted : Rooted r r') : Models p order r' := by
  have hids : ∀ r : DagRunner capacity,
      r.nodes.map (·.stage.id) = (r.nodes.map (·.stage)).map (·.id) := by
    intro r
    rw [List.map_map]
    rfl
  refine ⟨?_, fun pair => ?_, ?_⟩
  · rw [hids, hrooted.stages, ← hids]
    exact h.stages
  · rw [hrooted.links]
    exact h.links pair
  · rw [hrooted.links]
    exact h.nodup

theorem Reachable.models {p : Pipeline} (h : Reachable p r) :
    capacity ≠ 0 ∧ ∃ plan, Planner.plan p = .ok plan ∧ Models p plan.order r := by
  induction h with
  | run hrun =>
    obtain ⟨hcapacity, plan, hplan, hwatch⟩ := run_ok hrun
    exact ⟨hcapacity, plan, hplan, (ready_started _ hplan).2.rooted (rooted_watchChildren hwatch)⟩
  | @step r input _ _ ih =>
    obtain ⟨hcapacity, plan, hplan, hmodels⟩ := ih
    refine ⟨hcapacity, plan, hplan, hmodels.rooted ?_⟩
    have hwrites : ∀ writes, Rooted r { r with writes } := fun writes => ⟨rfl, rfl⟩
    cases input with
    | readable index reads writes => exact (hwrites writes).trans (rooted_readLoop index reads _)
    | writable index writes =>
      exact (hwrites writes).trans (aside_drainConsumer _ index).rooted
    | childExit index waits => exact rooted_onChildExit r index waits

/-! ## What a user relies on -/

/-- The bytes of a run. -/
structure Delivers (p : Pipeline) (r : DagRunner capacity) : Prop where
  models : ∃ plan, Planner.plan p = .ok plan ∧ Models p plan.order r
  wired : Wired r
  exact : ∀ e < r.edges.length, (r.node (r.edge e).consumer).stdinOpen = true →
    readOf (r.edge e).producer r.log = wroteOf e r.log ++ (r.edge e).buffer.contents
  bounded : ∀ e < r.edges.length, (r.edge e).buffer.contents.length ≤ capacity
  buffered : r.buffered = (r.edges.map (·.buffer.contents.length)).sum
  removed : ∀ e < r.edges.length,
    (r.edge e).consumerClosed = true ↔ (r.node (r.edge e).consumer).stdinOpen = false
  noted : ∀ e < r.edges.length, (r.node (r.edge e).consumer).stdinOpen = false →
    .closedStdin (r.edge e).consumer ∈ r.log
  closes : ∀ pre i post, r.log = pre ++ .closedStdin i :: post → Cause r.links pre i

/-- Every edge whose consumer is there passes on exactly what its producer wrote, whatever
happens to the other edges. -/
theorem every_edge_delivers_exactly {p : Pipeline} (h : Reachable p r) : Delivers p r := by
  have hflow := h.flow
  have hgone : ∀ e < r.edges.length,
      (r.edge e).consumerClosed = !(r.node (r.edge e).consumer).stdinOpen :=
    fun e he => hflow.books.gone e he List.not_mem_nil
  refine ⟨h.models.2, hflow.wired, fun e he hopen => ?_,
    fun e _ => BoundedBuffer.length_contents_le _,
    hflow.books.buffered, fun e he => ?_, hflow.ends.shut, fun pre i post hlog => ?_⟩
  · apply hflow.books.kept e he
    rw [hgone e he, hopen]
    rfl
  · rw [hgone e he]
    simp
  · exact hflow.ends.lawful pre _ post hlog

/-- The system does all that a run asks for. -/
def calm : Launch :=
  { setup := .ok ()
    childWatched := fun _ => .ok ()
    waits := fun _ => { tryWait := .ok none, wait := .ok ⟨.Exited, 0⟩ } }

/-- A fork with edges for two bytes. -/
def forkRun : DagRunner 2 := (({} : DagRunner 2).run calm Planner.fork true).1

theorem forkRun_reachable : Reachable Planner.fork forkRun := by
  have hrun : ({ onOutput := false } : DagRunner 2).run calm Planner.fork true =
      (forkRun, .ok ()) :=
    Prod.ext rfl (by decide)
  exact .run hrun

/-- The first stage writes three bytes: the read takes two of them, the second stage takes one, and
the pipe of the third one is full. -/
def forkRead : DagRunner 2 :=
  forkRun.step (.readable 0 [.ok [1, 2, 3]] [.ok 1, .error ⟨.WouldBlock, 0, "write"⟩])

theorem forkRead_reachable : Reachable Planner.fork forkRead :=
  .step _ forkRun_reachable (show (forkRun.node 0).stdoutWatch ≠ none by decide)

theorem a_fork_delivers :
    Delivers Planner.fork forkRead ∧ readOf 0 forkRead.log = [1, 2] ∧
      wroteOf 0 forkRead.log = [1] ∧ (forkRead.edge 0).buffer.contents = [2] ∧
      (forkRead.edge 1).buffer.contents = [1, 2] :=
  ⟨every_edge_delivers_exactly forkRead_reachable, by decide⟩

/-- The last code that is not zero. -/
theorem rightmostNonzero_eq (codes : List Int) :
    rightmostNonzero codes = (codes.reverse.find? (· ≠ 0)).getD 0 := by
  induction codes using List.reverseRecOn with
  | nil => rfl
  | append_singleton codes code ih =>
    rw [Planner.rightmostNonzero_snoc, List.reverse_append, List.reverse_singleton,
      List.singleton_append, List.find?_cons]
    by_cases hcode : code = 0
    · simp [hcode, ih]
    · simp [hcode]

/-- No pipe of a run waits in vain, and its end is told once. -/
structure NeverStalls (p : Pipeline) (r : DagRunner capacity) : Prop where
  watched : ∀ i < r.nodes.length, (r.node i).stdoutClosed = false →
    (r.node i).stdoutWatch = some .Readable ∨ (r.node i).stdoutWatch = some .None
  rests : ∀ i < r.nodes.length, (r.node i).stdoutClosed = false →
    ((r.node i).stdoutWatch = some .None ↔ ∃ e ∈ (r.node i).outgoing,
      (r.node (r.edge e).consumer).stdinOpen = true ∧ (r.edge e).buffer.full = true)
  armed : ∀ i, (r.node i).stdinOpen = true →
    (∃ e ∈ (r.node i).incoming, (r.edge e).buffer.contents ≠ []) →
      (r.node i).stdinWatch = some .Writable
  closed : ∀ i, (∀ e ∈ (r.node i).incoming, (r.node (r.edge e).producer).stdoutClosed = true ∧
    (r.edge e).buffer.contents = []) → (r.node i).stdinOpen = false
  told : r.Over → r.log.filterMap Event.told = [r.outcome]
  untold : ¬ r.Over → r.log.filterMap Event.told = []
  order : ∃ plan, Planner.plan p = .ok plan ∧ r.outcome.topologicalOrder = plan.order
  code : r.outcome.exitCode = (r.outcome.stageExitCodes.reverse.find? (· ≠ 0)).getD 0
  codes : r.outcome.stageExitCodes = (List.range r.nodes.length).map fun i => (r.node i).exitCode
  reaped : ∀ i < r.nodes.length, (r.node i).exited = true →
    ∃ answer, .exited i answer ∈ r.log ∧
      (r.node i).exitCode = toExitCode (answer.getD ⟨.Exited, 1⟩)

theorem a_run_never_stalls {p : Pipeline} (h : Reachable p r) : NeverStalls p r := by
  have hflow := h.flow
  have hsettled := h.settled
  have hgone : ∀ e < r.edges.length,
      (r.edge e).consumerClosed = !(r.node (r.edge e).consumer).stdinOpen :=
    fun e he => hflow.books.gone e he List.not_mem_nil
  have htold := hsettled.told
  refine ⟨fun i hi hopen => ?_, fun i hi hopen => ?_, fun i hopen hsome => ?_, fun i hall => ?_,
    fun hover => ?_, fun hnot => ?_, ?_, rightmostNonzero_eq _, ?_, hsettled.reaped⟩
  · rw [hflow.interest.watch i hi hopen]
    split_ifs
    · exact .inl rfl
    · exact .inr rfl
  · have hcan : (r.node i).stdoutReadable = r.producerCanRead i := by
      rw [Bool.eq_iff_iff]
      exact ⟨hflow.interest.rests i nofun nofun hopen, hflow.interest.runs i nofun hopen⟩
    have hwatch : (r.node i).stdoutWatch = some .None ↔ r.producerCanRead i = false := by
      rw [hflow.interest.watch i hi hopen, hcan]
      cases r.producerCanRead i <;> simp
    rw [hwatch]
    unfold producerCanRead
    rw [List.all_eq_false]
    refine exists_congr fun e => and_congr_right fun he => ?_
    obtain ⟨hlt, -⟩ := (hflow.wired.outgoing i e).mp he
    rw [hgone e hlt]
    cases (r.node (r.edge e).consumer).stdinOpen <;> simp
  · obtain ⟨e, he, hsome⟩ := hsome
    obtain ⟨hlt, hconsumer⟩ := (hflow.wired.incoming i e).mp he
    exact hflow.served.armed i List.not_mem_nil hopen e hlt hconsumer hsome
  · by_contra hopen
    obtain ⟨e, hlt, hconsumer, hfed⟩ := hflow.served.fed i List.not_mem_nil (by simpa using hopen)
    obtain ⟨hsource, hempty⟩ := hall e ((hflow.wired.incoming i e).mpr ⟨hlt, hconsumer⟩)
    rcases hfed with hrunning | hsome
    · rw [hflow.ends.sourced e hlt, hsource] at hrunning
      cases hrunning
    · exact hsome hempty
  · rw [htold, if_pos (hsettled.noticed hover)]
  · rw [htold, if_neg fun hdone => hnot (hsettled.over_ hdone)]
  · obtain ⟨-, plan, hplan, hmodels⟩ := h.models
    exact ⟨plan, hplan, hmodels.stages⟩
  · apply List.ext_getElem
    · unfold outcome
      simp
    · intro i hi _
      unfold outcome at hi ⊢
      simp only [List.length_map] at hi
      simp [DagRunner.node, hi]

/-- The full edge to the third stage stops the reads, and its stdin waits for the pipe. -/
theorem a_fork_rests :
    NeverStalls Planner.fork forkRead ∧ (forkRead.node 0).stdoutWatch = some .None ∧
      (forkRead.node 2).stdinWatch = some .Writable :=
  ⟨a_run_never_stalls forkRead_reachable, by decide⟩

end psx.pipeline.DagRunner
