-- The topological sort by a worklist. A node enters the queue when the last of its
-- predecessors is done, so the order that comes out has every predecessor first, and it has
-- every node exactly when the graph has no cycle.
import Mathlib.Data.List.Perm.Basic
import Mathlib.Logic.Relation
import Mathlib.Order.WellFoundedSet
import PipeShellX.Loop
import PipeShellX.Trace

namespace Kahn

/-- A finite graph, each of its edges once. -/
structure Graph (α : Type*) where
  nodes : List α
  edges : List (α × α)
  nodup : nodes.Nodup
  simple : edges.Nodup
  ends : ∀ e ∈ edges, e.1 ∈ nodes ∧ e.2 ∈ nodes

/-- What is ready and what is in order already. -/
structure Queue (α : Type*) where
  ready : List α
  order : List α := []

namespace Graph

variable {α : Type*} (g : Graph α)

/-- There is an edge from the one to the other. -/
def Feeds (u v : α) : Prop := (u, v) ∈ g.edges

/-- No node leads to itself. -/
def Acyclic (feeds : α → α → Prop) : Prop := ∀ v, ¬ Relation.TransGen feeds v v

variable [DecidableEq α]

/-- What a node waits for. -/
def preds (v : α) : List α := (g.edges.filter fun e => e.2 = v).map Prod.fst

/-- What waits for a node. -/
def succs (u : α) : List α := (g.edges.filter fun e => e.1 = u).map Prod.snd

/-- What waits for nothing. -/
def sources : List α := g.nodes.filter fun v => g.preds v = []

/-- The successors of `u` with all predecessors in `done`. -/
def released (done : List α) (u : α) : List α :=
  (g.succs u).filter fun v => ∀ p ∈ g.preds v, p ∈ done

/-- The first node of the queue is done. -/
def turn (q : Queue α) : Option (Queue α × List Unit) :=
  match q.ready with
  | [] => none
  | u :: ready =>
    some ({ ready := ready ++ g.released (q.order ++ [u]) u, order := q.order ++ [u] }, [])

/-- At first the sources are ready. -/
def start : Queue α := { ready := g.sources }

/-- The queue once it is empty. -/
def run : Queue α := (Loop.run g.turn g.nodes.length g.start).1

/-- The order that the queue comes to. -/
def sort : List α := g.run.order

variable {g}

@[simp] theorem mem_preds {u v : α} : u ∈ g.preds v ↔ g.Feeds u v := by
  simp [preds, Feeds]

@[simp] theorem mem_succs {u v : α} : v ∈ g.succs u ↔ g.Feeds u v := by
  simp [succs, Feeds]

theorem preds_nil {v : α} : g.preds v = [] ↔ ∀ u, ¬ g.Feeds u v := by
  rw [List.eq_nil_iff_forall_not_mem]
  simp

theorem mem_sources {v : α} : v ∈ g.sources ↔ v ∈ g.nodes ∧ ∀ u, ¬ g.Feeds u v := by
  simp [sources, preds_nil]

@[simp] theorem mem_released {done : List α} {u v : α} :
    v ∈ g.released done u ↔ g.Feeds u v ∧ ∀ p, g.Feeds p v → p ∈ done := by
  simp [released]

theorem succs_nodup (u : α) : (g.succs u).Nodup := by
  refine (g.simple.filter _).map_on ?_
  rintro ⟨a, b⟩ ha ⟨c, d⟩ hc hbd
  simp only [List.mem_filter, decide_eq_true_eq] at ha hc
  rw [Prod.mk.injEq]
  exact ⟨ha.2.trans hc.2.symm, hbd⟩

theorem released_nodup (done : List α) (u : α) : (g.released done u).Nodup :=
  (g.succs_nodup u).filter _

theorem turn_some {q q' : Queue α} {events : List Unit} (h : g.turn q = some (q', events)) :
    ∃ u ready, q.ready = u :: ready ∧
      q' = { ready := ready ++ g.released (q.order ++ [u]) u, order := q.order ++ [u] } := by
  unfold turn at h
  split at h
  · cases h
  · rename_i u ready heq
    simp only [Option.some.injEq, Prod.mk.injEq] at h
    exact ⟨u, ready, heq, h.1.symm⟩

theorem sort_congr {g g' : Graph α} (hnodes : g.nodes = g'.nodes) (hedges : g.edges = g'.edges) :
    g.sort = g'.sort := by
  cases g
  cases g'
  simp only at hnodes hedges
  subst hnodes hedges
  rfl

/-! ## What the queue holds -/

/-- The predecessors of `v` come first. -/
def Follows (feeds : α → α → Prop) (before : List α) (v : α) : Prop :=
  ∀ u, feeds u v → u ∈ before

/-- The queue and the order hold the nodes whose predecessors are done, each once. -/
structure Sound (g : Graph α) (q : Queue α) : Prop where
  nodup : (q.order ++ q.ready).Nodup
  mem : ∀ v, v ∈ q.order ++ q.ready ↔ v ∈ g.nodes ∧ Follows g.Feeds q.order v
  lawful : Trace.Lawful (Follows g.Feeds) (q.order ++ q.ready)

theorem sound_start : g.Sound g.start where
  nodup := by
    change ([] ++ g.sources).Nodup
    exact g.nodup.filter _
  mem := by
    intro v
    change v ∈ [] ++ g.sources ↔ _
    rw [List.nil_append, mem_sources]
    simp [start, Follows]
  lawful := by
    intro pre v post heq u hfeeds
    have hin : v ∈ g.sources := by
      change [] ++ g.sources = _ at heq
      rw [List.nil_append] at heq
      simp [heq]
    exact absurd hfeeds ((mem_sources.mp hin).2 u)

/-- The nodes that a turn releases are new. -/
theorem Sound.fresh {q : Queue α} (h : g.Sound q) {u : α} {ready : List α}
    (hready : q.ready = u :: ready) {v : α} (hin : v ∈ g.released (q.order ++ [u]) u) :
    v ∉ q.order ++ q.ready := by
  intro hold
  have hdone := ((h.mem v).mp hold).2 u (mem_released.mp hin).1
  have hnodup := h.nodup
  rw [hready, List.nodup_append] at hnodup
  exact hnodup.2.2 u hdone u (by simp) rfl

theorem Sound.turn {q q' : Queue α} {events : List Unit} (h : g.Sound q)
    (hturn : g.turn q = some (q', events)) : g.Sound q' := by
  obtain ⟨u, ready, hready, rfl⟩ := turn_some hturn
  have hlist : q.order ++ [u] ++ (ready ++ g.released (q.order ++ [u]) u) =
      (q.order ++ q.ready) ++ g.released (q.order ++ [u]) u := by
    rw [hready]
    simp
  refine ⟨?_, fun v => ?_, ?_⟩
  · change (q.order ++ [u] ++ (ready ++ g.released (q.order ++ [u]) u)).Nodup
    rw [hlist]
    exact List.nodup_append.mpr ⟨h.nodup, released_nodup _ _, fun v hold w hnew heq =>
      h.fresh hready (heq ▸ hnew) hold⟩
  · change v ∈ q.order ++ [u] ++ (ready ++ g.released (q.order ++ [u]) u) ↔ _
    rw [hlist, List.mem_append, h.mem, mem_released]
    constructor
    · rintro (⟨hnode, hfollows⟩ | ⟨hfeeds, hfollows⟩)
      · exact ⟨hnode, fun p hp => List.mem_append_left _ (hfollows p hp)⟩
      · exact ⟨(g.ends _ hfeeds).2, hfollows⟩
    · rintro ⟨hnode, hfollows⟩
      by_cases hfeeds : g.Feeds u v
      · exact .inr ⟨hfeeds, hfollows⟩
      · refine .inl ⟨hnode, fun p hp => ?_⟩
        rcases List.mem_append.mp (hfollows p hp) with hin | hin
        · exact hin
        · rw [List.mem_singleton.mp hin] at hp
          exact absurd hp hfeeds
  · change Trace.Lawful (Follows g.Feeds) (q.order ++ [u] ++
        (ready ++ g.released (q.order ++ [u]) u))
    rw [hlist]
    refine h.lawful.extend fun pre v post heq p hp => ?_
    have hin : v ∈ g.released (q.order ++ [u]) u := by simp [heq]
    have hdone := (mem_released.mp hin).2 p hp
    rw [hready]
    simp only [List.mem_append, List.mem_cons] at hdone ⊢
    tauto

/-- A turn shortens what is left. -/
theorem Sound.shorter {q q' : Queue α} {events : List Unit} (h : g.Sound q)
    (hturn : g.turn q = some (q', events)) :
    g.nodes.length - q'.order.length < g.nodes.length - q.order.length := by
  obtain ⟨u, ready, hready, rfl⟩ := turn_some hturn
  have hsub : (q.order ++ q.ready).Subperm g.nodes :=
    h.nodup.subperm fun v hin => ((h.mem v).mp hin).1
  have hle := hsub.length_le
  rw [hready] at hle
  simp only [List.length_append, List.length_cons, List.length_nil] at hle ⊢
  omega

/-- The loop runs until the queue is empty. -/
theorem run_sound : g.Sound g.run ∧ g.run.ready = [] := by
  obtain ⟨hsound, hnone⟩ := Loop.run_ends (fun q => g.nodes.length - q.order.length) g.Sound
    (fun _ _ _ h hturn => ⟨h.turn hturn, h.shorter hturn⟩) g.nodes.length
    (s := g.start) sound_start (Nat.sub_le _ _)
  refine ⟨hsound, ?_⟩
  unfold Graph.turn at hnone
  unfold run
  revert hnone
  split
  · rename_i heq
    exact fun _ => heq
  · exact fun hnone => by cases hnone

/-- What the queue keeps from the start on, it keeps until it is empty. -/
theorem run_keeps {P : Queue α → Prop} (h : P g.start)
    (turn : ∀ q q' events, g.Sound q → P q → g.turn q = some (q', events) → P q') : P g.run :=
  (Loop.run_induction g.turn (fun q _ => g.Sound q ∧ P q)
    (fun q _ q' events h hturn => ⟨h.1.turn hturn, turn q q' events h.1 h.2 hturn⟩)
    g.nodes.length g.start [] ⟨sound_start, h⟩).2

/-! ## The order -/

theorem sort_nodup : g.sort.Nodup := by
  have hnodup := g.run_sound.1.nodup
  rw [g.run_sound.2, List.append_nil] at hnodup
  exact hnodup

/-- A node is sorted once its predecessors are. -/
theorem mem_sort {v : α} : v ∈ g.sort ↔ v ∈ g.nodes ∧ Follows g.Feeds g.sort v := by
  have hmem := g.run_sound.1.mem v
  rw [g.run_sound.2, List.append_nil] at hmem
  exact hmem

theorem sort_lawful : Trace.Lawful (Follows g.Feeds) g.sort := by
  have hlawful := g.run_sound.1.lawful
  rw [g.run_sound.2, List.append_nil] at hlawful
  exact hlawful

/-- What leads to a node comes before it. -/
theorem feeds_before {feeds : α → α → Prop} {order : List α}
    (hlawful : Trace.Lawful (Follows feeds) order) {u v : α} (hfeeds : feeds u v)
    (hin : v ∈ order) : order.idxOf u < order.idxOf v := by
  obtain ⟨pre, post, rfl, hnot⟩ := List.eq_append_cons_of_mem hin
  have hpre : u ∈ pre := hlawful pre v post rfl u hfeeds
  rw [List.idxOf_append_of_mem hpre, List.idxOf_append_of_notMem hnot, List.idxOf_cons_self]
  have hlt := List.idxOf_lt_length_of_mem hpre
  omega

theorem acyclic_of_lawful {order : List α} (hlawful : Trace.Lawful (Follows g.Feeds) order)
    (hall : ∀ v ∈ g.nodes, v ∈ order) : Acyclic g.Feeds := by
  have hleads : ∀ {u v}, Relation.TransGen g.Feeds u v → order.idxOf u < order.idxOf v := by
    intro u v hleads
    induction hleads with
    | single hfeeds => exact feeds_before hlawful hfeeds (hall _ (g.ends _ hfeeds).2)
    | tail _ hfeeds ih =>
      exact ih.trans (feeds_before hlawful hfeeds (hall _ (g.ends _ hfeeds).2))
  exact fun v hloop => absurd (hleads hloop) (Nat.lt_irrefl _)

/-- Without a cycle nothing is left: a node that is left has a predecessor that is left too. -/
theorem sort_complete (h : Acyclic g.Feeds) {v : α} (hnode : v ∈ g.nodes) : v ∈ g.sort := by
  by_contra hleft
  let left : Set α := { w | w ∈ g.nodes ∧ w ∉ g.sort }
  have hfinite : left.Finite := g.nodes.finite_toSet.subset fun w hw => hw.1
  have hstrict : IsStrictOrder α (Relation.TransGen g.Feeds) := { irrefl := h }
  have hfounded : left.WellFoundedOn (Relation.TransGen g.Feeds) := hfinite.wellFoundedOn
  refine hfounded.induction (P := fun _ => False) (x := v) ⟨hnode, hleft⟩ fun w hw ih => ?_
  have hpred : ∃ u, g.Feeds u w ∧ u ∉ g.sort := by
    by_contra hnone
    push Not at hnone
    exact hw.2 (mem_sort.mpr ⟨hw.1, hnone⟩)
  obtain ⟨u, hfeeds, hnot⟩ := hpred
  exact ih u ⟨(g.ends _ hfeeds).1, hnot⟩ (.single hfeeds)

/-- The order has every node exactly when the graph has no cycle. -/
theorem sort_perm : g.sort.Perm g.nodes ↔ Acyclic g.Feeds := by
  constructor
  · intro hperm
    exact acyclic_of_lawful sort_lawful fun v hin => hperm.symm.subset hin
  · intro hacyclic
    rw [List.perm_ext_iff_of_nodup sort_nodup g.nodup]
    exact fun v => ⟨fun hin => (mem_sort.mp hin).1, sort_complete hacyclic⟩

/-- A run that left nothing out is one of the full length. -/
theorem length_sort : g.sort.length = g.nodes.length ↔ Acyclic g.Feeds := by
  rw [← sort_perm]
  constructor
  · intro hlength
    have hsub : g.sort.Subperm g.nodes := sort_nodup.subperm fun v hin => (mem_sort.mp hin).1
    exact hsub.perm_of_length_le hlength.ge
  · exact fun hperm => hperm.length_eq

end Graph

end Kahn
