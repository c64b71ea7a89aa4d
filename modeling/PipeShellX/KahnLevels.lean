-- What the worklist makes of a tie. Its order goes by the length of the longest walk to a
-- node and then by the latest start of such a walk; nodes that agree in both come in the
-- order in which the edges were written.
import Mathlib.Order.Bounds.Basic
import PipeShellX.Kahn

namespace Kahn.Graph

variable {α : Type*}

/-- A chain of `k` edges. -/
inductive Walk (feeds : α → α → Prop) : Nat → α → α → Prop
  | nil (v : α) : Walk feeds 0 v v
  | snoc {k : Nat} {u v w : α} : Walk feeds k u v → feeds v w → Walk feeds (k + 1) u w

section

variable {feeds : α → α → Prop} {k : Nat} {u v : α}

theorem walk_zero : Walk feeds 0 u v ↔ u = v := by
  constructor
  · intro h
    cases h
    rfl
  · rintro rfl
    exact .nil u

theorem walk_succ : Walk feeds (k + 1) u v ↔ ∃ w, Walk feeds k u w ∧ feeds w v := by
  constructor
  · intro h
    cases h with
    | snoc hwalk hfeeds => exact ⟨_, hwalk, hfeeds⟩
  · rintro ⟨w, hwalk, hfeeds⟩
    exact hwalk.snoc hfeeds

end

/-- The same graph with its edges written the other way round. -/
def reversed (g : Graph α) : Graph α where
  nodes := g.nodes
  edges := g.edges.reverse
  nodup := g.nodup
  simple := List.nodup_reverse.mpr g.simple
  ends := fun e hin => g.ends e (List.mem_reverse.mp hin)

theorem feeds_reversed (g : Graph α) : g.reversed.Feeds = g.Feeds := by
  funext u v
  exact propext List.mem_reverse

variable [DecidableEq α]

/-- The longest walks to a node have `depth` edges, and the latest of their starts is at
position `start`. -/
structure Key (nodes : List α) (feeds : α → α → Prop) (v : α) (depth start : Nat) : Prop where
  longest : IsGreatest { k | ∃ u, Walk feeds k u v } depth
  latest : IsGreatest { i | ∃ u, Walk feeds depth u v ∧ nodes.idxOf u = i } start

/-- No two nodes have the same key. -/
def Untied (nodes : List α) (feeds : α → α → Prop) : Prop :=
  ∀ v ∈ nodes, ∀ w ∈ nodes, ∀ k i, Key nodes feeds v k i → Key nodes feeds w k i → v = w

section

variable {nodes : List α} {feeds : α → α → Prop} {u v : α} {k i l j : Nat}

theorem Key.unique (h : Key nodes feeds v k i) (h' : Key nodes feeds v l j) : k = l ∧ i = j := by
  obtain rfl := h.longest.unique h'.longest
  exact ⟨rfl, h.latest.unique h'.latest⟩

/-- A node without predecessors is its own start. -/
theorem key_source (h : ∀ u, ¬ feeds u v) : Key nodes feeds v 0 (nodes.idxOf v) where
  longest := by
    refine ⟨⟨v, .nil v⟩, ?_⟩
    rintro k ⟨u, hwalk⟩
    cases k with
    | zero => exact Nat.le_refl 0
    | succ k =>
      obtain ⟨w, -, hfeeds⟩ := walk_succ.mp hwalk
      exact absurd hfeeds (h w)
  latest := by
    refine ⟨⟨v, .nil v, rfl⟩, ?_⟩
    rintro i ⟨u, hwalk, rfl⟩
    rw [walk_zero.mp hwalk]

/-- The key of a node is that of the last of its predecessors, one edge later. -/
theorem key_succ (hu : Key nodes feeds u k i) (hfeeds : feeds u v)
    (hpreds : ∀ p, feeds p v → ∃ l j, Key nodes feeds p l j ∧ (l < k ∨ l = k ∧ j ≤ i)) :
    Key nodes feeds v (k + 1) i where
  longest := by
    obtain ⟨start, hwalk⟩ := hu.longest.1
    refine ⟨⟨start, hwalk.snoc hfeeds⟩, ?_⟩
    rintro m ⟨x, hx⟩
    cases m with
    | zero => exact Nat.zero_le _
    | succ m =>
      obtain ⟨p, hwalk, hp⟩ := walk_succ.mp hx
      obtain ⟨l, j, hkey, hle⟩ := hpreds p hp
      have hm : m ≤ l := hkey.longest.2 ⟨x, hwalk⟩
      omega
  latest := by
    obtain ⟨start, hwalk, hstart⟩ := hu.latest.1
    refine ⟨⟨start, hwalk.snoc hfeeds, hstart⟩, ?_⟩
    rintro m ⟨x, hx, rfl⟩
    obtain ⟨p, hwalk, hp⟩ := walk_succ.mp hx
    obtain ⟨l, j, hkey, hle⟩ := hpreds p hp
    have hk : k ≤ l := hkey.longest.2 ⟨x, hwalk⟩
    obtain ⟨rfl, hj⟩ : l = k ∧ j ≤ i := by omega
    exact (hkey.latest.2 ⟨x, hwalk, rfl⟩).trans hj

end

/-! ## The order of the worklist -/

/-- The key of `v` is not above the key of `w`. -/
def Below (nodes : List α) (feeds : α → α → Prop) (v w : α) : Prop :=
  ∀ k i l j, Key nodes feeds v k i → Key nodes feeds w l j → k < l ∨ k = l ∧ i ≤ j

variable {g : Graph α}

/-- The queue goes by the keys, and holds what each node released as one batch. -/
structure Levelled (g : Graph α) (q : Queue α) : Prop where
  keys : ∀ v ∈ q.order ++ q.ready, ∃ k i, Key g.nodes g.Feeds v k i
  sorted : (q.order ++ q.ready).Pairwise (Below g.nodes g.Feeds)
  origin : ∀ v ∈ q.order ++ q.ready, v ∈ g.sources ∨
    ∃ pre u post, q.order = pre ++ u :: post ∧ v ∈ g.released (pre ++ [u]) u
  batch : ∀ pre u post, q.order = pre ++ u :: post →
    (g.released (pre ++ [u]) u).Sublist (q.order ++ q.ready)

theorem levelled_start : g.Levelled g.start where
  keys := by
    intro v hin
    exact ⟨_, _, key_source (mem_sources.mp hin).2⟩
  sorted := by
    change ([] ++ g.sources).Pairwise _
    have hnodes : g.nodes.Pairwise fun v w => g.nodes.idxOf v ≤ g.nodes.idxOf w := by
      rw [List.pairwise_iff_getElem]
      intro a b ha hb hlt
      rw [g.nodup.idxOf_getElem, g.nodup.idxOf_getElem]
      exact hlt.le
    have hsources : g.sources.Pairwise fun v w => g.nodes.idxOf v ≤ g.nodes.idxOf w :=
      hnodes.filter _
    rw [List.nil_append]
    refine hsources.imp_of_mem fun {v w} hv hw hle => ?_
    intro k i l j hkv hkw
    obtain ⟨rfl, rfl⟩ := (key_source (mem_sources.mp hv).2).unique hkv
    obtain ⟨rfl, rfl⟩ := (key_source (mem_sources.mp hw).2).unique hkw
    exact .inr ⟨rfl, hle⟩
  origin := fun v hin => .inl hin
  batch := by
    intro pre u post heq
    change [] = _ at heq
    simp at heq

/-- What a node released has its key, one edge later. -/
theorem Levelled.key_released {q : Queue α} (h : g.Levelled q) {pre post : List α} {u v : α}
    (hlist : q.order ++ q.ready = pre ++ u :: post) (hin : v ∈ g.released (pre ++ [u]) u)
    {k i : Nat} (hu : Key g.nodes g.Feeds u k i) : Key g.nodes g.Feeds v (k + 1) i := by
  obtain ⟨hfeeds, hpreds⟩ := mem_released.mp hin
  refine key_succ hu hfeeds fun p hp => ?_
  have hpin : p ∈ pre ∨ p = u := by simpa using hpreds p hp
  obtain ⟨l, j, hkey⟩ := h.keys p (by rw [hlist]; rcases hpin with hp | rfl <;> simp [*])
  refine ⟨l, j, hkey, ?_⟩
  rcases hpin with hpre | rfl
  · have hsorted := h.sorted
    rw [hlist, List.pairwise_append] at hsorted
    exact hsorted.2.2 p hpre u (by simp) l j k i hkey hu
  · obtain ⟨rfl, rfl⟩ := hkey.unique hu
    exact .inr ⟨rfl, Nat.le_refl _⟩

theorem Levelled.turn {q q' : Queue α} {events : List Unit} (h : g.Levelled q)
    (hturn : g.turn q = some (q', events)) : g.Levelled q' := by
  obtain ⟨u, ready, hready, rfl⟩ := turn_some hturn
  have hlist : q.order ++ [u] ++ (ready ++ g.released (q.order ++ [u]) u) =
      (q.order ++ q.ready) ++ g.released (q.order ++ [u]) u := by
    rw [hready]
    simp
  have hsplit : q.order ++ q.ready = q.order ++ u :: ready := by rw [hready]
  obtain ⟨k, i, hu⟩ := h.keys u (by rw [hready]; simp)
  have hnew : ∀ v ∈ g.released (q.order ++ [u]) u, Key g.nodes g.Feeds v (k + 1) i :=
    fun v hin => h.key_released hsplit hin hu
  have hold : ∀ v ∈ q.order ++ q.ready, v = u ∨ v ∈ ready ∨ v ∈ q.order := by
    intro v hin
    rw [hready] at hin
    simp only [List.mem_append, List.mem_cons] at hin
    tauto
  -- Whoever waits was released by an earlier node than `u`.
  have hbefore : ∀ v ∈ q.order ++ q.ready, Below g.nodes g.Feeds v u → ∀ l j,
      Key g.nodes g.Feeds v l j → l < k + 1 ∨ l = k + 1 ∧ j ≤ i := by
    intro v _ hbelow l j hkey
    have hle := hbelow l j k i hkey hu
    omega
  have hwaits : ∀ v ∈ ready, ∀ l j, Key g.nodes g.Feeds v l j → l < k + 1 ∨ l = k + 1 ∧ j ≤ i := by
    intro v hin l j hkey
    rcases h.origin v (by rw [hready]; simp [hin]) with hsource | ⟨pre, w, post, horder, hreleased⟩
    · obtain ⟨rfl, -⟩ := (key_source (mem_sources.mp hsource).2).unique hkey
      omega
    · have hw : q.order ++ q.ready = pre ++ w :: (post ++ q.ready) := by
        rw [horder]
        simp
      obtain ⟨m, n, hwkey⟩ := h.keys w (by rw [hw]; simp)
      obtain ⟨rfl, rfl⟩ := (h.key_released hw hreleased hwkey).unique hkey
      have hsorted := h.sorted
      rw [hready, List.pairwise_append] at hsorted
      have hle := hsorted.2.2 w (by rw [horder]; simp) u (by simp) m n k i hwkey hu
      omega
  refine ⟨?_, ?_, ?_, ?_⟩
  · change ∀ v ∈ q.order ++ [u] ++ (ready ++ g.released (q.order ++ [u]) u), _
    rw [hlist]
    intro v hin
    rcases List.mem_append.mp hin with hin | hin
    · exact h.keys v hin
    · exact ⟨_, _, hnew v hin⟩
  · change (q.order ++ [u] ++ (ready ++ g.released (q.order ++ [u]) u)).Pairwise _
    rw [hlist, List.pairwise_append]
    refine ⟨h.sorted, ?_, fun v hv w hw l j m n hkv hkw => ?_⟩
    · apply List.pairwise_of_forall_mem_list
      intro v hv w hw l j m n hkv hkw
      obtain ⟨rfl, rfl⟩ := (hnew v hv).unique hkv
      obtain ⟨rfl, rfl⟩ := (hnew w hw).unique hkw
      exact .inr ⟨rfl, Nat.le_refl _⟩
    · obtain ⟨rfl, rfl⟩ := (hnew w hw).unique hkw
      rcases hold v hv with rfl | hin | hin
      · obtain ⟨rfl, rfl⟩ := hu.unique hkv
        omega
      · exact hwaits v hin l j hkv
      · have hsorted := h.sorted
        rw [hready, List.pairwise_append] at hsorted
        exact hbefore v hv (hsorted.2.2 v hin u (by simp)) l j hkv
  · change ∀ v ∈ q.order ++ [u] ++ (ready ++ g.released (q.order ++ [u]) u), _
    rw [hlist]
    intro v hin
    rcases List.mem_append.mp hin with hin | hin
    · rcases h.origin v hin with hsource | ⟨pre, w, post, horder, hreleased⟩
      · exact .inl hsource
      · exact .inr ⟨pre, w, post ++ [u], by simp [horder], hreleased⟩
    · exact .inr ⟨q.order, u, [], rfl, hin⟩
  · intro pre w post heq
    change (g.released (pre ++ [w]) w).Sublist
      (q.order ++ [u] ++ (ready ++ g.released (q.order ++ [u]) u))
    rw [hlist]
    rcases List.eq_nil_or_concat post with rfl | ⟨post, x, rfl⟩
    · obtain ⟨hpre, hw⟩ := List.append_inj' (show q.order ++ [u] = pre ++ [w] from heq) rfl
      obtain rfl : u = w := by simpa using hw
      rw [hpre]
      exact List.sublist_append_right _ _
    · have hcut : q.order ++ [u] = (pre ++ w :: post) ++ [x] := by
        rw [show q.order ++ [u] = _ from heq]
        simp
      obtain ⟨horder, -⟩ := List.append_inj' hcut rfl
      exact (h.batch pre w post horder).trans (List.sublist_append_left _ _)

theorem run_levelled : g.Levelled g.run :=
  run_keeps levelled_start fun _ _ _ _ h hturn => h.turn hturn

theorem mem_sort_levelled {v : α} (hin : v ∈ g.sort) : v ∈ g.run.order ++ g.run.ready :=
  List.mem_append_left _ hin

theorem sort_sorted : g.sort.Pairwise (Below g.nodes g.Feeds) :=
  (List.pairwise_append.mp g.run_levelled.sorted).1

/-! ## Ties -/

/-- Without ties the order depends on the graph only. -/
theorem sort_unique {g' : Graph α} (hacyclic : Acyclic g.Feeds) (huntied : Untied g.nodes g.Feeds)
    (hnodes : g'.nodes = g.nodes) (hfeeds : g'.Feeds = g.Feeds) : g'.sort = g.sort := by
  have hperm : g.sort.Perm g.nodes := sort_perm.mpr hacyclic
  have hperm' : g'.sort.Perm g.nodes := by
    rw [← hnodes]
    exact sort_perm.mpr (hfeeds ▸ hacyclic)
  have hsorted' := g'.sort_sorted
  rw [hnodes, hfeeds] at hsorted'
  refine List.Perm.eq_of_pairwise (fun v w hv hw hvw hwv => ?_) hsorted' g.sort_sorted
    (hperm'.trans hperm.symm)
  obtain ⟨k, i, hkv⟩ := g.run_levelled.keys v
    (mem_sort_levelled (hperm.symm.subset (hperm'.subset hv)))
  obtain ⟨l, j, hkw⟩ := g.run_levelled.keys w (mem_sort_levelled hw)
  have hle := hvw k i l j hkv hkw
  have hge := hwv l j k i hkw hkv
  obtain ⟨rfl, rfl⟩ : k = l ∧ i = j := by omega
  exact huntied v (hperm'.subset hv) w (hperm.subset hw) k i hkv hkw

/-- A tie comes from two nodes that one node released. -/
theorem released_of_tie {v w : α} (hv : v ∈ g.sort) (hw : w ∈ g.sort) (hne : v ≠ w) {k i : Nat}
    (hkv : Key g.nodes g.Feeds v k i) (hkw : Key g.nodes g.Feeds w k i) :
    ∃ pre u post, g.sort = pre ++ u :: post ∧ ∃ x ∈ g.released (pre ++ [u]) u,
      ∃ y ∈ g.released (pre ++ [u]) u, x ≠ y := by
  have hlevelled := g.run_levelled
  have hback : ∀ {x : α} {m : Nat}, x ∈ g.sort → Key g.nodes g.Feeds x m i →
      m = 0 ∧ x ∈ g.nodes ∧ g.nodes.idxOf x = i ∨
        ∃ pre u post, g.sort = pre ++ u :: post ∧ x ∈ g.released (pre ++ [u]) u ∧
          ∃ n, m = n + 1 ∧ Key g.nodes g.Feeds u n i := by
    intro x m hx hkey
    rcases hlevelled.origin x (mem_sort_levelled hx) with hsource | ⟨pre, u, post, hsort, hreleased⟩
    · obtain ⟨hnode, hnone⟩ := mem_sources.mp hsource
      obtain ⟨rfl, rfl⟩ := hkey.unique (key_source hnone)
      exact .inl ⟨rfl, hnode, rfl⟩
    · have hlist : g.run.order ++ g.run.ready = pre ++ u :: (post ++ g.run.ready) := by
        rw [hsort]
        simp
      obtain ⟨n, j, hu⟩ := hlevelled.keys u (by rw [hlist]; simp)
      obtain ⟨rfl, rfl⟩ := hkey.unique (hlevelled.key_released hlist hreleased hu)
      exact .inr ⟨pre, u, post, hsort, hreleased, n, rfl, hu⟩
  induction k generalizing v w with
  | zero =>
    rcases hback hv hkv with ⟨-, hnode, hv'⟩ | ⟨_, _, _, _, _, n, hn, _⟩
    · rcases hback hw hkw with ⟨-, -, hw'⟩ | ⟨_, _, _, _, _, n, hn, _⟩
      · exact absurd ((List.idxOf_inj hnode).mp (hv'.trans hw'.symm)) hne
      · omega
    · omega
  | succ k ih =>
    rcases hback hv hkv with ⟨hzero, -⟩ | ⟨pre, u, post, hsort, hrv, n, hn, hu⟩
    · omega
    rcases hback hw hkw with ⟨hzero, -⟩ | ⟨pre', u', post', hsort', hrw, n', hn', hu'⟩
    · omega
    obtain rfl : n = k := by omega
    obtain rfl : n' = n := by omega
    by_cases heq : u = u'
    · subst heq
      have hnodup := g.sort_nodup
      have hpre : pre = pre' := by
        have hidx : g.sort.idxOf u = pre.length := by
          rw [hsort] at hnodup ⊢
          have hnot : u ∉ pre := fun hin => (List.nodup_append.mp hnodup).2.2 u hin u (by simp) rfl
          rw [List.idxOf_append_of_notMem hnot, List.idxOf_cons_self, Nat.add_zero]
        have hidx' : g.sort.idxOf u = pre'.length := by
          rw [hsort'] at hnodup ⊢
          have hnot : u ∉ pre' := fun hin => (List.nodup_append.mp hnodup).2.2 u hin u (by simp) rfl
          rw [List.idxOf_append_of_notMem hnot, List.idxOf_cons_self, Nat.add_zero]
        exact (List.append_inj (hsort.symm.trans hsort') (hidx.symm.trans hidx')).1
      subst hpre
      exact ⟨pre, u, post, hsort, v, hrv, w, hrw, hne⟩
    · exact ih (by rw [hsort]; simp) (by rw [hsort']; simp) heq hu hu'

theorem released_reversed (done : List α) (u : α) :
    g.reversed.released done u = (g.released done u).reverse := by
  have hsuccs : g.reversed.succs u = (g.succs u).reverse := by
    unfold succs reversed
    rw [List.filter_reverse, List.map_reverse]
  have hpreds : ∀ p v, p ∈ g.reversed.preds v ↔ p ∈ g.preds v := by
    intro p v
    rw [mem_preds, mem_preds, feeds_reversed]
  unfold released
  rw [hsuccs, List.filter_reverse]
  simp only [hpreds]

/-- The order depends on the graph only exactly when there are no ties. -/
theorem sort_unique_iff (hacyclic : Acyclic g.Feeds) :
    (∀ g' : Graph α, g'.nodes = g.nodes → g'.Feeds = g.Feeds → g'.sort = g.sort) ↔
      Untied g.nodes g.Feeds := by
  constructor
  · intro hall v hv w hw k i hkv hkw
    by_contra hne
    obtain ⟨pre, u, post, hsort, x, hx, y, hy, hxy⟩ := released_of_tie
      (sort_complete hacyclic hv) (sort_complete hacyclic hw) hne hkv hkw
    have hsame : g.reversed.sort = g.sort := hall g.reversed rfl g.feeds_reversed
    have hbatch : (g.released (pre ++ [u]) u).Sublist g.sort := by
      have hsub := g.run_levelled.batch pre u post hsort
      rwa [g.run_sound.2, List.append_nil] at hsub
    have hbatch' : (g.released (pre ++ [u]) u).reverse.Sublist g.sort := by
      have hsub := g.reversed.run_levelled.batch pre u post (hsame.trans hsort)
      rw [g.reversed.run_sound.2, List.append_nil, released_reversed] at hsub
      rw [← hsame]
      exact hsub
    -- In the order each of the two would come before the other.
    have hidx : g.sort.Pairwise fun a b => g.sort.idxOf a < g.sort.idxOf b := by
      rw [List.pairwise_iff_getElem]
      intro a b ha hb hlt
      rw [g.sort_nodup.idxOf_getElem, g.sort_nodup.idxOf_getElem]
      exact hlt
    have hboth := (hidx.sublist hbatch).and (List.pairwise_reverse.mp (hidx.sublist hbatch'))
    have hnone : (g.released (pre ++ [u]) u).Pairwise fun _ _ => False :=
      hboth.imp fun h => absurd (h.1.trans h.2) (Nat.lt_irrefl _)
    have hsymm : Std.Symm fun _ _ : α => False := ⟨fun _ _ h => h⟩
    exact hnone.forall hx hy hxy
  · exact fun huntied g' hnodes hfeeds => sort_unique hacyclic huntied hnodes hfeeds

end Kahn.Graph
