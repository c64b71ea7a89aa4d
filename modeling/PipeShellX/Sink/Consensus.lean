-- The consensus of a set of outputs (consensus.cpp): the hosts in buckets by their output, the
-- largest bucket first. The buckets are the classes of equal outputs, whatever order the outputs
-- came in.
import PipeShellX.Grouping
import PipeShellX.Result

namespace psx.sink

open Grouping (valuesAt)

/-- The hosts with one output. -/
structure Bucket where
  output : Bytes
  hosts : List Bytes

/-- The buckets, the largest one first. -/
structure ConsensusReport where
  buckets : List Bucket

/-- All hosts have one output. -/
def ConsensusReport.unanimous (report : ConsensusReport) : Bool := report.buckets.length ≤ 1

/-- `std::sort` of strings. -/
def sort (hosts : List Bytes) : List Bytes := hosts.insertionSort fun a b => (compare a b).isLE

/-- The comparison of the stable sort: what is not larger stands behind. -/
def Largest (a b : Bucket) : Prop := b.hosts.length ≤ a.hosts.length

instance : DecidableRel Largest := fun _ b => inferInstanceAs (Decidable (b.hosts.length ≤ _))

/-- The hosts by their outputs. -/
def consensus (hostOutputs : List (Bytes × Bytes)) : ConsensusReport :=
  let byOutput := Grouping.groups compare Prod.snd Prod.fst hostOutputs
  ⟨(byOutput.toList.map fun p => ⟨p.1, sort p.2⟩).insertionSort Largest⟩

/-! ## The buckets -/

theorem compare_swap (a b : Bytes) : compare b a = (compare a b).swap := Std.OrientedCmp.eq_swap

instance total_isLE : Std.Total fun a b : Bytes => (compare a b).isLE = true where
  total a b := by
    rw [compare_swap a b]
    cases compare a b <;> decide

instance trans_isLE : IsTrans Bytes fun a b => (compare a b).isLE = true where
  trans _ _ _ := Std.TransCmp.isLE_trans

instance antisymm_isLE : Std.Antisymm fun a b : Bytes => (compare a b).isLE = true where
  antisymm _ _ hab hba :=
    Std.LawfulEqCmp.compare_eq_iff_eq.mp (Std.OrientedCmp.isLE_antisymm hab hba)

instance total_largest : Std.Total Largest where
  total a b := Nat.le_total b.hosts.length a.hosts.length

instance trans_largest : IsTrans Bucket Largest where
  trans _ _ _ hab hbc := Nat.le_trans hbc hab

/-- The hosts with an output, in the order of the entries. -/
abbrev hostsOf (output : Bytes) (hostOutputs : List (Bytes × Bytes)) : List Bytes :=
  valuesAt Prod.snd Prod.fst output hostOutputs

variable {hostOutputs : List (Bytes × Bytes)}

/-- There is a bucket for each output that came, and it has the hosts of that output. -/
theorem mem_buckets {b : Bucket} : b ∈ (consensus hostOutputs).buckets ↔
    b.hosts = sort (hostsOf b.output hostOutputs) ∧ hostsOf b.output hostOutputs ≠ [] := by
  unfold consensus
  rw [List.mem_insertionSort, List.mem_map]
  constructor
  · rintro ⟨p, hp, rfl⟩
    obtain ⟨hvalues, hne⟩ := Grouping.mem_toList_groups.mp hp
    exact ⟨by rw [hvalues], hvalues ▸ hne⟩
  · rintro ⟨hhosts, hne⟩
    exact ⟨(b.output, hostsOf b.output hostOutputs), Grouping.mem_toList_groups.mpr ⟨rfl, hne⟩,
      by rw [← hhosts]⟩

theorem mem_sort {hosts : List Bytes} {host : Bytes} : host ∈ sort hosts ↔ host ∈ hosts :=
  List.mem_insertionSort _

/-- The hosts of a bucket are those that came with its output. -/
theorem mem_hosts {b : Bucket} (h : b ∈ (consensus hostOutputs).buckets) {host : Bytes} :
    host ∈ b.hosts ↔ (host, b.output) ∈ hostOutputs := by
  rw [(mem_buckets.mp h).1, mem_sort, hostsOf, valuesAt]
  simp

/-- The order of the buckets: by size, and by output where the sizes are equal. -/
def Before (a b : Bucket) : Prop :=
  b.hosts.length < a.hosts.length ∨
    b.hosts.length = a.hosts.length ∧ compare a.output b.output = .lt

theorem buckets_before : (consensus hostOutputs).buckets.Pairwise Before := by
  have hmap : ((Grouping.groups compare Prod.snd Prod.fst hostOutputs).toList.map
      fun p => (⟨p.1, sort p.2⟩ : Bucket)).Pairwise
      fun a b => compare a.output b.output = .lt := by
    rw [List.pairwise_map]
    exact Std.TreeMap.ordered_keys_toList
  refine (Grouping.insertionSort_stable hmap).imp ?_
  rintro a b ⟨hsize, htie⟩
  rcases Nat.lt_or_eq_of_le hsize with hlt | heq
  · exact Or.inl hlt
  · exact Or.inr ⟨heq, htie (Nat.le_of_eq heq.symm)⟩

theorem Before.asymm {a b : Bucket} (hab : Before a b) (hba : Before b a) :
    False := by
  rcases hab with hlt | ⟨heq, hlt⟩
  · rcases hba with hgt | ⟨hgt, -⟩ <;> omega
  · rcases hba with hgt | ⟨-, hgt⟩
    · omega
    · rw [compare_swap, hlt] at hgt
      cases hgt

theorem buckets_nodup : (consensus hostOutputs).buckets.Nodup := by
  refine buckets_before.imp ?_
  rintro a b hab rfl
  exact hab.asymm hab

/-- No two buckets have one output. -/
theorem outputs_injective {i j : Fin (consensus hostOutputs).buckets.length}
    (h : ((consensus hostOutputs).buckets.get i).output =
      ((consensus hostOutputs).buckets.get j).output) : i = j := by
  have hsame : (consensus hostOutputs).buckets.get i = (consensus hostOutputs).buckets.get j := by
    have hi := (mem_buckets.mp (List.get_mem (consensus hostOutputs).buckets i)).1
    have hj := (mem_buckets.mp (List.get_mem (consensus hostOutputs).buckets j)).1
    generalize (consensus hostOutputs).buckets.get i = a at *
    generalize (consensus hostOutputs).buckets.get j = b at *
    cases a
    cases b
    simp_all
  exact List.nodup_iff_injective_get.mp buckets_nodup hsame

/-- The buckets hold the host of each entry once, and two entries are in one bucket when their
outputs are the same. -/
structure Partitions (hostOutputs : List (Bytes × Bytes)) (buckets : List Bucket) :
    Prop where
  place : ∃ place : Fin hostOutputs.length → Fin buckets.length,
    (∀ i j, place i = place j ↔ (hostOutputs.get i).2 = (hostOutputs.get j).2) ∧
    (∀ i, (buckets.get (place i)).output = (hostOutputs.get i).2) ∧
    ∀ k, (buckets.get k).hosts.Perm
      (((List.finRange _).filter fun i => place i = k).map fun i => (hostOutputs.get i).1)
  hosts : ∀ bucket ∈ buckets, bucket.hosts ≠ []

theorem consensus_partitions (hostOutputs : List (Bytes × Bytes)) :
    Partitions hostOutputs (consensus hostOutputs).buckets := by
  have hplaces : ∀ i : Fin hostOutputs.length, ∃ k : Fin (consensus hostOutputs).buckets.length,
      ((consensus hostOutputs).buckets.get k).output = (hostOutputs.get i).2 := by
    intro i
    have hmem : ⟨(hostOutputs.get i).2, sort (hostsOf (hostOutputs.get i).2 hostOutputs)⟩ ∈
        (consensus hostOutputs).buckets :=
      mem_buckets.mpr ⟨rfl, Grouping.valuesAt_ne_nil.mpr ⟨_, List.get_mem hostOutputs i, rfl⟩⟩
    obtain ⟨k, hk⟩ := List.mem_iff_get.mp hmem
    exact ⟨k, by rw [hk]⟩
  choose place hplace using hplaces
  refine ⟨⟨place, fun i j => ⟨fun h => ?_, fun h => ?_⟩, hplace, fun k => ?_⟩, fun b hb => ?_⟩
  · rw [← hplace i, ← hplace j, h]
  · exact outputs_injective (by rw [hplace, hplace, h])
  · have hk := (mem_buckets.mp (List.get_mem (consensus hostOutputs).buckets k)).1
    rw [hk]
    refine (List.perm_insertionSort _ _).trans (List.Perm.of_eq ?_)
    have hin : ∀ i, (hostOutputs.get i).2 = ((consensus hostOutputs).buckets.get k).output ↔
        place i = k := by
      intro i
      rw [← hplace i]
      exact ⟨outputs_injective, fun h => by rw [h]⟩
    rw [hostsOf, Grouping.valuesAt_places]
    simp only [hin]
  · obtain ⟨hhosts, hne⟩ := mem_buckets.mp hb
    obtain ⟨host, hhost⟩ := List.exists_mem_of_ne_nil _ hne
    rw [hhosts]
    exact List.ne_nil_of_mem (mem_sort.mpr hhost)

theorem hosts_sorted {b : Bucket} (h : b ∈ (consensus hostOutputs).buckets) :
    b.hosts.Pairwise fun a b => (compare a b).isLE := by
  rw [(mem_buckets.mp h).1]
  exact List.pairwise_insertionSort _ _

/-- The report does not see the order of the entries. -/
theorem consensus_perm {others : List (Bytes × Bytes)} (h : others.Perm hostOutputs) :
    consensus others = consensus hostOutputs := by
  have hmem : ∀ b, b ∈ (consensus others).buckets ↔ b ∈ (consensus hostOutputs).buckets := by
    intro b
    have hhosts : (hostsOf b.output others).Perm (hostsOf b.output hostOutputs) :=
      Grouping.valuesAt_perm h b.output
    have hnil : hostsOf b.output others = [] ↔ hostsOf b.output hostOutputs = [] := by
      rw [← List.length_eq_zero_iff, ← List.length_eq_zero_iff, hhosts.length_eq]
    rw [mem_buckets, mem_buckets, Ne, Ne, hnil, sort, Grouping.insertionSort_perm hhosts, sort]
  have hbuckets : (consensus others).buckets = (consensus hostOutputs).buckets := by
    have hperm := (List.perm_ext_iff_of_nodup buckets_nodup buckets_nodup).mpr hmem
    refine hperm.eq_of_pairwise (fun a b _ _ hab hba => ?_) buckets_before buckets_before
    exact (hab.asymm hba).elim
  exact congrArg ConsensusReport.mk hbuckets

theorem unanimous_iff : (consensus hostOutputs).unanimous = true ↔
    ∀ p ∈ hostOutputs, ∀ q ∈ hostOutputs, p.2 = q.2 := by
  obtain ⟨place, hplace, -⟩ := (consensus_partitions hostOutputs).place
  rw [ConsensusReport.unanimous, decide_eq_true_iff]
  constructor
  · intro hlength p hp q hq
    obtain ⟨i, rfl⟩ := List.mem_iff_get.mp hp
    obtain ⟨j, rfl⟩ := List.mem_iff_get.mp hq
    exact (hplace i j).mp (Fin.ext (by omega))
  · intro hsame
    by_contra hlength
    have hfirst := (mem_buckets.mp (List.get_mem (consensus hostOutputs).buckets ⟨0, by omega⟩)).2
    have hsecond := (mem_buckets.mp (List.get_mem (consensus hostOutputs).buckets ⟨1, by omega⟩)).2
    obtain ⟨p, hp, hpo⟩ := Grouping.valuesAt_ne_nil.mp hfirst
    obtain ⟨q, hq, hqo⟩ := Grouping.valuesAt_ne_nil.mp hsecond
    have heq := outputs_injective (hpo.symm.trans ((hsame p hp q hq).trans hqo))
    exact Nat.zero_ne_one (congrArg Fin.val heq)

end psx.sink
