-- The edits and the selections of an inventory (inventory.cpp). A fleet is what is known of each
-- name: whole hosts are added and removed as entries of that map, and what is written of a fleet is
-- read back as the same fleet exactly when every host can stand in a line.
import PipeShellX.Inventory.RewriteLoss
import PipeShellX.Keyed
import Mathlib.Data.List.Find

namespace psx.inventory

open Text (ascii)
open Keyed

/-- A host goes by its name and by its address. -/
def Host.isNamed (host : Host) (name : Bytes) : Bool := host.name = name || host.host = name

namespace Inventory

/-- The hosts of a group. -/
def selectGroup (inventory : Inventory) (group : Bytes) : List Host :=
  inventory.hosts.filter fun host => group ∈ host.groups

/-- The hosts with a tag. -/
def selectTag (inventory : Inventory) (tag : Bytes) : List Host :=
  inventory.hosts.filter fun host => tag ∈ host.tags

/-- The hosts of these names; each of them has to be there. -/
def selectHosts (inventory : Inventory) (names : List Bytes) : Except Bytes (List Host) :=
  names.mapM fun name =>
    match inventory.hosts.find? fun host => host.isNamed name with
    | none => .error (ascii "inventory: no such host '" ++ name ++ ascii "'")
    | some host => .ok host

/-- A host is added if it is complete and neither its name nor its address is taken. -/
def add (inventory : Inventory) (host : Host) : Except Bytes Inventory :=
  if host.name = [] ∨ host.host = [] then .error (ascii "inventory: host name must not be empty")
  else if ¬ isSupportedTransport host.transport then
    .error (ascii "inventory: transport must be ssh or native, got '" ++
      host.transport ++ ascii "'")
  else if inventory.hosts.any fun existing => existing.name = host.name ||
    existing.host = host.host then
    .error (ascii "inventory: host '" ++ host.name ++ ascii "' already exists")
  else
    .ok { inventory with
      hosts := inventory.hosts ++
        [if host.groups = [] then { host with groups := [ascii "all"] } else host] }

/-- The inventory without the host, if it is there. -/
def remove (inventory : Inventory) (name : Bytes) : Option Inventory :=
  if inventory.hosts.any fun host => host.isNamed name then
    some { inventory with hosts := inventory.hosts.eraseP fun host => host.isNamed name }
  else none

end Inventory

/-! ## A fleet -/

/-- What is known of a host. Its groups and its tags have no order. -/
structure Facts where
  user : Bytes
  port : Nat
  identity : Bytes
  transport : Bytes
  san : Bytes
  nativePort : Nat
  groups : Set Bytes
  tags : Set Bytes

/-- What is known of the host of each name. -/
abbrev Fleet := Bytes → Option Facts

/-- What a host is, apart from its name. -/
def Host.facts (host : Host) : Facts where
  user := host.user
  port := host.port
  identity := host.identity
  transport := host.transport
  san := host.san
  nativePort := host.nativePort
  groups := {group | group ∈ host.groups}
  tags := {tag | tag ∈ host.tags}

/-- The fleet of a list of hosts. -/
def fleetOf (hosts : List Host) : Fleet := toMap Host.name Host.facts hosts

/-- A host is added once, and has a name. -/
def Fleet.add (fleet : Fleet) (host : Host) : Option Fleet :=
  if host.name = [] ∨ (fleet host.name).isSome then none
  else some (Function.update fleet host.name (some host.facts))

/-- A fleet without one of its hosts. -/
def Fleet.remove (fleet : Fleet) (name : Bytes) : Option Fleet :=
  if (fleet name).isSome then some (Function.update fleet name none) else none

/-- What a command asks for. -/
inductive Edit
  | add (hosts : List Host)
  | remove (name : Bytes)

/-- What an edit makes of a fleet, if it can be made. -/
def Edit.apply : Edit → Fleet → Option Fleet
  | .add hosts, fleet => hosts.foldlM Fleet.add fleet
  | .remove name, fleet => Fleet.remove fleet name

/-- The hosts that an edit adds. -/
def Edit.hosts : Edit → List Host
  | .add hosts => hosts
  | .remove _ => []

/-- What the edit makes of the hosts, if it can be made. -/
def Edit.list : Edit → List Host → List Host
  | .add more, hosts => hosts ++ more
  | .remove name, hosts => hosts.eraseP fun host => host.isNamed name

/-- The edit of an inventory. -/
def Edit.run : Edit → Inventory → Except Bytes Inventory
  | .add hosts, inventory => hosts.foldlM Inventory.add inventory
  | .remove name, inventory =>
    match inventory.remove name with
    | none => .error (ascii "host '" ++ name ++ ascii "' not found")
    | some inventory => .ok inventory

/-! ## The same fleet -/

theorem SameHost.facts {entry other : Host} (h : SameHost entry other) :
    other.facts = entry.facts := by
  have hgroups : {group | group ∈ entry.groups} = {group | group ∈ other.groups} := Set.ext h.groups
  have htags : {tag | tag ∈ entry.tags} = {tag | tag ∈ other.tags} := Set.ext h.tags
  unfold Host.facts
  rw [h.user, h.port, h.identity, h.transport, h.san, h.nativePort, hgroups, htags]

theorem sameHost_of_facts {entry other : Host} (hentry : IsHost entry) (hother : IsHost other)
    (hname : other.name = entry.name) (h : other.facts = entry.facts) : SameHost entry other := by
  obtain ⟨huser, hport, hidentity, htransport, hsan, hnative, hgroups, htags⟩ := Facts.mk.inj h
  refine ⟨hname.symm, huser.symm, ?_, hport.symm, hidentity.symm, htransport.symm, hsan.symm,
    hnative.symm, fun group => (Set.ext_iff.mp hgroups group).symm,
    fun tag => (Set.ext_iff.mp htags tag).symm⟩
  rw [hentry.host, hother.host, hname]

/-- Two inventories have the same hosts when they are the same fleet. -/
theorem sameFleet_iff {hosts others : List Host} (hfleet : SoundFleet hosts)
    (hother : SoundFleet others) : SameFleet hosts others ↔ fleetOf others = fleetOf hosts := by
  constructor
  · rintro ⟨hlength, hkept⟩
    have hsub : hosts.map Host.name ⊆ others.map Host.name := by
      intro name hin
      obtain ⟨entry, hentry, rfl⟩ := List.mem_map.mp hin
      obtain ⟨other, hin, hsame⟩ := hkept entry hentry
      exact List.mem_map.mpr ⟨other, hin, hsame.name.symm⟩
    -- as many names, so no more
    have hperm : (hosts.map Host.name).Perm (others.map Host.name) :=
      (hfleet.names.subperm hsub).perm_of_length_le (by simp [hlength])
    apply Eq.symm
    refine toMap_eq hfleet.names hother.names (fun entry hentry => ?_) fun other hin => ?_
    · obtain ⟨other, hin, hsame⟩ := hkept entry hentry
      exact ⟨other, hin, hsame.name.symm, hsame.facts⟩
    · exact List.mem_map.mp (hperm.symm.subset (List.mem_map_of_mem hin))
  · intro h
    have hboth : ∀ entry ∈ hosts, ∃ other ∈ others,
        other.name = entry.name ∧ other.facts = entry.facts :=
      fun entry hentry => mem_of_toMap_eq hfleet.names hother.names h.symm hentry
    have hback : ∀ other ∈ others, ∃ entry ∈ hosts,
        entry.name = other.name ∧ entry.facts = other.facts :=
      fun other hin => mem_of_toMap_eq hother.names hfleet.names h hin
    have hperm : (hosts.map Host.name).Perm (others.map Host.name) := by
      refine (List.perm_ext_iff_of_nodup hfleet.names hother.names).mpr fun name => ?_
      constructor
      · intro hin
        obtain ⟨entry, hentry, rfl⟩ := List.mem_map.mp hin
        obtain ⟨other, hin, hname, -⟩ := hboth entry hentry
        exact List.mem_map.mpr ⟨other, hin, hname⟩
      · intro hin
        obtain ⟨other, hother, rfl⟩ := List.mem_map.mp hin
        obtain ⟨entry, hentry, hname, -⟩ := hback other hother
        exact List.mem_map.mpr ⟨entry, hentry, hname⟩
    refine ⟨by simpa using hperm.length_eq, fun entry hentry => ?_⟩
    obtain ⟨other, hin, hname, hfacts⟩ := hboth entry hentry
    exact ⟨other, hin,
      sameHost_of_facts (hfleet.sound entry hentry).1 (hother.sound other hin).1 hname hfacts⟩

/-- The groups of a host are not in its line. -/
theorem Writable.inGroups {entry : Host} (h : Writable entry) (groups : List Bytes) :
    Writable { entry with groups } := ⟨h.unblank, h.sign, h.first, h.last⟩

theorem serialize_reads_back {inventory : Inventory} (hfleet : SoundFleet inventory.hosts)
    (sourcePath : Bytes) (hall : ∀ entry ∈ inventory.hosts, Writable entry) :
    ∃ again, parse inventory.serialize sourcePath = .ok again ∧
      fleetOf again.hosts = fleetOf inventory.hosts ∧ ∀ entry ∈ again.hosts, Writable entry := by
  obtain ⟨again, hagain, hsame, hentries⟩ := serialize_keeps hfleet sourcePath hall
  refine ⟨again, hagain, (sameFleet_iff hfleet (sound_of_parse hagain)).mp hsame, fun e he => ?_⟩
  obtain ⟨entry, hentry, heq⟩ := hentries e he
  rw [heq]
  exact (hall entry hentry).inGroups e.groups

/-- What is written of a fleet is read back as the same fleet exactly when each host can stand in a
line. -/
theorem serialize_reads_back_iff {inventory : Inventory} (hfleet : SoundFleet inventory.hosts)
    (sourcePath : Bytes) :
    (∃ again, parse inventory.serialize sourcePath = .ok again ∧
      fleetOf again.hosts = fleetOf inventory.hosts) ↔
      ∀ entry ∈ inventory.hosts, Writable entry := by
  constructor
  · rintro ⟨again, hagain, hsame⟩ entry hentry
    have hhosts : ∀ entry ∈ inventory.hosts, IsHost entry :=
      fun entry hentry => (hfleet.sound entry hentry).1
    have hcovered :=
      covered_of_sound hfleet hagain ((sameFleet_iff hfleet (sound_of_parse hagain)).mpr hsame)
    exact hcovered.writable hhosts hentry
  · intro hall
    obtain ⟨again, hagain, hsame, -⟩ := serialize_reads_back hfleet sourcePath hall
    exact ⟨again, hagain, hsame⟩

/-! ## What the edits keep -/

section

variable {inventory inventory' : Inventory} {host : Host} {name : Bytes}

theorem SoundFleet.isNamed (hfleet : SoundFleet inventory.hosts) {entry : Host}
    (hentry : entry ∈ inventory.hosts) (name : Bytes) :
    entry.isNamed name = decide (entry.name = name) := by
  simp [Host.isNamed, (hfleet.sound entry hentry).1.host]

theorem fleetOf_isSome (hosts : List Host) (name : Bytes) :
    (fleetOf hosts name).isSome = hosts.any fun entry => entry.name = name := by
  rw [fleetOf, toMap, Option.isSome_map, Bool.eq_iff_iff, List.find?_isSome, List.any_eq_true]

theorem SoundFleet.any_named (hfleet : SoundFleet inventory.hosts) (name : Bytes) :
    (inventory.hosts.any fun entry => entry.isNamed name) =
      (fleetOf inventory.hosts name).isSome := by
  rw [fleetOf_isSome, Bool.eq_iff_iff, List.any_eq_true, List.any_eq_true]
  exact exists_congr fun entry => and_congr_right fun hentry => by rw [hfleet.isNamed hentry]

/-- A sound inventory and the fleet that it is. -/
def Refines (result : Except Bytes Inventory) (fleet : Option Fleet) : Prop :=
  match result with
  | .error _ => fleet = none
  | .ok inventory => SoundFleet inventory.hosts ∧ fleet = some (fleetOf inventory.hosts)

theorem add_refines (hfleet : SoundFleet inventory.hosts) (hhost : IsHost host ∧ host.groups ≠ []) :
    Refines (inventory.add host) (Fleet.add (fleetOf inventory.hosts) host) := by
  have hany : (inventory.hosts.any fun existing => existing.name = host.name ||
      existing.host = host.host) =
      (fleetOf inventory.hosts host.name).isSome := by
    rw [← hfleet.any_named host.name]
    simp only [hhost.1.host]
    rfl
  unfold Inventory.add Fleet.add
  by_cases hname : host.name = []
  · rw [if_pos (.inl hname), if_pos (.inl hname)]
    rfl
  · rw [if_neg (by simp [hhost.1.host, hname]), if_neg (not_not_intro hhost.1.transport), hany]
    cases hthere : (fleetOf inventory.hosts host.name).isSome with
    | true => simp [Refines]
    | false =>
      have hfresh : fleetOf inventory.hosts host.name = none := by simpa using hthere
      rw [if_neg Bool.false_ne_true, if_neg hhost.2, if_neg (by simp [hname])]
      refine ⟨⟨fun entry hentry => ?_, ?_⟩, ?_⟩
      · rcases List.mem_append.mp hentry with hentry | hentry
        · exact hfleet.sound entry hentry
        · rw [List.mem_singleton.mp hentry]
          exact hhost
      · rw [List.map_append, List.map_singleton, List.nodup_append]
        refine ⟨hfleet.names, List.nodup_singleton _, ?_⟩
        intro a ha b hb heq
        obtain ⟨entry, hentry, rfl⟩ := List.mem_map.mp ha
        rw [List.mem_singleton.mp hb] at heq
        exact toMap_none.mp hfresh entry hentry heq
      · rw [fleetOf, fleetOf, toMap_snoc hfresh]

theorem SoundFleet.eraseP_named (hfleet : SoundFleet inventory.hosts) (name : Bytes) :
    (inventory.hosts.eraseP fun entry => entry.isNamed name) =
      inventory.hosts.eraseP fun entry => entry.name = name := by
  have hall : ∀ hosts : List Host,
      (∀ entry ∈ hosts, entry.isNamed name = decide (entry.name = name)) →
      (hosts.eraseP fun entry => entry.isNamed name) = hosts.eraseP fun entry =>
        entry.name = name := by
    intro hosts
    induction hosts with
    | nil => simp
    | cons entry hosts ih =>
      intro hnamed
      rw [List.forall_mem_cons] at hnamed
      rw [List.eraseP_cons, List.eraseP_cons, hnamed.1, ih hnamed.2]
  exact hall _ fun entry hentry => hfleet.isNamed hentry name

theorem remove_refines (hfleet : SoundFleet inventory.hosts) (name : Bytes) :
    Refines ((Edit.remove name).run inventory) (Fleet.remove (fleetOf inventory.hosts) name) := by
  simp only [Edit.run]
  unfold Inventory.remove Fleet.remove
  rw [hfleet.any_named]
  cases hthere : (fleetOf inventory.hosts name).isSome with
  | false => simp [Refines]
  | true =>
    rw [if_pos rfl, if_pos rfl]
    dsimp only
    rw [hfleet.eraseP_named]
    refine ⟨⟨fun entry hentry => hfleet.sound entry (List.mem_of_mem_eraseP hentry), ?_⟩, ?_⟩
    · exact hfleet.names.sublist (List.eraseP_sublist.map _)
    · rw [fleetOf, fleetOf, toMap_eraseP hfleet.names]

/-- The edit of an inventory is the edit of its fleet. -/
theorem run_refines (hfleet : SoundFleet inventory.hosts) {edit : Edit}
    (hhosts : ∀ host ∈ edit.hosts, IsHost host ∧ host.groups ≠ []) :
    Refines (edit.run inventory) (edit.apply (fleetOf inventory.hosts)) := by
  cases edit with
  | remove name => exact remove_refines hfleet name
  | add hosts =>
    simp only [Edit.run, Edit.apply]
    induction hosts generalizing inventory with
    | nil => exact ⟨hfleet, rfl⟩
    | cons host hosts ih =>
      simp only [Edit.hosts, List.forall_mem_cons] at hhosts
      have hadd := add_refines hfleet hhosts.1
      rw [List.foldlM_cons, List.foldlM_cons]
      cases hcase : inventory.add host with
      | error e =>
        rw [hcase] at hadd
        rw [show Fleet.add (fleetOf inventory.hosts) host = none from hadd]
        rfl
      | ok next =>
        rw [hcase] at hadd
        obtain ⟨hsound, heq⟩ := hadd
        rw [heq]
        exact ih hsound hhosts.2

theorem add_ok (hgroups : host.groups ≠ []) (h : inventory.add host = .ok inventory') :
    inventory'.hosts = inventory.hosts ++ [host] := by
  unfold Inventory.add at h
  split_ifs at h
  rw [← Except.ok.inj h]

theorem run_list {edit : Edit} (hgroups : ∀ host ∈ edit.hosts, host.groups ≠ [])
    (h : edit.run inventory = .ok inventory') : inventory'.hosts = edit.list inventory.hosts := by
  cases edit with
  | remove name =>
    simp only [Edit.run] at h
    unfold Inventory.remove at h
    split at h
    · cases h
    · rename_i hcase
      split_ifs at hcase
      rw [← Except.ok.inj h, ← Option.some.inj hcase]
      rfl
  | add hosts =>
    simp only [Edit.run, Edit.hosts, Edit.list] at h hgroups ⊢
    induction hosts generalizing inventory with
    | nil =>
      rw [← pure_ok.mp h]
      simp
    | cons host hosts ih =>
      rw [List.forall_mem_cons] at hgroups
      rw [List.foldlM_cons] at h
      obtain ⟨next, hnext, h⟩ := bind_ok.mp h
      rw [ih hgroups.2 h, add_ok hgroups.1 hnext, List.append_assoc]
      rfl

/-- An edit leaves no host but those that were there or that it adds. -/
theorem mem_list {edit : Edit} {hosts : List Host} {host : Host} (h : host ∈ edit.list hosts) :
    host ∈ hosts ∨ host ∈ edit.hosts := by
  cases edit with
  | remove name => exact .inl (List.mem_of_mem_eraseP h)
  | add more => exact List.mem_append.mp h

/-! ## What is selected -/

open Classical in
/-- The hosts of a fleet of which this is so. -/
noncomputable def Fleet.those (fleet : Fleet) (p : Facts → Prop) : Fleet :=
  fun name => (fleet name).filter fun facts => p facts

/-- The host that goes by a name. -/
def Fleet.named (fleet : Fleet) (name : Bytes) : Except Bytes (Bytes × Facts) :=
  match fleet name with
  | none => .error (ascii "inventory: no such host '" ++ name ++ ascii "'")
  | some facts => .ok (name, facts)

/-- A host and its name. -/
def Host.named (host : Host) : Bytes × Facts := (host.name, host.facts)

theorem selectGroup_fleet (hfleet : SoundFleet inventory.hosts) (group : Bytes) :
    fleetOf (inventory.selectGroup group) =
      (fleetOf inventory.hosts).those fun facts => group ∈ facts.groups :=
  toMap_filter hfleet.names (by simp [Host.facts])

theorem selectTag_fleet (hfleet : SoundFleet inventory.hosts) (tag : Bytes) :
    fleetOf (inventory.selectTag tag) = (fleetOf inventory.hosts).those fun facts =>
      tag ∈ facts.tags :=
  toMap_filter hfleet.names (by simp [Host.facts])

theorem SoundFleet.find_named (hfleet : SoundFleet inventory.hosts) (name : Bytes) :
    (inventory.hosts.find? fun host => host.isNamed name) =
      inventory.hosts.find? fun host => host.name = name := by
  apply List.find?_congr
  exact fun host hhost => hfleet.isNamed hhost name

theorem selectHosts_fleet (hfleet : SoundFleet inventory.hosts) (names : List Bytes) :
    (inventory.selectHosts names).map (List.map Host.named) =
      names.mapM (fleetOf inventory.hosts).named := by
  unfold Inventory.selectHosts
  induction names with
  | nil => rfl
  | cons name names ih =>
    rw [List.mapM_cons, List.mapM_cons, ← ih, hfleet.find_named]
    unfold Fleet.named fleetOf toMap
    cases hfind : inventory.hosts.find? fun host => host.name = name with
    | none => rfl
    | some host =>
      have hname : host.name = name := by simpa using List.find?_some hfind
      subst hname
      cases names.mapM fun name =>
        match inventory.hosts.find? fun host => host.isNamed name with
        | none => Except.error (ascii "inventory: no such host '" ++ name ++ ascii "'")
        | some host => .ok host with
      | error message => rfl
      | ok hosts => rfl

/-- A fleet is what its names stand for. -/
theorem fleet_of_named {fleet other : Fleet}
    (h : ∀ names : List Bytes, names.mapM other.named = names.mapM fleet.named) :
    other = fleet := by
  funext name
  have hone := h [name]
  rw [List.mapM_cons, List.mapM_cons] at hone
  unfold Fleet.named at hone
  cases hother : other name with
  | none =>
    cases hfleet : fleet name with
    | none => rfl
    | some facts =>
      rw [hother, hfleet] at hone
      cases hone
  | some facts =>
    cases hfleet : fleet name with
    | none =>
      rw [hother, hfleet] at hone
      cases hone
    | some facts' =>
      rw [hother, hfleet] at hone
      cases hone
      rfl

/-- What is written of an inventory selects the same hosts exactly when each host can stand in a
line. -/
theorem the_same_is_selected_iff (hfleet : SoundFleet inventory.hosts)
    (sourcePath : Bytes) :
    (∃ again, parse inventory.serialize sourcePath = .ok again ∧
      (∀ group, fleetOf (again.selectGroup group) = fleetOf (inventory.selectGroup group)) ∧
      (∀ tag, fleetOf (again.selectTag tag) = fleetOf (inventory.selectTag tag)) ∧
      ∀ names, (again.selectHosts names).map (List.map Host.named) =
        (inventory.selectHosts names).map (List.map Host.named)) ↔
      ∀ entry ∈ inventory.hosts, Writable entry := by
  rw [← serialize_reads_back_iff hfleet sourcePath]
  refine exists_congr fun again => and_congr_right fun hagain => ?_
  have hsound := sound_of_parse hagain
  constructor
  · rintro ⟨-, -, hnames⟩
    apply fleet_of_named
    intro names
    rw [← selectHosts_fleet hsound, ← selectHosts_fleet hfleet, hnames]
  · intro hsame
    refine ⟨fun group => ?_, fun tag => ?_, fun names => ?_⟩
    · rw [selectGroup_fleet hsound, selectGroup_fleet hfleet, hsame]
    · rw [selectTag_fleet hsound, selectTag_fleet hfleet, hsame]
    · rw [selectHosts_fleet hsound, selectHosts_fleet hfleet, hsame]

/-- Two hosts are in the group, and one of them has the tag. -/
theorem two_hosts_are_selected : ∃ again,
    parse (Inventory.serialize { hosts := twoHosts }) [] = .ok again ∧
      fleetOf (again.selectGroup (ascii "web")) = fleetOf twoHosts ∧
      fleetOf (again.selectTag (ascii "b")) = fleetOf (twoHosts.take 1) := by
  obtain ⟨again, hagain, hgroups, htags, -⟩ :=
    (the_same_is_selected_iff (sound_of_parse twoHosts_read) []).mpr twoHosts_writable
  refine ⟨again, hagain, ?_, ?_⟩
  · rw [hgroups]
    rfl
  · rw [htags]
    rfl

end

end psx.inventory
