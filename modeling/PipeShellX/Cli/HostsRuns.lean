-- Any number of commands on one inventory, each of them stopped anywhere: the file always reads
-- back as the fleet that the edits of the commands made which replaced it, one after the other. It
-- does so as long as every host that is added can stand in a line, and no longer.
import PipeShellX.Cli.HostsAdd

namespace psx.cli.hosts

open Text (ascii)
open psx.inventory (Host Inventory Edit Fleet IsHost SoundFleet Writable Refines fleetOf)
open psx.os (Answer Directory Job Phase Rewrite Stands atomicRewriteFile
  atomicWriteWithMode stands_run
  read_of_names)

/-! ## What the commands ask for -/

/-- A command line, with what the system says to it. -/
structure Command where
  env : Environment
  args : List Bytes

/-- The edit of an invocation, whatever the inventory holds. -/
def editOf (env : Environment) (invocation : HostsInvocation) : Option Edit :=
  if invocation.action = ascii "list" then none
  else if invocation.action = ascii "add" then
    (parseHostToAdd invocation.operands).toOption.map fun host => .add [host]
  else if invocation.action = ascii "remove" then
    (operand invocation (ascii "HOST")).toOption.map Edit.remove
  else (importedHosts env invocation).toOption.map Edit.add

/-- The edit that the arguments ask for, if they ask for one. -/
def Command.edit (c : Command) : Option Edit :=
  (parseInvocation c.args).toOption.bind (editOf c.env)

/-- The command, run on a directory. -/
def Command.run (c : Command) (d : Directory) : Ended := hostsSubcommand c.env c.args d

/-- The command is not about another inventory. -/
def Command.On (path : Bytes) (c : Command) : Prop :=
  ∀ invocation, parseInvocation c.args = .ok invocation →
    invocation.action = ascii "list" ∨ invocation.inventoryPath = path

/-- The file of the inventory is read as these hosts. -/
def Reads (path : Bytes) (d : Directory) (hosts : List Host) : Prop :=
  match d.read (filename path) with
  | none => hosts = []
  | some inode => ∃ loaded, inventory.parse inode.content path = .ok loaded ∧ loaded.hosts = hosts

section

variable {env : Environment} {d : Directory} {path : Bytes} {invocation : HostsInvocation}
  {hosts : List Host} {edit : Edit}

theorem Reads.sound (h : Reads path d hosts) : SoundFleet hosts := by
  unfold Reads at h
  split at h
  · rw [h]
    exact ⟨by simp, List.nodup_nil⟩
  · obtain ⟨loaded, hloaded, rfl⟩ := h
    exact inventory.sound_of_parse hloaded

theorem Reads.congr {d' : Directory} (h : Reads path d hosts)
    (hsame : d'.read (filename path) = d.read (filename path)) : Reads path d' hosts := by
  unfold Reads at h ⊢
  rw [hsame]
  exact h

theorem toOption_some {α : Type} {x : Except Bytes α} {a : α} :
    x.toOption = some a ↔ x = .ok a := by
  cases x <;> simp [Except.toOption]

/-- The hosts of an edit were read. -/
theorem editOf_sound (h : editOf env invocation = some edit) :
    ∀ host ∈ edit.hosts, IsHost host ∧ host.groups ≠ [] := by
  unfold editOf at h
  split_ifs at h
  · obtain ⟨host, hhost, rfl⟩ := Option.map_eq_some_iff.mp h
    rw [toOption_some] at hhost
    intro added hin
    rw [Edit.hosts, List.mem_singleton] at hin
    rw [hin]
    exact added_sound hhost
  · obtain ⟨name, -, rfl⟩ := Option.map_eq_some_iff.mp h
    simp [Edit.hosts]
  · obtain ⟨hosts, hhosts, rfl⟩ := Option.map_eq_some_iff.mp h
    rw [toOption_some] at hhosts
    unfold importedHosts at hhosts
    obtain ⟨source, -, hhosts⟩ := bind_ok.mp hhosts
    split at hhosts
    · cases hhosts
    · cases hhosts
    · obtain ⟨text, -, hhosts⟩ := bind_ok.mp hhosts
      obtain ⟨imported, himported, hhosts⟩ := bind_ok.mp hhosts
      split_ifs at hhosts
      rw [← pure_ok.mp hhosts]
      obtain ⟨done, -, hparsed⟩ := bind_ok.mp himported
      exact (inventory.sound_of_parse hparsed).sound

/-! ## One command -/

/-- What a command does before it writes. -/
def act (env : Environment) (d : Directory) (invocation : HostsInvocation) :
    Except Bytes (Inventory × Bytes) :=
  if invocation.action = ascii "add" then addHost env d invocation
  else if invocation.action = ascii "remove" then removeHost env d invocation
  else importClients env d invocation

theorem hostsSubcommand_act {args : List Bytes} (h : parseInvocation args = .ok invocation)
    (hlist : invocation.action ≠ ascii "list") :
    hostsSubcommand env args d = commit env d invocation.inventoryPath (act env d invocation) := by
  unfold hostsSubcommand act
  rw [h]
  dsimp only
  rw [if_neg hlist]
  split_ifs <;> rfl

theorem listed (env : Environment) (d : Directory) {args : List Bytes}
    (h : parseInvocation args = .ok invocation) (hlist : invocation.action = ascii "list") :
    (hostsSubcommand env args d).committed = false ∧ (hostsSubcommand env args d).dir = d := by
  unfold hostsSubcommand
  rw [h]
  dsimp only
  rw [if_pos hlist]
  split
  · exact ⟨rfl, rfl⟩
  · cases listHosts env d invocation.inventoryPath <;> exact ⟨rfl, rfl⟩

theorem requireExplicitInventory_ok (h : requireExplicitInventory invocation = .ok ()) :
    filename invocation.inventoryPath ≠ ascii "clients.txt" := by
  unfold requireExplicitInventory at h
  split_ifs at h with _ hname
  exact hname

/-- What was read for an edit, and what the edit makes of it. -/
structure Edited (env : Environment) (d : Directory) (path : Bytes) (edit : Edit)
    (written : Inventory) : Prop where
  ini : filename path ≠ ascii "clients.txt"
  loads : ∃ loaded allowMissing, loadMutationTarget env d path allowMissing = .ok loaded ∧
    edit.run loaded = .ok written

theorem act_ok {written : Inventory} {said : Bytes} (hlist : invocation.action ≠ ascii "list")
    (h : act env d invocation = .ok (written, said)) :
    ∃ edit, editOf env invocation = some edit ∧
      Edited env d invocation.inventoryPath edit written := by
  unfold act at h
  unfold editOf
  rw [if_neg hlist]
  split_ifs at h ⊢
  · obtain ⟨_, hini, h⟩ := bind_ok.mp h
    obtain ⟨loaded, hloaded, h⟩ := bind_ok.mp h
    obtain ⟨host, hhost, h⟩ := bind_ok.mp h
    obtain ⟨added, hadded, h⟩ := bind_ok.mp h
    cases pure_ok.mp h
    refine ⟨.add [host], by simp [hhost, Except.toOption], requireExplicitInventory_ok hini,
      loaded, true,
      hloaded, ?_⟩
    exact bind_ok.mpr ⟨written, hadded, rfl⟩
  · obtain ⟨_, hini, h⟩ := bind_ok.mp h
    obtain ⟨name, hname, h⟩ := bind_ok.mp h
    obtain ⟨loaded, hloaded, h⟩ := bind_ok.mp h
    cases hremove : loaded.remove name with
    | none =>
      rw [hremove] at h
      cases h
    | some removed =>
      rw [hremove] at h
      cases pure_ok.mp h
      refine ⟨.remove name, by simp [hname, Except.toOption], requireExplicitInventory_ok hini,
        loaded, false,
        hloaded, ?_⟩
      simp only [Edit.run, hremove]
  · obtain ⟨_, hini, h⟩ := bind_ok.mp h
    obtain ⟨hosts, hhosts, h⟩ := bind_ok.mp h
    obtain ⟨loaded, hloaded, h⟩ := bind_ok.mp h
    obtain ⟨added, hadded, h⟩ := bind_ok.mp h
    cases pure_ok.mp h
    exact ⟨.add hosts, by simp [hhosts, Except.toOption], requireExplicitInventory_ok hini,
      loaded, true,
      hloaded, hadded⟩

/-- What is loaded for an edit are the hosts that the file is read as. -/
theorem Reads.loaded {loaded : Inventory} {allowMissing : Bool} (h : Reads path d hosts)
    (hini : filename path ≠ ascii "clients.txt")
    (hload : loadMutationTarget env d path allowMissing = .ok loaded) : loaded.hosts = hosts := by
  unfold loadMutationTarget at hload
  unfold Reads at h
  split at hload
  · cases hload
  · split_ifs at hload with hmissing
    · rw [Bool.and_eq_true, Option.isNone_iff_eq_none] at hmissing
      rw [hmissing.1] at h
      rw [← Except.ok.inj hload, h]
    · unfold loadText contents at hload
      cases hread : d.read (filename path) with
      | none =>
        rw [hread] at hload
        split_ifs at hload
        cases hload
      | some inode =>
        rw [hread] at h hload
        obtain ⟨again, hagain, rfl⟩ := h
        split_ifs at hload
        simp only [Option.map_some] at hload
        rw [hagain] at hload
        rw [← Except.ok.inj hload]

theorem atomicRewriteFile_ok {stat : os.Stat} {name text : Bytes} {job : Job}
    (h : atomicRewriteFile stat name text = .ok job) :
    job.filename = name ∧ job.contents = text := by
  unfold atomicRewriteFile at h
  split at h
  · rw [← Except.ok.inj h]
    exact ⟨rfl, rfl⟩
  · split_ifs at h
    rw [← Except.ok.inj h]
    exact ⟨rfl, rfl⟩

/-- The file is the old one until the rewrite is through. -/
theorem rewrite_read (job : Job) (d : Directory) (answers : List Answer) :
    let rewrite := (atomicWriteWithMode job d).run job answers
    (rewrite.phase = .done (.ok ()) → rewrite.dir.read job.filename = some job.file) ∧
      (rewrite.phase ≠ .done (.ok ()) → rewrite.dir.read job.filename = d.read job.filename) := by
  intro rewrite
  have hstands : Stands job d rewrite.phase rewrite.dir := stands_run job d answers
  refine ⟨fun hdone => ?_, fun hnot => ?_⟩
  · rw [hdone] at hstands
    obtain ⟨hnames, hinodes⟩ := hstands
    simp [Directory.read, hnames, hinodes]
  · rcases hstands.name with hname | ⟨hdone, -⟩
    · exact read_of_names hname hstands.grows
    · exact absurd hdone hnot

/-- A command that does not replace the file leaves it, and one that does writes the edited
inventory. -/
theorem commit_read (env : Environment) (d : Directory) (path : Bytes)
    (result : Except Bytes (Inventory × Bytes)) :
    let e := commit env d path result
    (e.committed = false → e.dir.read (filename path) = d.read (filename path)) ∧
      (e.committed = true → ∃ written said inode, result = .ok (written, said) ∧
        e.dir.read (filename path) = some inode ∧ inode.content = written.serialize) := by
  intro e
  cases result with
  | error message => exact ⟨fun _ => rfl, nofun⟩
  | ok edited =>
    obtain ⟨written, said⟩ := edited
    cases hjob : atomicRewriteFile (statOf env d path) (filename path) written.serialize with
    | error error => simp [e, commit, hjob, failed]
    | ok job =>
      obtain ⟨hname, hcontents⟩ := atomicRewriteFile_ok hjob
      obtain ⟨hdone, hnot⟩ := rewrite_read job d env.answers
      rw [hname] at hdone hnot
      cases hphase : ((atomicWriteWithMode job d).run job env.answers).phase with
      | done result =>
        cases result with
        | ok value =>
          refine ⟨fun hfalse => by simp [e, commit, hjob, hphase] at hfalse, fun _ => ?_⟩
          refine ⟨written, said, job.file, rfl, ?_, hcontents⟩
          simpa [e, commit, hjob, hphase] using hdone hphase
        | error error =>
          refine ⟨fun _ => ?_, fun htrue => by simp [e, commit, hjob, hphase, failed] at htrue⟩
          simpa [e, commit, hjob, hphase, failed] using hnot (by simp [hphase])
      | _ =>
        refine ⟨fun _ => ?_, fun htrue => by simp [e, commit, hjob, hphase] at htrue⟩
        simpa [e, commit, hjob, hphase] using hnot (by simp [hphase])

/-- What a command leaves: the file that was there, or the edited inventory. -/
theorem run_read {c : Command} (hreads : Reads path d hosts) (hon : c.On path) :
    ((c.run d).committed = false → (c.run d).dir.read (filename path) = d.read (filename path)) ∧
      ((c.run d).committed = true → ∃ (edit : Edit) (written : Inventory) (inode : os.Inode),
        c.edit = some edit ∧
        SoundFleet written.hosts ∧ written.hosts = edit.list hosts ∧
        edit.apply (fleetOf hosts) = some (fleetOf written.hosts) ∧
        (c.run d).dir.read (filename path) = some inode ∧ inode.content = written.serialize) := by
  unfold Command.run
  cases hparse : parseInvocation c.args with
  | error message => simp [hostsSubcommand, hparse, failed]
  | ok invocation =>
    by_cases hlist : invocation.action = ascii "list"
    · obtain ⟨hcommitted, hdir⟩ := listed c.env d hparse hlist
      rw [hcommitted, hdir]
      exact ⟨fun _ => rfl, nofun⟩
    · rw [hostsSubcommand_act hparse hlist]
      obtain rfl := (hon invocation hparse).resolve_left hlist
      obtain ⟨hleft, hwritten⟩ :=
        commit_read c.env d invocation.inventoryPath (act c.env d invocation)
      refine ⟨hleft, fun hcommitted => ?_⟩
      obtain ⟨written, said, inode, hact, hread, hcontent⟩ := hwritten hcommitted
      obtain ⟨edit, hedit, hini, loaded, allowMissing, hload, hrun⟩ := act_ok hlist hact
      have hloaded := hreads.loaded hini hload
      have hedited := editOf_sound hedit
      have hrefines := inventory.run_refines (hloaded ▸ hreads.sound) hedited
      rw [hrun, hloaded] at hrefines
      refine ⟨edit, written, inode, by simp [Command.edit, hparse, hedit, Except.toOption],
        hrefines.1, ?_,
        hrefines.2, hread, hcontent⟩
      rw [← hloaded]
      exact inventory.run_list (fun host hin => (hedited host hin).2) hrun

/-- After an edit the file is read as the edited fleet exactly when each of its hosts can stand in a
line. -/
theorem an_edit_reads_back_iff {c : Command} (hreads : Reads path d hosts) (hon : c.On path)
    (hcommitted : (c.run d).committed = true) : ∃ edit, c.edit = some edit ∧
      edit.apply (fleetOf hosts) = some (fleetOf (edit.list hosts)) ∧
      ((∃ again, Reads path (c.run d).dir again ∧ fleetOf again = fleetOf (edit.list hosts)) ↔
        ∀ host ∈ edit.list hosts, Writable host) := by
  obtain ⟨edit, written, inode, hedit, hsound, hlist, happly, hread, hcontent⟩ :=
    (run_read hreads hon).2 hcommitted
  rw [hlist] at happly
  refine ⟨edit, hedit, happly, ?_⟩
  rw [← hlist, ← inventory.serialize_reads_back_iff hsound path]
  unfold Reads
  rw [hread]
  dsimp only
  rw [hcontent]
  constructor
  · rintro ⟨_, ⟨again, hagain, rfl⟩, hsame⟩
    exact ⟨again, hagain, hsame⟩
  · rintro ⟨again, hagain, hsame⟩
    exact ⟨again.hosts, ⟨again, hagain, rfl⟩, hsame⟩

/-- A directory without files. -/
def bare : Directory := ⟨fun _ => none, [], nofun⟩

/-- A host with a user of its own. -/
def web : Host :=
  { name := ascii "web-1", user := ascii "root", host := ascii "web-1", groups := [ascii "all"] }

/-- The command that adds it. -/
def addWeb : Command where
  env := { answers := [.named (ascii "x"), .ok, .wrote 64, .ok, .ok, .ok] }
  args := [ascii "-i", ascii "fleet.ini", ascii "add", ascii "root@web-1"]

theorem addWeb_on : addWeb.On (ascii "fleet.ini") := by
  intro invocation h
  have hparse : parseInvocation addWeb.args =
      .ok ⟨ascii "fleet.ini", ascii "add", [ascii "root@web-1"]⟩ := by decide
  obtain rfl := Except.ok.inj (hparse.symm.trans h)
  exact .inr rfl

theorem addWeb_edit : addWeb.edit = some (.add [web]) := rfl

theorem writable_web : Writable web := by
  have hadded : parseHostToAdd [ascii "root@web-1"] = .ok web := by decide
  exact a_plain_host_stands hadded (by decide) (by decide)

theorem the_first_host_reads_back : ∃ again,
    Reads (ascii "fleet.ini") (addWeb.run bare).dir again ∧ fleetOf again = fleetOf [web] := by
  obtain ⟨edit, hedit, -, hiff⟩ :=
    an_edit_reads_back_iff (show Reads (ascii "fleet.ini") bare [] from rfl) addWeb_on rfl
  obtain rfl := Option.some.inj (addWeb_edit.symm.trans hedit)
  refine hiff.mpr fun host hin => ?_
  rw [Edit.list, List.nil_append, List.mem_singleton] at hin
  rw [hin]
  exact writable_web

/-- The user of an option may have a sign in it, and then the host is read as another one. -/
example : ∃ again,
    inventory.parse (Inventory.serialize { hosts := [{ web with user := ascii "a@b" }] }) [] =
      .ok again ∧
      again.hosts.map Host.name = [ascii "b@web-1"] := ⟨_, rfl, rfl⟩

/-! ## Any number of commands -/

/-- The directory after a series of commands. -/
def after (d : Directory) (commands : List Command) : Directory :=
  commands.foldl (fun d c => (c.run d).dir) d

/-- The edits of the commands that replaced the file. -/
def edits (d : Directory) : List Command → List Edit
  | [] => []
  | c :: commands =>
    (if (c.run d).committed then c.edit.toList else []) ++ edits (c.run d).dir commands

theorem run_keeps {c : Command} (hreads : Reads path d hosts) (hall : ∀ host ∈ hosts, Writable host)
    (hon : c.On path) (hadds : ∀ edit ∈ c.edit, ∀ host ∈ edit.hosts, Writable host) :
    ∃ hosts', Reads path (c.run d).dir hosts' ∧ (∀ host ∈ hosts', Writable host) ∧
      (if (c.run d).committed then c.edit.toList
        else []).foldlM (fun fleet edit => Edit.apply edit fleet)
        (fleetOf hosts) = some (fleetOf hosts') := by
  obtain ⟨hleft, hwritten⟩ := run_read hreads hon
  cases hcommitted : (c.run d).committed with
  | false => exact ⟨hosts, hreads.congr (hleft hcommitted), hall, rfl⟩
  | true =>
    obtain ⟨edit, written, inode, hedit, hsound, hlist, happly, hread, hcontent⟩ :=
      hwritten hcommitted
    have hwritable : ∀ host ∈ written.hosts, Writable host := by
      intro host hin
      rw [hlist] at hin
      rcases inventory.mem_list hin with hin | hin
      · exact hall host hin
      · exact hadds edit hedit host hin
    obtain ⟨again, hagain, hsame, hagainAll⟩ := inventory.serialize_reads_back hsound path hwritable
    refine ⟨again.hosts, ?_, hagainAll, ?_⟩
    · unfold Reads
      rw [hread]
      exact ⟨again, by rw [hcontent, hagain], rfl⟩
    · rw [hedit, hsame]
      simp [happly]

/-- As long as the hosts that are added can stand in a line, the file is always read as the fleet
that the edits made of it: those of the commands that replaced it, in their order, each of which
could be made. What was cut short, and what was refused, is not seen. -/
theorem the_file_is_the_fleet_of_the_edits {commands : List Command} (hreads : Reads path d hosts)
    (hall : ∀ host ∈ hosts, Writable host) (hon : ∀ c ∈ commands, c.On path)
    (hadds : ∀ c ∈ commands, ∀ edit ∈ c.edit, ∀ host ∈ edit.hosts, Writable host) :
    ∃ hosts', Reads path (after d commands) hosts' ∧ (∀ host ∈ hosts', Writable host) ∧
      (edits d commands).foldlM (fun fleet edit => Edit.apply edit fleet) (fleetOf hosts) =
        some (fleetOf hosts') := by
  induction commands generalizing d hosts with
  | nil => exact ⟨hosts, hreads, hall, rfl⟩
  | cons c commands ih =>
    rw [List.forall_mem_cons] at hon hadds
    obtain ⟨next, hnext, hnextAll, hmade⟩ := run_keeps hreads hall hon.1 hadds.1
    obtain ⟨hosts', hlast, hlastAll, hrest⟩ := ih hnext hnextAll hon.2 hadds.2
    refine ⟨hosts', hlast, hlastAll, ?_⟩
    rw [edits, List.foldlM_append, hmade]
    exact hrest

/-- The host is taken out, but the command ends before the file is replaced. -/
def removeWeb : Command where
  env := { answers := [.named (ascii "y"), .ok, .ok] }
  args := [ascii "-i", ascii "fleet.ini", ascii "remove", ascii "web-1"]

theorem removeWeb_on : removeWeb.On (ascii "fleet.ini") := by
  intro invocation h
  have hparse : parseInvocation removeWeb.args =
      .ok ⟨ascii "fleet.ini", ascii "remove", [ascii "web-1"]⟩ := by decide
  obtain rfl := Except.ok.inj (hparse.symm.trans h)
  exact .inr rfl

theorem removeWeb_edit : removeWeb.edit = some (.remove (ascii "web-1")) := rfl

theorem a_cut_short_removal_is_not_seen : ∃ hosts,
    Reads (ascii "fleet.ini") (after bare [addWeb, removeWeb]) hosts ∧
    fleetOf hosts = fleetOf [web] := by
  have hon : ∀ c ∈ [addWeb, removeWeb], c.On (ascii "fleet.ini") := by
    simp [addWeb_on, removeWeb_on]
  have hadds : ∀ c ∈ [addWeb, removeWeb], ∀ edit ∈ c.edit, ∀ host ∈ edit.hosts, Writable host := by
    simp [addWeb_edit, removeWeb_edit, Edit.hosts, writable_web]
  have hnone : Reads (ascii "fleet.ini") bare [] := rfl
  obtain ⟨hosts, hreads, -, hmade⟩ := the_file_is_the_fleet_of_the_edits hnone (by simp) hon hadds
  refine ⟨hosts, hreads, ?_⟩
  have hedits : edits bare [addWeb, removeWeb] = [.add [web]] := rfl
  have hfresh : fleetOf [] web.name = none := rfl
  have hadded : (Edit.add [web]).apply (fleetOf []) = some (fleetOf [web]) := by
    simp only [Edit.apply, List.foldlM_cons, List.foldlM_nil, Fleet.add, hfresh]
    rw [if_neg (by decide)]
    exact congrArg some (Keyed.toMap_snoc hfresh).symm
  rw [hedits, List.foldlM_cons, hadded] at hmade
  exact (Option.some.inj hmade).symm

/-! ## What is refused -/

/-- The system does not do what it is asked. -/
def refuses : Answer → Bool
  | .failed _ => true
  | .wrote n => n = 0
  | .ok | .named _ => false

/-- The rewrite has failed, or is about to. -/
def failing : Phase → Bool
  | .unlink .. | .done (.error _) => true
  | _ => false

theorem failing_next {job : Job} {s : Rewrite} {answer : Answer}
    (h : failing (s.next job answer).phase = true) :
    failing s.phase = true ∨ refuses answer = true := by
  obtain ⟨dir, phase⟩ := s
  cases phase with
  | unlink t error => exact .inl rfl
  | done result => exact .inl (by cases answer <;> exact h)
  | mkstemp =>
    right
    cases answer with
    | failed err => rfl
    | named suffix =>
      simp only [Rewrite.next] at h
      split at h <;> cases h
    | _ => cases h
  | write t contents =>
    right
    cases answer with
    | failed err => rfl
    | wrote n =>
      simp only [Rewrite.next] at h
      split at h
      · simpa [refuses]
      · unfold os.writing at h
        split at h <;> cases h
    | _ => cases h
  | fchmod t =>
    right
    cases answer with
    | failed err => rfl
    | ok =>
      simp only [Rewrite.next, os.writing] at h
      split at h <;> cases h
    | _ => cases h
  | _ =>
    right
    cases answer with
    | failed err => rfl
    | _ => cases h

/-- A rewrite fails only when a call does. -/
theorem failing_run {job : Job} {d : Directory} {answers : List Answer} (hname : job.filename ≠ [])
    (h : failing ((atomicWriteWithMode job d).run job answers).phase = true) :
    ∃ answer ∈ answers, refuses answer = true := by
  unfold Rewrite.run at h
  induction answers using List.reverseRecOn with
  | nil => simp [atomicWriteWithMode, hname, failing] at h
  | append_singleton answers answer ih =>
    rw [List.foldl_append] at h
    rcases failing_next h with h | h
    · obtain ⟨before, hbefore, hrefuses⟩ := ih h
      exact ⟨before, List.mem_append_left _ hbefore, hrefuses⟩
    · exact ⟨answer, by simp, h⟩

/-- Something that a command asks of the system fails. -/
def Environment.Refuses (env : Environment) : Prop :=
  env.inspect ≠ none ∨ env.opens = false ∨ env.stat ≠ none ∨
    ∃ answer ∈ env.answers, refuses answer = true

/-- The file of an inventory is loaded, but for what is not there and has to be. -/
theorem Reads.load (h : Reads path d hosts) (allowMissing : Bool)
    (hini : filename path ≠ ascii "clients.txt") (hcalm : ¬ env.Refuses)
    (hthere : allowMissing = true ∨ hosts ≠ []) :
    ∃ loaded, loadMutationTarget env d path allowMissing = .ok loaded ∧ loaded.hosts = hosts := by
  simp only [Environment.Refuses, not_or, not_not] at hcalm
  have hopens : env.opens = true := by simpa using hcalm.2.1
  unfold loadMutationTarget
  rw [hcalm.1]
  unfold Reads at h
  cases hread : d.read (filename path) with
  | none =>
    rw [hread] at h
    rw [h] at hthere ⊢
    have hallow : allowMissing = true := hthere.resolve_right (not_not_intro rfl)
    exact ⟨{}, by simp [hallow], rfl⟩
  | some inode =>
    rw [hread] at h
    obtain ⟨loaded, hloaded, hhosts⟩ := h
    exact ⟨loaded, by simp [loadText, contents, hopens, hread, hini, hloaded], hhosts⟩

theorem act_of_edit (hpath : path ≠ []) (hini : filename path ≠ ascii "clients.txt")
    (hinventory : invocation.inventoryPath = path) (hreads : Reads path d hosts)
    (hcalm : ¬ env.Refuses) (hedit : editOf env invocation = some edit)
    (happly : edit.apply (fleetOf hosts) ≠ none) :
    ∃ written said, act env d invocation = .ok (written, said) := by
  subst hinventory
  have hexplicit : requireExplicitInventory invocation = .ok () := by
    simp [requireExplicitInventory, hpath, hini]
  have hsound := editOf_sound hedit
  -- the edit of the hosts can be made
  have hrun : ∀ loaded : Inventory, loaded.hosts = hosts →
      ∃ written, edit.run loaded = .ok written := by
    intro loaded hloaded
    have hrefines := inventory.run_refines (hloaded ▸ hreads.sound) hsound
    rw [hloaded] at hrefines
    cases hwritten : edit.run loaded with
    | error message =>
      rw [hwritten] at hrefines
      exact absurd hrefines happly
    | ok written => exact ⟨written, rfl⟩
  unfold editOf at hedit
  unfold act
  split_ifs at hedit ⊢ with hlist hadd hremove
  · obtain ⟨host, hhost, rfl⟩ := Option.map_eq_some_iff.mp hedit
    obtain ⟨loaded, hload, hloaded⟩ := hreads.load true hini hcalm (.inl rfl)
    obtain ⟨written, hwritten⟩ := hrun loaded hloaded
    obtain ⟨added, hadded, -⟩ := bind_ok.mp hwritten
    exact ⟨added, _, bind_ok.mpr ⟨(), hexplicit, bind_ok.mpr ⟨loaded, hload,
      bind_ok.mpr ⟨host, toOption_some.mp hhost, bind_ok.mpr ⟨added, hadded, rfl⟩⟩⟩⟩⟩
  · obtain ⟨name, hname, rfl⟩ := Option.map_eq_some_iff.mp hedit
    have hthere : hosts ≠ [] := by
      rintro rfl
      simp [Edit.apply, Fleet.remove, fleetOf] at happly
    obtain ⟨loaded, hload, hloaded⟩ := hreads.load false hini hcalm (.inr hthere)
    obtain ⟨written, hwritten⟩ := hrun loaded hloaded
    cases hremoved : loaded.remove name with
    | none =>
      simp only [Edit.run, hremoved] at hwritten
      cases hwritten
    | some removed =>
      refine ⟨removed, ascii "removed " ++ name ++ ascii " from " ++ invocation.inventoryPath ++
        [inventory.newline], bind_ok.mpr ⟨(), hexplicit, bind_ok.mpr ⟨name, toOption_some.mp hname,
        bind_ok.mpr ⟨loaded, hload, ?_⟩⟩⟩⟩
      rw [hremoved]
      rfl
  · obtain ⟨more, hmore, rfl⟩ := Option.map_eq_some_iff.mp hedit
    obtain ⟨loaded, hload, hloaded⟩ := hreads.load true hini hcalm (.inl rfl)
    obtain ⟨written, hwritten⟩ := hrun loaded hloaded
    exact ⟨written, _, bind_ok.mpr ⟨(), hexplicit, bind_ok.mpr ⟨more, toOption_some.mp hmore,
      bind_ok.mpr ⟨loaded, hload, bind_ok.mpr ⟨written, hwritten, rfl⟩⟩⟩⟩⟩

theorem commit_refused {written : Inventory} {said out err : Bytes} (hname : filename path ≠ [])
    (h : (commit env d path (.ok (written, said))).outcome = .exit 2 out err) : env.Refuses := by
  unfold commit at h
  dsimp only at h
  unfold Environment.Refuses
  by_cases hstat : env.stat = none
  · cases hjob : atomicRewriteFile (statOf env d path) (filename path) written.serialize with
    | error error =>
      unfold statOf at hjob
      rw [hstat] at hjob
      dsimp only at hjob
      split at hjob <;> simp [atomicRewriteFile] at hjob
    | ok job =>
      obtain ⟨hfile, -⟩ := atomicRewriteFile_ok hjob
      rw [hjob] at h
      dsimp only at h
      refine .inr (.inr (.inr (failing_run (d := d) (hfile ▸ hname) ?_)))
      cases hphase : ((atomicWriteWithMode job d).run job env.answers).phase with
      | done result =>
        cases result with
        | error error => rfl
        | ok value =>
          rw [hphase] at h
          dsimp only at h
          split at h <;> cases h
      | unlink t error => rfl
      | _ =>
        rw [hphase] at h
        cases h
  · exact .inr (.inr (.inl hstat))

/-- A well-formed command on an inventory is refused only because the fleet does not allow the edit,
or because the system fails. -/
theorem a_refusal_has_a_cause {c : Command} {out err : Bytes} (hreads : Reads path d hosts)
    (hon : c.On path) (hname : filename path ≠ []) (hini : filename path ≠ ascii "clients.txt")
    (hedit : c.edit = some edit) (hrefused : (c.run d).outcome = .exit 2 out err) :
    edit.apply (fleetOf hosts) = none ∨ c.env.Refuses := by
  by_cases hcalm : c.env.Refuses
  · exact .inr hcalm
  · left
    by_contra happly
    obtain ⟨invocation, hparse, hinvocation⟩ := Option.bind_eq_some_iff.mp hedit
    rw [toOption_some] at hparse
    have hlist : invocation.action ≠ ascii "list" := by
      intro hlist
      simp [editOf, hlist] at hinvocation
    have hpath := (hon invocation hparse).resolve_left hlist
    have hne : path ≠ [] := by
      rintro rfl
      exact hname rfl
    obtain ⟨written, said, hact⟩ := act_of_edit hne hini hpath hreads hcalm hinvocation happly
    rw [Command.run, hostsSubcommand_act hparse hlist, hact, hpath] at hrefused
    exact hcalm (commit_refused hname hrefused)

theorem a_host_that_is_not_there_is_not_removed :
    Edit.apply (.remove (ascii "web-1")) (fleetOf []) = none ∨ removeWeb.env.Refuses :=
  a_refusal_has_a_cause (show Reads (ascii "fleet.ini") bare [] from rfl) removeWeb_on (by decide)
    (by decide) removeWeb_edit (show (removeWeb.run bare).outcome = .exit 2 []
      (ascii "pipeshellx hosts: inventory: cannot open 'fleet.ini'\n") by decide)

end

end psx.cli.hosts
