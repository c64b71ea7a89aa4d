-- A file is replaced in one step (paths.cpp): the new text goes to a temporary file beside it,
-- which is synced and then renamed over it. A crash leaves some version of the file, and no part of
-- one.
import PipeShellX.Counts
import PipeShellX.Os.Errno
import PipeShellX.Text

namespace psx.os

open Text (ascii)

/-! ## A directory -/

/-- A file: what it holds, its mode, and whether what it holds is on the disk. -/
structure Inode where
  content : Bytes
  mode : Nat
  synced : Bool
  deriving DecidableEq

/-- The entries of one directory. A number is not used again. -/
structure Directory where
  names : Bytes → Option Nat
  inodes : List Inode
  bound : ∀ name i, names name = some i → i < inodes.length

namespace Directory

/-- The file of a name. -/
def read (d : Directory) (name : Bytes) : Option Inode :=
  (d.names name).bind fun i => d.inodes[i]?

/-- `mkstemp` makes an empty file that only its owner can read. -/
def create (d : Directory) (name : Bytes) : Directory where
  names := Function.update d.names name (some d.inodes.length)
  inodes := d.inodes ++ [{ content := [], mode := 0o600, synced := false }]
  bound := by
    intro other i h
    rw [Function.update_apply] at h
    split at h
    · simp_all
    · have := d.bound other i h
      simp; omega

/-- One of the files is written to. -/
def change (d : Directory) (i : Nat) (f : Inode → Inode) : Directory where
  names := d.names
  inodes := d.inodes.modify i f
  bound := by simpa using d.bound

/-- The name is gone; the file stays for those that have it open. -/
def unlink (d : Directory) (name : Bytes) : Directory where
  names := Function.update d.names name none
  inodes := d.inodes
  bound := by
    intro other i h
    rw [Function.update_apply] at h
    split at h
    · cases h
    · exact d.bound other i h

/-- The new name is that of the file of the old one, which loses its own. -/
def rename (d : Directory) (old new : Bytes) : Directory where
  names := Function.update (Function.update d.names new (d.names old)) old none
  inodes := d.inodes
  bound := by
    intro other i h
    rw [Function.update_apply, Function.update_apply] at h
    split at h
    · cases h
    · split at h
      · exact d.bound old i h
      · exact d.bound other i h

end Directory

/-! ## The rewrite -/

/-- What the system says to a call. -/
inductive Answer
  | ok
  | named (suffix : Bytes)
  | wrote (n : Nat)
  | failed (err : Int)

/-- The temporary file: its name, and where its contents are. -/
structure Temporary where
  name : Bytes
  inode : Nat

/-- The call that comes next. -/
inductive Phase
  | mkstemp
  | fchmod (t : Temporary)
  | write (t : Temporary) (contents : Bytes)
  | fsync (t : Temporary)
  | close (t : Temporary)
  | rename (t : Temporary)
  | unlink (t : Temporary) (error : Error)
  | done (result : Result Unit)

/-- A rewrite: the directory, and how far it has come. -/
structure Rewrite where
  dir : Directory
  phase : Phase

/-- What is asked of `atomicWriteWithMode`, with the last part of the path. -/
structure Job where
  filename : Bytes
  contents : Bytes
  mode : Nat
  operation : String

/-- How the name of the temporary file begins. -/
def Job.pattern (job : Job) : Bytes := ascii "." ++ job.filename ++ ascii ".tmp."

/-- The start of a rewrite. -/
def atomicWriteWithMode (job : Job) (dir : Directory) : Rewrite :=
  if job.filename = [] then ⟨dir, .done (.error ⟨.InvalidArgument, EINVAL, job.operation⟩)⟩
  else ⟨dir, .mkstemp⟩

/-- The head of the loop of writes. -/
def writing (t : Temporary) (contents : Bytes) : Phase :=
  if contents = [] then .fsync t else .write t contents

/-- One call and what the system says to it. What no system says to the call changes nothing. -/
def Rewrite.next (job : Job) (s : Rewrite) (answer : Answer) : Rewrite :=
  match s.phase, answer with
  | .mkstemp, .named suffix =>
    if s.dir.names (job.pattern ++ suffix) = none then
      ⟨s.dir.create (job.pattern ++ suffix),
        .fchmod ⟨job.pattern ++ suffix, s.dir.inodes.length⟩⟩
    else s
  | .mkstemp, .failed err => { s with phase := .done (.error (fromErrno job.operation err)) }
  | .fchmod t, .ok =>
    ⟨s.dir.change t.inode fun inode => { inode with mode := job.mode }, writing t job.contents⟩
  | .fchmod t, .failed err => { s with phase := .unlink t (fromErrno "chmod temporary file" err) }
  | .write t contents, .wrote n =>
    if n = 0 then { s with phase := .unlink t (fromErrno "write temporary file" EIO) }
    else
      ⟨s.dir.change t.inode fun inode =>
          { inode with content := inode.content ++ contents.take n, synced := false },
        writing t (contents.drop n)⟩
  | .write t _, .failed err =>
    if err = EINTR then s else { s with phase := .unlink t (fromErrno "write temporary file" err) }
  | .fsync t, .ok => ⟨s.dir.change t.inode fun inode => { inode with synced := true }, .close t⟩
  | .fsync t, .failed err => { s with phase := .unlink t (fromErrno "sync temporary file" err) }
  | .close t, .ok => { s with phase := .rename t }
  | .close t, .failed err => { s with phase := .unlink t (fromErrno "close temporary file" err) }
  | .rename t, .ok => ⟨s.dir.rename t.name job.filename, .done (.ok ())⟩
  | .rename t, .failed err => { s with phase := .unlink t (fromErrno "replace file" err) }
  | .unlink t error, .ok => ⟨s.dir.unlink t.name, .done (.error error)⟩
  | .unlink _ error, .failed _ => { s with phase := .done (.error error) }
  | _, _ => s

/-- A rewrite with the answers of its calls. -/
def Rewrite.run (job : Job) (s : Rewrite) (answers : List Answer) : Rewrite :=
  answers.foldl (Rewrite.next job) s

/-- What `stat` says of the file. -/
inductive Stat
  | found (mode : Nat)
  | failed (err : Int)

/-- A file keeps its mode, and a new one is of its owner. -/
def atomicRewriteFile (stat : Stat) (filename contents : Bytes) : Except Error Job :=
  match stat with
  | .found mode => .ok ⟨filename, contents, mode &&& 0o777, "atomic inventory rewrite"⟩
  | .failed err =>
    if err = ENOENT then .ok ⟨filename, contents, 0o600, "atomic inventory rewrite"⟩
    else .error (fromErrno "stat inventory" err)

/-- A file that only its owner reads. -/
def atomicWritePrivateFile (filename contents : Bytes) : Job :=
  ⟨filename, contents, 0o600, "atomic private file write"⟩

/-! ## What stands in the directory -/

theorem Directory.ext {d e : Directory} (hnames : d.names = e.names)
    (hinodes : d.inodes = e.inodes) :
    d = e := by
  cases d
  cases e
  simp_all

/-- The temporary file has its own name. -/
theorem Job.pattern_ne (job : Job) (suffix : Bytes) : job.pattern ++ suffix ≠ job.filename := by
  intro h
  have hlength := congrArg List.length h
  simp [Job.pattern, ascii] at hlength
  omega

/-- The old directory, with a temporary file beside it. -/
structure Beside (d : Directory) (t : Temporary) (inode : Inode) (new : Directory) : Prop where
  fresh : d.names t.name = none
  number : t.inode = d.inodes.length
  names : new.names = Function.update d.names t.name (some t.inode)
  inodes : new.inodes = d.inodes ++ [inode]

/-- The file of the job, whole. -/
def Job.file (job : Job) : Inode := { content := job.contents, mode := job.mode, synced := true }

/-- The old directory, with the name of the file bound to the new one. -/
structure Replaced (job : Job) (d new : Directory) : Prop where
  names : new.names = Function.update d.names job.filename (some d.inodes.length)
  inodes : new.inodes = d.inodes ++ [job.file]

/-- What is written is written with the mode of the job. -/
def Partial (job : Job) (inode : Inode) : Prop :=
  inode.content <+: job.contents ∧ (inode.content = [] ∨ inode.mode = job.mode)

/-- What the directory is before each call. -/
def Stands (job : Job) (d : Directory) : Phase → Directory → Prop
  | .mkstemp, new => new = d
  | .fchmod t, new =>
    t.name ≠ job.filename ∧ Beside d t { content := [], mode := 0o600, synced := false } new
  | .write t contents, new =>
    t.name ≠ job.filename ∧ ∃ written, written ++ contents = job.contents ∧
      Beside d t { content := written, mode := job.mode, synced := false } new
  | .fsync t, new => t.name ≠ job.filename ∧ Beside d t { job.file with synced := false } new
  | .close t, new => t.name ≠ job.filename ∧ Beside d t job.file new
  | .rename t, new => t.name ≠ job.filename ∧ Beside d t job.file new
  | .unlink t _, new => t.name ≠ job.filename ∧ ∃ inode, Partial job inode ∧ Beside d t inode new
  | .done (.ok _), new => Replaced job d new
  | .done (.error _), new => new = d ∨
    ∃ t inode, t.name ≠ job.filename ∧ Partial job inode ∧
      (Beside d t inode new ∨ new.names = d.names ∧ new.inodes = d.inodes ++ [inode])

theorem Beside.change {d new : Directory} {t : Temporary} {inode : Inode} (h : Beside d t inode new)
    (f : Inode → Inode) : Beside d t (f inode) (new.change t.inode f) := by
  refine ⟨h.fresh, h.number, h.names, ?_⟩
  simp [Directory.change, h.inodes, h.number, Counts.modify_snoc]

theorem Beside.unlink {d new : Directory} {t : Temporary} {inode : Inode}
    (h : Beside d t inode new) :
    (new.unlink t.name).names = d.names ∧ (new.unlink t.name).inodes = d.inodes ++ [inode] := by
  refine ⟨?_, h.inodes⟩
  simp only [Directory.unlink, h.names, Function.update_idem]
  rw [← h.fresh]
  apply Function.update_eq_self

theorem Beside.rename {job : Job} {d new : Directory} {t : Temporary}
    (hname : t.name ≠ job.filename)
    (h : Beside d t job.file new) : Replaced job d (new.rename t.name job.filename) := by
  refine ⟨?_, h.inodes⟩
  funext name
  simp only [Directory.rename, h.names, Function.update_apply, h.number]
  split
  · simp_all [h.fresh]
  · simp_all

theorem stands_writing {job : Job} {d new : Directory} {t : Temporary} {written contents : Bytes}
    (hname : t.name ≠ job.filename) (hcontents : written ++ contents = job.contents)
    (h : Beside d t { content := written, mode := job.mode, synced := false } new) :
    Stands job d (writing t contents) new := by
  unfold writing
  split
  · simp_all [Stands, Job.file]
  · exact ⟨hname, written, hcontents, h⟩

/-- One call keeps it. -/
theorem stands_next {job : Job} {d : Directory} {s : Rewrite} (h : Stands job d s.phase s.dir)
    (answer : Answer) : Stands job d (s.next job answer).phase (s.next job answer).dir := by
  obtain ⟨dir, phase⟩ := s
  cases phase with
  | mkstemp =>
    simp only [Stands] at h
    subst h
    cases answer with
    | named suffix =>
      simp only [Rewrite.next]
      split
      · refine ⟨job.pattern_ne suffix, ?_⟩
        constructor <;> simp_all [Directory.create]
      · rfl
    | failed err => exact .inl rfl
    | ok => rfl
    | wrote n => rfl
  | fchmod t =>
    obtain ⟨hname, hbeside⟩ := h
    cases answer with
    | ok =>
      apply stands_writing hname (List.nil_append _)
      exact hbeside.change fun inode => { inode with mode := job.mode }
    | failed err =>
      refine ⟨hname, _, ?_, hbeside⟩
      simp [Partial]
    | named suffix => exact ⟨hname, hbeside⟩
    | wrote n => exact ⟨hname, hbeside⟩
  | write t contents =>
    obtain ⟨hname, written, hcontents, hbeside⟩ := h
    have hpart : Partial job { content := written, mode := job.mode, synced := false } := by
      simp [Partial, ← hcontents]
    cases answer with
    | wrote n =>
      simp only [Rewrite.next]
      split
      · exact ⟨hname, _, hpart, hbeside⟩
      · apply stands_writing hname
        · rw [List.append_assoc, List.take_append_drop]
          exact hcontents
        · exact hbeside.change fun inode =>
            { inode with content := inode.content ++ contents.take n, synced := false }
    | failed err =>
      simp only [Rewrite.next]
      split
      · exact ⟨hname, written, hcontents, hbeside⟩
      · exact ⟨hname, _, hpart, hbeside⟩
    | ok => exact ⟨hname, written, hcontents, hbeside⟩
    | named suffix => exact ⟨hname, written, hcontents, hbeside⟩
  | fsync t =>
    obtain ⟨hname, hbeside⟩ := h
    cases answer with
    | ok => exact ⟨hname, hbeside.change fun inode => { inode with synced := true }⟩
    | failed err =>
      refine ⟨hname, _, ?_, hbeside⟩
      simp [Partial, Job.file]
    | named suffix => exact ⟨hname, hbeside⟩
    | wrote n => exact ⟨hname, hbeside⟩
  | close t =>
    obtain ⟨hname, hbeside⟩ := h
    cases answer with
    | failed err =>
      refine ⟨hname, _, ?_, hbeside⟩
      simp [Partial, Job.file]
    | _ => exact ⟨hname, hbeside⟩
  | rename t =>
    obtain ⟨hname, hbeside⟩ := h
    cases answer with
    | ok => exact hbeside.rename hname
    | failed err =>
      refine ⟨hname, _, ?_, hbeside⟩
      simp [Partial, Job.file]
    | named suffix => exact ⟨hname, hbeside⟩
    | wrote n => exact ⟨hname, hbeside⟩
  | unlink t error =>
    obtain ⟨hname, inode, hpart, hbeside⟩ := h
    cases answer with
    | ok => exact .inr ⟨t, inode, hname, hpart, .inr hbeside.unlink⟩
    | failed err => exact .inr ⟨t, inode, hname, hpart, .inl hbeside⟩
    | named suffix => exact ⟨hname, inode, hpart, hbeside⟩
    | wrote n => exact ⟨hname, inode, hpart, hbeside⟩
  | done result => exact h

theorem stands_start (job : Job) (d : Directory) :
    Stands job d (atomicWriteWithMode job d).phase (atomicWriteWithMode job d).dir := by
  unfold atomicWriteWithMode
  split
  · exact .inl rfl
  · rfl

theorem stands_run (job : Job) (d : Directory) (answers : List Answer) :
    Stands job d ((atomicWriteWithMode job d).run job answers).phase
      ((atomicWriteWithMode job d).run job answers).dir := by
  unfold Rewrite.run
  induction answers using List.reverseRecOn with
  | nil => exact stands_start job d
  | append_singleton answers answer ih =>
    rw [List.foldl_append]
    exact stands_next ih answer

/-! ## Any number of rewrites -/

/-- Before its end the run leaves the name of the file alone, and then the name has the whole
file. -/
theorem Stands.name {job : Job} {d new : Directory} {phase : Phase} (h : Stands job d phase new) :
    new.names job.filename = d.names job.filename ∨ phase = .done (.ok ()) ∧
      new.names job.filename = some d.inodes.length ∧ new.inodes = d.inodes ++ [job.file] := by
  have hbeside : ∀ {t inode}, t.name ≠ job.filename → Beside d t inode new →
      new.names job.filename = d.names job.filename := by
    intro t inode hname hbeside
    rw [hbeside.names]
    apply Function.update_of_ne
    exact hname.symm
  cases phase with
  | mkstemp => exact .inl (by rw [h])
  | fchmod t => exact .inl (hbeside h.1 h.2)
  | write t contents =>
    obtain ⟨hname, written, -, hwritten⟩ := h
    exact .inl (hbeside hname hwritten)
  | fsync t => exact .inl (hbeside h.1 h.2)
  | close t => exact .inl (hbeside h.1 h.2)
  | rename t => exact .inl (hbeside h.1 h.2)
  | unlink t error =>
    obtain ⟨hname, inode, -, hinode⟩ := h
    exact .inl (hbeside hname hinode)
  | done result =>
    cases result with
    | ok value =>
      refine .inr ⟨rfl, ?_, h.inodes⟩
      rw [h.names]
      apply Function.update_self
    | error error =>
      rcases h with rfl | ⟨t, inode, hname, -, hinode | ⟨hnames, -⟩⟩
      · exact .inl rfl
      · exact .inl (hbeside hname hinode)
      · exact .inl (by rw [hnames])

/-- The files of the old directory stay as they are, and the run adds one at most. -/
theorem Stands.files {job : Job} {d new : Directory} {phase : Phase} (h : Stands job d phase new) :
    new.inodes = d.inodes ∨ ∃ inode, Partial job inode ∧ new.inodes = d.inodes ++ [inode] := by
  cases phase with
  | mkstemp => exact .inl (by rw [h])
  | fchmod t => exact .inr ⟨_, by simp [Partial], h.2.inodes⟩
  | write t contents =>
    obtain ⟨-, written, hcontents, hbeside⟩ := h
    exact .inr ⟨_, by simp [Partial, ← hcontents], hbeside.inodes⟩
  | fsync t => exact .inr ⟨_, by simp [Partial, Job.file], h.2.inodes⟩
  | close t => exact .inr ⟨_, by simp [Partial, Job.file], h.2.inodes⟩
  | rename t => exact .inr ⟨_, by simp [Partial, Job.file], h.2.inodes⟩
  | unlink t error =>
    obtain ⟨-, inode, hpart, hbeside⟩ := h
    exact .inr ⟨inode, hpart, hbeside.inodes⟩
  | done result =>
    cases result with
    | ok value => exact .inr ⟨_, by simp [Partial, Job.file], h.inodes⟩
    | error error =>
      rcases h with rfl | ⟨t, inode, -, hpart, hbeside | ⟨-, hinodes⟩⟩
      · exact .inl rfl
      · exact .inr ⟨inode, hpart, hbeside.inodes⟩
      · exact .inr ⟨inode, hpart, hinodes⟩

theorem Stands.grows {job : Job} {d new : Directory} {phase : Phase} (h : Stands job d phase new) :
    d.inodes <+: new.inodes := by
  rcases h.files with heq | ⟨inode, -, heq⟩
  · simp [heq]
  · simp [heq]

/-- The directories that a run goes through. -/
def Rewrite.past (job : Job) (s : Rewrite) (answers : List Answer) : List Directory :=
  (answers.scanl (Rewrite.next job) s).map Rewrite.dir

/-- The directories that runs go through, one after the other. Each of them may end anywhere. -/
def history (d : Directory) : List (Job × List Answer) → List Directory
  | [] => [d]
  | (job, answers) :: rest =>
    (atomicWriteWithMode job d).past job answers ++
      history ((atomicWriteWithMode job d).run job answers).dir rest

/-- The directory after a series of rewrites. -/
def after (d : Directory) (runs : List (Job × List Answer)) : Directory :=
  runs.foldl (fun d r => ((atomicWriteWithMode r.1 d).run r.1 r.2).dir) d

/-- Each of them stands as the run says, and the run goes on from it. -/
theorem stands_past {job : Job} {d new : Directory} {answers : List Answer}
    (h : new ∈ (atomicWriteWithMode job d).past job answers) :
    ∃ (s : Rewrite) (more : List Answer), new = s.dir ∧
      Stands job d s.phase s.dir ∧
      (atomicWriteWithMode job d).run job answers = s.run job more := by
  unfold Rewrite.past at h
  rw [List.mem_map] at h
  obtain ⟨s, hs, rfl⟩ := h
  obtain ⟨i, hi, rfl⟩ := List.getElem_of_mem hs
  rw [List.getElem_scanl]
  refine ⟨_, answers.drop i, rfl, stands_run job d (answers.take i), ?_⟩
  unfold Rewrite.run
  rw [← List.foldl_append, List.take_append_drop]

theorem run_done {job : Job} {s : Rewrite} {result : Result Unit} (h : s.phase = .done result)
    (answers : List Answer) : s.run job answers = s := by
  unfold Rewrite.run
  induction answers with
  | nil => rfl
  | cons answer answers ih =>
    have hnext : s.next job answer = s := by
      simp [Rewrite.next, h]
    rw [List.foldl_cons, hnext]
    exact ih

/-- What can be found after a crash: each name may be bound as at any time before, and a file that
was on the disk is there. -/
structure Survives (past : List Directory) (now found : Directory) : Prop where
  names : ∀ name, ∃ d ∈ past, found.names name = d.names name
  files : ∀ (i : Nat) (inode : Inode), now.inodes[i]? = some inode → inode.synced = true →
    found.inodes[i]? = some inode

theorem inodes_after (d : Directory) (runs : List (Job × List Answer)) :
    d.inodes <+: (after d runs).inodes := by
  unfold after
  induction runs generalizing d with
  | nil => simp
  | cons r runs ih =>
    rw [List.foldl_cons]
    exact (stands_run r.1 d r.2).grows.trans (ih _)

theorem inode_kept {l m : List Inode} (h : l <+: m) {i : Nat} {inode : Inode}
    (hinode : l[i]? = some inode) : m[i]? = some inode := by
  obtain ⟨rest, rfl⟩ := h
  have hlt := (List.getElem?_eq_some_iff.mp hinode).1
  rw [List.getElem?_append_left hlt]
  exact hinode

/-- At any time the name is bound as it was at first, or to the whole file of one of the runs. -/
theorem history_name {filename : Bytes} (d : Directory) {runs : List (Job × List Answer)}
    (hruns : ∀ r ∈ runs, r.1.filename = filename) {new : Directory} (h : new ∈ history d runs) :
    new.names filename = d.names filename ∨ ∃ r ∈ runs, ∃ i, new.names filename = some i ∧
      (after d runs).inodes[i]? = some r.1.file := by
  induction runs generalizing d with
  | nil =>
    simp only [history, List.mem_singleton] at h
    exact .inl (by rw [h])
  | cons r runs ih =>
    obtain ⟨job, answers⟩ := r
    rw [List.forall_mem_cons] at hruns
    obtain ⟨rfl, hruns⟩ := hruns
    have hlast := stands_run job d answers
    -- What is bound to the file of this run is bound to it after all the runs.
    have hwhole : ∀ {e : Directory}, e.inodes = d.inodes ++ [job.file] →
        e.inodes <+: (after d ((job, answers) :: runs)).inodes →
        (after d ((job, answers) :: runs)).inodes[d.inodes.length]? = some job.file := by
      intro e he hle
      apply inode_kept hle
      simp [he]
    rcases List.mem_append.mp h with h | h
    · obtain ⟨s, more, rfl, hs, hend⟩ := stands_past h
      rcases hs.name with hname | ⟨hdone, hname, hinodes⟩
      · exact .inl hname
      · refine .inr ⟨(job, answers), by simp, _, hname, ?_⟩
        apply hwhole hinodes
        rw [run_done hdone] at hend
        rw [← hend]
        exact inodes_after _ runs
    · rcases ih _ hruns h with hname | ⟨r, hr, i, hname, hi⟩
      · rcases hlast.name with hlast | ⟨-, hlast, hinodes⟩
        · exact .inl (hname.trans hlast)
        · refine .inr ⟨(job, answers), by simp, _, hname.trans hlast, ?_⟩
          exact hwhole hinodes (inodes_after _ runs)
      · exact .inr ⟨r, by simp [hr], i, hname, hi⟩

/-- After any number of rewrites of a file, each of them stopped anywhere, a crash leaves the file
as it was at first, or as one of the rewrites was to make it, whole and with its mode. -/
theorem crash_leaves_a_version {filename : Bytes} {d found : Directory}
    {runs : List (Job × List Answer)} (hruns : ∀ r ∈ runs, r.1.filename = filename)
    (hsynced : ∀ inode ∈ d.read filename, inode.synced = true)
    (hcrash : Survives (history d runs) (after d runs) found) :
    found.read filename = d.read filename ∨ ∃ r ∈ runs, found.read filename = some r.1.file := by
  obtain ⟨new, hnew, hname⟩ := hcrash.names filename
  rcases history_name d hruns hnew with hold | ⟨r, hr, i, hi, hfile⟩
  · refine .inl ?_
    unfold Directory.read at hsynced ⊢
    rw [hname, hold]
    cases hbound : d.names filename with
    | none => rfl
    | some i =>
      have hlt := d.bound filename i hbound
      have hinode : d.inodes[i]? = some d.inodes[i] := List.getElem?_eq_getElem hlt
      simp only [hbound, Option.bind_some, hinode, Option.mem_def] at hsynced ⊢
      apply hcrash.files
      · exact inode_kept (inodes_after d runs) hinode
      · simpa using hsynced
  · refine .inr ⟨r, hr, ?_⟩
    unfold Directory.read
    rw [hname, hi, Option.bind_some]
    apply hcrash.files _ _ hfile
    rfl

theorem after_mem_history (d : Directory) (runs : List (Job × List Answer)) :
    after d runs ∈ history d runs := by
  induction runs generalizing d with
  | nil => simp [history, after]
  | cons r runs ih => exact List.mem_append_right _ (ih _)

/-- An inventory and a key, on the disk. -/
def inventoryDirectory : Directory where
  names name :=
    if name = ascii "fleet.ini" then some 0 else if name = ascii "ca.key" then some 1 else none
  inodes := [{ content := ascii "[all]\nroot@web-1\n", mode := 0o644, synced := true },
    { content := ascii "secret", mode := 0o600, synced := true }]
  bound := by
    intro name i h
    split at h
    · simp_all; omega
    · split at h
      · simp_all; omega
      · cases h

/-- An inventory is written anew. -/
def inventoryJob : Job where
  filename := ascii "fleet.ini"
  contents := ascii "[all]\nroot@web-2\n"
  mode := 0o644
  operation := "atomic inventory rewrite"

/-- Everything up to the sync, in three writes of which one is interrupted. -/
def inventoryAnswers : List Answer :=
  [.named (ascii "k3Xz9q"), .ok, .wrote 3, .failed EINTR, .wrote 14, .ok]

/-- A crash before the rename leaves the old inventory. -/
theorem a_crash_before_the_rename :
    (after inventoryDirectory [(inventoryJob, inventoryAnswers)]).read (ascii "fleet.ini") =
        inventoryDirectory.read (ascii "fleet.ini") ∨
      ∃ r ∈ [(inventoryJob, inventoryAnswers)],
        (after inventoryDirectory [(inventoryJob, inventoryAnswers)]).read (ascii "fleet.ini") =
          some r.1.file := by
  apply crash_leaves_a_version
  · simp [inventoryJob]
  · decide
  · exact ⟨fun name => ⟨_, after_mem_history _ _, rfl⟩, fun i inode h _ => h⟩

/-! ## What a rewrite leaves alone -/

theorem Stands.others {job : Job} {d new : Directory} {phase : Phase} (h : Stands job d phase new)
    {name : Bytes} (hname : name ≠ job.filename) (hbound : d.names name ≠ none) :
    new.names name = d.names name := by
  have hbeside : ∀ {t inode}, Beside d t inode new → new.names name = d.names name := by
    intro t inode hbeside
    rw [hbeside.names]
    apply Function.update_of_ne
    rintro rfl
    exact hbound hbeside.fresh
  cases phase with
  | mkstemp => rw [h]
  | fchmod t => exact hbeside h.2
  | write t contents =>
    obtain ⟨-, written, -, hwritten⟩ := h
    exact hbeside hwritten
  | fsync t => exact hbeside h.2
  | close t => exact hbeside h.2
  | rename t => exact hbeside h.2
  | unlink t error =>
    obtain ⟨-, inode, -, hinode⟩ := h
    exact hbeside hinode
  | done result =>
    cases result with
    | ok value =>
      rw [h.names]
      apply Function.update_of_ne hname
    | error error =>
      rcases h with rfl | ⟨t, inode, -, -, hinode | ⟨hnames, -⟩⟩
      · rfl
      · exact hbeside hinode
      · rw [hnames]

theorem read_of_names {d new : Directory} {name : Bytes} (hnames : new.names name = d.names name)
    (hinodes : d.inodes <+: new.inodes) : new.read name = d.read name := by
  unfold Directory.read
  rw [hnames]
  cases hbound : d.names name with
  | none => rfl
  | some i =>
    have hlt := d.bound name i hbound
    have hinode : d.inodes[i]? = some d.inodes[i] := List.getElem?_eq_getElem hlt
    rw [Option.bind_some, Option.bind_some, hinode]
    exact inode_kept hinodes hinode

theorem history_grows (d : Directory) {runs : List (Job × List Answer)} {new : Directory}
    (h : new ∈ history d runs) : d.inodes <+: new.inodes := by
  induction runs generalizing d with
  | nil =>
    simp only [history, List.mem_singleton] at h
    simp [h]
  | cons r runs ih =>
    rcases List.mem_append.mp h with h | h
    · obtain ⟨s, more, rfl, hs, -⟩ := stands_past h
      exact hs.grows
    · exact (stands_run r.1 d r.2).grows.trans (ih _ h)

/-- While files are rewritten, every other entry stays as it is, and whatever is written is a part
of what one of the runs writes, in a file with the mode of that run. -/
theorem history_keeps {filename : Bytes} (d : Directory) {runs : List (Job × List Answer)}
    (hruns : ∀ r ∈ runs, r.1.filename = filename) {new : Directory} (h : new ∈ history d runs) :
    (∀ name ≠ filename, d.names name ≠ none → new.read name = d.read name) ∧
      ∀ (i : Nat) (inode : Inode), d.inodes.length ≤ i → new.inodes[i]? = some inode →
        ∃ r ∈ runs, Partial r.1 inode := by
  induction runs generalizing d with
  | nil =>
    simp only [history, List.mem_singleton] at h
    subst h
    refine ⟨fun name _ _ => rfl, fun i inode hle hinode => ?_⟩
    rw [List.getElem?_eq_none hle] at hinode
    cases hinode
  | cons r runs ih =>
    obtain ⟨job, answers⟩ := r
    rw [List.forall_mem_cons] at hruns
    obtain ⟨rfl, hruns⟩ := hruns
    -- One run by itself, at any time.
    have hone : ∀ {phase e}, Stands job d phase e →
        (∀ name ≠ job.filename, d.names name ≠ none → e.read name = d.read name) ∧
          ∀ (i : Nat) (inode : Inode), d.inodes.length ≤ i → e.inodes[i]? = some inode →
            Partial job inode := by
      intro phase e he
      refine ⟨fun name hname hbound => ?_, fun i inode hle hinode => ?_⟩
      · exact read_of_names (he.others hname hbound) he.grows
      · rcases he.files with heq | ⟨added, hpart, heq⟩
        · rw [heq, List.getElem?_eq_none hle] at hinode
          cases hinode
        · rw [heq, List.getElem?_append_right hle] at hinode
          have hadded := List.mem_of_getElem? hinode
          rw [List.mem_singleton] at hadded
          rwa [hadded]
    rcases List.mem_append.mp h with h | h
    · obtain ⟨s, more, rfl, hs, -⟩ := stands_past h
      obtain ⟨hread, hfiles⟩ := hone hs
      exact ⟨hread, fun i inode hle hinode => ⟨(job, answers), by simp, hfiles i inode hle hinode⟩⟩
    · have hlast := stands_run job d answers
      obtain ⟨hread, hfiles⟩ := ih _ hruns h
      obtain ⟨hread', hfiles'⟩ := hone hlast
      refine ⟨fun name hname hbound => ?_, fun i inode hle hinode => ?_⟩
      · have hkept := hlast.others hname hbound
        rw [hread name hname (hkept ▸ hbound), hread' name hname hbound]
      · by_cases hnew : ((atomicWriteWithMode job d).run job answers).dir.inodes.length ≤ i
        · obtain ⟨r, hr, hpart⟩ := hfiles i inode hnew hinode
          exact ⟨r, by simp [hr], hpart⟩
        · refine ⟨(job, answers), by simp, hfiles' i inode hle ?_⟩
          have hlt := Nat.lt_of_not_le hnew
          have hold := List.getElem?_eq_getElem hlt
          rw [inode_kept (history_grows _ h) hold] at hinode
          rw [hold, hinode]

/-- The key beside the inventory is not touched. -/
theorem a_rewrite_keeps_the_key :
    (after inventoryDirectory [(inventoryJob, inventoryAnswers)]).read (ascii "ca.key") =
      inventoryDirectory.read (ascii "ca.key") := by
  have hruns : ∀ r ∈ [(inventoryJob, inventoryAnswers)], r.1.filename = ascii "fleet.ini" := by
    simp [inventoryJob]
  apply (history_keeps inventoryDirectory hruns (after_mem_history _ _)).1
  · decide
  · decide

/-- A run that ends well leaves the whole file under its name, and one that fails leaves the old
file. -/
theorem rewrite_outcome {job : Job} {d : Directory} {answers : List Answer} {result : Result Unit}
    (h : ((atomicWriteWithMode job d).run job answers).phase = .done result) :
    match result with
    | .ok _ =>
      ((atomicWriteWithMode job d).run job answers).dir.read job.filename = some job.file ∧
        ∀ name ≠ job.filename,
          ((atomicWriteWithMode job d).run job answers).dir.names name = d.names name
    | .error _ => ((atomicWriteWithMode job d).run job answers).dir.read job.filename =
      d.read job.filename := by
  have hstands := stands_run job d answers
  rw [h] at hstands
  cases result with
  | ok value =>
    obtain ⟨hnames, hinodes⟩ := hstands
    dsimp only
    refine ⟨?_, fun name hname => ?_⟩
    · simp [Directory.read, hnames, hinodes]
    · rw [hnames]
      apply Function.update_of_ne hname
  | error error =>
    rcases hstands.name with hname | ⟨hdone, -⟩
    · exact read_of_names hname hstands.grows
    · cases hdone

/-- The inventory is replaced. -/
theorem a_rewrite_replaces_the_inventory :
    ((atomicWriteWithMode inventoryJob inventoryDirectory).run inventoryJob
        (inventoryAnswers ++ [.ok, .ok])).dir.read (ascii "fleet.ini") =
          some inventoryJob.file := by
  have hdone : ((atomicWriteWithMode inventoryJob inventoryDirectory).run inventoryJob
      (inventoryAnswers ++ [.ok, .ok])).phase = .done (.ok ()) := by
    rfl
  exact (rewrite_outcome hdone).1

end psx.os
