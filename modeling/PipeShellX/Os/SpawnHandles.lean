-- The descriptors of a child (process.cpp). Its stdio and the extra handles are placed by
-- posix_spawn or, where that cannot do all that is asked, by code between fork and exec. Whatever
-- numbers the handles have, the child gets each of them at the number that was asked for.
import PipeShellX.Descriptors
import PipeShellX.Os.Errno

namespace psx.os

open Descriptors

/-! ## What is asked -/

/-- Where a stream of the child comes from. -/
inductive Stdio.Mode
  | Inherit
  | Null
  | Handle
  deriving DecidableEq

/-- `handle` is the number of a handle that is there and valid. -/
structure Stdio where
  mode : Stdio.Mode := .Inherit
  handle : Option Nat := none
  deriving DecidableEq

/-- A handle that the child gets at a number of its own. -/
structure InheritedHandle where
  handle : Option Nat
  targetFd : Int := -1
  deriving DecidableEq

/-- `hasLimits` says that the limits ask for something. -/
structure SpawnSpec where
  program : Bytes
  argv : List Bytes
  cwd : Bytes := []
  in_ : Stdio := {}
  out : Stdio := {}
  err : Stdio := {}
  hasLimits : Bool := false
  extraHandles : List InheritedHandle := []
  deriving DecidableEq

namespace SpawnSpec

/-- The numbers of the extra handles. -/
def targets (spec : SpawnSpec) : List Nat := spec.extraHandles.map fun extra => extra.targetFd.toNat

/-- The highest number that the child gets anything at. -/
def maxTarget (spec : SpawnSpec) : Nat := spec.targets.foldl max 2

/-- A number above the extra handles, so that they stay. -/
def closeFromFd (spec : SpawnSpec) : Nat :=
  spec.targets.foldl (fun fd target => if fd ≤ target then target + 1 else fd) 3

/-- The program has no slash, so it is looked up on the path. -/
def lookup (spec : SpawnSpec) : Bool := !spec.program.elem 47

end SpawnSpec

/-- A handle that is borrowed is none of the three streams. -/
def Stdio.isValid (stdio : Stdio) : Bool :=
  stdio.mode ≠ .Handle || stdio.handle.any fun fd => 2 < fd

/-- Every extra handle is there, and its number is neither a stream nor taken. -/
def validateExtras : List Int → List InheritedHandle → Result Unit
  | _, [] => .ok ()
  | seen, extra :: extras =>
    if extra.handle = none ∨ extra.targetFd ≤ 2 then
      .error ⟨.InvalidArgument, EBADF, "spawn(extraHandles)"⟩
    else if extra.targetFd ∈ seen then .error ⟨.InvalidArgument, EINVAL, "spawn(extraHandles)"⟩
    else validateExtras (extra.targetFd :: seen) extras

/-- `cwd` is what the system says of the directory. -/
def validate (spec : SpawnSpec) (cwd : Result Unit) : Result Unit :=
  if spec.program = [] ∨ spec.argv = [] then .error ⟨.InvalidArgument, EINVAL, "spawn"⟩
  else
    match (if spec.cwd = [] then .ok () else cwd : Result Unit) with
    | .error e => .error e
    | .ok _ =>
      if [spec.in_, spec.out, spec.err].all Stdio.isValid then validateExtras [] spec.extraHandles
      else .error ⟨.InvalidArgument, EBADF, "spawn(stdio)"⟩

/-! ## The extra handles -/

variable {φ : Type}

/-- The table with the temporaries, and the number that each extra handle is copied from. -/
structure RenumberedExtras (φ : Type) where
  table : Table φ
  sources : List Nat := []

/-- What `F_DUPFD_CLOEXEC` says when it finds no number: the smallest one asked for has to be below
the limit, and then every number from it on is taken. -/
def dupError (limit smallest : Nat) : Int := if limit ≤ smallest then EINVAL else EMFILE

/-- A source that is a target, or that a copy would write over, is first moved above the targets. -/
def renumberExtras (limit maxTarget : Nat) (t : Table φ) :
    List InheritedHandle → Result (RenumberedExtras φ)
  | [] => .ok { table := t }
  | extra :: extras =>
    match extra.handle with
    | none => .error (fromErrno "fcntl(F_DUPFD_CLOEXEC)" EBADF)
    | some source =>
      if maxTarget < source then
        match renumberExtras limit maxTarget t extras with
        | .error e => .error e
        | .ok r => .ok { r with sources := source :: r.sources }
      else
        match t source with
        | none => .error (fromErrno "fcntl(F_DUPFD_CLOEXEC)" EBADF)
        | some e =>
          match firstFree limit t (maxTarget + 1) with
          | none => .error (fromErrno "fcntl(F_DUPFD_CLOEXEC)" (dupError limit (maxTarget + 1)))
          | some moved =>
            match renumberExtras limit maxTarget
              (Function.update t moved (some { e with cloexec := true })) extras with
            | .error e => .error e
            | .ok r => .ok { r with sources := moved :: r.sources }

/-! ## The child -/

/-- The files of a child: those of its parent, the null device, and the ends of the pipe that tells
the parent of a failure. -/
inductive File (φ : Type)
  | given (file : φ)
  | null
  | errorReader
  | errorWriter
  deriving DecidableEq

/-- The end of the pipe that the child writes its error to. -/
def File.isErrorWriter : File φ → Bool
  | .errorWriter => true
  | _ => false

/-- What a child starts with. -/
def forked (t : Table φ) : Table (File φ) :=
  fun fd => (t fd).map fun e => ⟨.given e.file, e.cloexec⟩

/-- What a spawn comes to. `dead` is a process that the caller was given, though its program never
ran. -/
inductive Spawned (φ : Type)
  | failed (e : Error)
  | running (child : Table (File φ))
  | dead

/-- What the system says while a child starts: an error before the handles are placed (the group,
the directory, a limit), and one of the exec. -/
structure Launch where
  early : Option Int := none
  exec : Option Int := none
  limits : Option Error := none

/-- What this build of the program can ask of posix_spawn. -/
structure Platform where
  supportsLimits : Bool := true
  supportsChdir : Bool := true
  supportsClosefrom : Bool := true

/-! ## By posix_spawn -/

/-- The file actions for one of the streams. -/
def addStdio (limit : Nat) (c : Table (File φ)) (stdio : Stdio) (target : Nat) :
    Option (Table (File φ)) :=
  match stdio.mode with
  | .Inherit => some c
  | .Null => some (Function.update c target (some ⟨.null, false⟩))
  | .Handle => stdio.handle.bind fun source => dup2 limit c source target

/-- The actions, in their order. -/
def actions (limit : Nat) (spec : SpawnSpec) (sources : List Nat) (c : Table (File φ)) :
    Option (Table (File φ)) := do
  let c ← addStdio limit c spec.in_ 0
  let c ← addStdio limit c spec.out 1
  let c ← addStdio limit c spec.err 2
  dup2All limit c (sources.zip spec.targets)

/-- The child of `posix_spawn`, which tells its caller of every failure. -/
def spawnViaPosixSpawn (platform : Platform) (limit : Nat) (spec : SpawnSpec) (sources : List Nat)
    (launch : Launch) (t : Table φ) : Spawned φ :=
  let op := if spec.lookup then "posix_spawnp" else "posix_spawn"
  match launch.early with
  | some err => .failed (fromErrno op err)
  | none =>
    match actions limit spec sources (forked t) with
    | none => .failed (fromErrno op EBADF)
    | some c =>
      match launch.exec with
      | some err => .failed (fromErrno op err)
      | none =>
        .running (exec (if platform.supportsClosefrom then closefrom c spec.closeFromFd else c))

/-! ## By fork and exec -/

/-- The pipe takes the two lowest numbers that are free. -/
def errorPipe (limit : Nat) (c : Table (File φ)) : Option (Nat × Nat × Table (File φ)) := do
  let reader ← firstFree limit c 0
  let c := Function.update c reader (some ⟨.errorReader, true⟩)
  let writer ← firstFree limit c 0
  some (reader, writer, Function.update c writer (some ⟨.errorWriter, true⟩))

/-- A failure comes with its error, and with the table at that time. -/
def wireStdioInChild (limit : Nat) (c : Table (File φ)) (stdio : Stdio) (target : Nat) :
    Except (Int × Table (File φ)) (Table (File φ)) :=
  match stdio.mode with
  | .Inherit => .ok c
  | .Null =>
    match firstFree limit c 0 with
    | none => .error (EMFILE, c)
    | some fd =>
      let opened := Function.update c fd (some ⟨.null, false⟩)
      match dup2 limit opened fd target with
      | none => .error (EBADF, opened)
      | some c => .ok (close c fd)
  | .Handle =>
    match stdio.handle.bind fun source => dup2 limit c source target with
    | none => .error (EBADF, c)
    | some c => .ok c

/-- The extra handles are placed one after the other. -/
def wireExtrasInChild (limit : Nat) :
    List (Nat × Nat) → Table (File φ) → Except (Int × Table (File φ)) (Table (File φ))
  | [], c => .ok c
  | (source, target) :: moves, c =>
    match dup2 limit c source target with
    | none => .error (EBADF, c)
    | some c => wireExtrasInChild limit moves c

/-- All handles are placed, the streams first. -/
def wireInChild (limit : Nat) (spec : SpawnSpec) (sources : List Nat) (c : Table (File φ)) :
    Except (Int × Table (File φ)) (Table (File φ)) := do
  let c ← wireStdioInChild limit c spec.in_ 0
  let c ← wireStdioInChild limit c spec.out 1
  let c ← wireStdioInChild limit c spec.err 2
  wireExtrasInChild limit (sources.zip spec.targets) c

/-- The child writes its error to the number that the pipe had, whatever stands there now. -/
def childFail (op : String) (errorFd : Nat) (err : Int) (c : Table (File φ)) : Spawned φ :=
  if (c errorFd).any fun e => e.file.isErrorWriter then .failed (fromErrno op err) else .dead

/-- The child of `fork`, which tells of a failure by a pipe. -/
def spawnViaFork (limit : Nat) (spec : SpawnSpec) (sources : List Nat) (launch : Launch)
    (t : Table φ) : Spawned φ :=
  let op := if spec.lookup then "execvp" else "execv"
  match errorPipe limit (forked t) with
  | none => .failed (fromErrno "pipe2" EMFILE)
  | some (_, errorFd, c) =>
    match launch.early with
    | some err => childFail op errorFd err c
    | none =>
      match wireInChild limit spec sources c with
      | .error (err, c) => childFail op errorFd err c
      | .ok c =>
        match launch.exec with
        | some err => childFail op errorFd err c
        | none => .running (exec c)

/-! ## The spawn -/

/-- `posix_spawn` cannot do all that is asked for. -/
def needsFork (platform : Platform) (spec : SpawnSpec) : Bool :=
  spec.hasLimits && !platform.supportsLimits || spec.cwd ≠ [] && !platform.supportsChdir

/-- A child whose limits cannot be set is killed. -/
def applyLimits (platform : Platform) (spec : SpawnSpec) (launch : Launch) :
    Spawned φ → Spawned φ
  | .failed e => .failed e
  | spawned =>
    if spec.hasLimits && platform.supportsLimits then
      match launch.limits with
      | some e => .failed e
      | none => spawned
    else spawned

/-- A child is started. -/
def spawn (platform : Platform) (limit : Nat) (spec : SpawnSpec) (cwd : Result Unit)
    (launch : Launch) (t : Table φ) : Spawned φ :=
  match validate spec cwd with
  | .error e => .failed e
  | .ok _ =>
    match renumberExtras limit spec.maxTarget t spec.extraHandles with
    | .error e => .failed e
    | .ok r =>
      applyLimits platform spec launch
        (if needsFork platform spec then spawnViaFork limit spec r.sources launch r.table
        else spawnViaPosixSpawn platform limit spec r.sources launch r.table)

/-! ## What a spec asks for -/

section

variable {spec : SpawnSpec} {limit : Nat} {t : Table φ}

/-- What a stream of the child is to be. -/
def SpawnSpec.stdio (spec : SpawnSpec) : Nat → Stdio
  | 0 => spec.in_
  | 1 => spec.out
  | _ => spec.err

/-- The handles that the spec borrows. -/
def SpawnSpec.handles (spec : SpawnSpec) : List Nat :=
  ([spec.in_, spec.out, spec.err].filter fun stdio => stdio.mode = .Handle).filterMap
    Stdio.handle ++
    spec.extraHandles.filterMap InheritedHandle.handle

theorem validateExtras_ok {seen : List Int} {extras : List InheritedHandle}
    (h : validateExtras seen extras = .ok ()) :
    (∀ extra ∈ extras, extra.handle ≠ none ∧ 2 < extra.targetFd ∧ extra.targetFd ∉ seen) ∧
      (extras.map InheritedHandle.targetFd).Nodup := by
  induction extras generalizing seen with
  | nil => simp
  | cons extra extras ih =>
    unfold validateExtras at h
    split_ifs at h with hbad hseen
    obtain ⟨hall, hnodup⟩ := ih h
    rw [not_or] at hbad
    rw [List.forall_mem_cons, List.map_cons, List.nodup_cons]
    refine ⟨⟨⟨hbad.1, by omega, hseen⟩, fun other hother => ?_⟩, fun hin => ?_, hnodup⟩
    · obtain ⟨hhandle, htarget, hnot⟩ := hall other hother
      exact ⟨hhandle, htarget, fun hold => hnot (List.mem_cons_of_mem _ hold)⟩
    · obtain ⟨other, hother, heq⟩ := List.mem_map.mp hin
      apply (hall other hother).2.2
      rw [heq]
      exact List.mem_cons_self

/-- What the checks leave. -/
structure SpawnSpec.Valid (spec : SpawnSpec) : Prop where
  stdio : ∀ fd, (spec.stdio fd).isValid = true
  extra : ∀ extra ∈ spec.extraHandles, extra.handle ≠ none
  above : ∀ target ∈ spec.targets, 2 < target
  nodup : spec.targets.Nodup

theorem validate_ok {cwd : Result Unit} (h : validate spec cwd = .ok ()) : spec.Valid := by
  unfold validate at h
  split at h
  · cases h
  · split at h
    · cases h
    · split at h
      · rename_i hstdio
        obtain ⟨hall, hnodup⟩ := validateExtras_ok h
        refine ⟨fun fd => ?_, fun extra hin => (hall extra hin).1, fun target hin => ?_, ?_⟩
        · apply List.all_eq_true.mp hstdio
          unfold SpawnSpec.stdio
          split <;> simp
        · obtain ⟨extra, hextra, rfl⟩ := List.mem_map.mp hin
          have habove := (hall extra hextra).2.1
          omega
        · rw [SpawnSpec.targets, List.nodup_map_iff_inj_on (List.Nodup.of_map _ hnodup)]
          intro extra hextra other hother heq
          have hne := List.inj_on_of_nodup_map hnodup hextra hother
          have habove := (hall extra hextra).2.1
          have hother' := (hall other hother).2.1
          exact hne (by omega)
      · cases h

theorem le_foldl_max (l : List Nat) (first : Nat) :
    first ≤ l.foldl max first ∧ ∀ n ∈ l, n ≤ l.foldl max first := by
  induction l generalizing first with
  | nil => simp
  | cons n l ih =>
    obtain ⟨hfirst, hall⟩ := ih (max first n)
    rw [List.foldl_cons, List.forall_mem_cons]
    exact ⟨by omega, by omega, hall⟩

theorem closeFromFd_eq (spec : SpawnSpec) : spec.closeFromFd = spec.maxTarget + 1 := by
  have hall : ∀ (l : List Nat) (first : Nat),
      l.foldl (fun fd target => if fd ≤ target then target + 1 else fd) (first + 1) =
        l.foldl max first + 1 := by
    intro l
    induction l with
    | nil => exact fun _ => rfl
    | cons n l ih =>
      intro first
      rw [List.foldl_cons, List.foldl_cons, ← ih]
      congr 1
      split <;> omega
  exact hall spec.targets 2

/-! ## The extra handles -/

/-- Each extra handle is copied from a number above the targets, where its own file is. -/
def Moved (maxTarget : Nat) (t after : Table φ) (source : Nat) (extra : InheritedHandle) : Prop :=
  maxTarget < source ∧ ∃ number e, extra.handle = some number ∧ t number = some e ∧
    (after source).map Entry.copy = some e.copy

/-- What the parent's table keeps: only numbers above the targets are taken, for temporaries that go
at the exec. -/
structure Kept (maxTarget : Nat) (t after : Table φ) : Prop where
  opened : ∀ fd, t fd ≠ none → after fd = t fd
  low : ∀ fd, fd ≤ maxTarget → after fd = t fd
  temporary : ∀ fd e, t fd = none → after fd = some e → e.cloexec = true

/-- `first` is the table before the first of the extra handles was moved. -/
theorem renumberExtras_ok {maxTarget : Nat} {extras : List InheritedHandle} {r : RenumberedExtras φ}
    {first : Table φ} (hsame : ∀ fd, first fd ≠ none → t fd = first fd)
    (hopen : ∀ extra ∈ extras, ∀ source, extra.handle = some source → first source ≠ none)
    (h : renumberExtras limit maxTarget t extras = .ok r) :
    Kept maxTarget t r.table ∧ List.Forall₂ (Moved maxTarget first r.table) r.sources extras := by
  induction extras generalizing t r with
  | nil =>
    obtain rfl : { table := t } = r := by simpa [renumberExtras] using h
    exact ⟨⟨fun _ _ => rfl, fun _ _ => rfl, fun fd e hnone hsome => by simp [hnone] at hsome⟩, .nil⟩
  | cons extra extras ih =>
    rw [List.forall_mem_cons] at hopen
    unfold renumberExtras at h
    split at h
    · cases h
    · rename_i source hhandle
      have hsource := hopen.1 source hhandle
      obtain ⟨e, he⟩ := Option.ne_none_iff_exists'.mp hsource
      have hnow : t source = some e := (hsame source hsource).trans he
      split at h
      · rename_i habove
        split at h
        · cases h
        · rename_i rest hrest
          obtain ⟨hkept, hmoved⟩ := ih hsame hopen.2 hrest
          obtain rfl := Except.ok.inj h
          refine ⟨hkept, .cons ⟨habove, source, e, hhandle, he, ?_⟩ hmoved⟩
          dsimp only
          rw [hkept.opened source (by simp [hnow]), hnow]
          rfl
      · rw [hnow] at h
        dsimp only at h
        split at h
        · cases h
        · rename_i moved hfree
          obtain ⟨hle, -, hnone, -⟩ := firstFree_some hfree
          split at h
          · cases h
          · rename_i rest hrest
            -- the number that was taken was free
            have hother : ∀ fd, fd ≠ moved →
                Function.update t moved (some { e with cloexec := true }) fd = t fd :=
              fun fd hfd => Function.update_of_ne hfd _ _
            have hstays : ∀ fd, t fd ≠ none → fd ≠ moved := by
              rintro fd hfd rfl
              exact hfd hnone
            obtain ⟨hkept, hmoved⟩ := ih (fun fd hfd => by
              rw [← hsame fd hfd]
              apply hother
              apply hstays
              rw [hsame fd hfd]
              exact hfd) hopen.2 hrest
            obtain rfl := Except.ok.inj h
            have hown := hkept.opened moved (by simp)
            rw [Function.update_self] at hown
            refine ⟨⟨fun fd hfd => ?_, fun fd hfd => ?_, fun fd entry hfd hentry => ?_⟩,
              .cons ⟨by omega, source, e, hhandle, he, ?_⟩ hmoved⟩
            · have hfree := hother fd (hstays fd hfd)
              rw [← hfree]
              apply hkept.opened
              rw [hfree]
              exact hfd
            · rw [← hother fd (by omega)]
              exact hkept.low fd hfd
            · by_cases hmoved : fd = moved
              · subst hmoved
                rw [← Option.some.inj (hown.symm.trans hentry)]
              · exact hkept.temporary fd entry (by rw [hother fd hmoved, hfd]) hentry
            · dsimp only
              rw [hown]
              rfl

end

/-! ## The stdio -/

section

variable {spec : SpawnSpec} {limit : Nat} {c start after' : Table (File φ)} {stdio : Stdio}
  {target : Nat}

/-- What a stdio of a child is to be, given what the child has. -/
def Stdio.entry (c : Table (File φ)) (stdio : Stdio) (target : Nat) : Option (Entry (File φ)) :=
  match stdio.mode with
  | .Inherit => c target
  | .Null => some ⟨.null, false⟩
  | .Handle => (stdio.handle.bind c).map Entry.copy

theorem Stdio.isValid_handle (hvalid : stdio.isValid = true) (hmode : stdio.mode = .Handle) :
    ∃ source, stdio.handle = some source ∧ 2 < source := by
  obtain ⟨mode, handle⟩ := stdio
  subst hmode
  cases handle with
  | none => simp [Stdio.isValid] at hvalid
  | some source => exact ⟨source, rfl, by simpa [Stdio.isValid] using hvalid⟩

/-- It depends on nothing that the stdio before it changed. -/
theorem Stdio.entry_congr (hvalid : stdio.isValid = true) (htarget : after' target = c target)
    (habove : ∀ fd, 2 < fd → after' fd = c fd) :
    stdio.entry after' target = stdio.entry c target := by
  unfold Stdio.entry
  cases hmode : stdio.mode with
  | Inherit => exact htarget
  | Null => rfl
  | Handle =>
    obtain ⟨source, hsource, hlow⟩ := Stdio.isValid_handle hvalid hmode
    simp [hsource, habove source hlow]

theorem dup2_handle (hvalid : stdio.isValid = true) (hmode : stdio.mode = .Handle)
    (htarget : target ≤ 2)
    (h : (stdio.handle.bind fun source => dup2 limit c source target) = some after') :
    after' = Function.update c target (stdio.entry c target) ∧ stdio.entry c target ≠ none := by
  obtain ⟨source, hsource, hlow⟩ := Stdio.isValid_handle hvalid hmode
  rw [hsource, Option.bind_some] at h
  obtain ⟨e, he, -, rfl⟩ := dup2_some h
  rw [if_neg (by omega)]
  simp [Stdio.entry, hmode, hsource, he]

theorem addStdio_some (hvalid : stdio.isValid = true) (htarget : target ≤ 2)
    (h : addStdio limit c stdio target = some after') :
    after' = Function.update c target (stdio.entry c target) := by
  unfold addStdio at h
  cases hmode : stdio.mode with
  | Inherit =>
    rw [hmode] at h
    simp only [Stdio.entry, hmode, Function.update_eq_self]
    exact (Option.some.inj h).symm
  | Null =>
    rw [hmode] at h
    simp only [Stdio.entry, hmode]
    exact (Option.some.inj h).symm
  | Handle =>
    rw [hmode] at h
    exact (dup2_handle hvalid hmode htarget h).1

/-- Between fork and exec the null device is opened at the lowest free number and closed there. When
that is the target, the target is closed. -/
theorem wireStdioInChild_ok (hvalid : stdio.isValid = true) (htarget : target ≤ 2)
    (h : wireStdioInChild limit c stdio target = .ok after') :
    after' = Function.update c target
      (if stdio.mode = .Null ∧ firstFree limit c 0 = some target then none
        else stdio.entry c target) ∧
    (c target ≠ none → stdio.entry c target ≠ none) ∧
    (stdio.mode = .Null → firstFree limit c 0 ≠ none) := by
  unfold wireStdioInChild at h
  cases hmode : stdio.mode with
  | Inherit =>
    rw [hmode] at h
    simp only [Stdio.entry, hmode, reduceCtorEq, false_and, if_false, Function.update_eq_self]
    exact ⟨(Except.ok.inj h).symm, id, False.elim⟩
  | Null =>
    rw [hmode] at h
    dsimp only at h
    split at h
    · cases h
    · rename_i fd hfree
      refine ⟨?_, fun _ => by simp [Stdio.entry, hmode], fun _ => by simp [hfree]⟩
      have hnone := (firstFree_some hfree).2.2.1
      split at h
      · cases h
      · rename_i copied hcopied
        obtain ⟨e, he, -, rfl⟩ := dup2_some hcopied
        rw [Function.update_self] at he
        obtain rfl := Option.some.inj he
        rw [← Except.ok.inj h]
        by_cases hfd : fd = target
        · subst hfd
          rw [if_pos rfl, if_pos ⟨rfl, hfree⟩, close, Function.update_idem]
        · rw [if_neg hfd, if_neg (by rw [hfree]; simp [hfd]), close]
          simp only [Stdio.entry, hmode, Entry.copy]
          funext j
          by_cases hj : j = fd
          · subst hj
            simp [hfd, hnone]
          · by_cases hjt : j = target <;> simp [hj, hjt, Ne.symm hfd]
  | Handle =>
    rw [hmode] at h
    simp only [reduceCtorEq, false_and, if_false]
    dsimp only at h
    split at h
    · cases h
    · rename_i copied hcopied
      rw [← Except.ok.inj h]
      obtain ⟨hplaced, hopen⟩ := dup2_handle hvalid hmode htarget hcopied
      exact ⟨hplaced, fun _ => hopen, False.elim⟩

theorem wireExtrasInChild_ok {moves : List (Nat × Nat)}
    (h : wireExtrasInChild limit moves c = .ok after') :
    dup2All limit c moves = some after' := by
  induction moves generalizing c with
  | nil => exact congrArg some (Except.ok.inj h)
  | cons move moves ih =>
    unfold wireExtrasInChild at h
    rw [dup2All, List.foldlM_cons]
    split at h
    · cases h
    · rename_i next hnext
      rw [hnext]
      exact ih h

/-! ## All together -/

/-- The table of a child before its exec: its stdio, but what is `lost` of it, the extra handles
with the files that they had at `first`, and the rest as the child started. -/
structure Wired (spec : SpawnSpec) (first : Table φ) (start : Table (File φ)) (lost : Nat → Prop)
    (c : Table (File φ)) : Prop where
  stdio : ∀ fd, fd ≤ 2 → ¬ lost fd → c fd = (spec.stdio fd).entry start fd
  lost : ∀ fd, fd ≤ 2 → lost fd → c fd = none
  extra : ∀ extra ∈ spec.extraHandles, c extra.targetFd.toNat =
    (extra.handle.bind first).map fun e => ⟨.given e.file, false⟩
  others : ∀ fd, 2 < fd → fd ∉ spec.targets → c fd = start fd

/-- The copies of the extra handles, by either way. -/
theorem extras_placed (hvalid : spec.Valid) {first after : Table φ} {sources : List Nat}
    (hmoved : List.Forall₂ (Moved spec.maxTarget first after) sources spec.extraHandles)
    (hc : ∀ fd, 2 < fd → after fd ≠ none → c fd = forked after fd)
    (h : dup2All limit c (sources.zip spec.targets) = some after') :
    (∀ extra ∈ spec.extraHandles, after' extra.targetFd.toNat =
      (extra.handle.bind first).map fun e => ⟨.given e.file, false⟩) ∧
    ∀ fd, fd ∉ spec.targets → after' fd = c fd := by
  obtain ⟨hlength, hpairs⟩ := List.forall₂_iff_zip.mp hmoved
  have hzip : sources.zip spec.targets =
      (sources.zip spec.extraHandles).map (Prod.map id fun extra => extra.targetFd.toNat) := by
    rw [SpawnSpec.targets, List.zip_map_right]
  have hsnd : (sources.zip spec.targets).map Prod.snd = spec.targets := by
    apply List.map_snd_zip
    simp [SpawnSpec.targets, hlength]
  -- each source is open, and none is a target
  have hsource : ∀ m ∈ sources.zip spec.targets, ∃ extra,
      (m.1, extra) ∈ sources.zip spec.extraHandles ∧
      m.2 = extra.targetFd.toNat ∧ Moved spec.maxTarget first after m.1 extra := by
    intro m hm
    rw [hzip] at hm
    obtain ⟨pair, hpair, rfl⟩ := List.mem_map.mp hm
    exact ⟨pair.2, hpair, rfl, hpairs hpair⟩
  have hstart : ∀ {source : Nat} {extra : InheritedHandle},
      Moved spec.maxTarget first after source extra →
      (c source).map Entry.copy = (extra.handle.bind first).map fun e =>
        ⟨.given e.file, false⟩ := by
    rintro source extra ⟨habove, number, e, hnumber, he, hfile⟩
    have hlow := (le_foldl_max spec.targets 2).1
    obtain ⟨entry, hentry, hcopy⟩ := Option.map_eq_some_iff.mp hfile
    rw [hc source (Nat.lt_of_le_of_lt hlow habove) (by simp [hentry]), hnumber,
      Option.bind_some, he]
    simp only [forked, hentry, Option.map_some, Entry.copy] at hcopy ⊢
    rw [(Entry.mk.inj hcopy).1]
  have hopen : ∀ m ∈ sources.zip spec.targets, c m.1 ≠ none := by
    intro m hm hnone
    obtain ⟨extra, -, -, hone⟩ := hsource m hm
    have heq := hstart hone
    obtain ⟨-, number, e, hnumber, he, -⟩ := hone
    simp [hnone, hnumber, he] at heq
  have hapart : ∀ m ∈ sources.zip spec.targets, m.1 ∉ (sources.zip spec.targets).map Prod.snd := by
    intro m hm hin
    obtain ⟨extra, -, -, hone⟩ := hsource m hm
    rw [hsnd] at hin
    have hle := (le_foldl_max spec.targets 2).2 m.1 hin
    exact Nat.lt_irrefl _ (Nat.lt_of_lt_of_le hone.1 hle)
  obtain ⟨placed, hplaced, hmove, hrest⟩ := dup2All_apart hopen (dup2All_targets h) hapart
    (by rw [hsnd]; exact hvalid.nodup)
  obtain rfl : placed = after' := Option.some.inj (hplaced.symm.trans h)
  refine ⟨fun extra hextra => ?_, fun fd hfd => hrest fd (by rw [hsnd]; exact hfd)⟩
  obtain ⟨i, hi, rfl⟩ := List.mem_iff_getElem.mp hextra
  have hlt : i < sources.length := by omega
  have hmem : (sources[i], spec.extraHandles[i]) ∈ sources.zip spec.extraHandles := by
    rw [List.mem_iff_getElem]
    exact ⟨i, by rw [List.length_zip]; omega, by simp⟩
  have hin : (sources[i], spec.extraHandles[i].targetFd.toNat) ∈ sources.zip spec.targets := by
    rw [hzip]
    exact List.mem_map.mpr ⟨_, hmem, rfl⟩
  rw [hmove _ hin]
  exact hstart (hpairs hmem)

end

/-! ## The two ways -/

section

variable {spec : SpawnSpec} {limit : Nat} {first after : Table φ} {start c : Table (File φ)}
  {sources : List Nat}

/-- Stdio that was placed one after the other, but for what is lost of it. -/
theorem placed_stdio (hvalid : spec.Valid) (lost : Nat → Prop) [DecidablePred lost]
    {one two three : Table (File φ)}
    (hone : one = Function.update start 0 (if lost 0 then none else (spec.stdio 0).entry start 0))
    (htwo : two = Function.update one 1 (if lost 1 then none else (spec.stdio 1).entry one 1))
    (hthree : three = Function.update two 2 (if lost 2 then none else (spec.stdio 2).entry two 2)) :
    (∀ fd, fd ≤ 2 → three fd = if lost fd then none else (spec.stdio fd).entry start fd) ∧
      ∀ fd, 2 < fd → three fd = start fd := by
  have hout : (spec.stdio 1).entry one 1 = (spec.stdio 1).entry start 1 := by
    apply Stdio.entry_congr (hvalid.stdio 1)
    · simp [hone]
    · intro fd hfd
      rw [hone, Function.update_of_ne (by omega)]
  have herr : (spec.stdio 2).entry two 2 = (spec.stdio 2).entry start 2 := by
    apply Stdio.entry_congr (hvalid.stdio 2)
    · simp [htwo, hone]
    · intro fd hfd
      rw [htwo, hone, Function.update_of_ne (by omega), Function.update_of_ne (by omega)]
  refine ⟨fun fd hfd => ?_, fun fd hfd => ?_⟩
  · obtain rfl | rfl | rfl : fd = 0 ∨ fd = 1 ∨ fd = 2 := by omega
    · simp [hthree, htwo, hone]
    · simp [hthree, htwo, hout]
    · simp [hthree, herr]
  · rw [hthree, htwo, hone, Function.update_of_ne (by omega), Function.update_of_ne (by omega),
      Function.update_of_ne (by omega)]

theorem wired_of_placed (hvalid : spec.Valid)
    (hmoved : List.Forall₂ (Moved spec.maxTarget first after) sources spec.extraHandles)
    (hstart : ∀ fd, 2 < fd → after fd ≠ none → start fd = forked after fd) {lost : Nat → Prop}
    [DecidablePred lost] {three : Table (File φ)}
    (hlow : ∀ fd, fd ≤ 2 → three fd = if lost fd then none else (spec.stdio fd).entry start fd)
    (habove : ∀ fd, 2 < fd → three fd = start fd)
    (h : dup2All limit three (sources.zip spec.targets) = some c) :
    Wired spec first start lost c := by
  obtain ⟨hextra, hrest⟩ := extras_placed hvalid hmoved (fun fd hfd hopen => by
    rw [habove fd hfd]
    exact hstart fd hfd hopen) h
  have hstdio : ∀ fd, fd ≤ 2 → c fd = three fd := by
    intro fd hfd
    apply hrest
    intro hin
    have hlt := hvalid.above fd hin
    omega
  refine ⟨fun fd hfd hnot => ?_, fun fd hfd hlost => ?_, hextra, fun fd hfd hout => ?_⟩
  · rw [hstdio fd hfd, hlow fd hfd, if_neg hnot]
  · rw [hstdio fd hfd, hlow fd hfd, if_pos hlost]
  · rw [hrest fd hout, habove fd hfd]

theorem actions_wired (hvalid : spec.Valid)
    (hmoved : List.Forall₂ (Moved spec.maxTarget first after) sources spec.extraHandles)
    (h : actions limit spec sources (forked after) = some c) :
    Wired spec first (forked after) (fun _ => False) c := by
  obtain ⟨one, hone, h⟩ := Option.bind_eq_some_iff.mp h
  obtain ⟨two, htwo, h⟩ := Option.bind_eq_some_iff.mp h
  obtain ⟨three, hthree, h⟩ := Option.bind_eq_some_iff.mp h
  obtain ⟨hlow, habove⟩ := placed_stdio hvalid (fun _ => False)
    (by simpa using addStdio_some (hvalid.stdio 0) (by omega) hone)
    (by simpa using addStdio_some (hvalid.stdio 1) (by omega) htwo)
    (by simpa using addStdio_some (hvalid.stdio 2) (by omega) hthree)
  exact wired_of_placed hvalid hmoved (fun _ _ _ => rfl) hlow habove h

/-- The pipe stands at the two lowest numbers that were free, and nothing else changed. -/
theorem errorPipe_some {reader writer : Nat}
    (h : errorPipe limit start = some (reader, writer, c)) :
    start reader = none ∧ start writer = none ∧ reader < writer ∧
      (∀ fd, fd < writer → fd ≠ reader → start fd ≠ none) ∧
      c = Function.update (Function.update start reader (some ⟨.errorReader, true⟩)) writer
        (some ⟨.errorWriter, true⟩) := by
  obtain ⟨r, hr, h⟩ := Option.bind_eq_some_iff.mp h
  obtain ⟨w, hw, h⟩ := Option.bind_eq_some_iff.mp h
  obtain ⟨rfl, rfl, rfl⟩ : r = reader ∧ w = writer ∧ _ = c := by simpa using h
  obtain ⟨-, -, hreader, hbelow⟩ := firstFree_some hr
  obtain ⟨-, -, hwriter, hbelow'⟩ := firstFree_some hw
  have hne : w ≠ r := by
    rintro rfl
    simp at hwriter
  rw [Function.update_of_ne hne] at hwriter
  refine ⟨hreader, hwriter, ?_, fun fd hfd hother => ?_, rfl⟩
  · by_contra hge
    exact hbelow w (Nat.zero_le _) (by omega) hwriter
  · have hnot := hbelow' fd (Nat.zero_le _) hfd
    rwa [Function.update_of_ne hother] at hnot

/-- Standard error is lost when it is to be the null device and the parent has no stdio at all: then
the pipe takes 0 and 1, and the null device is opened at 2. -/
def LosesStderr (spec : SpawnSpec) (t : Table φ) (fd : Nat) : Prop :=
  fd = 2 ∧ spec.err.mode = .Null ∧ t 0 = none ∧ t 1 = none ∧ t 2 = none

instance (spec : SpawnSpec) (t : Table φ) : DecidablePred (LosesStderr spec t) := fun _ =>
  inferInstanceAs (Decidable (_ ∧ _))

/-- What the pipe leaves of the stdio: 0 is open, 1 is open if 0 was, and 2 is only free when no
stdio was. -/
theorem errorPipe_stdio {reader writer : Nat} {pipe : Table (File φ)}
    (h : errorPipe limit (forked after) = some (reader, writer, pipe)) :
    pipe 0 ≠ none ∧ pipe 1 ≠ none ∧
      (pipe 2 = none ↔ after 0 = none ∧ after 1 = none ∧ after 2 = none) := by
  obtain ⟨hreader, hwriter, hlt, hbelow, rfl⟩ := errorPipe_some h
  have hat : ∀ fd,
      Function.update (Function.update (forked after) reader (some ⟨.errorReader, true⟩)) writer
      (some ⟨.errorWriter, true⟩) fd = none ↔ fd ≠ writer ∧ fd ≠ reader ∧ after fd = none := by
    intro fd
    by_cases hw : fd = writer
    · simp [hw]
    · by_cases hr : fd = reader
      · simp [hr, Nat.ne_of_lt hlt]
      · simp [hw, hr, forked]
  have hopen : ∀ fd, fd < writer → fd ≠ reader → after fd ≠ none := by
    intro fd hfd hother hnone
    exact hbelow fd hfd hother (by simp [forked, hnone])
  have hnone : ∀ {fd}, forked after fd = none → after fd = none := by
    intro fd hfd
    simpa [forked] using hfd
  rw [Ne, Ne, hat, hat, hat]
  refine ⟨fun hfree => ?_, fun hfree => ?_, fun hfree => ?_, fun hbare => ?_⟩
  · exact hopen 0 (by omega) (by omega) hfree.2.2
  · by_cases hone : 1 < writer
    · exact hopen 1 hone hfree.2.1 hfree.2.2
    · omega
  · have hle : writer ≤ 2 := by
      by_contra hgt
      exact hopen 2 (by omega) hfree.2.1 hfree.2.2
    obtain rfl : writer = 1 := by omega
    obtain rfl : reader = 0 := by omega
    exact ⟨hnone hreader, hnone hwriter, hfree.2.2⟩
  · have hr : reader = 0 := by
      by_contra hne
      exact hopen 0 (by omega) (Ne.symm hne) hbare.1
    have hw : writer = 1 := by
      by_contra hne
      exact hopen 1 (by omega) (by omega) hbare.2.1
    exact ⟨by omega, by omega, hbare.2.2⟩

theorem wireInChild_wired (hvalid : spec.Valid)
    (hmoved : List.Forall₂ (Moved spec.maxTarget first after) sources spec.extraHandles)
    (hlow : ∀ fd, fd ≤ 2 → after fd = first fd) {reader writer : Nat} {pipe : Table (File φ)}
    (hpipe : errorPipe limit (forked after) = some (reader, writer, pipe))
    (h : wireInChild limit spec sources pipe = .ok c) :
    Wired spec first pipe (LosesStderr spec first) c := by
  obtain ⟨one, hin, h⟩ := bind_ok.mp h
  obtain ⟨two, hout, h⟩ := bind_ok.mp h
  obtain ⟨three, herr, hextras⟩ := bind_ok.mp h
  obtain ⟨hzero, hfirst, hsecond⟩ := errorPipe_stdio hpipe
  rw [hlow 0 (by omega), hlow 1 (by omega), hlow 2 (by omega)] at hsecond
  obtain ⟨hone, hstaysIn, -⟩ := wireStdioInChild_ok (hvalid.stdio 0) (by omega) hin
  obtain ⟨htwo, hstaysOut, -⟩ := wireStdioInChild_ok (hvalid.stdio 1) (by omega) hout
  obtain ⟨hthree, -, hfree⟩ := wireStdioInChild_ok (hvalid.stdio 2) (by omega) herr
  -- the null device is not opened at 0, nor at 1, where the pipe may stand
  rw [if_neg fun hat => hzero (firstFree_some hat.2).2.2.1] at hone
  have honeOne : one 1 = pipe 1 := by simp [hone]
  rw [← honeOne] at hfirst
  rw [if_neg fun hat => hfirst (firstFree_some hat.2).2.2.1] at htwo
  have htwoTwo : two 2 = pipe 2 := by simp [htwo, hone]
  have hopen : ∀ fd, fd < 2 → two fd ≠ none := by
    intro fd hfd
    obtain rfl | rfl : fd = 0 ∨ fd = 1 := by omega
    · simpa [htwo, hone] using hstaysIn hzero
    · simpa [htwo] using hstaysOut hfirst
  have hlost : (spec.stdio 2).mode = .Null ∧ firstFree limit two 0 = some 2 ↔
      LosesStderr spec first 2 := by
    constructor
    · rintro ⟨hmode, hat⟩
      have hnone := (firstFree_some hat).2.2.1
      rw [htwoTwo, hsecond] at hnone
      exact ⟨rfl, hmode, hnone⟩
    · rintro ⟨-, hmode, hbare⟩
      refine ⟨hmode, ?_⟩
      obtain ⟨fd, hat⟩ := Option.ne_none_iff_exists'.mp (hfree hmode)
      obtain ⟨-, -, hnone, hbelow⟩ := firstFree_some hat
      rw [hat]
      congr 1
      by_contra hne
      rcases Nat.lt_or_gt_of_ne hne with hlt | hgt
      · exact hopen fd hlt hnone
      · apply hbelow 2 (Nat.zero_le _) hgt
        rw [htwoTwo, hsecond]
        exact hbare
  obtain ⟨hplaced, habove⟩ := placed_stdio hvalid (LosesStderr spec first)
    (by simpa [LosesStderr] using hone) (by simpa [LosesStderr] using htwo)
    (hthree.trans (by rw [if_congr hlost rfl rfl]))
  obtain ⟨hreader, hwriter, -, -, rfl⟩ := errorPipe_some hpipe
  refine wired_of_placed hvalid hmoved (fun fd _ hsource => ?_)
    hplaced habove (wireExtrasInChild_ok hextras)
  have hne : forked after fd ≠ none := by simpa [forked] using hsource
  rw [Function.update_of_ne, Function.update_of_ne]
  · rintro rfl
    exact hne hreader
  · rintro rfl
    exact hne hwriter

end

/-! ## What the child has -/

section

variable {platform : Platform} {spec : SpawnSpec} {limit : Nat} {cwd : Result Unit}
  {launch : Launch}
  {t after : Table φ} {start c child : Table (File φ)} {r : RenumberedExtras φ}

/-- What a spec asks of a number of the stdio. -/
def Stdio.asked (t : Table φ) (stdio : Stdio) (fd : Nat) : Option (Entry (File φ)) :=
  match stdio.mode with
  | .Inherit => exec (forked t) fd
  | .Null => some ⟨.null, false⟩
  | .Handle => (stdio.handle.bind t).map fun e => ⟨.given e.file, false⟩

/-- A child starts with what its parent has, and with what goes at the exec. -/
structure Starts (t : Table φ) (start : Table (File φ)) : Prop where
  opened : ∀ fd, t fd ≠ none → start fd = forked t fd
  passing : ∀ fd e, t fd = none → start fd = some e → e.cloexec = true

theorem Starts.exec (h : Starts t start) (fd : Nat) :
    Descriptors.exec start fd = Descriptors.exec (forked t) fd := by
  unfold Descriptors.exec
  by_cases hfd : t fd = none
  · rw [show forked t fd = none by simp [forked, hfd]]
    cases hstart : start fd with
    | none => rfl
    | some e => simp [h.passing fd e hfd hstart]
  · rw [h.opened fd hfd]

theorem starts_forked {maxTarget : Nat} (h : Kept maxTarget t after) : Starts t (forked after) := by
  refine ⟨fun fd hfd => ?_, fun fd e hfd he => ?_⟩
  · simp [forked, h.opened fd hfd]
  · obtain ⟨entry, hentry, rfl⟩ := Option.map_eq_some_iff.mp he
    exact h.temporary fd entry hfd hentry

theorem starts_pipe {reader writer : Nat} (h : Starts t start)
    (hpipe : errorPipe limit start = some (reader, writer, c)) : Starts t c := by
  obtain ⟨hreader, hwriter, -, -, rfl⟩ := errorPipe_some hpipe
  have hfree : ∀ fd, t fd ≠ none → start fd ≠ none := by
    intro fd hfd
    rw [h.opened fd hfd]
    simpa [forked] using hfd
  refine ⟨fun fd hfd => ?_, fun fd e hfd he => ?_⟩
  · rw [Function.update_of_ne, Function.update_of_ne]
    · exact h.opened fd hfd
    · rintro rfl
      exact hfree fd hfd hreader
    · rintro rfl
      exact hfree fd hfd hwriter
  · by_cases hw : fd = writer
    · rw [hw, Function.update_self] at he
      rw [← Option.some.inj he]
    · rw [Function.update_of_ne hw] at he
      by_cases hr : fd = reader
      · rw [hr, Function.update_self] at he
        rw [← Option.some.inj he]
      · rw [Function.update_of_ne hr] at he
        exact h.passing fd e hfd he

theorem mem_handles {fd source : Nat} (hfd : fd ≤ 2) (hmode : (spec.stdio fd).mode = .Handle)
    (hsource : (spec.stdio fd).handle = some source) : source ∈ spec.handles := by
  apply List.mem_append_left
  refine List.mem_filterMap.mpr ⟨spec.stdio fd, List.mem_filter.mpr ⟨?_, by simpa using hmode⟩,
    hsource⟩
  obtain rfl | rfl | rfl : fd = 0 ∨ fd = 1 ∨ fd = 2 := by omega
  all_goals simp [SpawnSpec.stdio]

/-- At the exec the stdio is what was asked for. -/
theorem exec_entry (hopen : ∀ fd ∈ spec.handles, t fd ≠ none) (hstart : Starts t start) {fd : Nat}
    (hfd : fd ≤ 2) :
    ((spec.stdio fd).entry start fd).filter (fun e => !e.cloexec) = (spec.stdio fd).asked t fd := by
  unfold Stdio.entry Stdio.asked
  cases hmode : (spec.stdio fd).mode with
  | Inherit => exact hstart.exec fd
  | Null => rfl
  | Handle =>
    cases hsource : (spec.stdio fd).handle with
    | none => rfl
    | some source =>
      have hin := hopen source (mem_handles hfd hmode hsource)
      obtain ⟨e, he⟩ := Option.ne_none_iff_exists'.mp hin
      simp [hstart.opened source hin, forked, he, Entry.copy]

/-- The exec of a child whose handles were placed. -/
theorem exec_wired {lost : Nat → Prop} [DecidablePred lost]
    (hopen : ∀ fd ∈ spec.handles, t fd ≠ none)
    (hstart : Starts t start) (h : Wired spec t start lost c) :
    (∀ fd, fd ≤ 2 → exec c fd = if lost fd then none else (spec.stdio fd).asked t fd) ∧
    (∀ extra ∈ spec.extraHandles, exec c extra.targetFd.toNat =
      (extra.handle.bind t).map fun e => ⟨.given e.file, false⟩) ∧
    ∀ fd, 2 < fd → fd ∉ spec.targets → exec c fd = exec (forked t) fd := by
  refine ⟨fun fd hfd => ?_, fun extra hextra => ?_, fun fd hlow hfd => ?_⟩
  · split
    · rename_i hlost
      simp [exec, h.lost fd hfd hlost]
    · rename_i hnot
      rw [← exec_entry hopen hstart hfd, ← h.stdio fd hfd hnot]
      rfl
  · rw [exec, h.extra extra hextra]
    cases extra.handle.bind t <;> rfl
  · rw [← hstart.exec fd, exec, h.others fd hlow hfd]
    rfl

theorem applyLimits_running {spawned : Spawned φ}
    (h : applyLimits platform spec launch spawned = .running child) :
    (∀ s : Spawned φ, applyLimits platform spec launch s = s) ∧ spawned = .running child := by
  cases spawned with
  | failed e => cases h
  | dead | running =>
    unfold applyLimits at h
    dsimp only at h
    split at h
    · split at h
      · cases h
      · rename_i hnone
        refine ⟨fun s => ?_, h⟩
        cases s <;> simp [applyLimits, hnone]
    · rename_i hlimits
      refine ⟨fun s => ?_, h⟩
      cases s <;> simp [applyLimits, hlimits]

/-- What a running child went through. -/
theorem spawn_running (hopen : ∀ fd ∈ spec.handles, t fd ≠ none)
    (h : spawn platform limit spec cwd launch t = .running child) :
    validate spec cwd = .ok () ∧ ∃ r,
      renumberExtras limit spec.maxTarget t spec.extraHandles = .ok r ∧
      Kept spec.maxTarget t r.table ∧
      List.Forall₂ (Moved spec.maxTarget t r.table) r.sources spec.extraHandles ∧
      (∀ spawned : Spawned φ, applyLimits platform spec launch spawned = spawned) ∧
      (if needsFork platform spec then spawnViaFork limit spec r.sources launch r.table
        else spawnViaPosixSpawn platform limit spec r.sources launch r.table) = .running child := by
  unfold spawn at h
  split at h
  · cases h
  · rename_i hvalid
    split at h
    · cases h
    · rename_i r hr
      have hsame : ∀ fd, t fd ≠ none → t fd = t fd := fun _ _ => rfl
      obtain ⟨hkept, hmoved⟩ := renumberExtras_ok hsame
        (fun extra hextra source hsource => hopen source
          (List.mem_append_right _ (List.mem_filterMap.mpr ⟨extra, hextra, hsource⟩))) hr
      obtain ⟨hlimits, hspawned⟩ := applyLimits_running h
      exact ⟨hvalid, r, hr, hkept, hmoved, hlimits, hspawned⟩

theorem childFail_running {op : String} {errorFd : Nat} {err : Int} :
    childFail op errorFd err c ≠ .running child := by
  unfold childFail
  split <;> simp

theorem spawnViaFork_running {sources : List Nat}
    (h : spawnViaFork limit spec sources launch after = .running child) :
    ∃ reader writer pipe c, errorPipe limit (forked after) = some (reader, writer, pipe) ∧
      wireInChild limit spec sources pipe = .ok c ∧ launch.early = none ∧ launch.exec = none ∧
      child = exec c := by
  unfold spawnViaFork at h
  dsimp only at h
  split at h
  · cases h
  · rename_i reader writer pipe hpipe
    split at h
    · exact absurd h childFail_running
    · rename_i hearly
      split at h
      · exact absurd h childFail_running
      · rename_i c hwire
        split at h
        · exact absurd h childFail_running
        · rename_i hexec
          cases h
          exact ⟨reader, writer, pipe, c, hpipe, hwire, hearly, hexec, rfl⟩

theorem spawnViaPosixSpawn_running {sources : List Nat}
    (h : spawnViaPosixSpawn platform limit spec sources launch after = .running child) :
    ∃ c, actions limit spec sources (forked after) = some c ∧ launch.early = none ∧
      launch.exec = none ∧
      child = exec (if platform.supportsClosefrom then closefrom c spec.closeFromFd else c) := by
  unfold spawnViaPosixSpawn at h
  dsimp only at h
  split at h
  · cases h
  · rename_i hearly
    split at h
    · cases h
    · rename_i c hactions
      split at h
      · cases h
      · rename_i hexec
        cases h
        exact ⟨c, hactions, hearly, hexec, rfl⟩

/-- A child that runs has what was asked for, whatever the numbers of the handles: at 0, 1 and 2 its
stdio, at each target the file of its handle. Of the rest it has what its parent did not mark, but
with closefrom nothing above the targets. Only between fork and exec something is lost, and only
when the parent has no stdio at all and standard error is to be the null device. -/
theorem a_child_gets_what_it_was_given (hopen : ∀ fd ∈ spec.handles, t fd ≠ none)
    (h : spawn platform limit spec cwd launch t = .running child) :
    (∀ fd, fd ≤ 2 → child fd =
      if needsFork platform spec = true ∧ LosesStderr spec t fd then none
        else (spec.stdio fd).asked t fd) ∧
    (∀ extra ∈ spec.extraHandles, child extra.targetFd.toNat =
      (extra.handle.bind t).map fun e => ⟨.given e.file, false⟩) ∧
    ∀ fd, 2 < fd → fd ∉ spec.targets → child fd =
      if needsFork platform spec = false ∧ platform.supportsClosefrom = true ∧
        spec.maxTarget < fd then none
      else exec (forked t) fd := by
  obtain ⟨hvalid, r, -, hkept, hmoved, -, hspawned⟩ := spawn_running hopen h
  have hstart := starts_forked hkept
  have hlow : 2 ≤ spec.maxTarget := (le_foldl_max spec.targets 2).1
  cases hfork : needsFork platform spec with
  | true =>
    rw [if_pos hfork] at hspawned
    obtain ⟨reader, writer, pipe, c, hpipe, hwire, -, -, rfl⟩ := spawnViaFork_running hspawned
    have hwired :=
      wireInChild_wired (validate_ok hvalid) hmoved
        (fun fd hfd => hkept.low fd (Nat.le_trans hfd hlow)) hpipe hwire
    obtain ⟨hstdio, hextra, hothers⟩ := exec_wired hopen (starts_pipe hstart hpipe) hwired
    refine ⟨fun fd hfd => ?_, hextra, fun fd habove hfd => ?_⟩
    · simpa using hstdio fd hfd
    · simpa using hothers fd habove hfd
  | false =>
    rw [if_neg (by simp [hfork])] at hspawned
    obtain ⟨c, hactions, -, -, rfl⟩ := spawnViaPosixSpawn_running hspawned
    obtain ⟨hstdio, hextra, hothers⟩ :=
      exec_wired hopen hstart (actions_wired (validate_ok hvalid) hmoved hactions)
    -- up to the last target the closing changes nothing
    have hclosed : ∀ fd, exec (if platform.supportsClosefrom then closefrom c spec.closeFromFd
        else c) fd =
        if platform.supportsClosefrom = true ∧ spec.maxTarget < fd then none else exec c fd := by
      intro fd
      cases platform.supportsClosefrom with
      | false => simp
      | true =>
        simp only [exec, closefrom, closeFromFd_eq, Nat.succ_le_iff, true_and, if_true]
        split <;> rfl
    refine ⟨fun fd hfd => ?_, fun extra hextraIn => ?_, fun fd habove hfd => ?_⟩
    · rw [hclosed, if_neg (by omega)]
      simpa using hstdio fd hfd
    · rw [hclosed, if_neg, hextra extra hextraIn]
      have hle :=
        (le_foldl_max spec.targets 2).2 extra.targetFd.toNat (List.mem_map_of_mem hextraIn)
      rw [← SpawnSpec.maxTarget] at hle
      omega
    · rw [hclosed, hothers fd habove hfd]
      simp

/-- A parent with a stdio and two pipes. -/
def twoPipes : Table Nat := fun fd => if fd < 5 then some ⟨fd, decide (3 ≤ fd)⟩ else none

/-- The two pipes, each at the number of the other. -/
def swapped : SpawnSpec where
  program := [47, 97]
  argv := [[97]]
  cwd := [47]
  extraHandles := [⟨some 3, 4⟩, ⟨some 4, 3⟩]

theorem two_pipes_are_swapped : ∃ child, spawn {} 16 swapped (.ok ()) {} twoPipes = .running child ∧
    child 3 = some ⟨.given 4, false⟩ ∧ child 4 = some ⟨.given 3, false⟩ := by
  obtain ⟨child, h⟩ : ∃ child, spawn {} 16 swapped (.ok ()) {} twoPipes = .running child := ⟨_, rfl⟩
  obtain ⟨-, hextra, -⟩ := a_child_gets_what_it_was_given (by decide) h
  refine ⟨child, h, ?_, ?_⟩
  · exact hextra ⟨some 4, 3⟩ (by decide)
  · exact hextra ⟨some 3, 4⟩ (by decide)

/-- The number that the child writes its error to. -/
def errorFd (limit : Nat) (spec : SpawnSpec) (t : Table φ) : Option Nat :=
  match renumberExtras limit spec.maxTarget t spec.extraHandles with
  | .error _ => none
  | .ok r => (errorPipe limit (forked r.table)).map fun pipe => pipe.2.1

/-- The numbers that the child writes over. -/
def Rewired (spec : SpawnSpec) (fd : Nat) : Prop :=
  (fd ≤ 2 ∧ (spec.stdio fd).mode ≠ .Inherit) ∨ fd ∈ spec.targets

instance (spec : SpawnSpec) : DecidablePred (Rewired spec) :=
  fun _ => inferInstanceAs (Decidable (_ ∨ _))

/-- The pipe is still there if its number was not written over. -/
theorem wired_writer {writer : Nat} (hopen : ∀ fd ∈ spec.handles, t fd ≠ none)
    (hstart : Starts t start)
    (h : Wired spec t start (LosesStderr spec t) c)
    (hwriter : start writer = some ⟨.errorWriter, true⟩) :
    ((c writer).any fun e => e.file.isErrorWriter) = !decide (Rewired spec writer) := by
  by_cases htarget : writer ∈ spec.targets
  · obtain ⟨extra, hextra, rfl⟩ := List.mem_map.mp htarget
    rw [h.extra extra hextra, decide_eq_true (.inr htarget)]
    cases extra.handle.bind t <;> rfl
  · by_cases hlow : writer ≤ 2
    · by_cases hlost : LosesStderr spec t writer
      · have hmode : (spec.stdio writer).mode ≠ .Inherit := by
          rw [hlost.1]
          change spec.err.mode ≠ .Inherit
          simp [hlost.2.1]
        rw [h.lost writer hlow hlost, decide_eq_true (.inl ⟨hlow, hmode⟩)]
        rfl
      · rw [h.stdio writer hlow hlost]
        unfold Stdio.entry
        cases hmode : (spec.stdio writer).mode with
        | Inherit =>
          rw [decide_eq_false (by simp [Rewired, hmode, htarget]), hwriter]
          rfl
        | Null =>
          rw [decide_eq_true (.inl ⟨hlow, by simp [hmode]⟩)]
          rfl
        | Handle =>
          rw [decide_eq_true (.inl ⟨hlow, by simp [hmode]⟩)]
          cases hsource : (spec.stdio writer).handle with
          | none => rfl
          | some source =>
            have hin := hopen source (mem_handles hlow hmode hsource)
            obtain ⟨e, he⟩ := Option.ne_none_iff_exists'.mp hin
            simp [hstart.opened source hin, forked, he, Entry.copy, File.isErrorWriter]
    · rw [h.others writer (by omega) htarget, hwriter,
        decide_eq_false (by simp [Rewired, hlow, htarget])]
      rfl

/-- A program that cannot be executed is an error of the spawn, if it is spawned by posix_spawn.
Between fork and exec the child may write over the pipe by which it tells of it: then, and only
then, the caller gets a process that never ran the program. -/
theorem a_failed_exec_is_told_iff (hopen : ∀ fd ∈ spec.handles, t fd ≠ none)
    (h : spawn platform limit spec cwd { launch with exec := none } t = .running child)
    (err : Int) :
    (needsFork platform spec = false →
      spawn platform limit spec cwd { launch with exec := some err } t =
        .failed (fromErrno (if spec.lookup then "posix_spawnp" else "posix_spawn") err)) ∧
    (needsFork platform spec = true → ∃ writer, errorFd limit spec t = some writer ∧
      spawn platform limit spec cwd { launch with exec := some err } t =
        if Rewired spec writer then .dead
        else .failed (fromErrno (if spec.lookup then "execvp" else "execv") err)) := by
  obtain ⟨hvalid, r, hr, hkept, hmoved, hlimits, hspawned⟩ := spawn_running hopen h
  have hstart := starts_forked hkept
  have hlow : 2 ≤ spec.maxTarget := (le_foldl_max spec.targets 2).1
  have hspawn : spawn platform limit spec cwd { launch with exec := some err } t =
      if needsFork platform spec then
        spawnViaFork limit spec r.sources { launch with exec := some err } r.table
      else
        spawnViaPosixSpawn platform limit spec r.sources { launch with
                                                           exec := some err } r.table := by
    unfold spawn
    rw [hvalid]
    dsimp only
    rw [hr]
    exact hlimits _
  refine ⟨fun hfork => ?_, fun hfork => ?_⟩
  · rw [if_neg (by simp [hfork])] at hspawned
    rw [hspawn, if_neg (by simp [hfork])]
    obtain ⟨c, hactions, hearly, -, -⟩ := spawnViaPosixSpawn_running hspawned
    have hearly : launch.early = none := hearly
    simp [spawnViaPosixSpawn, hearly, hactions]
  · rw [if_pos hfork] at hspawned
    rw [hspawn, if_pos hfork]
    obtain ⟨reader, writer, pipe, c, hpipe, hwire, hearly, -, -⟩ := spawnViaFork_running hspawned
    have hearly : launch.early = none := hearly
    have hwired := wireInChild_wired (validate_ok hvalid) hmoved
      (fun fd hfd => hkept.low fd (Nat.le_trans hfd hlow)) hpipe hwire
    have hwriter : pipe writer = some ⟨.errorWriter, true⟩ := by
      obtain ⟨-, -, -, -, rfl⟩ := errorPipe_some hpipe
      exact Function.update_self _ _ _
    refine ⟨writer, by simp [errorFd, hr, hpipe], ?_⟩
    have htold := wired_writer hopen (starts_pipe hstart hpipe) hwired hwriter
    simp only [spawnViaFork, hpipe, hearly, hwire, childFail, htold]
    by_cases hrewired : Rewired spec writer <;> simp [hrewired]

/-- A pipe that is to be at 6, where the pipe for the error is. -/
def atSix : SpawnSpec where
  program := [47, 97]
  argv := [[97]]
  cwd := [47]
  extraHandles := [⟨some 4, 6⟩]

theorem a_failed_exec_is_lost :
    spawn { supportsChdir := false } 16 atSix (.ok ()) { exec := some ENOENT } twoPipes =
      .dead := by
  obtain ⟨child, h⟩ : ∃ child, spawn { supportsChdir := false } 16 atSix (.ok ()) {} twoPipes =
    .running child := ⟨_, rfl⟩
  have h : spawn { supportsChdir := false } 16 atSix (.ok ()) { ({} : Launch) with exec := none }
      twoPipes =
    .running child := h
  have htold := a_failed_exec_is_told_iff (by decide) h ENOENT
  obtain ⟨writer, hwriter, hspawn⟩ := htold.2 (by decide)
  have hsix : errorFd 16 atSix twoPipes = some 6 := by decide
  rw [hsix] at hwriter
  rw [hspawn, ← Option.some.inj hwriter]
  rfl

/-- Where the parent has a stdio and marks all else, posix_spawn and fork give the same child, which
has nothing but what was asked for. -/
theorem both_ways_give_the_same_child {other : Platform} {launch' : Launch}
    {child' : Table (File φ)}
    (hopen : ∀ fd ∈ spec.handles, t fd ≠ none) (hstdio : ∀ fd, fd ≤ 2 → t fd ≠ none)
    (hmarked : ∀ fd e, 2 < fd → t fd = some e → e.cloexec = true)
    (h : spawn platform limit spec cwd launch t = .running child)
    (h' : spawn other limit spec cwd launch' t = .running child') :
    child = child' ∧ ∀ fd, 2 < fd → fd ∉ spec.targets → child fd = none := by
  have hkept : ∀ fd, ¬ LosesStderr spec t fd := fun fd hlost => hstdio 0 (by omega) hlost.2.2.1
  have hnone : ∀ fd, 2 < fd → exec (forked t) fd = none := by
    intro fd hfd
    cases ht : t fd with
    | none => simp [exec, forked, ht]
    | some e => simp [exec, forked, ht, hmarked fd e hfd ht]
  have hgiven := fun {p : Platform} {l : Launch} {c : Table (File φ)}
    (hc : spawn p limit spec cwd l t = .running c) => a_child_gets_what_it_was_given hopen hc
  obtain ⟨hlow, hextra, hrest⟩ := hgiven h
  obtain ⟨hlow', hextra', hrest'⟩ := hgiven h'
  have hothers : ∀ fd, 2 < fd → fd ∉ spec.targets → child fd = none := by
    intro fd hfd hout
    rw [hrest fd hfd hout, hnone fd hfd, ite_self]
  refine ⟨?_, hothers⟩
  funext fd
  by_cases hfd : fd ≤ 2
  · rw [hlow fd hfd, hlow' fd hfd]
    simp [hkept fd]
  · by_cases hin : fd ∈ spec.targets
    · obtain ⟨extra, hextraIn, rfl⟩ := List.mem_map.mp hin
      rw [hextra extra hextraIn, hextra' extra hextraIn]
    · rw [hothers fd (by omega) hin, hrest' fd (by omega) hin, hnone fd (by omega), ite_self]

theorem the_pipes_are_swapped_both_ways : ∃ child,
    spawn {} 16 swapped (.ok ()) {} twoPipes = .running child ∧
    spawn { supportsChdir := false } 16 swapped (.ok ()) {} twoPipes = .running child ∧
    child 5 = none := by
  obtain ⟨child, h⟩ : ∃ child, spawn {} 16 swapped (.ok ()) {} twoPipes = .running child := ⟨_, rfl⟩
  obtain ⟨other, h'⟩ : ∃ child, spawn { supportsChdir := false } 16 swapped (.ok ()) {} twoPipes =
    .running child := ⟨_, rfl⟩
  obtain ⟨hsame, hnone⟩ :=
    both_ways_give_the_same_child (by decide) (by decide) (fun fd e hfd he => by
    unfold twoPipes at he
    split at he
    · rw [← Option.some.inj he]
      exact decide_eq_true hfd
    · cases he) h h'
  refine ⟨child, h, ?_, hnone 5 (by decide) (by decide)⟩
  rw [hsame]
  exact h'

end

end psx.os
