-- The commands that keep an inventory (hosts_command.cpp): the file is read, a host is added or
-- removed or a legacy list is imported, and the whole file is rewritten in one step.
import PipeShellX.Inventory.ClientConfig
import PipeShellX.Inventory.Edits
import PipeShellX.Os.AtomicRewrite
import Mathlib.Data.List.DropRight

namespace psx.cli.hosts

open Text (ascii)
open Scan (cut)
open Decimal (natural)
open psx.inventory (Host Inventory newline sign equals colon)
open psx.os (Answer Directory Stat Job atomicRewriteFile atomicWriteWithMode)

/-! ## The invocation -/

/-- A command line: the inventory, what to do with it, and the operands of that. -/
structure HostsInvocation where
  inventoryPath : Bytes := []
  action : Bytes := ascii "list"
  operands : List Bytes := []
  deriving DecidableEq

/-- The value of an option is not empty and does not look like one. -/
def isValue (value : Bytes) : Bool := value ≠ [] && value.head? ≠ some 45

/-- The loop of `parseInvocation`. -/
def splitInvocation (path : Bytes) (remaining : List Bytes) :
    List Bytes → Except Bytes (Bytes × List Bytes)
  | [] => .ok (path, remaining)
  | arg :: args =>
    if arg = ascii "-i" ∨ arg = ascii "--inventory" then
      if path ≠ [] then .error (ascii "-i/--inventory may only be specified once")
      else
        match args with
        | [] => .error (arg ++ ascii " requires a value")
        | value :: args =>
          if isValue value then splitInvocation value remaining args
          else .error (arg ++ ascii " requires a value")
    else splitInvocation path (remaining ++ [arg]) args

/-- The command line is taken apart; without an action the hosts are listed. -/
def parseInvocation (args : List Bytes) : Except Bytes HostsInvocation :=
  match splitInvocation [] [] args with
  | .error message => .error message
  | .ok (path, []) => .ok { inventoryPath := path }
  | .ok (path, action :: operands) =>
    if action = ascii "list" ∨ action = ascii "add" ∨ action = ascii "remove" ∨
      action = ascii "import" then
      .ok { inventoryPath := path, action, operands }
    else
      .error (ascii "unknown action '" ++ action ++
        ascii "' (expected list, add, remove, or import)")

/-! ## The host to add -/

/-- A value that would break its line, or say nothing, is refused. -/
def rejectUnsafeValue (value description : Bytes) : Except Bytes Unit :=
  if value = [] ∨ 13 ∈ value ∨ 10 ∈ value then
    .error (description ++ ascii " contains an unsafe value")
  else .ok ()

/-- The options that hold a secret have no place in an inventory. -/
def isSecretKey (key : Bytes) : Bool :=
  key = ascii "password" || key = ascii "pass" || key = ascii "secret" || key = ascii "token" ||
    key = ascii "private_key"

/-- What the loop over the arguments of `add` gathers. -/
structure Adding where
  group : Bytes := ascii "all"
  groupSeen : Bool := false
  options : List Bytes := []
  optionKeys : List Bytes := []
  deriving DecidableEq

namespace Adding

/-- The group of the host, a single name that can stand in a header. -/
def inGroup (a : Adding) (group : Bytes) : Except Bytes Adding := do
  rejectUnsafeValue group (ascii "group")
  if group.any fun c => c ∈ ascii "[]#; \t" then
    .error (ascii "group must be a single safe inventory name")
  else return { a with group, groupSeen := true }

/-- One more option of the host, in the spelling of the file. -/
def option (a : Adding) (key value : Bytes) : Except Bytes Adding := do
  rejectUnsafeValue key (ascii "option name")
  rejectUnsafeValue value (ascii "option value")
  if isSecretKey key then
    .error (ascii "secret option '" ++ key ++ ascii "' is not allowed in an inventory")
  else if key ∈ a.optionKeys then
    .error (ascii "add option '" ++ key ++ ascii "' may only be specified once")
  else return { a with
    options := a.options ++ [key ++ equals :: value]
    optionKeys := a.optionKeys ++ [key] }

/-- The flags that name the group. -/
def isGroupFlag (argument : Bytes) : Bool :=
  argument = ascii "-g" || argument = ascii "--group" || argument = ascii "--group-name"

/-- The flags that are options of a line. -/
def isOptionFlag (argument : Bytes) : Bool :=
  argument = ascii "--user" || argument = ascii "--port" || argument = ascii "--identity" ||
    argument = ascii "--tag" || argument = ascii "--tags" || argument = ascii "--transport" ||
    argument = ascii "--san" || argument = ascii "--native-port"

/-- The key that a flag has in a line. -/
def flagKey (argument : Bytes) : Bytes :=
  let key := argument.drop 2
  if key = ascii "tags" then ascii "tag"
  else if key = ascii "native-port" then ascii "native_port"
  else key

/-- The arguments behind the host, flags with their values and options as they stand in a line. -/
def arguments : Adding → List Bytes → Except Bytes Adding
  | a, [] => .ok a
  | a, argument :: args =>
    if isGroupFlag argument then
      if a.groupSeen then .error (ascii "add group may only be specified once")
      else
        match args with
        | [] => .error (argument ++ ascii " requires a value")
        | value :: args =>
          if isValue value then do
            let a ← a.inGroup value
            a.arguments args
          else .error (argument ++ ascii " requires a value")
    else if isOptionFlag argument then
      match args with
      | [] => .error (argument ++ ascii " requires a value")
      | value :: args =>
        if isValue value then do
          let a ← a.option (flagKey argument) value
          a.arguments args
        else .error (argument ++ ascii " requires a value")
    else
      match cut equals argument with
      | none => .error (ascii "unexpected add argument '" ++ argument ++ ascii "'")
      | some (key, value) => do
        let a ← a.option key value
        a.arguments args

/-- The inventory of the one host. -/
def text (a : Adding) (spec : Bytes) : Bytes :=
  ascii "[" ++ a.group ++ ascii "]\n" ++ spec ++ a.options.flatMap (fun option => 32 :: option) ++
    [newline]

end Adding

/-- The part before the `@` has a colon. -/
def hasPassword (spec : Bytes) : Bool := (cut sign spec).any fun target => target.1.elem colon

/-- The host to add: its line is written and read back, so that what is added is what a reader takes
from it. -/
def parseHostToAdd : List Bytes → Except Bytes Host
  | [] => .error (ascii "add requires HOST")
  | spec :: args =>
    if spec = [] ∨ spec.head? = some 45 ∨ 63 ∈ spec then
      .error (ascii "add requires a valid HOST without URL query parameters")
    else if spec.take 6 = ascii "ssh://" ∨ hasPassword spec then
      .error (ascii "add HOST must not contain a URL or user:password credentials; use user@host")
    else do
      rejectUnsafeValue spec (ascii "HOST")
      let a ← ({} : Adding).arguments args
      let parsed ← inventory.parse (a.text spec) []
      match parsed.hosts with
      | [host] => return host
      | _ => .error (ascii "add must describe exactly one host")

/-! ## The file -/

/-- What the file of a legacy list is when it is read. -/
inductive Source
  | closed
  | broken
  | text (contents : Bytes)

/-- What the system says to a command. `samePath` is none when the paths of an import cannot be
resolved, and `elsewhere` is what `list` finds when it is given no path. -/
structure Environment where
  inspect : Option Bytes := none
  opens : Bool := true
  source : Source := .closed
  samePath : Option Bool := some false
  elsewhere : Option (Bytes × Option Bytes) := none
  stat : Option Int := none
  answers : List Answer := []
  platformText : String := ""
  survives : Bool := true

/-- The last part of a path. -/
def filename (path : Bytes) : Bytes := path.rtakeWhile fun c => c ≠ 47

/-- An inventory, or a legacy list by the name of its file. -/
def loadText (path : Bytes) (contents : Option Bytes) : Except Bytes Inventory :=
  match contents with
  | none => .error (ascii "inventory: cannot open '" ++ path ++ ascii "'")
  | some text =>
    if filename path = ascii "clients.txt" then inventory.importClientsTxt text path
    else inventory.parse text path

/-- The file of the path, if it is opened. -/
def contents (env : Environment) (d : Directory) (path : Bytes) : Option Bytes :=
  if env.opens then (d.read (filename path)).map fun inode => inode.content else none

/-- The inventory that is about to be changed; only some actions may make a new one. -/
def loadMutationTarget (env : Environment) (d : Directory) (path : Bytes) (allowMissing : Bool) :
    Except Bytes Inventory :=
  match env.inspect with
  | some message => .error (ascii "cannot inspect inventory '" ++ path ++ ascii "': " ++ message)
  | none =>
    if (d.read (filename path)).isNone && allowMissing then .ok {}
    else loadText path (contents env d path)

/-- The whole of a file. -/
def readFile (source : Source) (path : Bytes) : Except Bytes Bytes :=
  match source with
  | .closed => .error (ascii "cannot open '" ++ path ++ ascii "'")
  | .broken => .error (ascii "cannot read '" ++ path ++ ascii "'")
  | .text contents => .ok contents

/-! ## The actions -/

/-- An action that writes needs an inventory that was named, and no legacy list. -/
def requireExplicitInventory (invocation : HostsInvocation) : Except Bytes Unit :=
  if invocation.inventoryPath = [] then
    .error (invocation.action ++ ascii " requires an explicit -i FILE inventory")
  else if filename invocation.inventoryPath = ascii "clients.txt" then
    .error
      (ascii "clients.txt is a legacy import source; mutation requires an INI inventory target")
  else .ok ()

/-- An action comes to the inventory that is written, and to what is said of it. -/
def addHost (env : Environment) (d : Directory) (invocation : HostsInvocation) :
    Except Bytes (Inventory × Bytes) := do
  requireExplicitInventory invocation
  let inventory ← loadMutationTarget env d invocation.inventoryPath true
  let host ← parseHostToAdd invocation.operands
  let inventory ← inventory.add host
  return (inventory, ascii "added " ++ host.name ++ ascii " to " ++ invocation.inventoryPath ++
    [newline])

/-- The one operand of an action. -/
def operand (invocation : HostsInvocation) (what : Bytes) : Except Bytes Bytes :=
  match invocation.operands with
  | [value] =>
    if value = [] then .error (invocation.action ++ ascii " requires exactly one " ++ what)
    else .ok value
  | _ => .error (invocation.action ++ ascii " requires exactly one " ++ what)

/-- The host of a name is taken out. -/
def removeHost (env : Environment) (d : Directory) (invocation : HostsInvocation) :
    Except Bytes (Inventory × Bytes) := do
  requireExplicitInventory invocation
  let name ← operand invocation (ascii "HOST")
  let inventory ← loadMutationTarget env d invocation.inventoryPath false
  match inventory.remove name with
  | none => .error (ascii "host '" ++ name ++ ascii "' not found")
  | some inventory =>
    return (inventory, ascii "removed " ++ name ++ ascii " from " ++ invocation.inventoryPath ++
      [newline])

/-- The hosts of the legacy list. -/
def importedHosts (env : Environment) (invocation : HostsInvocation) :
    Except Bytes (List Host) := do
  let source ← operand invocation (ascii "clients.txt path")
  match env.samePath with
  | none => .error (ascii "cannot resolve import paths")
  | some true => .error (ascii "import source and inventory target must be different files")
  | some false =>
    let text ← readFile env.source source
    let imported ← inventory.importClientsTxt text source
    if imported.hosts = [] then .error (ascii "import source contains no hosts")
    else return imported.hosts

/-- The hosts of a legacy list are added. -/
def importClients (env : Environment) (d : Directory) (invocation : HostsInvocation) :
    Except Bytes (Inventory × Bytes) := do
  requireExplicitInventory invocation
  let hosts ← importedHosts env invocation
  let inventory ← loadMutationTarget env d invocation.inventoryPath true
  let inventory ← hosts.foldlM Inventory.add inventory
  return (inventory, ascii "imported " ++ natural hosts.length ++ ascii " host(s) into " ++
    invocation.inventoryPath ++ [newline])

/-- The items, or a dash. -/
def join (items : List Bytes) : Bytes :=
  let result := (items.intersperse (ascii ",")).flatten
  if result = [] then ascii "-" else result

/-- The hosts as they are listed. -/
def listHosts (env : Environment) (d : Directory) (requestedPath : Bytes) : Except Bytes Bytes := do
  let loaded ←
    if requestedPath ≠ [] then loadText requestedPath (contents env d requestedPath)
    else
      match env.elsewhere with
      | none =>
        .error (ascii "no inventory (pass -i FILE, set PIPESHELLX_INVENTORY, or add inventory.ini)")
      | some (path, contents) => loadText path contents
  return ascii "HOST\tGROUPS\tTAGS\tTRANSPORT\n" ++ loaded.hosts.flatMap fun host =>
    host.name ++ ascii "\t" ++ join host.groups ++ ascii "\t" ++ join host.tags ++ ascii "\t" ++
      host.transport ++ [newline]

/-! ## The command -/

/-- How a command ends: with an exit code and what it wrote, or killed. -/
inductive Outcome
  | exit (code : Nat) (out err : Bytes)
  | killed
  deriving DecidableEq

/-- `committed` says that the file was replaced. -/
structure Ended where
  dir : Directory
  committed : Bool
  outcome : Outcome

/-- The command fails before it writes the inventory. -/
def failed (env : Environment) (d : Directory) (message : Bytes) : Ended :=
  ⟨d, false,
    if env.survives then .exit 2 [] (ascii "pipeshellx hosts: " ++ message ++ [newline])
      else .killed⟩

/-- What `stat` says of the inventory. -/
def statOf (env : Environment) (d : Directory) (path : Bytes) : Stat :=
  match env.stat with
  | some err => .failed err
  | none =>
    match d.read (filename path) with
    | some inode => .found inode.mode
    | none => .failed os.ENOENT

/-- The message for a rewrite that failed. -/
def cannotRewrite (env : Environment) (path : Bytes) (e : Error) : Bytes :=
  ascii "cannot atomically rewrite '" ++ path ++ ascii "': " ++ ascii (e.message env.platformText)

/-- The rewrite may be cut short anywhere, and the process may be killed when it is through. -/
def commit (env : Environment) (d : Directory) (path : Bytes) :
    Except Bytes (Inventory × Bytes) → Ended
  | .error message => failed env d message
  | .ok (inventory, said) =>
    match atomicRewriteFile (statOf env d path) (filename path) inventory.serialize with
    | .error e => failed env d (cannotRewrite env path e)
    | .ok job =>
      let rewrite := (atomicWriteWithMode job d).run job env.answers
      match rewrite.phase with
      | .done (.ok _) => ⟨rewrite.dir, true, if env.survives then .exit 0 said [] else .killed⟩
      | .done (.error e) => failed env rewrite.dir (cannotRewrite env path e)
      | _ => ⟨rewrite.dir, false, .killed⟩

/-- The whole command. -/
def hostsSubcommand (env : Environment) (args : List Bytes) (d : Directory) : Ended :=
  match parseInvocation args with
  | .error message => failed env d message
  | .ok invocation =>
    if invocation.action = ascii "list" then
      if invocation.operands ≠ [] then
        failed env d (ascii "list does not accept positional arguments")
      else
        match listHosts env d invocation.inventoryPath with
        | .error message => failed env d message
        | .ok out => ⟨d, false, if env.survives then .exit 0 out [] else .killed⟩
    else if invocation.action = ascii "add" then
      commit env d invocation.inventoryPath (addHost env d invocation)
    else if invocation.action = ascii "remove" then
      commit env d invocation.inventoryPath (removeHost env d invocation)
    else commit env d invocation.inventoryPath (importClients env d invocation)

end psx.cli.hosts
