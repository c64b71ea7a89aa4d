-- The inventory of a fleet (inventory.cpp): an INI text is read line by line into hosts, and hosts
-- are written back as one section for each group. A legacy list of clients is rewritten into such a
-- text, one line for each entry.
import PipeShellX.Decimal
import PipeShellX.Result
import PipeShellX.Scan
import PipeShellX.Text

namespace psx.inventory

open Text (ascii getlines)
open Scan (strip words cut)
open Decimal (isDigit natural)

def newline : UInt8 := 10

def sign : UInt8 := 64

def equals : UInt8 := 61

def comma : UInt8 := 44

def colon : UInt8 := 58

/-- What `trim` takes away: blanks, tabs and line ends. -/
def isTrimmed (b : UInt8) : Bool := b = 32 || b = 9 || b = 13 || b = 10

/-- What separates the words of a line. -/
def isBlank (b : UInt8) : Bool := b = 32 || b = 9

def isComment (b : UInt8) : Bool := b = 35 || b = 59

def trim (s : Bytes) : Bytes := strip isTrimmed s

/-- The loop of `stripComment`. A comment opens at the start and behind a blank. -/
def stripCommentFrom : Bool → Bytes → Bytes
  | _, [] => []
  | opens, c :: rest => if isComment c && opens then [] else c :: stripCommentFrom (isBlank c) rest

/-- A line without its comment. -/
def stripComment (line : Bytes) : Bytes := stripCommentFrom true line

def splitWhitespace (s : Bytes) : List Bytes := words isBlank s

/-- The reader stops at a line. -/
def fail {α : Type} (lineNumber : Nat) (message : Bytes) : Except Bytes α :=
  .error (ascii "inventory: line " ++ natural lineNumber ++ ascii ": " ++ message)

/-- `std::from_chars` reads an unsigned number: nothing but digits, and not too many of them. -/
def IsPort (value : Bytes) : Prop :=
  value ≠ [] ∧ (∀ b ∈ value, isDigit b = true) ∧ Decimal.value value ≠ 0 ∧
    Decimal.value value ≤ 65535

instance decidable_isPort (value : Bytes) : Decidable (IsPort value) :=
  haveI : Decidable (∀ b ∈ value, isDigit b = true) := List.decidableBAll _ value
  inferInstanceAs (Decidable (_ ∧ _ ∧ _ ∧ _))

/-- A port from 1 to 65535. -/
def parsePort (value : Bytes) (lineNumber : Nat) : Except Bytes Nat :=
  if IsPort value then .ok (Decimal.value value)
  else fail lineNumber (ascii "invalid port '" ++ value ++ ascii "'")

/-- The value stands in the list, at its end if it is new. -/
def addUnique (list : List Bytes) (value : Bytes) : List Bytes :=
  if value ∈ list then list else list ++ [value]

/-- The transports that a host can have. -/
def isSupportedTransport (value : Bytes) : Bool := value = ascii "ssh" || value = ascii "native"

/-- The values with commas between them. -/
def join (values : List Bytes) : Bytes :=
  values.foldl (fun result value => (if result ≠ [] then result ++ [comma] else result) ++ value) []

/-- A host of the inventory. -/
structure Host where
  name : Bytes
  user : Bytes := []
  host : Bytes
  port : Nat := 22
  identity : Bytes := []
  transport : Bytes := ascii "ssh"
  san : Bytes := []
  nativePort : Nat := 0
  groups : List Bytes := []
  tags : List Bytes := []
  deriving DecidableEq

/-- The hosts, in the order of the file. -/
structure Inventory where
  hosts : List Host := []
  sourcePath : Bytes := []
  deriving DecidableEq

/-! ## Reading -/

/-- The state of the loop of `parse`. -/
structure Reading where
  hosts : List Host := []
  defaultUser : Bytes := []
  defaultIdentity : Bytes := []
  defaultPort : Nat := 22
  defaultPortSet : Bool := false
  currentGroup : Bytes := []
  inDefaults : Bool := false
  deriving DecidableEq

/-- The entry of the name is found or made, and then changed. -/
def upsert (name : Bytes) (change : Host → Except Bytes Host) : List Host → Except Bytes (List Host)
  | [] => do
    let entry ← change { name, host := name }
    return [entry]
  | entry :: hosts =>
    if entry.name = name then do
      let entry ← change entry
      return entry :: hosts
    else do
      let hosts ← upsert name change hosts
      return entry :: hosts

/-- The loop over the items of a `tag` option. -/
def addTags (tags : List Bytes) (value : Bytes) : List Bytes :=
  (value.splitOn comma).foldl (fun tags tag => if tag ≠ [] then addUnique tags tag else tags) tags

/-- One turn of the loop over the options of a host. -/
def hostOption (lineNumber : Nat) (entry : Host) (opt : Bytes) : Except Bytes Host :=
  match cut equals opt with
  | none => fail lineNumber (ascii "expected key=value option, got '" ++ opt ++ ascii "'")
  | some (key, value) =>
    if key = ascii "user" then return { entry with user := value }
    else if key = ascii "port" then do
      let port ← parsePort value lineNumber
      return { entry with port }
    else if key = ascii "identity" then return { entry with identity := value }
    else if key = ascii "transport" then
      if ¬ isSupportedTransport value then
        fail lineNumber (ascii "transport must be ssh or native, got '" ++ value ++ ascii "'")
      else return { entry with transport := value }
    else if key = ascii "san" then return { entry with san := value }
    else if key = ascii "native_port" then do
      let nativePort ← parsePort value lineNumber
      return { entry with nativePort }
    else if key = ascii "tag" then return { entry with tags := addTags entry.tags value }
    else fail lineNumber (ascii "unknown host option '" ++ key ++ ascii "'")

/-- What a host line says before its options. -/
def Reading.meet (r : Reading) (user host : Bytes) (entry : Host) : Host :=
  { entry with
    host
    user := if user ≠ [] then user else if entry.user = [] then r.defaultUser else entry.user
    identity := if entry.identity = [] then r.defaultIdentity else entry.identity
    port := if r.defaultPortSet ∧ entry.port = 22 then r.defaultPort else entry.port
    groups := addUnique entry.groups r.currentGroup }

/-- The host token may be `user@host` or a bare host. -/
def Reading.target (r : Reading) (spec : Bytes) : Bytes × Bytes :=
  match cut sign spec with
  | some (user, host) => (user, host)
  | none => (r.defaultUser, spec)

/-- A line that names a host: the host is made or found, and its options are set. -/
def Reading.hostLine (r : Reading) (lineNumber : Nat) (line : Bytes) : Except Bytes Reading := do
  let tokens := splitWhitespace line
  let target := r.target (tokens.headD [])
  let hosts ← upsert target.2
    (fun entry => tokens.tail.foldlM (hostOption lineNumber) (r.meet target.1 target.2 entry))
    r.hosts
  return { r with hosts }

/-- A line that begins a group, or the defaults. -/
def Reading.header (r : Reading) (lineNumber : Nat) (line : Bytes) : Except Bytes Reading :=
  if line.getLast? ≠ some 93 then fail lineNumber (ascii "unterminated section header")
  else
    let section_ := trim line.tail.dropLast
    if section_ = ascii "defaults" then return { r with inDefaults := true, currentGroup := [] }
    else return { r with inDefaults := false, currentGroup := section_ }

/-- A line of the defaults. -/
def Reading.defaultLine (r : Reading) (lineNumber : Nat) (line : Bytes) : Except Bytes Reading :=
  match cut equals line with
  | none => fail lineNumber (ascii "expected key = value in [defaults]")
  | some (left, right) =>
    let key := trim left
    let value := trim right
    if key = ascii "user" then return { r with defaultUser := value }
    else if key = ascii "identity" then return { r with defaultIdentity := value }
    else if key = ascii "port" then do
      let port ← parsePort value lineNumber
      return { r with defaultPort := port, defaultPortSet := true }
    else fail lineNumber (ascii "unknown default '" ++ key ++ ascii "'")

/-- One turn of the loop of `parse`. -/
def Reading.line (r : Reading) (lineNumber : Nat) (rawLine : Bytes) : Except Bytes Reading :=
  let line := trim (stripComment rawLine)
  if line = [] then return r
  else if line.head? = some 91 then r.header lineNumber line
  else if r.inDefaults then r.defaultLine lineNumber line
  else if r.currentGroup = [] then
    fail lineNumber (ascii "host '" ++ line ++ ascii "' appears before any [group]")
  else r.hostLine lineNumber line

/-- The lines are read one after the other, and the first bad one stops the reader. -/
def Reading.lines (r : Reading) (lineNumber : Nat) : List Bytes → Except Bytes Reading
  | [] => return r
  | rawLine :: rawLines => do
    let r ← r.line lineNumber rawLine
    r.lines (lineNumber + 1) rawLines

/-- The text of an inventory is read. -/
def parse (iniText : Bytes) (sourcePath : Bytes) : Except Bytes Inventory := do
  let r ← ({} : Reading).lines 1 (iniText.splitOn newline)
  return { hosts := r.hosts, sourcePath }

/-! ## Writing -/

/-- The groups, in the order in which they first come. -/
def Inventory.groups (inventory : Inventory) : List Bytes :=
  inventory.hosts.foldl (fun out host => host.groups.foldl addUnique out) []

/-- The line of a host. -/
def hostText (entry : Host) : Bytes :=
  (if entry.user ≠ [] then entry.user ++ [sign] else []) ++ entry.host ++
    ascii " transport=" ++ entry.transport ++
    (if entry.port ≠ 22 then ascii " port=" ++ natural entry.port else []) ++
    (if entry.identity ≠ [] then ascii " identity=" ++ entry.identity else []) ++
    (if entry.tags ≠ [] then ascii " tag=" ++ join entry.tags else []) ++
    (if entry.san ≠ [] then ascii " san=" ++ entry.san else []) ++
    (if entry.nativePort ≠ 0 then ascii " native_port=" ++ natural entry.nativePort else [])

/-- A group: its header and the lines of its hosts. -/
def groupText (hosts : List Host) (group : Bytes) : Bytes :=
  ascii "[" ++ group ++ ascii "]\n" ++
    (hosts.filter fun entry => group ∈ entry.groups).flatMap fun entry =>
    hostText entry ++ [newline]

/-- The text of an inventory, group by group. -/
def Inventory.serialize (inventory : Inventory) : Bytes :=
  match inventory.groups with
  | [] => []
  | group :: groups =>
    groupText inventory.hosts group ++
      groups.flatMap fun group => newline :: groupText inventory.hosts group

end psx.inventory
