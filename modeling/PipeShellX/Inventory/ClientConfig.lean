-- The legacy list of clients: its own loader (client_config.cpp), which reads `user@host` entries
-- and ssh URLs, and the import into an inventory (inventory.cpp), which rewrites each entry as a
-- host line.
import PipeShellX.Inventory.Inventory
import Mathlib.Algebra.GroupWithZero.Nat

namespace psx.inventory

open Text (ascii getlines)
open Scan (strip cut)
open Decimal (isDigit natural)

/-! ## The import -/

/-- The last `c` of a text, with what stands before and behind it. -/
def cutLast (c : UInt8) (s : Bytes) : Option (Bytes × Bytes) :=
  (cut c s.reverse).map fun r => (r.2.reverse, r.1.reverse)

/-- The parameters of a URL that hold a secret. -/
def isSecret (key : Bytes) : Bool :=
  key = ascii "password" || key = ascii "pass" || key = ascii "secret" || key = ascii "token"

/-- One turn of the loop over the parameters of a URL: the keys so far, and the host line. -/
def importParameter (lineNumber : Nat) (done : List Bytes × Bytes) (parameter : Bytes) :
    Except Bytes (List Bytes × Bytes) :=
  match cut equals parameter with
  | none => fail lineNumber (ascii "invalid SSH URL query parameter")
  | some (key, value) =>
    if key = [] ∨ value = [] then fail lineNumber (ascii "invalid SSH URL query parameter")
    else if isSecret key then return done
    else
      let key := if key = ascii "key" then ascii "identity" else key
      if key ≠ ascii "identity" ∧ key ≠ ascii "san" ∧ key ≠ ascii "native_port" then
        fail lineNumber (ascii "unsupported SSH URL query parameter '" ++ key ++ ascii "'")
      else if key ∈ done.1 then
        fail lineNumber (ascii "duplicate SSH URL query parameter '" ++ key ++ ascii "'")
      else return (done.1 ++ [key], done.2 ++ ascii " " ++ key ++ [equals] ++ value)

/-- A colon stands before the first `@`. -/
def hasPassword (s : Bytes) : Bool :=
  match cut sign s with
  | some (user, _) => colon ∈ user
  | none => false

/-- The host line of an entry. -/
def normalize (lineNumber : Nat) (line : Bytes) : Except Bytes Bytes :=
  if (ascii "ssh://").isPrefixOf line then do
    let split := (cut 63 (line.drop 6)).getD (line.drop 6, [])
    if hasPassword split.1 then
      fail lineNumber (ascii "embedded user:password credentials are not allowed")
    else do
      let target :=
        match cutLast colon split.1 with
        | some (before, port) =>
          if sign ∉ split.1 ∨ sign ∈ before then before ++ ascii " port=" ++ port else split.1
        | none => split.1
      let done ← (getlines 38 split.2).foldlM (importParameter lineNumber) ([], target)
      return done.2
  else if hasPassword line then
    fail lineNumber (ascii "embedded user:password credentials are not allowed")
  else return line

/-- One turn of the loop of `importClientsTxt`: the hosts and the INI text so far. -/
def importLine (lineNumber : Nat) (done : List Bytes × Bytes) (raw : Bytes) :
    Except Bytes (List Bytes × Bytes) :=
  let line := trim raw
  if line = [] ∨ line.head? = some 35 then return done
  else do
    let normalized ← normalize lineNumber line
    let single ← parse (ascii "[all]\n" ++ normalized ++ [newline]) []
    match single.hosts with
    | [host] =>
      if host.name ∈ done.1 then
        fail lineNumber (ascii "duplicate host '" ++ host.name ++ ascii "'")
      else return (done.1 ++ [host.name], done.2 ++ normalized ++ [newline])
    | _ => fail lineNumber (ascii "expected exactly one legacy host entry")

/-- The lines of a legacy list, each turned into a line of an inventory. -/
def importLines (lineNumber : Nat) (done : List Bytes × Bytes) :
    List Bytes → Except Bytes (List Bytes × Bytes)
  | [] => return done
  | raw :: raws => do
    let done ← importLine lineNumber done raw
    importLines (lineNumber + 1) done raws

/-- A legacy list is read as the inventory that its lines are turned into. -/
def importClientsTxt (text sourcePath : Bytes) : Except Bytes Inventory := do
  let done ← importLines 1 ([], ascii "[all]\n") (text.splitOn newline)
  parse done.2 sourcePath

end psx.inventory

namespace psx

open Text (ascii getlines)
open Scan (strip cut)
open Decimal (isDigit natural)
open psx.inventory (newline sign equals colon)

/-- A client of a legacy list. -/
structure ClientEntry where
  raw : Bytes := []
  user : Bytes
  host : Bytes
  port : Nat := 22
  identityFile : Bytes := []
  password : Bytes := []
  knownHostsFile : Bytes := []
  expectedSan : Bytes := []
  nativePort : Nat := 0
  transport : Bytes := ascii "ssh"
  deriving DecidableEq

namespace ClientEntry

/-- What `ssh` is given: the host, behind the user if there is one. -/
def sshTarget (entry : ClientEntry) : Bytes :=
  if entry.user = [] then entry.host else entry.user ++ [sign] ++ entry.host

/-- The target, with the port unless it is 22. -/
def clientId (entry : ClientEntry) : Bytes :=
  if entry.port = 22 then entry.sshTarget else entry.sshTarget ++ [colon] ++ natural entry.port

/-- The parameters that are not at their defaults. -/
def queryParameters (entry : ClientEntry) : List Bytes :=
  (if entry.identityFile ≠ [] then [ascii "identity=" ++ entry.identityFile] else []) ++
    (if entry.expectedSan ≠ [] then [ascii "san=" ++ entry.expectedSan] else []) ++
    (if entry.nativePort ≠ 0 then [ascii "native_port=" ++ natural entry.nativePort] else [])

/-- The line of a client: a bare one if it says everything, and a URL otherwise. -/
def serialize (entry : ClientEntry) : Bytes :=
  if entry.port = 22 ∧ entry.identityFile = [] ∧ entry.expectedSan = [] ∧ entry.nativePort = 0 then
    entry.user ++ [sign] ++ entry.host
  else
    ascii "ssh://" ++ entry.user ++ [sign] ++ entry.host ++
      (if entry.port ≠ 22 then colon :: natural entry.port else []) ++
      match entry.queryParameters with
      | [] => []
      | parameter :: parameters =>
        ascii "?" ++ parameter ++ parameters.flatMap fun parameter => ascii "&" ++ parameter

end ClientEntry

namespace ClientConfig

/-! ## The loader -/

/-- `std::isspace`. -/
def isSpace (b : UInt8) : Bool := b = 32 || (9 ≤ b && b ≤ 13)

theorem isSpace_iff (c : UInt8) : isSpace c = true ↔
    c = 32 ∨ c = 9 ∨ c = 10 ∨ c = 11 ∨ c = 12 ∨ c = 13 := by
  unfold isSpace
  grind

/-- What the import trims is white space, and only the vertical tab and the form feed are white
space that it leaves. -/
theorem isSpace_of_isTrimmed {c : UInt8} (h : inventory.isTrimmed c = true) : isSpace c = true := by
  unfold inventory.isTrimmed at h
  rw [isSpace_iff]
  grind

/-- `std::isalnum`. -/
def isAlnum (b : UInt8) : Bool := isDigit b || (65 ≤ b && b ≤ 90) || (97 ≤ b && b ≤ 122)

def trim (value : Bytes) : Bytes := strip isSpace value

/-- Letters and digits, and `_`, `-` and `.`. -/
def isValidUserChar (c : UInt8) : Bool := isAlnum c || c = 95 || c = 45 || c = 46

/-- What a host may be made of. -/
def isValidHostChar (c : UInt8) : Bool := isAlnum c || c = 46 || c = 45 || c = 95

/-- `/` and `~` as well. -/
def isValidPathChar (c : UInt8) : Bool :=
  isAlnum c || c = 47 || c = 95 || c = 45 || c = 46 || c = 126

/-- `:` as well. -/
def isValidSanChar (c : UInt8) : Bool :=
  isAlnum c || c = 58 || c = 47 || c = 46 || c = 45 || c = 95 || c = 126

/-- The two parts beside the first separator; the second is empty without one. -/
def splitOnce (value : Bytes) (separator : UInt8) : Bytes × Bytes :=
  (cut separator value).getD (value, [])

/-- A bare line, `user@host`. -/
def parseLegacyEntry (trimmed : Bytes) : Except Bytes ClientEntry :=
  match cut sign trimmed with
  | none => .error (ascii "entry must be in the form user@host")
  | some (user, host) =>
    if user = [] ∨ host = [] then .error (ascii "entry must be in the form user@host")
    else if sign ∈ host then .error (ascii "entry contains multiple '@' separators")
    else return { user, host }

/-- `std::stoul`: blanks and a sign may stand in front of the digits, a minus is taken modulo the
word, and what does not fit the word is refused. The number comes with the bytes that it took. -/
def stoul (value : Bytes) : Option (Nat × Nat) :=
  let spaces := value.takeWhile isSpace
  let rest := value.dropWhile isSpace
  let signed := rest.head? = some 43 ∨ rest.head? = some 45
  let digits := (if signed then rest.tail else rest).takeWhile isDigit
  if digits = [] ∨ 2 ^ 64 ≤ Decimal.value digits then none
  else some
    (if rest.head? = some 45 then (2 ^ 64 - Decimal.value digits) % 2 ^ 64
      else Decimal.value digits,
      spaces.length + (if signed then 1 else 0) + digits.length)

/-- A port number that is the whole text. -/
def stoulPort (value : Bytes) : Option Nat :=
  match stoul value with
  | none => none
  | some (port, consumed) =>
    if consumed ≠ value.length ∨ port = 0 ∨ 65535 < port then none else some port

/-- One turn of the loop over the parameters of a URL. -/
def parseParameter (entry : ClientEntry) (parameter : Bytes) : Except Bytes ClientEntry :=
  let (key, value) := splitOnce parameter equals
  if key = [] then .error (ascii "unsupported SSH URL query parameter")
  else if key = ascii "identity" ∨ key = ascii "key" then
    if value = [] then .error (ascii "identity file path is empty")
    else if ¬ value.all isValidPathChar then
      .error (ascii "identity file contains invalid characters")
    else return { entry with identityFile := value }
  else if key = ascii "san" then
    if value = [] then .error (ascii "san is empty")
    else if ¬ value.all isValidSanChar then .error (ascii "san contains invalid characters")
    else return { entry with expectedSan := value }
  else if key = ascii "native_port" then
    match stoulPort value with
    | none => .error (ascii "invalid native_port")
    | some nativePort => return { entry with nativePort }
  else if key = ascii "password" then
    .error (ascii "passwords are not allowed in client configuration; use interactive prompt")
  else .error (ascii "unsupported SSH URL query parameter")

/-- The port part of a URL; an empty one leaves the default. -/
def parsePortPart (entry : ClientEntry) (portPart : Bytes) : Except Bytes ClientEntry :=
  if portPart = [] then return entry
  else
    match stoulPort portPart with
    | none => .error (ascii "invalid port")
    | some port => return { entry with port }

/-- A line that is a URL. -/
def parseUrlEntry (trimmed : Bytes) : Except Bytes ClientEntry :=
  if ¬ (ascii "ssh://").isPrefixOf trimmed then .error (ascii "unsupported URL scheme")
  else do
    let (authority, query) := splitOnce (trimmed.drop 6) 63
    let entry ← parseLegacyEntry authority
    let (hostPart, portPart) := splitOnce entry.host colon
    let entry ← parsePortPart { entry with host := hostPart } portPart
    if query = [] then return entry
    else (query.splitOn 38).foldlM parseParameter entry

/-- The checks that both kinds of lines go through. -/
def validateEntryFields (entry : ClientEntry) : Except Bytes Unit :=
  if entry.user = [] ∨ entry.host = [] then
    .error (ascii "entry must include both user and host")
  else if ¬ entry.user.all isValidUserChar then .error (ascii "user contains invalid characters")
  else if ¬ entry.host.all isValidHostChar then .error (ascii "host contains invalid characters")
  else if entry.host.head? = some 46 ∨ entry.host.getLast? = some 46 ∨ entry.host.head? = some 45 ∨
      entry.host.getLast? = some 45 then
    .error (ascii "host has an invalid boundary character")
  else return ()

/-- A line of a client list. -/
def parseEntry (line : Bytes) : Except Bytes ClientEntry :=
  let trimmed := trim line
  if trimmed = [] then .error (ascii "entry is empty")
  else do
    let entry ←
      if (ascii "ssh://").isPrefixOf trimmed then parseUrlEntry trimmed
      else parseLegacyEntry trimmed
    validateEntryFields entry
    return { entry with raw := entry.serialize }

/-- One turn of the loop of `loadFromFile`: the clients so far. -/
def loadLine (knownHostsFile : Bytes) (lineNumber : Nat) (clients : List ClientEntry)
    (line : Bytes) : Except Bytes (List ClientEntry) :=
  let trimmed := trim line
  if trimmed = [] ∨ trimmed.head? = some 35 then return clients
  else
    match parseEntry trimmed with
    | .error what => .error (ascii "Invalid client entry at line " ++ natural lineNumber ++
        ascii ": " ++ what)
    | .ok entry =>
      if entry.clientId ∈ clients.map ClientEntry.clientId then
        .error (ascii "Duplicate client entry at line " ++ natural lineNumber ++ ascii ": " ++
          entry.clientId)
      else return clients ++ [{ entry with knownHostsFile }]

/-- The clients of the lines, unless one of the lines is refused. -/
def loadLines (knownHostsFile : Bytes) (lineNumber : Nat) (clients : List ClientEntry) :
    List Bytes → Except Bytes (List ClientEntry)
  | [] => return clients
  | line :: lines => do
    let clients ← loadLine knownHostsFile lineNumber clients line
    loadLines knownHostsFile (lineNumber + 1) clients lines

/-- What the file's text loads as, with the known hosts of its path. -/
def loadFromFile (knownHostsFile text : Bytes) : Except Bytes (List ClientEntry) :=
  loadLines knownHostsFile 1 [] (getlines newline text)

/-- What `saveToFile` writes. -/
def saveToFile (clients : List ClientEntry) : Bytes :=
  clients.flatMap fun client => client.serialize ++ [newline]

end ClientConfig

end psx
