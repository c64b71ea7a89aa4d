-- The interactive list of clients (client_manager.cpp): clients are added, removed and checked, and
-- each change is saved to the client file. What the file and the check of a new client answer is an
-- input of the call.
import PipeShellX.Inventory.ClientConfig
import Mathlib.Data.List.Infix

namespace psx

open Text (ascii)
open Decimal (natural)

/-- What is known of the connection to a client. -/
inductive ClientStatus
  | UNKNOWN
  | ONLINE
  | OFFLINE
  deriving DecidableEq, Repr

/-- A client as the caller sees it. -/
structure Client where
  id : Nat
  sshUrl : Bytes
  password : Bytes
  online : Bool
  deriving DecidableEq

/-- A client with the entry it was made from and with its status. -/
structure ManagedClient where
  client : Client
  entry : ClientEntry
  status : ClientStatus := .UNKNOWN
  lastError : Bytes := []
  persistPassword : Bool := true
  deriving DecidableEq

/-- The list of the clients, with the file that it is kept in. -/
structure ClientManager where
  configPath : Bytes
  /-- `knownHostsPathFor(configPath_)`, as long as the working directory stays. -/
  knownHostsFile : Bytes
  clients : List ManagedClient := []
  nextClientId : Nat := 1
  deriving DecidableEq

/-- What the check of a client found: whether it is connected, and what went wrong if it is not. -/
structure Verdict where
  connected : Bool
  error : Bytes

namespace ManagedClient

/-- The names that a client goes by. -/
def matchesIdentifier (client : ManagedClient) (identifier : Bytes) : Bool :=
  identifier = natural client.client.id || identifier = client.entry.clientId ||
    identifier = client.client.sshUrl || identifier = client.entry.sshTarget ||
    identifier = client.entry.host || identifier = client.entry.raw

/-- What `save` writes of a client. -/
def persisted (client : ManagedClient) : ClientEntry :=
  if client.persistPassword then client.entry
  else { client.entry with password := [], raw := client.entry.serialize }

/-- The status after an attempt to connect. -/
def verifyClientConnectivity (client : ManagedClient) (verdict : Verdict) : ManagedClient :=
  { client with
    status := if verdict.connected then .ONLINE else .OFFLINE
    client.online := verdict.connected
    client.sshUrl := client.entry.serialize
    client.password := client.entry.password
    lastError := if verdict.connected then [] else verdict.error }

/-- The status that a caller reports. -/
def updateStatus (status : ClientStatus) (errorMessage : Bytes) (client : ManagedClient) :
    ManagedClient :=
  { client with
    status
    client.online := status = .ONLINE
    client.sshUrl := client.entry.serialize
    client.password := client.entry.password
    lastError := errorMessage }

/-- The status before any attempt. -/
def resetStatus (client : ManagedClient) : ManagedClient :=
  { client with status := .UNKNOWN, client.online := false, lastError := [] }

end ManagedClient

namespace ClientManager

/-- The place of the first client that an identifier matches. -/
def findClient (m : ClientManager) (identifier : Bytes) : Option Nat :=
  m.clients.findIdx? fun client => client.matchesIdentifier identifier

/-- Where the client with an id stands. -/
def findClientId (m : ClientManager) (id : Int) : Option Nat :=
  m.clients.findIdx? fun client => client.client.id = id

/-- What is written to the file. -/
def entries (m : ClientManager) : List ClientEntry := m.clients.map ManagedClient.entry

/-- A client of the file, with the id that is next. -/
def loaded (id : Nat) (entry : ClientEntry) : ManagedClient where
  client := { id, sshUrl := entry.serialize, password := entry.password, online := false }
  entry

/-- The loop of `load`, with the id that is next. -/
def numbered (id : Nat) : List ClientEntry → List ManagedClient
  | [] => []
  | entry :: entries => loaded id entry :: numbered (id + 1) entries

/-- The message for a file that cannot be opened. -/
def openFailed : Bytes := ascii "Failed to open client configuration file"

/-- The file that is read, unless it cannot be opened. -/
def readFile (m : ClientManager) (text : Option Bytes) : Except Bytes (List ClientEntry) :=
  match text with
  | none => .error (openFailed ++ ascii ": " ++ m.configPath)
  | some text => ClientConfig.loadFromFile m.knownHostsFile text

/-- The list that the manager holds after the call is the one that the file holds. -/
def load (m : ClientManager) (text : Option Bytes) :
    ClientManager × Except Bytes (List ClientEntry) :=
  match m.readFile text with
  | .error what =>
    if m.configPath = ascii "clients.txt" ∧ openFailed <:+: what then
      ({ m with clients := [] }, .ok [])
    else (m, .error what)
  | .ok entries =>
    ({ m with
        clients := numbered 1 entries
        nextClientId := 1 + entries.length }, .ok entries)

/-- The list that is saved, unless the file cannot be opened. -/
def save (m : ClientManager) (opens : Bool) : Except Bytes (List ClientEntry) :=
  if opens then .ok (m.clients.map ManagedClient.persisted)
  else .error (ascii "Failed to write client configuration file: " ++ m.configPath)

/-- The entry of a client that is added by hand. -/
def makeEntry (m : ClientManager) (specification : Bytes) : Except Bytes ClientEntry := do
  let entry ← ClientConfig.parseEntry specification
  if m.configPath ≠ [] then return { entry with knownHostsFile := m.knownHostsFile }
  else return entry

/-- A client that is being added. -/
def fresh (m : ClientManager) (entry : ClientEntry) : ManagedClient where
  client :=
    { id := m.nextClientId, sshUrl := entry.serialize, password := entry.password, online := false }
  entry
  persistPassword := false

/-- The client leaves the list again when its check or the save throws. -/
def addClient (m : ClientManager) (specification : Bytes) (password : Option Bytes)
    (verify : Except Bytes Verdict) (opens : Bool) :
    ClientManager × Except Bytes (List ClientEntry) :=
  match m.makeEntry specification with
  | .error what => (m, .error what)
  | .ok entry =>
    let entry := { entry with password := password.getD entry.password }
    if (m.findClient entry.clientId).isSome then
      (m, .error (ascii "Client already exists: " ++ entry.clientId))
    else
      let client := m.fresh entry
      let m := { m with nextClientId := m.nextClientId + 1 }
      match verify with
      | .error what => (m, .error what)
      | .ok verdict =>
        let added := { m with clients := m.clients ++ [client.verifyClientConnectivity verdict] }
        match added.save opens with
        | .error what => (m, .error what)
        | .ok entries => (added, .ok entries)

/-- The client at a place leaves the list, and then the list is saved. -/
def removeAt (m : ClientManager) (index : Nat) (opens : Bool) :
    ClientManager × Except Bytes (List ClientEntry) :=
  let m := { m with clients := m.clients.eraseIdx index }
  (m, m.save opens)

end ClientManager

/-! ## The calls -/

/-- A call of the manager, with what the file and the check answer. -/
inductive ManagerCall
  | load (text : Option Bytes)
  | addClient (specification : Bytes) (password : Option Bytes) (verify : Except Bytes Verdict)
      (opens : Bool)
  | removeClient (identifier : Bytes) (opens : Bool)
  | removeClientId (id : Int) (opens : Bool)
  | updateClientStatus (identifier : Bytes) (status : ClientStatus) (errorMessage : Bytes)
  | updateClientStatusId (id : Int) (status : ClientStatus) (errorMessage : Bytes)
  | resetStatuses

/-- How a call ends: it throws, or it returns and the file may hold a new list. -/
abbrev Outcome := Except Bytes (Option (List ClientEntry))

namespace ClientManager

/-- A removal, when something is found. -/
def remove (m : ClientManager) (found : Option Nat) (opens : Bool) : ClientManager × Outcome :=
  match found with
  | none => (m, .ok none)
  | some index => ((m.removeAt index opens).1, (m.removeAt index opens).2.map some)

/-- A new status, when something is found. -/
def update (m : ClientManager) (found : Option Nat) (status : ClientStatus)
    (errorMessage unknown : Bytes) :
    ClientManager × Outcome :=
  match found with
  | none => (m, .error unknown)
  | some index =>
    ({ m with clients := m.clients.modify index (ManagedClient.updateStatus status errorMessage) },
      .ok none)

/-- One call, with what it returns or throws. -/
def perform (m : ClientManager) : ManagerCall → ClientManager × Outcome
  | .load text => ((m.load text).1, (m.load text).2.map some)
  | .addClient specification password verify opens =>
    let r := m.addClient specification password verify opens
    (r.1, r.2.map some)
  | .removeClient identifier opens => m.remove (m.findClient identifier) opens
  | .removeClientId id opens => m.remove (m.findClientId id) opens
  | .updateClientStatus identifier status errorMessage =>
    m.update (m.findClient identifier) status errorMessage (ascii "Unknown client: " ++ identifier)
  | .updateClientStatusId id status errorMessage =>
    m.update (m.findClientId id) status errorMessage
      (ascii "Unknown client id: " ++ Decimal.integer id)
  | .resetStatuses =>
    ({ m with clients := m.clients.map ManagedClient.resetStatus }, .ok none)

/-- A manager at its construction. -/
def create (configPath knownHostsFile : Bytes) : ClientManager := { configPath, knownHostsFile }

/-- The list after a series of calls. -/
def run (m : ClientManager) (calls : List ManagerCall) : ClientManager :=
  calls.foldl (fun m call => (m.perform call).1) m

end ClientManager

end psx
