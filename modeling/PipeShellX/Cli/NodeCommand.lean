-- The allow-list of `pipeshellx node` (node_command.cpp, node_server.cpp): from the flag to
-- the connections that the node serves. The law: a list with an item in it admits the listed
-- peers, and a list with none admits every peer that the CA signed, with a warning.
import PipeShellX.Text
import PipeShellX.Transport.NativeTransport

namespace psx.cli

open psx.os (Tls)
open psx.transport

/-- The value of a flag. `args` starts at the first flag. -/
def flag (name : String) : List String → Option String
  | option :: value :: rest => if option = name then some value else flag name (value :: rest)
  | _ => none

/-- The SAN allow-list: the items of the value that are not empty. -/
def allowList : Option String → List String
  | none => []
  | some allowCsv =>
    ((Text.getlines ',' allowCsv.toList).filter fun item => !item.isEmpty).map String.ofList

/-- What the node writes on stderr about the list. -/
def warning (allow : List String) : String :=
  if allow.isEmpty then
    "pipeshellx node: warning: no --allow list; admitting any CA-signed peer\n"
  else ""

/-- The predicate of the server. An empty list sets none. -/
def authorize (allow : List String) : Option (String → Bool) :=
  if !allow.isEmpty then some fun san => allow.contains san else none

/-- A connection that the server accepts, as `NodeServer::acceptOne` builds it. -/
def acceptOne {tls : Tls} (receiving : tls.State) (sending : tls.Sending)
    (authorize : Option (String → Bool)) (sanUri : String) : NativeTransport tls :=
  .create receiving sending authorize sanUri { interval := 2000, maxMissed := 3 }

/-- A node that was started with `args` takes bytes of the peer into a session, in some run. -/
def Admits (args : List String) (sanUri : String) : Prop :=
  ∃ (tls : Tls) (receiving : tls.State) (sending : tls.Sending) (inputs : List _) (bytes : Bytes),
    TransportEvent.receive bytes ∈ ((acceptOne receiving sending
      (authorize (allowList (flag "--allow" args))) sanUri).run inputs).log

/-- The URI is one of the nonempty items of the value that the flag has. -/
def Listed (args : List String) (sanUri : String) : Prop :=
  ∃ value, flag "--allow" args = some value ∧ sanUri.toList ≠ [] ∧
    Text.IsItem ',' value.toList sanUri.toList

theorem mem_allowList {args : List String} {sanUri : String} :
    sanUri ∈ allowList (flag "--allow" args) ↔ Listed args sanUri := by
  unfold Listed
  cases flag "--allow" args with
  | none => simp [allowList]
  | some value =>
    simp only [allowList, List.mem_map, List.mem_filter, Option.some.injEq, exists_eq_left']
    constructor
    · rintro ⟨item, ⟨hitem, hne⟩, rfl⟩
      have hne' : item ≠ [] := by simpa using hne
      rw [String.toList_ofList]
      exact ⟨hne', (Text.mem_getlines hne').mp hitem⟩
    · rintro ⟨hne, hitem⟩
      refine ⟨sanUri.toList, ⟨(Text.mem_getlines hne).mpr hitem, by simpa using hne⟩, ?_⟩
      exact String.ofList_toList

theorem allowList_empty {args : List String} :
    allowList (flag "--allow" args) = [] ↔ ∀ sanUri, ¬ Listed args sanUri := by
  rw [List.eq_nil_iff_forall_not_mem]
  exact forall_congr' fun sanUri => not_congr mem_allowList

/-- The predicate accepts the peers of the list, or there is no list to be in. -/
theorem authorize_accepts {args : List String} {sanUri : String} :
    (authorize (allowList (flag "--allow" args)) = none ∨
      (authorize (allowList (flag "--allow" args))).map (fun f => f sanUri) = some true) ↔
    Listed args sanUri ∨ ∀ other, ¬ Listed args other := by
  rw [← mem_allowList, ← allowList_empty]
  unfold authorize
  by_cases hempty : allowList (flag "--allow" args) = []
  · simp [hempty]
  · simp [hempty]

/-- A connection in the clear, for a run: a record comes with the end of the handshake. -/
def clearConnection (authorize : Option (String → Bool)) (sanUri : String) :
    NativeTransport TlsStream.clearTls := acceptOne () () authorize sanUri

def earlyData : Answers := { readable := true, reads := [.ok [1, 65]] }

/-- The connection at the end of its handshake, with the record in the engine. -/
def handshaken (authorize : Option (String → Bool)) (sanUri : String) :
    NativeTransport TlsStream.clearTls :=
  { clearConnection authorize sanUri with
    stream := { receiving := (), sending := (), encrypted := [1, 65], established := true }
    log := [.established] }

theorem accepted_receives {authorize : Option (String → Bool)} {sanUri : String}
    (h : authorize = none ∨ authorize.map (fun f => f sanUri) = some true) :
    TransportEvent.receive [65] ∈
      ((clearConnection authorize sanUri).run [.ready earlyData]).log := by
  have hready : ∃ log, (handshaken authorize sanUri).onReady earlyData =
      { handshaken authorize sanUri with heartbeatTimer := true, sawInbound := true, log } := by
    rcases h with rfl | h
    · exact ⟨_, rfl⟩
    · obtain ⟨f, rfl, hf⟩ := Option.map_eq_some_iff.mp h
      refine ⟨[.established, .authorize sanUri true, .onReady], ?_⟩
      simp [NativeTransport.onReady, NativeTransport.authorizes, NativeTransport.create, acceptOne,
        NativeTransport.note, NativeTransport.sends, NativeTransport.armHeartbeat, handshaken,
        clearConnection, earlyData, hf]
  obtain ⟨log, hready⟩ := hready
  have hdelivers : (({ handshaken authorize sanUri with
      heartbeatTimer := true, sawInbound := true, log }).deliverAppData earlyData).log =
      log ++ [.receive [65]] := rfl
  have hevent : ((clearConnection authorize sanUri).run [.ready earlyData]).log =
      (((handshaken authorize sanUri).onReady earlyData).deliverAppData earlyData).log := by
    have honly : (clearConnection authorize sanUri).onEvent earlyData =
        (clearConnection authorize sanUri).onReadable earlyData := by
      simp [NativeTransport.onEvent, earlyData, clearConnection, acceptOne, NativeTransport.create]
    change ((clearConnection authorize sanUri).onEvent earlyData).log = _
    rw [honly]
    rfl
  rw [hevent, hready, hdelivers]
  simp

/-- A peer is admitted only if its URI is one of the nonempty items of the flag, when there are
any. A value without one (it is empty, or only commas) builds an empty list, and that means what
no flag means: every peer that the CA signed is admitted, and the node warns of it. -/
theorem admits_iff (args : List String) (sanUri : String) :
    (Admits args sanUri ↔ Listed args sanUri ∨ ∀ other, ¬ Listed args other) ∧
    (warning (allowList (flag "--allow" args)) ≠ "" ↔ ∀ other, ¬ Listed args other) := by
  refine ⟨⟨?_, ?_⟩, ?_⟩
  · rintro ⟨tls, receiving, sending, inputs, bytes, hreceive⟩
    have hlawful := NativeTransport.no_frame_before_authorization receiving sending
      (authorize (allowList (flag "--allow" args))) sanUri
        { interval := 2000, maxMissed := 3 } inputs
    obtain ⟨pre, post, hlog⟩ := List.append_of_mem hreceive
    obtain ⟨-, haccepted, -⟩ := hlawful pre _ post hlog
    rw [← authorize_accepts]
    refine haccepted.imp_right fun hauthorize => ?_
    obtain ⟨before, after, rfl⟩ := List.append_of_mem hauthorize
    have hcalled := hlawful before (.authorize sanUri true) (after ++ .receive bytes :: post)
      (hlog.trans (by simp))
    exact hcalled.2.2
  · intro h
    exact ⟨TlsStream.clearTls, (), (), _, [65], accepted_receives (authorize_accepts.mpr h)⟩
  · rw [← allowList_empty]
    unfold warning
    split_ifs with hempty
    · simp [List.isEmpty_iff.mp hempty]
    · simpa using hempty

/-- A list of allowed identities without an identity in it. -/
def onlyCommas : List String :=
  ["--cert", "node.crt", "--key", "node.key", "--ca", "ca.crt", "--listen", "0.0.0.0:7433",
    "--allow", ",,"]

theorem commas_admit_a_peer_that_is_not_listed :
    flag "--allow" onlyCommas = some ",," ∧ Admits onlyCommas "spiffe://psx/node/other" ∧
      ¬ Listed onlyCommas "spiffe://psx/node/other" := by
  have hflag : flag "--allow" onlyCommas = some ",," := by decide
  have hempty : allowList (flag "--allow" onlyCommas) = [] := by
    rw [hflag]
    decide
  have hnone := allowList_empty.mp hempty
  refine ⟨hflag, ?_, hnone _⟩
  exact ⟨TlsStream.clearTls, (), (), _, [65],
    accepted_receives (authorize_accepts.mpr (Or.inr hnone))⟩

end psx.cli
