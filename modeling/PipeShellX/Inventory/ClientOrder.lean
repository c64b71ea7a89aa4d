-- The order in which clients are added. The test for a client that exists looks up the new id among
-- six spellings of each client, and one of them, the user and the host without the port, is the id
-- of another client.
import PipeShellX.Inventory.ClientManager
import PipeShellX.Inventory.ClientRoundTrip
import Mathlib.Data.List.Forall2
import Mathlib.Data.List.Nodup

namespace psx

open Text (ascii)
open Decimal (natural)
open psx.inventory (sign colon)
open ClientConfig

/-! ## The clients of a manager -/

/-- An entry that was read, with a password and the known hosts of the manager. -/
def IsEntry (entry : ClientEntry) : Prop :=
  ∃ read password knownHostsFile, Sound read ∧
    entry = { read with raw := read.serialize, password, knownHostsFile }

/-- A client as the calls of a manager make it. -/
structure Made (client : ManagedClient) : Prop where
  entry : IsEntry client.entry
  sshUrl : client.client.sshUrl = client.entry.serialize

namespace IsEntry

variable {entry : ClientEntry}

theorem user (h : IsEntry entry) : entry.user ≠ [] := by
  obtain ⟨read, password, knownHostsFile, hsound, rfl⟩ := h
  exact hsound.user.1

theorem not_mem_user (h : IsEntry entry) {c : UInt8} (hc : isValidUserChar c = false) :
    c ∉ entry.user := by
  obtain ⟨read, password, knownHostsFile, hsound, rfl⟩ := h
  exact hsound.not_mem_user hc

theorem not_mem_host (h : IsEntry entry) {c : UInt8} (hc : isValidHostChar c = false) :
    c ∉ entry.host := by
  obtain ⟨read, password, knownHostsFile, hsound, rfl⟩ := h
  exact hsound.not_mem_host hc

theorem raw (h : IsEntry entry) : entry.raw = entry.serialize := by
  obtain ⟨read, password, knownHostsFile, hsound, rfl⟩ := h
  rfl

theorem sshTarget (h : IsEntry entry) : entry.sshTarget = entry.user ++ sign :: entry.host := by
  unfold ClientEntry.sshTarget
  rw [if_neg h.user, List.append_assoc, List.singleton_append]

/-- The id starts with the user, the sign and the host. -/
theorem clientId (h : IsEntry entry) :
    ∃ behind, entry.clientId = entry.user ++ sign :: (entry.host ++ behind) := by
  unfold ClientEntry.clientId
  rw [h.sshTarget]
  split_ifs
  · exact ⟨[], by rw [List.append_nil]⟩
  · exact ⟨colon :: natural entry.port, by simp⟩

theorem colon_not_mem (h : IsEntry entry) : colon ∉ entry.sshTarget := by
  rw [h.sshTarget, List.mem_append, List.mem_cons]
  rintro (huser | hsign | hhost)
  · exact h.not_mem_user (by decide) huser
  · exact absurd hsign (by decide)
  · exact h.not_mem_host (by decide) hhost

end IsEntry

/-- The id of `entry` is one of the two spellings of `other` that an id can be. -/
def Clash (entry other : ClientEntry) : Prop :=
  entry.clientId = other.clientId ∨ entry.clientId = other.sshTarget

/-- An id that is the text of another entry is its user and host. -/
theorem sshTarget_of_serialize {entry other : ClientEntry} (h : IsEntry entry)
    (hother : IsEntry other)
    (heq : entry.clientId = other.serialize) : entry.clientId = other.sshTarget := by
  by_cases hlegacy : other.port = 22 ∧ other.identityFile = [] ∧ other.expectedSan = [] ∧
      other.nativePort = 0
  · unfold ClientEntry.serialize at heq
    rw [if_pos hlegacy] at heq
    rw [heq, hother.sshTarget, List.append_assoc, List.singleton_append]
  · obtain ⟨behind, hid⟩ := h.clientId
    have hscheme : sign ∉ ascii "ssh://" ++ other.user := by
      rw [List.mem_append, not_or]
      exact ⟨by decide, hother.not_mem_user (by decide)⟩
    rw [serialize_url hlegacy, authority, hid, List.append_assoc, List.cons_append,
      ← List.append_assoc (ascii "ssh://")] at heq
    -- the part in front of the sign is a user on one side, and holds the scheme on the other
    have hcut := congrArg (Scan.cut sign) heq
    rw [Scan.cut_append (h.not_mem_user (by decide)), Scan.cut_append hscheme] at hcut
    have huser := congrArg Prod.fst (Option.some.inj hcut)
    refine absurd ?_ (h.not_mem_user (c := colon) (by decide))
    rw [show entry.user = _ from huser]
    exact List.mem_append_left _ (by decide)

theorem matchesIdentifier_iff {client : ManagedClient} (h : Made client) {entry : ClientEntry}
    (hentry : IsEntry entry) :
    client.matchesIdentifier entry.clientId = true ↔ Clash entry client.entry := by
  obtain ⟨behind, hid⟩ := hentry.clientId
  have hsign : sign ∈ entry.clientId := by
    rw [hid]
    simp
  have hnumber : entry.clientId ≠ natural client.client.id := by
    intro heq
    rw [heq] at hsign
    exact absurd (Decimal.isDigit_natural hsign) (by decide)
  have hhost : entry.clientId ≠ client.entry.host := by
    intro heq
    rw [heq] at hsign
    exact h.entry.not_mem_host (by decide) hsign
  unfold ManagedClient.matchesIdentifier Clash
  rw [h.sshUrl, h.entry.raw]
  simp only [Bool.or_eq_true, decide_eq_true_eq]
  constructor
  · rintro (((((hnone | hid) | htext) | htarget) | hnone) | htext)
    · exact absurd hnone hnumber
    · exact Or.inl hid
    · exact Or.inr (sshTarget_of_serialize hentry h.entry htext)
    · exact Or.inr htarget
    · exact absurd hnone hhost
    · exact Or.inr (sshTarget_of_serialize hentry h.entry htext)
  · rintro (hid | htarget)
    · simp [hid]
    · simp [htarget]

/-- Two ids of their own clash when one is the user and the host of the other. -/
theorem clash_iff {entry other : ClientEntry} (hother : IsEntry other)
    (hne : entry.clientId ≠ other.clientId) :
    Clash entry other ↔ entry.port = 22 ∧ other.sshTarget = entry.sshTarget := by
  constructor
  · rintro (hid | htarget)
    · exact absurd hid hne
    · by_cases hport : entry.port = 22
      · refine ⟨hport, ?_⟩
        rw [← htarget]
        exact if_pos hport
      · -- with a port the id holds a colon, and no user and no host does
        refine absurd ?_ hother.colon_not_mem
        rw [← htarget]
        unfold ClientEntry.clientId
        rw [if_neg hport]
        simp
  · rintro ⟨hport, htarget⟩
    right
    rw [htarget]
    exact if_pos hport

/-! ## Every state -/

namespace ClientManager

theorem isEntry_of_isClient {knownHostsFile : Bytes} {entry : ClientEntry}
    (h : IsClient knownHostsFile entry) : IsEntry entry := by
  obtain ⟨read, hsound, rfl⟩ := h
  exact ⟨read, read.password, knownHostsFile, hsound, rfl⟩

theorem isList_loadFromFile {knownHostsFile text : Bytes} {entries : List ClientEntry}
    (h : loadFromFile knownHostsFile text = .ok entries) : IsList knownHostsFile entries := by
  have hnone : IsList knownHostsFile [] := ⟨nofun, List.nodup_nil⟩
  exact hnone.lines h

theorem isEntry_readFile {m : ClientManager} {text : Option Bytes} {entries : List ClientEntry}
    (h : m.readFile text = .ok entries) : ∀ entry ∈ entries, IsEntry entry := by
  cases text with
  | none => cases h
  | some text => exact fun entry hin =>
    isEntry_of_isClient ((isList_loadFromFile h).sound entry hin)

theorem made_numbered {entries : List ClientEntry} (h : ∀ entry ∈ entries, IsEntry entry)
    (id : Nat) :
    ∀ client ∈ numbered id entries, Made client := by
  induction entries generalizing id with
  | nil => exact nofun
  | cons entry entries ih =>
    rw [List.forall_mem_cons] at h
    exact List.forall_mem_cons.mpr ⟨⟨h.1, rfl⟩, ih h.2 (id + 1)⟩

theorem isEntry_makeEntry {m : ClientManager} {specification : Bytes} {entry : ClientEntry}
    (h : m.makeEntry specification = .ok entry) (password : Bytes) :
    IsEntry { entry with password } := by
  obtain ⟨read, hread, h⟩ := bind_ok.mp h
  obtain ⟨sound, hsound, rfl⟩ := parseEntry_sound hread
  split_ifs at h
  · obtain rfl := pure_ok.mp h
    exact ⟨sound, password, m.knownHostsFile, hsound, rfl⟩
  · obtain rfl := pure_ok.mp h
    exact ⟨sound, password, sound.knownHostsFile, hsound, rfl⟩

theorem made_load {m : ClientManager} (h : ∀ client ∈ m.clients, Made client)
    (text : Option Bytes) :
    ∀ client ∈ (m.load text).1.clients, Made client := by
  unfold load
  split
  · split_ifs
    · exact nofun
    · exact h
  · rename_i entries hread
    exact made_numbered (isEntry_readFile hread) 1

theorem made_addClient {m : ClientManager} (h : ∀ client ∈ m.clients, Made client)
    (specification : Bytes) (password : Option Bytes) (verify : Except Bytes Verdict)
    (opens : Bool) :
    ∀ client ∈ (m.addClient specification password verify opens).1.clients, Made client := by
  unfold addClient
  split
  · exact h
  · rename_i entry hentry
    dsimp only
    split_ifs
    · exact h
    · split
      · exact h
      · split
        · exact h
        · refine List.forall_mem_append.mpr ⟨h, List.forall_mem_singleton.mpr ?_⟩
          exact ⟨isEntry_makeEntry hentry _, rfl⟩

theorem made_remove {m : ClientManager} (h : ∀ client ∈ m.clients, Made client) (found : Option Nat)
    (opens : Bool) : ∀ client ∈ (m.remove found opens).1.clients, Made client := by
  cases found with
  | none => exact h
  | some index => exact fun client hin => h client (List.mem_of_mem_eraseIdx hin)

theorem made_update {m : ClientManager} (h : ∀ client ∈ m.clients, Made client) (found : Option Nat)
    (status : ClientStatus) (errorMessage unknown : Bytes) :
    ∀ client ∈ (m.update found status errorMessage unknown).1.clients, Made client := by
  cases found with
  | none => exact h
  | some index =>
    change ∀ client ∈ m.clients.modify index _, Made client
    intro client hin
    obtain ⟨place, hplace, rfl⟩ := List.getElem_of_mem hin
    have hlt : place < m.clients.length := by
      rwa [List.length_modify] at hplace
    have hold := h _ (List.getElem_mem hlt)
    rw [List.getElem_modify]
    split_ifs
    · exact ⟨hold.entry, rfl⟩
    · exact hold

theorem made_perform {m : ClientManager} (h : ∀ client ∈ m.clients, Made client)
    (call : ManagerCall) :
    ∀ client ∈ (m.perform call).1.clients, Made client := by
  cases call with
  | load text => exact made_load h text
  | addClient specification password verify opens => exact made_addClient h _ _ _ _
  | removeClient identifier opens => exact made_remove h _ _
  | removeClientId id opens => exact made_remove h _ _
  | updateClientStatus identifier status errorMessage => exact made_update h _ _ _ _
  | updateClientStatusId id status errorMessage => exact made_update h _ _ _ _
  | resetStatuses =>
    intro client hin
    obtain ⟨before, hbefore, rfl⟩ := List.mem_map.mp hin
    exact ⟨(h before hbefore).entry, (h before hbefore).sshUrl⟩

theorem made_run {m : ClientManager} (h : ∀ client ∈ m.clients, Made client)
    (calls : List ManagerCall) :
    ∀ client ∈ (m.run calls).clients, Made client := by
  induction calls generalizing m with
  | nil => exact h
  | cons call calls ih => exact ih (made_perform h call)

theorem made_create {configPath knownHostsFile : Bytes} :
    ∀ client ∈ (create configPath knownHostsFile).clients, Made client := by
  intro client hin
  cases hin

/-! ## Additions -/

/-- A client to add: its specification, and its password if there is one. -/
structure Request where
  specification : Bytes
  password : Option Bytes := none

/-- The entry of a request. -/
def entryOf (m : ClientManager) (request : Request) : Except Bytes ClientEntry := do
  let entry ← m.makeEntry request.specification
  return { entry with password := request.password.getD entry.password }

/-- An addition whose check and whose save do not throw; what the check finds goes by the client. -/
def add (verdicts : Nat → Verdict) (m : ClientManager) (request : Request) :
    Except Bytes ClientManager :=
  let r := m.addClient request.specification request.password (.ok (verdicts m.nextClientId)) true
  r.2.map fun _ => r.1

/-- Clients are added one after the other, until one is refused. -/
def addAll (m : ClientManager) (verdicts : Nat → Verdict) (requests : List Request) :
    Except Bytes ClientManager := requests.foldlM (add verdicts) m

variable {m m' : ClientManager} {verdicts : Nat → Verdict} {request : Request} {entry : ClientEntry}

theorem isEntry_entryOf (h : m.entryOf request = .ok entry) : IsEntry entry := by
  obtain ⟨made, hmade, h⟩ := bind_ok.mp h
  obtain rfl := pure_ok.mp h
  exact isEntry_makeEntry hmade _

/-- The manager that an addition leaves has the entry and its old file. -/
structure Adds (m : ClientManager) (entry : ClientEntry) (m' : ClientManager) : Prop where
  entries : m'.entries = m.entries ++ [entry]
  configPath : m'.configPath = m.configPath
  knownHostsFile : m'.knownHostsFile = m.knownHostsFile
  made : (∀ client ∈ m.clients, Made client) → ∀ client ∈ m'.clients, Made client

theorem findClient_isSome {identifier : Bytes} : (m.findClient identifier).isSome = true ↔
    ∃ client ∈ m.clients, client.matchesIdentifier identifier = true := by
  unfold findClient
  rw [List.findIdx?_isSome, List.any_eq_true]

/-- The addition of a client whose id matches none of the clients there are, and of any other. -/
theorem add_ok (verdicts : Nat → Verdict) (h : m.entryOf request = .ok entry) :
    (∃ client ∈ m.clients, client.matchesIdentifier entry.clientId = true) ∧
        add verdicts m request = .error (ascii "Client already exists: " ++ entry.clientId) ∨
      ¬ (∃ client ∈ m.clients, client.matchesIdentifier entry.clientId = true) ∧
        ∃ m', add verdicts m request = .ok m' ∧ m.Adds entry m' := by
  obtain ⟨made, hmade, h⟩ := bind_ok.mp h
  obtain rfl := pure_ok.mp h
  rw [← findClient_isSome]
  have hkept := fun h => made_addClient (m := m) h request.specification request.password
    (.ok (verdicts m.nextClientId)) true
  unfold add
  unfold addClient at hkept ⊢
  rw [hmade] at hkept ⊢
  dsimp only at hkept ⊢
  by_cases hfound : (m.findClient
      ({ made with password := request.password.getD made.password } :
        ClientEntry).clientId).isSome = true
  · rw [if_pos hfound]
    exact Or.inl ⟨hfound, rfl⟩
  · rw [if_neg hfound] at hkept ⊢
    refine Or.inr ⟨hfound, _, rfl, ?_, rfl, rfl, hkept⟩
    exact List.map_append

theorem found_iff (hmade : ∀ client ∈ m.clients, Made client) (hentry : IsEntry entry) :
    (∃ client ∈ m.clients, client.matchesIdentifier entry.clientId = true) ↔
      ∃ other ∈ m.entries, Clash entry other := by
  unfold entries
  simp only [List.mem_map, exists_exists_and_eq_and]
  refine exists_congr fun client => and_congr_right fun hin => ?_
  exact matchesIdentifier_iff (hmade client hin) hentry

theorem Adds.entryOf (h : m.Adds entry m') (request : Request) :
    m'.entryOf request = m.entryOf request := by
  unfold ClientManager.entryOf makeEntry
  rw [h.configPath, h.knownHostsFile]

/-- The requests, with their entries. -/
def Reads (m : ClientManager) : List Request → List ClientEntry → Prop :=
  List.Forall₂ fun request entry => m.entryOf request = .ok entry

/-- Clients are added one after the other unless one of them clashes with a client before it. -/
theorem addAll_iff {requests : List Request} {added : List ClientEntry}
    (verdicts : Nat → Verdict) (hmade : ∀ client ∈ m.clients, Made client)
    (h : m.Reads requests added) :
    ((∃ m', m.addAll verdicts requests = .ok m') ↔
      (∀ entry ∈ added, ∀ other ∈ m.entries, ¬ Clash entry other) ∧
        added.Pairwise fun other entry => ¬ Clash entry other) ∧
      ∀ m', m.addAll verdicts requests = .ok m' → m'.entries = m.entries ++ added := by
  induction requests generalizing m added with
  | nil =>
    cases h
    refine ⟨iff_of_true ⟨m, rfl⟩ ⟨nofun, .nil⟩, fun m' hall => ?_⟩
    obtain rfl := pure_ok.mp hall
    rw [List.append_nil]
  | cons request requests ih =>
    obtain _ | ⟨hentry, hrest⟩ := h
    rename_i entry added
    have hfound := found_iff hmade (isEntry_entryOf hentry)
    unfold addAll
    rw [List.foldlM_cons]
    rcases add_ok verdicts hentry with ⟨hclash, herror⟩ | ⟨hfree, next, hnext, hadds⟩
    · rw [herror]
      refine ⟨iff_of_false nofun fun hnone => ?_, nofun⟩
      obtain ⟨other, hother, hclash⟩ := hfound.mp hclash
      exact hnone.1 entry List.mem_cons_self other hother hclash
    · have hreads : next.Reads requests added := hrest.imp fun r e hr => (hadds.entryOf r).trans hr
      obtain ⟨hiff, hentries⟩ := ih (hadds.made hmade) hreads
      have hnone : ∀ other ∈ m.entries, ¬ Clash entry other := fun other hother hclash =>
        hfree (hfound.mpr ⟨other, hother, hclash⟩)
      rw [hnext]
      refine ⟨hiff.trans ?_, fun m' hall => ?_⟩
      · rw [hadds.entries, List.forall_mem_cons, List.pairwise_cons]
        simp only [List.forall_mem_append, List.forall_mem_singleton]
        constructor
        · rintro ⟨hall, hpairs⟩
          exact ⟨⟨hnone, fun e he => (hall e he).1⟩, fun e he => (hall e he).2, hpairs⟩
        · rintro ⟨⟨-, hall⟩, hfirst, hpairs⟩
          exact ⟨fun e he => ⟨hall e he, hfirst e he⟩, hpairs⟩
      · rw [hentries m' hall, hadds.entries, List.append_assoc, List.singleton_append]

/-! ## Any order -/

/-- No entry of `entries` with the default port shares its user and host with one of `others` that
has another port. -/
def Apart (entries others : List ClientEntry) : Prop :=
  ∀ entry ∈ entries, entry.port = 22 → ∀ other ∈ others, other.sshTarget = entry.sshTarget →
    other.port = 22

theorem clientId_of_default {e o : ClientEntry} (he : e.port = 22) (ho : o.port = 22)
    (h : o.sshTarget = e.sshTarget) : e.clientId = o.clientId := by
  unfold ClientEntry.clientId
  rw [if_pos he, if_pos ho, h]

theorem apart_iff {entries others : List ClientEntry} (hothers : ∀ other ∈ others, IsEntry other)
    (hne : ∀ entry ∈ entries, ∀ other ∈ others, entry ≠ other → entry.clientId ≠ other.clientId) :
    Apart entries others ↔ ∀ entry ∈ entries, ∀ other ∈ others, entry ≠ other →
      ¬ Clash entry other := by
  constructor
  · intro h entry hentry other hother hdiff hclash
    have hids := hne entry hentry other hother hdiff
    obtain ⟨hport, htarget⟩ := (clash_iff (hothers other hother) hids).mp hclash
    exact hids (clientId_of_default hport (h entry hentry hport other hother htarget) htarget)
  · intro h entry hentry hport other hother htarget
    by_contra hother22
    have hdiff : entry ≠ other := by
      rintro rfl
      exact hother22 hport
    have hids := hne entry hentry other hother hdiff
    exact h entry hentry other hother hdiff ((clash_iff (hothers other hother) hids).mpr ⟨hport,
      htarget⟩)

theorem forall_mem_two {p : ClientEntry → Prop} {e e' : ClientEntry} :
    (∀ x ∈ [e, e'], p x) ↔ p e ∧ p e' := by
  rw [List.forall_mem_cons, List.forall_mem_singleton]

/-- Both orders of two additions. -/
theorem either_order_iff (hmade : ∀ client ∈ m.clients, Made client) {first second : Request}
    {entry entry' : ClientEntry} (hfirst : m.entryOf first = .ok entry)
    (hsecond : m.entryOf second = .ok entry') (hne : entry.clientId ≠ entry'.clientId)
    (hnew : ∀ other ∈ m.entries, other.clientId ≠ entry.clientId ∧
      other.clientId ≠ entry'.clientId) :
    (∀ verdicts verdicts', ∃ m₁ m₂, m.addAll verdicts [first, second] = .ok m₁ ∧
        m.addAll verdicts' [second, first] = .ok m₂ ∧ m₁.entries.Perm m₂.entries) ↔
      Apart [entry, entry'] (m.entries ++ [entry, entry']) := by
  have hforth : m.Reads [first, second] [entry, entry'] := .cons hfirst (.cons hsecond .nil)
  have hback : m.Reads [second, first] [entry', entry] := .cons hsecond (.cons hfirst .nil)
  have hentries : ∀ other ∈ m.entries ++ [entry, entry'], IsEntry other := by
    refine List.forall_mem_append.mpr ⟨fun other hother => ?_, ?_⟩
    · obtain ⟨client, hclient, rfl⟩ := List.mem_map.mp hother
      exact (hmade client hclient).entry
    · exact forall_mem_two.mpr ⟨isEntry_entryOf hfirst, isEntry_entryOf hsecond⟩
  have hids : ∀ e ∈ [entry, entry'], ∀ other ∈ m.entries ++ [entry, entry'], e ≠ other →
      e.clientId ≠ other.clientId := by
    simp only [List.forall_mem_append, forall_mem_two]
    refine ⟨⟨fun other hother _ => (hnew other hother).1.symm, ?_⟩,
      ⟨fun other hother _ => (hnew other hother).2.symm, ?_⟩⟩
    · exact ⟨fun hdiff => absurd rfl hdiff, fun _ => hne⟩
    · exact ⟨fun _ => hne.symm, fun hdiff => absurd rfl hdiff⟩
  rw [apart_iff hentries hids]
  constructor
  · intro h
    obtain ⟨m₁, m₂, hall₁, hall₂, -⟩ := h (fun _ => ⟨true, []⟩) fun _ => ⟨true, []⟩
    obtain ⟨hlist, hpairs⟩ := (addAll_iff _ hmade hforth).1.mp ⟨m₁, hall₁⟩
    obtain ⟨-, hpairs'⟩ := (addAll_iff _ hmade hback).1.mp ⟨m₂, hall₂⟩
    rw [List.pairwise_pair] at hpairs hpairs'
    simp only [List.forall_mem_append, forall_mem_two] at hlist ⊢
    refine ⟨⟨fun other hother _ => hlist.1 other hother, ?_⟩,
      ⟨fun other hother _ => hlist.2 other hother, ?_⟩⟩
    · exact ⟨fun hdiff => absurd rfl hdiff, fun _ => hpairs'⟩
    · exact ⟨fun _ => hpairs, fun hdiff => absurd rfl hdiff⟩
  · intro h verdicts verdicts'
    have hdiff : entry ≠ entry' := fun heq => hne (congrArg _ heq)
    have hlist : ∀ e ∈ [entry, entry'], ∀ other ∈ m.entries, ¬ Clash e other := by
      intro e he other hother
      refine h e he other (List.mem_append_left _ hother) ?_
      rintro rfl
      have hown := hnew e hother
      simp only [List.mem_cons, List.not_mem_nil, or_false] at he
      rcases he with rfl | rfl
      · exact hown.1 rfl
      · exact hown.2 rfl
    have hone : ¬ Clash entry entry' := h entry (by simp) entry' (by simp) hdiff
    have hother : ¬ Clash entry' entry := h entry' (by simp) entry (by simp) hdiff.symm
    obtain ⟨m₁, hall₁⟩ := (addAll_iff verdicts hmade hforth).1.mpr
      ⟨hlist, List.pairwise_pair.mpr hother⟩
    obtain ⟨m₂, hall₂⟩ := (addAll_iff verdicts' hmade hback).1.mpr
      ⟨fun e he => hlist e (by simpa [or_comm] using he), List.pairwise_pair.mpr hone⟩
    refine ⟨m₁, m₂, hall₁, hall₂, ?_⟩
    rw [(addAll_iff verdicts hmade hforth).2 m₁ hall₁,
      (addAll_iff verdicts' hmade hback).2 m₂ hall₂]
    exact List.Perm.append_left _ (List.Perm.swap _ _ _)

/-- The line of an entry of a client file, without a password beside it. -/
def requestOf (entry : ClientEntry) : Request := ⟨entry.serialize, none⟩

theorem entryOf_requestOf {configPath knownHostsFile : Bytes} (hpath : configPath ≠ [])
    (h : IsClient knownHostsFile entry) :
    (create configPath knownHostsFile).entryOf (requestOf entry) = .ok entry := by
  obtain ⟨read, hsound, rfl⟩ := h
  have hread := parseEntry_serialize hsound
  refine bind_ok.mpr ⟨{ read with raw := read.serialize, knownHostsFile }, ?_, rfl⟩
  refine bind_ok.mpr ⟨_, hread, ?_⟩
  change (if configPath ≠ [] then _ else _) = _
  rw [if_pos hpath]
  rfl

/-- Every order of the entries of a client file. -/
theorem every_order_iff {configPath knownHostsFile : Bytes} {clients : List ClientEntry}
    (hpath : configPath ≠ []) (h : IsList knownHostsFile clients) :
    (∀ (verdicts : Nat → Verdict) (order : List ClientEntry), order.Perm clients →
        ∃ m, (create configPath knownHostsFile).addAll verdicts (order.map requestOf) = .ok m ∧
          m.entries.Perm clients) ↔
      Apart clients clients := by
  have hids : ∀ e ∈ clients, ∀ other ∈ clients, e ≠ other → e.clientId ≠ other.clientId :=
    fun e he other hother hdiff heq => hdiff (List.inj_on_of_nodup_map h.distinct he hother heq)
  rw [apart_iff (fun other hother => isEntry_of_isClient (h.sound other hother)) hids]
  have hnone : ∀ client ∈ (create configPath knownHostsFile).clients, Made client := made_create
  have hreads : ∀ order : List ClientEntry, order.Perm clients →
      (create configPath knownHostsFile).Reads (order.map requestOf) order := by
    intro order hperm
    unfold Reads
    rw [List.forall₂_map_left_iff, List.forall₂_same]
    exact fun e he => entryOf_requestOf hpath (h.sound e (hperm.mem_iff.mp he))
  constructor
  · -- an order that starts with the one and goes on with the other
    intro hall entry hentry other hother hdiff
    have hrest : entry ∈ clients.erase other := (List.mem_erase_of_ne hdiff).mpr hentry
    have hperm : (other :: entry :: (clients.erase other).erase entry).Perm clients :=
      ((List.perm_cons_erase hrest).symm.cons other).trans (List.perm_cons_erase hother).symm
    obtain ⟨m, hadded, -⟩ := hall (fun _ => ⟨true, []⟩) _ hperm
    obtain ⟨-, hpairs⟩ := (addAll_iff _ hnone (hreads _ hperm)).1.mp ⟨m, hadded⟩
    exact (List.pairwise_cons.mp hpairs).1 entry List.mem_cons_self
  · intro hfree verdicts order hperm
    have hnodup : order.Nodup := hperm.nodup_iff.mpr (List.Nodup.of_map _ h.distinct)
    have hpairs : order.Pairwise fun other entry => ¬ Clash entry other := by
      refine hnodup.pairwise_of_forall_ne fun other hother entry hentry hdiff => ?_
      exact hfree entry (hperm.mem_iff.mp hentry) other (hperm.mem_iff.mp hother) hdiff.symm
    obtain ⟨m, hadded⟩ := (addAll_iff verdicts hnone (hreads order hperm)).1.mpr
      ⟨fun _ _ => nofun, hpairs⟩
    refine ⟨m, hadded, ?_⟩
    rw [(addAll_iff verdicts hnone (hreads order hperm)).2 m hadded]
    exact hperm

end ClientManager

open ClientManager

/-- Two clients with ids of their own and of the list can be added in either order exactly if none
of them is on the default port while the other one, or a client of the list, is the same user and
host on another port; and so for all the entries of a client file. -/
theorem the_order_is_free_iff (configPath knownHostsFile : Bytes) :
    (∀ (calls : List ManagerCall) (first second : Request) (entry entry' : ClientEntry),
      let m := (create configPath knownHostsFile).run calls
      m.entryOf first = .ok entry → m.entryOf second = .ok entry' →
      entry.clientId ≠ entry'.clientId →
      (∀ other ∈ m.entries, other.clientId ≠ entry.clientId ∧ other.clientId ≠ entry'.clientId) →
        ((∀ verdicts verdicts', ∃ m₁ m₂, m.addAll verdicts [first, second] = .ok m₁ ∧
            m.addAll verdicts' [second, first] = .ok m₂ ∧ m₁.entries.Perm m₂.entries) ↔
          Apart [entry, entry'] (m.entries ++ [entry, entry']))) ∧
      ∀ (text : Bytes) (clients : List ClientEntry), configPath ≠ [] →
        loadFromFile knownHostsFile text = .ok clients →
          ((∀ (verdicts : Nat → Verdict) (order : List ClientEntry), order.Perm clients →
              ∃ m,
                (create configPath knownHostsFile).addAll verdicts (order.map requestOf) = .ok m ∧
                m.entries.Perm clients) ↔
            Apart clients clients) := by
  constructor
  · intro calls first second entry entry' m hfirst hsecond hne hnew
    have hmade : ∀ client ∈ m.clients, Made client := made_run made_create calls
    exact either_order_iff hmade hfirst hsecond hne hnew
  · intro text clients hpath hload
    exact every_order_iff hpath (isList_loadFromFile hload)

/-- A new manager of one client file. -/
def fleet : ClientManager := create (ascii "clients.txt") (ascii "known_hosts")

/-- A client on a port of its own. -/
def onPort : Request := ⟨ascii "ssh://u@h:2222", none⟩

/-- The same user and host on the default port. -/
def onDefault : Request := ⟨ascii "u@h", none⟩

/-- What the first is kept as. -/
def portEntry : ClientEntry where
  raw := ascii "ssh://u@h:2222"
  user := ascii "u"
  host := ascii "h"
  port := 2222
  knownHostsFile := ascii "known_hosts"

/-- What a bare line of a host is kept as. -/
def defaultEntry (host : Bytes) : ClientEntry where
  raw := ascii "u@" ++ host
  user := ascii "u"
  host
  knownHostsFile := ascii "known_hosts"

/-- Two hosts in either order. -/
theorem two_hosts_in_either_order :
    (fleet.entryOf ⟨ascii "u@h", none⟩ = .ok (defaultEntry (ascii "h")) ∧
        fleet.entryOf ⟨ascii "u@g", none⟩ = .ok (defaultEntry (ascii "g")) ∧
        ∀ verdicts verdicts', ∃ m₁ m₂,
          fleet.addAll verdicts [⟨ascii "u@h", none⟩, ⟨ascii "u@g", none⟩] = .ok m₁ ∧
            fleet.addAll verdicts' [⟨ascii "u@g", none⟩, ⟨ascii "u@h", none⟩] = .ok m₂ ∧
            m₁.entries.Perm m₂.entries) ∧
      loadFromFile (ascii "known_hosts") (ascii "u@h\nu@g\n") =
          .ok [defaultEntry (ascii "h"), defaultEntry (ascii "g")] ∧
        ∀ (verdicts : Nat → Verdict) (order : List ClientEntry),
          order.Perm [defaultEntry (ascii "h"), defaultEntry (ascii "g")] →
            ∃ m, fleet.addAll verdicts (order.map requestOf) = .ok m ∧
              m.entries.Perm [defaultEntry (ascii "h"), defaultEntry (ascii "g")] := by
  have hfirst : fleet.entryOf ⟨ascii "u@h", none⟩ = .ok (defaultEntry (ascii "h")) := by decide
  have hsecond : fleet.entryOf ⟨ascii "u@g", none⟩ = .ok (defaultEntry (ascii "g")) := by decide
  have hfile : loadFromFile (ascii "known_hosts") (ascii "u@h\nu@g\n") =
      .ok [defaultEntry (ascii "h"), defaultEntry (ascii "g")] := by decide
  have hports : ∀ other ∈ [defaultEntry (ascii "h"), defaultEntry (ascii "g")],
      other.port = 22 := by
    decide
  refine ⟨⟨hfirst, hsecond, ?_⟩, hfile, ?_⟩
  · refine ((the_order_is_free_iff _ _).1 [] _ _ _ _ hfirst hsecond (by decide) nofun).mpr ?_
    exact fun entry _ _ other hother _ => hports other hother
  · refine ((the_order_is_free_iff _ _).2 _ _ (by decide) hfile).mpr ?_
    exact fun entry _ _ other hother _ => hports other hother

/-- After the client with the port the one without is said to exist; in the other order, and in a
file, there are two clients. -/
theorem the_second_client_is_refused :
    fleet.entryOf onPort = .ok portEntry ∧ fleet.entryOf onDefault =
      .ok (defaultEntry (ascii "h")) ∧
      portEntry.clientId ≠ (defaultEntry (ascii "h")).clientId ∧ fleet.entries = [] ∧
      (∀ verdicts, fleet.addAll verdicts [onPort, onDefault] =
        .error (ascii "Client already exists: u@h")) ∧
      (∀ verdicts, (fleet.addAll verdicts [onDefault, onPort]).map entries =
        .ok [defaultEntry (ascii "h"), portEntry]) ∧
      loadFromFile (ascii "known_hosts") (ascii "ssh://u@h:2222\nu@h\n") =
        .ok [portEntry, defaultEntry (ascii "h")] := by
  have hport : fleet.entryOf onPort = .ok portEntry := by decide
  have hdefault : fleet.entryOf onDefault = .ok (defaultEntry (ascii "h")) := by decide
  have hnone : ∀ client ∈ fleet.clients, Made client := made_create
  refine ⟨hport, hdefault, by decide, rfl, fun verdicts => ?_, fun verdicts => ?_, by decide⟩
  · obtain ⟨⟨client, hclient, -⟩, -⟩ | ⟨-, m, hadded, hadds⟩ := add_ok verdicts hport
    · cases hclient
    · have hread := (hadds.entryOf onDefault).trans hdefault
      have hclash : ∃ other ∈ m.entries, Clash (defaultEntry (ascii "h")) other := by
        rw [hadds.entries]
        exact ⟨portEntry, List.mem_append_right _ (List.mem_singleton_self _), Or.inr (by decide)⟩
      obtain ⟨-, hrefused⟩ | ⟨hfree, -⟩ := add_ok verdicts hread
      · unfold addAll
        rw [List.foldlM_cons, hadded]
        exact congrArg (fun r => r >>= _) hrefused
      · exact absurd ((found_iff (hadds.made hnone) (isEntry_entryOf hread)).mpr hclash) hfree
  · have hadds := addAll_iff verdicts hnone (.cons hdefault (.cons hport .nil))
    have hfree : ¬ Clash portEntry (defaultEntry (ascii "h")) := by
      unfold Clash
      decide
    obtain ⟨m, hadded⟩ := hadds.1.mpr ⟨fun _ _ other hother => absurd hother List.not_mem_nil,
      List.pairwise_pair.mpr hfree⟩
    rw [hadded]
    exact congrArg Except.ok (hadds.2 m hadded)

end psx
