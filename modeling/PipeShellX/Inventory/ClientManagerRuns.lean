-- What a call of the manager leaves behind when it throws. An added client leaves the list again; a
-- removed one does not come back.
import PipeShellX.Counts
import PipeShellX.Inventory.ClientManager

namespace psx

open Text (ascii)
open ManagedClient (persisted)

/-- The manager, and the list that the file was last read as or written with. -/
structure ManagerWorld where
  manager : ClientManager
  saved : List ClientEntry

namespace ManagerWorld

/-- A call, and what is on the disk after it. -/
def step (w : ManagerWorld) (call : ManagerCall) : ManagerWorld where
  manager := (w.manager.perform call).1
  saved :=
    match (w.manager.perform call).2 with
    | .ok (some entries) => entries
    | _ => w.saved

def run (w : ManagerWorld) (calls : List ManagerCall) : ManagerWorld := calls.foldl step w

/-- The list in memory is the list that was saved. -/
def InStep (w : ManagerWorld) : Prop := w.manager.clients.map persisted = w.saved

/-- A call that throws leaves the clients as they were, in step with the file if they were. -/
def Atomic (w : ManagerWorld) (call : ManagerCall) : Prop :=
  ∀ what, (w.manager.perform call).2 = .error what →
    (w.step call).manager.clients = w.manager.clients ∧ (w.InStep → (w.step call).InStep)

end ManagerWorld

namespace ClientManager

/-- A removal that finds a client while the file cannot be opened. -/
def Unsaved (m : ClientManager) : ManagerCall → Prop
  | .removeClient identifier opens =>
    opens = false ∧ ∃ client ∈ m.clients, client.matchesIdentifier identifier = true
  | .removeClientId id opens => opens = false ∧ ∃ client ∈ m.clients, (client.client.id : Int) = id
  | _ => False

/-! ## One call -/

theorem save_ok {m : ClientManager} {opens : Bool} {entries : List ClientEntry}
    (h : m.save opens = .ok entries) : m.clients.map persisted = entries := by
  unfold save at h
  split_ifs at h
  exact Except.ok.inj h

theorem map_numbered {β : Type} {g : ManagedClient → β} {f : ClientEntry → β}
    (h : ∀ id entry, g (loaded id entry) = f entry) (id : Nat) (entries : List ClientEntry) :
    (numbered id entries).map g = entries.map f := by
  induction entries generalizing id with
  | nil => rfl
  | cons entry entries ih => rw [numbered, List.map_cons, List.map_cons, h, ih]

theorem load_clients (m : ClientManager) (text : Option Bytes) :
    (∀ what, (m.load text).2 = .error what → (m.load text).1.clients = m.clients) ∧
      ∀ entries, (m.load text).2 = .ok entries →
        (m.load text).1.clients.map persisted = entries := by
  unfold load
  cases m.readFile text with
  | error e =>
    dsimp only
    split_ifs
    · refine ⟨nofun, fun entries h => ?_⟩
      obtain rfl := Except.ok.inj h
      rfl
    · exact ⟨fun what _ => rfl, nofun⟩
  | ok read =>
    refine ⟨nofun, fun entries h => ?_⟩
    obtain rfl := Except.ok.inj h
    exact (map_numbered (fun id entry => rfl) 1 read).trans (List.map_id read)

theorem addClient_clients (m : ClientManager) (specification : Bytes) (password : Option Bytes)
    (verify : Except Bytes Verdict) (opens : Bool) :
    (∀ what, (m.addClient specification password verify opens).2 = .error what →
        (m.addClient specification password verify opens).1.clients = m.clients) ∧
      ∀ entries, (m.addClient specification password verify opens).2 = .ok entries →
        (m.addClient specification password verify opens).1.clients.map persisted = entries := by
  unfold addClient
  cases m.makeEntry specification with
  | error e => exact ⟨fun what _ => rfl, nofun⟩
  | ok entry =>
    dsimp only
    split_ifs
    · exact ⟨fun what _ => rfl, nofun⟩
    · cases verify with
      | error e => exact ⟨fun what _ => rfl, nofun⟩
      | ok verdict =>
        dsimp only
        split
        · exact ⟨fun what _ => rfl, nofun⟩
        · rename_i saved hsave
          refine ⟨nofun, fun entries h => ?_⟩
          obtain rfl := Except.ok.inj h
          exact save_ok hsave

theorem map_error {ε α β : Type} {f : α → β} {x : Except ε α} {e : ε} (h : x.map f = .error e) :
    x = .error e := by
  cases x with
  | error e' => exact congrArg Except.error (Except.error.inj h)
  | ok a => cases h

theorem map_ok {ε α β : Type} {f : α → β} {x : Except ε α} {b : β} (h : x.map f = .ok b) :
    ∃ a, x = .ok a ∧ f a = b := by
  cases x with
  | error e => cases h
  | ok a => exact ⟨a, rfl, Except.ok.inj h⟩

theorem update_clients {m : ClientManager} {found : Option Nat} {status : ClientStatus}
    {errorMessage unknown what : Bytes}
    (h : (m.update found status errorMessage unknown).2 = .error what) :
    (m.update found status errorMessage unknown).1.clients = m.clients := by
  cases found with
  | none => rfl
  | some index => cases h

theorem persisted_updateStatus (status : ClientStatus) (errorMessage : Bytes)
    (client : ManagedClient) :
    persisted (client.updateStatus status errorMessage) = persisted client := rfl

theorem update_saved {m : ClientManager} {found : Option Nat} {status : ClientStatus}
    {errorMessage unknown : Bytes} {saved : Option (List ClientEntry)}
    (h : (m.update found status errorMessage unknown).2 = .ok saved) :
    (m.update found status errorMessage unknown).1.clients.map persisted =
      saved.getD (m.clients.map persisted) := by
  cases found with
  | none => cases h
  | some index =>
    obtain rfl := Except.ok.inj h
    exact Counts.map_modify (persisted_updateStatus status errorMessage) m.clients index

theorem remove_saved {m : ClientManager} {found : Option Nat} {opens : Bool}
    {saved : Option (List ClientEntry)} (h : (m.remove found opens).2 = .ok saved) :
    (m.remove found opens).1.clients.map persisted = saved.getD (m.clients.map persisted) := by
  cases found with
  | none =>
    obtain rfl := Except.ok.inj h
    rfl
  | some index =>
    obtain ⟨entries, hsave, rfl⟩ := map_ok h
    exact save_ok hsave

theorem findIdx_eq_none {m : ClientManager} {p : ManagedClient → Bool} :
    m.clients.findIdx? p = none ↔ ¬ ∃ client ∈ m.clients, p client = true := by
  rw [List.findIdx?_eq_none_iff]
  simp

/-- A removal keeps the clients when it throws, unless it found one. -/
theorem remove_clients {m : ClientManager} {p : ManagedClient → Bool} {opens : Bool} :
    (∀ what, (m.remove (m.clients.findIdx? p) opens).2 = .error what →
        (m.remove (m.clients.findIdx? p) opens).1.clients = m.clients) ↔
      ¬ (opens = false ∧ ∃ client ∈ m.clients, p client = true) := by
  cases hfind : m.clients.findIdx? p with
  | none =>
    refine iff_of_true nofun fun h => ?_
    exact findIdx_eq_none.mp hfind h.2
  | some index =>
    have hlt : index < m.clients.length := (List.findIdx?_eq_some_iff_findIdx_eq.mp hfind).1
    have hsome : ∃ client ∈ m.clients, p client = true := by
      by_contra hnone
      rw [findIdx_eq_none.mpr hnone] at hfind
      cases hfind
    have hshorter : m.clients.eraseIdx index ≠ m.clients := by
      intro h
      have hlength := congrArg List.length h
      rw [List.length_eraseIdx_of_lt hlt] at hlength
      omega
    cases opens with
    | true => exact iff_of_true nofun (by simp)
    | false =>
      refine iff_of_false (fun h => ?_) (not_not.mpr ⟨rfl, hsome⟩)
      exact hshorter (h _ rfl)

theorem removeClientId_iff {m : ClientManager} {id : Int} {opens : Bool} :
    m.Unsaved (.removeClientId id opens) ↔
      opens = false ∧ ∃ client ∈ m.clients, decide ((client.client.id : Int) = id) = true := by
  simp [Unsaved]

/-- A call keeps the clients when it throws exactly if it is no removal that cannot be saved. -/
theorem perform_clients {m : ClientManager} {call : ManagerCall} :
    (∀ what, (m.perform call).2 = .error what → (m.perform call).1.clients = m.clients) ↔
      ¬ m.Unsaved call := by
  cases call with
  | load text =>
    refine iff_of_true (fun what h => ?_) not_false
    exact (m.load_clients text).1 what (map_error h)
  | addClient specification password verify opens =>
    refine iff_of_true (fun what h => ?_) not_false
    exact (m.addClient_clients specification password verify opens).1 what (map_error h)
  | removeClient identifier opens => exact remove_clients
  | removeClientId id opens =>
    rw [removeClientId_iff]
    exact remove_clients
  | updateClientStatus identifier status errorMessage =>
    refine iff_of_true (fun what h => ?_) not_false
    exact update_clients h
  | updateClientStatusId id status errorMessage =>
    refine iff_of_true (fun what h => ?_) not_false
    exact update_clients h
  | resetStatuses => exact iff_of_true nofun not_false

/-- After a call that returns, the file and the list in memory differ as they did before, or not at
all. -/
theorem perform_saved {m : ClientManager} {call : ManagerCall} {saved : Option (List ClientEntry)}
    (h : (m.perform call).2 = .ok saved) :
    (m.perform call).1.clients.map persisted = saved.getD (m.clients.map persisted) := by
  cases call with
  | load text =>
    obtain ⟨entries, hload, rfl⟩ := map_ok h
    exact (m.load_clients text).2 entries hload
  | addClient specification password verify opens =>
    obtain ⟨entries, hadd, rfl⟩ := map_ok h
    exact (m.addClient_clients specification password verify opens).2 entries hadd
  | removeClient identifier opens => exact remove_saved h
  | removeClientId id opens => exact remove_saved h
  | updateClientStatus identifier status errorMessage => exact update_saved h
  | updateClientStatusId id status errorMessage => exact update_saved h
  | resetStatuses =>
    obtain rfl := Except.ok.inj h
    exact List.map_map

end ClientManager

/-! ## Runs -/

namespace ManagerWorld

/-- Every removal of the run that finds a client can be saved. -/
def Safe : List ManagerCall → ManagerWorld → Prop
  | [], _ => True
  | call :: calls, w => ¬ w.manager.Unsaved call ∧ Safe calls (w.step call)

theorem atomic_iff {w : ManagerWorld} {call : ManagerCall} :
    w.Atomic call ↔ ¬ w.manager.Unsaved call := by
  rw [← ClientManager.perform_clients]
  constructor
  · intro h what hthrew
    exact (h what hthrew).1
  · intro h what hthrew
    have hsame := h what hthrew
    refine ⟨hsame, fun hstep => ?_⟩
    unfold InStep step
    rw [hthrew, hsame]
    exact hstep

theorem step_inStep {w : ManagerWorld} {call : ManagerCall} (h : w.InStep)
    (hsafe : ¬ w.manager.Unsaved call) : (w.step call).InStep := by
  cases hcall : (w.manager.perform call).2 with
  | error what => exact (atomic_iff.mpr hsafe what hcall).2 h
  | ok saved =>
    have hsaved := ClientManager.perform_saved hcall
    unfold InStep step
    rw [hcall, hsaved, h]
    cases saved <;> rfl

theorem run_inStep {calls : List ManagerCall} {w : ManagerWorld} (h : w.InStep)
    (hsafe : w.Safe calls) :
    (w.run calls).InStep := by
  induction calls generalizing w with
  | nil => exact h
  | cons call calls ih => exact ih (step_inStep h hsafe.1) hsafe.2

theorem Safe.of_append {before after : List ManagerCall} {w : ManagerWorld}
    (h : w.Safe (before ++ after)) : w.Safe before := by
  induction before generalizing w with
  | nil => trivial
  | cons call before ih => exact ⟨h.1, ih h.2⟩

end ManagerWorld

/-- A call that throws leaves the clients alone exactly if it is no removal of a client that cannot
be saved, and in a run without such removals the list in memory never differs from the saved one. -/
theorem calls_are_atomic_iff (w : ManagerWorld) :
    (∀ call : ManagerCall, w.Atomic call ↔ ¬ w.manager.Unsaved call) ∧
      ∀ calls : List ManagerCall, w.InStep → w.Safe calls →
        ∀ before, before <+: calls → (w.run before).InStep := by
  refine ⟨fun call => ManagerWorld.atomic_iff, fun calls h hsafe before hbefore => ?_⟩
  obtain ⟨after, rfl⟩ := hbefore
  exact ManagerWorld.run_inStep h hsafe.of_append

/-- A list of one client, as it is loaded. -/
def oneClient : ManagerWorld :=
  { manager := .create (ascii "c") [], saved := [] : ManagerWorld }.step
    (.load (some (ascii "u@h\n")))

/-- A client is added while the file cannot be opened. -/
def unsavedAdd : ManagerCall := .addClient (ascii "u@i") none (.ok ⟨true, []⟩) false

/-- An added client that cannot be saved leaves the list again. -/
theorem a_failed_add_changes_nothing :
    (oneClient.step unsavedAdd).manager.clients = oneClient.manager.clients ∧
      (oneClient.run [unsavedAdd]).InStep := by
  have hstart : oneClient.InStep := by
    unfold ManagerWorld.InStep
    decide
  have hthrew : (oneClient.manager.perform unsavedAdd).2 =
      .error (ascii "Failed to write client configuration file: c") := by decide
  have hatomic := ((calls_are_atomic_iff oneClient).1 unsavedAdd).mpr not_false
  have hsafe : oneClient.Safe [unsavedAdd] := ⟨not_false, trivial⟩
  exact ⟨(hatomic _ hthrew).1,
    (calls_are_atomic_iff oneClient).2 _ hstart hsafe _ (List.prefix_refl _)⟩

/-- A removal that cannot be saved is done all the same. -/
theorem a_failed_removal_loses_the_client :
    ¬ ∀ (m : ClientManager) (call : ManagerCall) (what : Bytes), (m.perform call).2 = .error what →
      (m.perform call).1.clients = m.clients := by
  intro h
  have hthrew : (oneClient.manager.perform (.removeClientId 1 false)).2 =
      .error (ascii "Failed to write client configuration file: c") := by decide
  exact absurd (h _ _ _ hthrew) (by decide)

end psx
