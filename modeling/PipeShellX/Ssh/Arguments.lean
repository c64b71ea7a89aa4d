-- The argv of ssh (ssh_auth.cpp): options in front, then the target and the remote command. What
-- `getopt` makes of it: the options that were added and then the target, unless the target itself
-- reads as an option.
import PipeShellX.Getopt
import PipeShellX.Inventory.ClientConfig

namespace psx.ssh

open Text (ascii)
open Decimal (natural integer)
open Getopt (IsOption getopt getopt_options_iff)
open psx.inventory (Host sign)

/-- The entry that selection makes of a host of the inventory (selection.cpp). -/
def toClientEntry (host : Host) (knownHosts : Bytes) : ClientEntry :=
  let entry : ClientEntry := {
    user := host.user
    host := host.host
    port := host.port
    identityFile := host.identity
    expectedSan := host.san
    nativePort := host.nativePort
    transport := host.transport
    knownHostsFile := knownHosts }
  { entry with raw := entry.serialize }

/-- How connections are shared. -/
structure SshOptions where
  controlPath : Bytes := []
  controlPersistSeconds : Int := 60

/-- A double quote and line ends cannot stand in an option value. -/
def Unrepresentable (c : UInt8) : Prop := c = 34 ∨ c = 10 ∨ c = 13

instance decidable_unrepresentable (c : UInt8) : Decidable (Unrepresentable c) :=
  inferInstanceAs (Decidable (_ ∨ _ ∨ _))

/-- A value in double quotes, in which a percent sign may have to be doubled. -/
def quoted (value : Bytes) (escapePercent : Bool) : Bytes :=
  34 :: value.flatMap (fun c => if c = 37 ∧ escapePercent then [37, 37] else [c]) ++ [34]

/-- A value as `ssh` reads it back, if that is possible. -/
def quoteSshOptionValue (value : Bytes) (escapePercent : Bool) : Except Bytes Bytes :=
  if ∃ c ∈ value, Unrepresentable c then
    .error (ascii "ssh option value contains an unrepresentable character: " ++ value)
  else .ok (quoted value escapePercent)

/-- One more `-o` option. -/
def addOption (args : List Bytes) (option : Bytes) : List Bytes := args ++ [ascii "-o", option]

/-- The options of a connection that is shared, which a control path asks for. -/
def addControlOptions (args : List Bytes) (options : SshOptions) : Except Bytes (List Bytes) :=
  if options.controlPath = [] then return args
  else do
    let args := addOption args (ascii "ControlMaster=auto")
    let args := addOption args
      (ascii "ControlPersist=" ++ integer options.controlPersistSeconds ++ ascii "s")
    let controlPath ← quoteSshOptionValue options.controlPath false
    return addOption args (ascii "ControlPath=" ++ controlPath)

/-- The file with the keys of the hosts, if there is one. -/
def addKnownHosts (args : List Bytes) (client : ClientEntry) : Except Bytes (List Bytes) :=
  if client.knownHostsFile = [] then return args
  else do
    let knownHosts ← quoteSshOptionValue client.knownHostsFile true
    return addOption args (ascii "UserKnownHostsFile=" ++ knownHosts)

/-- The arguments up to the host. -/
def buildSshBaseArguments (client : ClientEntry) (options : SshOptions) :
    Except Bytes (List Bytes) := do
  let args := addOption [ascii "ssh"] (ascii "StrictHostKeyChecking=accept-new")
  let args ← addControlOptions args options
  let args ← addKnownHosts args client
  let args := if client.password = [] then addOption args (ascii "BatchMode=yes") else args
  let args := addOption args (ascii "ConnectTimeout=5")
  let args := addOption args (ascii "ServerAliveInterval=15")
  let args := if client.port ≠ 22 then args ++ [ascii "-p", natural client.port] else args
  let args := if client.identityFile ≠ [] then args ++ [ascii "-i", client.identityFile] else args
  return args ++ [client.sshTarget]

/-- `sshpass`, in front of a client with a password. -/
def launcher (client : ClientEntry) (passwordFd : Int) : Except Bytes (List Bytes) :=
  if client.password = [] then return []
  else if passwordFd < 0 then
    .error (ascii "password-backed client requires a password file descriptor")
  else return [ascii "sshpass", ascii "-d", integer passwordFd]

/-- All arguments for a command on a host. -/
def buildSshCommandArguments (client : ClientEntry) (remoteCommand : Bytes) (passwordFd : Int)
    (options : SshOptions) : Except Bytes (List Bytes) := do
  let args ← launcher client passwordFd
  let sshArgs ← buildSshBaseArguments client options
  return args ++ sshArgs ++ [remoteCommand]

/-! ## The options -/

def dash : UInt8 := 45

/-- An option that is added on a condition. -/
def optional (c : Prop) [Decidable c] (o : UInt8 × Bytes) : List (UInt8 × Bytes) :=
  if c then [o] else []

/-- The options for a shared connection. -/
def controlFlags (options : SshOptions) : List (UInt8 × Bytes) :=
  if options.controlPath = [] then []
  else [(111, ascii "ControlMaster=auto"),
    (111, ascii "ControlPersist=" ++ integer options.controlPersistSeconds ++ ascii "s"),
    (111, ascii "ControlPath=" ++ quoted options.controlPath false)]

/-- The options that are added, with the arguments that they take. -/
def flags (client : ClientEntry) (options : SshOptions) : List (UInt8 × Bytes) :=
  [(111, ascii "StrictHostKeyChecking=accept-new")] ++ controlFlags options ++
    optional (client.knownHostsFile ≠ [])
      (111, ascii "UserKnownHostsFile=" ++ quoted client.knownHostsFile true) ++
    optional (client.password = []) (111, ascii "BatchMode=yes") ++
    [(111, ascii "ConnectTimeout=5"), (111, ascii "ServerAliveInterval=15")] ++
    optional (client.port ≠ 22) (112, natural client.port) ++
    optional (client.identityFile ≠ []) (105, client.identityFile)

/-- Options as words, two for each. -/
def flagWords (options : List (UInt8 × Bytes)) : List Bytes :=
  options.flatMap fun o => [[dash, o.1], o.2]

theorem flagWords_append (options more : List (UInt8 × Bytes)) :
    flagWords (options ++ more) = flagWords options ++ flagWords more := List.flatMap_append

theorem addOption_eq (args : List Bytes) (option : Bytes) :
    addOption args option = args ++ flagWords [(111, option)] := rfl

theorem quoteSshOptionValue_ok {value result : Bytes} {escapePercent : Bool}
    (h : quoteSshOptionValue value escapePercent = .ok result) :
    result = quoted value escapePercent := by
  unfold quoteSshOptionValue at h
  split_ifs at h
  exact (Except.ok.inj h).symm

theorem mem_optional {c : Prop} [Decidable c] {o o' : UInt8 × Bytes} (h : o ∈ optional c o') :
    o = o' := by
  unfold optional at h
  split_ifs at h
  · exact List.mem_singleton.mp h
  · cases h

/-- The letters of the options: `o`, `p` and `i`. -/
theorem mem_flags {client : ClientEntry} {options : SshOptions} {o : UInt8 × Bytes}
    (h : o ∈ flags client options) : o.1 ∈ ([111, 112, 105] : Bytes) := by
  have hcontrol : ∀ o ∈ controlFlags options, o.1 = 111 := by
    unfold controlFlags
    split_ifs <;> simp
  simp only [flags, List.mem_append, List.mem_cons, List.not_mem_nil, or_false] at h
  rcases h with (((((rfl | h) | h) | h) | (rfl | rfl)) | h) | h
  · exact List.mem_cons_self
  · rw [hcontrol o h]
    exact List.mem_cons_self
  · rw [mem_optional h]
    exact List.mem_cons_self
  · rw [mem_optional h]
    exact List.mem_cons_self
  · exact List.mem_cons_self
  · exact List.mem_cons_self
  · simp [mem_optional h]
  · simp [mem_optional h]

theorem flagWords_optional (c : Prop) [Decidable c] (args : List Bytes) (o : UInt8 × Bytes) :
    (if c then args ++ [[dash, o.1], o.2] else args) = args ++ flagWords (optional c o) := by
  unfold optional
  split_ifs
  · rfl
  · exact (List.append_nil _).symm

theorem addControlOptions_ok {args result : List Bytes} {options : SshOptions}
    (h : addControlOptions args options = .ok result) :
    result = args ++ flagWords (controlFlags options) := by
  unfold addControlOptions at h
  unfold controlFlags
  by_cases hpath : options.controlPath = []
  · rw [if_pos hpath, pure_ok] at h
    rw [if_pos hpath, ← h]
    exact (List.append_nil _).symm
  · rw [if_neg hpath] at h ⊢
    obtain ⟨controlPath, hquoted, h⟩ := bind_ok.mp h
    rw [pure_ok] at h
    rw [← h, quoteSshOptionValue_ok hquoted]
    simp only [addOption_eq, ← flagWords_append, List.append_assoc]
    rfl

theorem addKnownHosts_ok {args result : List Bytes} {client : ClientEntry}
    (h : addKnownHosts args client = .ok result) : result = args ++ flagWords
      (optional (client.knownHostsFile ≠ [])
        (111, ascii "UserKnownHostsFile=" ++ quoted client.knownHostsFile true)) := by
  unfold addKnownHosts at h
  rw [← flagWords_optional, ite_not]
  by_cases hknown : client.knownHostsFile = []
  · rw [if_pos hknown, pure_ok] at h
    rw [if_pos hknown, h]
  · rw [if_neg hknown] at h ⊢
    obtain ⟨knownHosts, hquoted, h⟩ := bind_ok.mp h
    rw [pure_ok] at h
    rw [← h, quoteSshOptionValue_ok hquoted]
    rfl

/-- The words of ssh: its options and its target. -/
theorem buildSshBaseArguments_ok {client : ClientEntry} {options : SshOptions} {args : List Bytes}
    (h : buildSshBaseArguments client options = .ok args) :
    args = ascii "ssh" :: (flagWords (flags client options) ++ [client.sshTarget]) := by
  obtain ⟨withControl, hcontrol, h⟩ := bind_ok.mp h
  obtain ⟨withHosts, hhosts, h⟩ := bind_ok.mp h
  rw [pure_ok] at h
  have hbatch := flagWords_optional (client.password = []) withHosts (111, ascii "BatchMode=yes")
  have hport := fun before =>
    flagWords_optional (client.port ≠ 22) before (112, natural client.port)
  have hidentity := fun before =>
    flagWords_optional (client.identityFile ≠ []) before (105, client.identityFile)
  have hargs : args = withHosts ++
      flagWords (optional (client.password = []) (111, ascii "BatchMode=yes")) ++
      flagWords [(111, ascii "ConnectTimeout=5")] ++
      flagWords [(111, ascii "ServerAliveInterval=15")] ++
      flagWords (optional (client.port ≠ 22) (112, natural client.port)) ++
      flagWords (optional (client.identityFile ≠ []) (105, client.identityFile)) ++
      [client.sshTarget] := by
    rw [← h, ← hidentity, ← hport, ← hbatch]
    rfl
  rw [hargs, addKnownHosts_ok hhosts, addControlOptions_ok hcontrol, flags]
  simp only [flagWords_append, List.append_assoc]
  rfl

theorem launcher_ok {client : ClientEntry} {passwordFd : Int} {args : List Bytes}
    (h : launcher client passwordFd = .ok args) :
    args = [] ∨ args = [ascii "sshpass", ascii "-d", integer passwordFd] := by
  unfold launcher at h
  split_ifs at h
  · exact .inl (pure_ok.mp h).symm
  · exact .inr (pure_ok.mp h).symm

/-! ## What ssh reads -/

/-- The user has a dash in front, or without a user the host. -/
def LeadingDash (client : ClientEntry) : Prop :=
  client.user.head? = some dash ∨ (client.user = [] ∧ client.host.head? = some dash)

instance decidable_leadingDash (client : ClientEntry) : Decidable (LeadingDash client) :=
  inferInstanceAs (Decidable (_ ∨ _))

theorem head_sshTarget (client : ClientEntry) :
    client.sshTarget.head? = some dash ↔ LeadingDash client := by
  unfold ClientEntry.sshTarget LeadingDash
  cases huser : client.user with
  | nil => simp
  | cons c rest => simp

theorem sshTarget_dash (client : ClientEntry) :
    client.sshTarget = [dash] ↔ client.user = [] ∧ client.host = [dash] := by
  unfold ClientEntry.sshTarget
  split_ifs with huser
  · exact (and_iff_right huser).symm
  · refine iff_of_false (fun h => huser ?_) fun h => huser h.1
    have hlength := congrArg List.length h
    simp only [List.length_append, List.length_singleton] at hlength
    exact List.eq_nil_of_length_eq_zero (by omega)

/-- What `getopt` reads of the words behind `ssh` is what was added, and then the target. -/
def ReadsBack (takes : UInt8 → Option Bool) (client : ClientEntry) (options : SshOptions)
    (words : List Bytes) (remoteCommand : Bytes) : Prop :=
  getopt dash takes words = some
    ((flags client options).map fun o => (o.1, some o.2), [client.sshTarget, remoteCommand])

/-- The options are read as they were added, and a target without a dash in front is left, unless
the user has one, or without a user the host. A host of one dash is the only other target
that is left. -/
theorem the_target_is_no_option_iff {client : ClientEntry} {remoteCommand : Bytes}
    {passwordFd : Int} {options : SshOptions} {args : List Bytes} {takes : UInt8 → Option Bool}
    (hargs : buildSshCommandArguments client remoteCommand passwordFd options = .ok args)
    (htakes : ∀ o ∈ ([111, 112, 105] : Bytes), takes o = some true) :
    ∃ front words, args = front ++ ascii "ssh" :: words ∧
      (front = [] ∨ front = [ascii "sshpass", ascii "-d", integer passwordFd]) ∧
      (ReadsBack takes client options words remoteCommand ∧ client.sshTarget.head? ≠ some dash ↔
        ¬ LeadingDash client) ∧
      (ReadsBack takes client options words remoteCommand ↔
        (LeadingDash client → client.user = [] ∧ client.host = [dash])) := by
  obtain ⟨front, hfront, hargs⟩ := bind_ok.mp hargs
  obtain ⟨sshArgs, hssh, hargs⟩ := bind_ok.mp hargs
  rw [pure_ok, buildSshBaseArguments_ok hssh, List.append_assoc, List.cons_append,
    List.append_assoc] at hargs
  have hflags : ∀ o ∈ flags client options, takes o.1 = some true ∧ o.1 ≠ dash := by
    intro o ho
    refine ⟨htakes _ (mem_flags ho), fun hdash => ?_⟩
    have hletter := mem_flags ho
    rw [hdash] at hletter
    exact absurd hletter (by decide)
  have hreads : ReadsBack takes client options
      (flagWords (flags client options) ++ [client.sshTarget, remoteCommand]) remoteCommand ↔
        (LeadingDash client → client.user = [] ∧ client.host = [dash]) := by
    rw [← head_sshTarget, ← sshTarget_dash]
    exact (getopt_options_iff hflags client.sshTarget [remoteCommand]).trans not_and_not_right
  refine ⟨front, _, hargs.symm, launcher_ok hfront, ?_, hreads⟩
  rw [← head_sshTarget]
  refine and_iff_right_of_imp fun hhead => hreads.mpr fun hdash => ?_
  exact absurd ((head_sshTarget client).mpr hdash) hhead

/-- The letters of ssh that take an argument, among the letters that it has. -/
def sshTakes (c : UInt8) : Option Bool :=
  if c ∈ ascii "BbcDEeFIiJLlmOoPpQRSWw" then some true
  else if c ∈ ascii "1246AaCfGgKkMNnqsTtVvXxYy" then some false
  else none

/-- A client with a user. -/
theorem a_user_is_no_option : ∃ client args front words,
    ClientConfig.parseEntry (ascii "root@h") = .ok client ∧
    buildSshCommandArguments client (ascii "id") 3 { controlPath := ascii "/c" } = .ok args ∧
    args = front ++ ascii "ssh" :: words ∧
    ReadsBack sshTakes client { controlPath := ascii "/c" } words (ascii "id") := by
  have hclient : ClientConfig.parseEntry (ascii "root@h") = .ok
      { raw := ascii "root@h", user := ascii "root", host := ascii "h" } := by decide
  have hargs : buildSshCommandArguments
      { raw := ascii "root@h", user := ascii "root", host := ascii "h" } (ascii "id") 3
      { controlPath := ascii "/c" } = .ok _ := rfl
  obtain ⟨front, words, heq, -, hiff, -⟩ := the_target_is_no_option_iff hargs
    (show ∀ o ∈ ([111, 112, 105] : Bytes), sshTakes o = some true by decide)
  exact ⟨_, _, front, words, hclient, hargs, heq, (hiff.mpr (by decide)).1⟩

/-- A host whose name `ssh` takes for an option. -/
def dashedHost : Host :=
  { name := ascii "-oProxyCommand=x", host := ascii "-oProxyCommand=x", groups := [ascii "g"] }

/-- A client whose user `ssh` takes for an option. -/
def dashedClient : ClientEntry :=
  { raw := ascii "-lroot@h", user := ascii "-lroot", host := ascii "h" }

/-- A host of an inventory that is an option of ssh, and a client whose user is. -/
theorem a_dash_makes_a_target_an_option :
    (inventory.parse (ascii "[g]\n-oProxyCommand=x\n") [] = .ok { hosts := [dashedHost] } ∧
      ∃ args, buildSshCommandArguments (toClientEntry dashedHost []) (ascii "id") (-1) {} =
        .ok args ∧
        getopt dash sshTakes args.tail = some
          (((flags (toClientEntry dashedHost []) {}).map fun o => (o.1, some o.2)) ++
            [(111, some (ascii "ProxyCommand=x"))], [ascii "id"])) ∧
    ClientConfig.parseEntry (ascii "-lroot@h") = .ok dashedClient ∧
      ∃ args, buildSshCommandArguments dashedClient (ascii "id") (-1) {} = .ok args ∧
        getopt dash sshTakes args.tail = some
          (((flags dashedClient {}).map fun o => (o.1, some o.2)) ++
            [(108, some (ascii "root@h"))], [ascii "id"]) :=
  ⟨⟨by decide, _, rfl, by decide⟩, by decide, _, rfl, by decide⟩

end psx.ssh
