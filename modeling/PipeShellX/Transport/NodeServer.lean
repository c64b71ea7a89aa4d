-- The node's server (node_server.cpp): a runner for each connection, all of them on one reactor. A
-- connection that fails is destroyed by a timer, and then its runner kills what still runs. So no
-- stage outlives its connection, and no connection sees what the others do.
import PipeShellX.Transport.NodeStageCalls
import Mathlib.Algebra.GroupWithZero.Nat

namespace psx.transport

open psx.os (ExitStatus)

namespace NodeStageRunner

/-- `runningStages`: the entries of the map. -/
def running (r : NodeStageRunner) : List StreamId := r.opened.filter fun id => (r.stages id).isSome

/-- What the destructor kills: the stages that were not reaped. -/
def killed (r : NodeStageRunner) : List StreamId :=
  r.opened.filter fun id => (r.stages id).any fun stage => !stage.exited

/-- What comes from the transport, which passes nothing on once it has failed. -/
def Input.isInbound : Input → Bool
  | .frame .. | .malformed | .ping => true
  | .readable .. | .stdinWritable .. | .stageExit .. => false

end NodeStageRunner

/-- `failed` is the flag of the transport. -/
structure Connection where
  runner : NodeStageRunner
  failed : Bool := false

namespace Connection

/-- A connection that was just accepted. -/
def new (validateCommand : Option (OpenRequest → Option Bytes)) (failed : Bool) : Connection :=
  { runner := .new kDefaultStreamWindow validateCommand, failed }

/-- Something happens at the runner, or the transport fails: its stream, the authorization, the
lease. -/
inductive Input
  | runs (input : NodeStageRunner.Input)
  | fails

/-- An error of the session is one of the transport. -/
def step (depth : Nat) (c : Connection) : Input → Connection
  | .runs input =>
    if c.failed && input.isInbound then c
    else
      let runner := c.runner.step depth input
      { runner, failed := c.failed || runner.session.protocolFailed }
  | .fails => { c with failed := true }

end Connection

/-- A connection that was destroyed: its runner as it was then, and what the destructor killed. -/
structure Gone where
  id : Nat
  runner : NodeStageRunner
  killed : List StreamId

/-- The connections of a node. -/
structure NodeServer where
  validateCommand : Option (OpenRequest → Option Bytes) := none
  connections : Nat → Option Connection := fun _ => none
  pendingRemoval : List Nat := []
  reapScheduled : Bool := false
  nextConnId : Nat := 1
  acceptedTotal : Nat := 0
  down : Bool := false
  gone : List Gone := []

namespace NodeServer

/-- The connections of the map. -/
def ids (s : NodeServer) : List Nat :=
  (List.range s.nextConnId).filter fun id => (s.connections id).isSome

/-- What a node counts. -/
structure Metrics where
  acceptedTotal : Nat
  activeConnections : Nat
  activeStages : Nat
  deriving DecidableEq

/-- What runs the stages of a connection. -/
def runnerOf (s : NodeServer) (id : Nat) : Option NodeStageRunner :=
  (s.connections id).map Connection.runner

/-- The counts. -/
def metrics (s : NodeServer) : Metrics where
  acceptedTotal := s.acceptedTotal
  activeConnections := s.ids.length
  activeStages := (s.ids.map fun id => ((s.runnerOf id).map fun r => r.running.length).getD 0).sum

/-! ## What can happen -/

/-- The connection stays until the timer: its own callback is still running. -/
def dropConnection (s : NodeServer) (id : Nat) : NodeServer :=
  { s with pendingRemoval := s.pendingRemoval ++ [id], reapScheduled := true }

/-- `secured` says that the TLS engine could be made, `early` that the start calls `onError`, and
`started` that it returns no error. Otherwise the connection is dropped at once. -/
def acceptOne (s : NodeServer) (secured early started : Bool) : NodeServer :=
  if !secured then s
  else
    let id := s.nextConnId
    let s := { s with nextConnId := id + 1 }
    let s := if early then s.dropConnection id else s
    if !started then s
    else
      { s with
        connections := Function.update s.connections id (some (.new s.validateCommand early))
        acceptedTotal := s.acceptedTotal + 1 }

/-- The callback `onError` comes with the failure, and only once. -/
def put (s : NodeServer) (id : Nat) (before after : Connection) : NodeServer :=
  let s := { s with connections := Function.update s.connections id (some after) }
  if !before.failed && after.failed then s.dropConnection id else s

/-- A connection is taken down. -/
def destroy (s : NodeServer) (id : Nat) : NodeServer :=
  match s.connections id with
  | none => s
  | some c =>
    { s with
      connections := Function.update s.connections id none
      gone := s.gone ++ [⟨id, c.runner, c.runner.killed⟩] }

/-- The connections that are over are taken down. -/
def reap (s : NodeServer) : NodeServer :=
  s.pendingRemoval.foldl destroy { s with reapScheduled := false, pendingRemoval := [] }

/-- The destructor cancels the timer, and then the connections of the map go. -/
def shutdown (s : NodeServer) : NodeServer :=
  s.ids.foldl destroy
    { s with reapScheduled := false, pendingRemoval := [], down := true }

/-- A peer connects; something happens to a connection; the timer of the reap fires; the daemon
ends. -/
inductive Input
  | accept (secured early started : Bool)
  | on (id : Nat) (input : Connection.Input)
  | reap
  | shutdown

/-- One step of a node. -/
def step (depth : Nat) (s : NodeServer) (input : Input) : NodeServer :=
  if s.down then s
  else
    match input with
    | .accept secured early started => s.acceptOne secured early started
    | .on id input =>
      match s.connections id with
      | none => s
      | some c => s.put id c (c.step depth input)
    | .reap => if s.reapScheduled then s.reap else s
    | .shutdown => s.shutdown

/-- A whole run of a node. -/
def run (depth : Nat) (validateCommand : Option (OpenRequest → Option Bytes))
    (inputs : List Input) :
    NodeServer := inputs.foldl (step depth) { validateCommand }

end NodeServer

/-! ## What a runner's destructor kills -/

namespace NodeStageRunner

variable {r : NodeStageRunner} {W : UInt32} {id : StreamId}

theorem ledger_reaped {log : List Event} :
    (ledger id log).reaped = true ↔ ∃ status, .reaped id status ∈ log := by
  induction log using List.reverseRecOn with
  | nil => simp
  | append_singleton log e ih =>
    simp only [ledger_snoc, List.mem_append, List.mem_singleton, exists_or, ← ih]
    rw [apply_ite Ledger.reaped]
    cases e with
    | session e => cases e <;> simp
    | reaped j status =>
      by_cases hj : j = id
      · simp [Event.stage, hj]
      · simp [Event.stage, hj, Ne.symm hj]
    | _ => simp

theorem Sound.opened_nodup (h : r.Sound W) : r.opened.Nodup := by
  have hopens := h.inv.session.1.opens.1
  rw [h.inv.session.2.1] at hopens
  apply List.Nodup.of_map UInt32.toNat
  rw [opened, hopens]
  exact List.nodup_range'

/-- The entries of the map are the stages that were started and whose EXIT was not sent. -/
theorem Sound.mem_running (h : r.Sound W) :
    id ∈ r.running ↔ Started id r.log ∧ ∀ status, .exitSent id status ∉ r.log := by
  have hcase := h.inv.stages id
  rw [running, List.mem_filter, ← ledger_started]
  simp only [← mem_exits]
  generalize hstream : r.session.streams id = stream at hcase
  generalize hstage : r.stages id = stage at hcase
  cases hcase with
  | unstarted hnot => simp [hnot]
  | running hrun =>
    have hopened := h.inv.opened_of_stream hstream
    simp [hopened, hrun.started, hrun.exits]
  | finished hfinished =>
    obtain ⟨status, hexits⟩ := hfinished.exits
    simp only [hexits, List.mem_singleton, Option.isSome_none, Bool.false_eq_true,
      and_false, false_iff,
      not_and, not_forall, not_not]
    exact fun _ => ⟨status, rfl⟩

/-- The EXIT of a stage comes behind its start, so behind its reap. -/
theorem Sound.reaped_of_exit (h : r.Sound W) {status : ExitStatus} (hstarted : Started id r.log)
    (hexit : .exitSent id status ∈ r.log) : .reaped id status ∈ r.log := by
  obtain ⟨pre, post, hlog⟩ := List.append_of_mem hexit
  have hmem : .reaped id status ∈ pre := by
    apply (h.trail.lawful pre _ post hlog).1
    rw [hlog] at hstarted
    rcases started_append.mp hstarted with hpre | hpost
    · exact hpre
    · obtain ⟨request, hlater⟩ := (started_cons.mp hpost).resolve_left (by simp)
      obtain ⟨a, b, rfl⟩ := List.append_of_mem hlater
      have hquiet := (h.trail.lawful (pre ++ .exitSent id status :: a) (.started id request) b
        (by simp [hlog])).1 status
      simp at hquiet
  rw [hlog]
  exact List.mem_append_left _ hmem

/-- What the destructor kills are the stages that were started and not reaped. -/
theorem Sound.mem_killed (h : r.Sound W) :
    id ∈ r.killed ↔ Started id r.log ∧ ∀ status, .reaped id status ∉ r.log := by
  have hcase := h.inv.stages id
  have hreaped := @ledger_reaped id r.log
  have hstarted := @ledger_started id r.log
  rw [killed, List.mem_filter]
  generalize hstream : r.session.streams id = stream at hcase
  generalize hstage : r.stages id = stage at hcase
  cases hcase with
  | unstarted hnot => simp [← hstarted, hnot]
  | @running stream stage _ hrun =>
    have hopened := h.inv.opened_of_stream hstream
    rw [hrun.reaped] at hreaped
    rw [← not_exists, ← hreaped]
    simp [hopened, ← hstarted, hrun.started]
  | finished hfinished =>
    obtain ⟨status, hexits⟩ := hfinished.exits
    have hin : Started id r.log := hstarted.mp hfinished.started
    have hexit : .exitSent id status ∈ r.log := by
      rw [← mem_exits, hexits]
      exact List.mem_singleton_self status
    simp only [Option.any_none, Bool.false_eq_true, and_false, false_iff, not_and,
      not_forall, not_not]
    exact fun _ => ⟨status, h.reaped_of_exit hin hexit⟩

theorem Sound.running_nodup (h : r.Sound W) : r.running.Nodup := h.opened_nodup.filter _

theorem Sound.killed_nodup (h : r.Sound W) : r.killed.Nodup := h.opened_nodup.filter _

end NodeStageRunner

/-! ## One connection -/

namespace Connection

variable {depth : Nat} {c : Connection}

/-- What happens at the runner of a connection, as far as its transport passes it on. -/
theorem step_cases (depth : Nat) (c : Connection) (input : Input) :
    ((c.step depth input).runner = c.runner ∨
      ∃ taken, input = .runs taken ∧ (c.step depth input).runner = c.runner.step depth taken) ∧
    (c.failed = true → (c.step depth input).failed = true) := by
  cases input with
  | runs taken =>
    unfold step
    dsimp only
    split
    · exact ⟨.inl rfl, id⟩
    · exact ⟨.inr ⟨taken, rfl, rfl⟩, fun hfailed => by simp [hfailed]⟩
  | fails => exact ⟨.inl rfl, fun _ => rfl⟩

/-- What the runner of a connection takes are some of its inputs, in their order. -/
theorem runner_history (depth : Nat) (validateCommand : Option (OpenRequest → Option Bytes))
    (failed : Bool) (inputs : List Input) : ∃ taken, (taken.map Input.runs).Sublist inputs ∧
      (inputs.foldl (step depth) (.new validateCommand failed)).runner =
        NodeStageRunner.history depth kDefaultStreamWindow validateCommand taken := by
  induction inputs using List.reverseRecOn with
  | nil => exact ⟨[], List.Sublist.refl _, rfl⟩
  | append_singleton inputs input ih =>
    obtain ⟨taken, hsub, hrunner⟩ := ih
    rw [List.foldl_append, List.foldl_cons, List.foldl_nil]
    rcases (step_cases depth (inputs.foldl (step depth) (.new validateCommand failed)) input).1 with
      hsame | ⟨last, rfl, hnext⟩
    · refine ⟨taken, ?_, hsame.trans hrunner⟩
      exact hsub.trans (List.sublist_append_left _ _)
    · refine ⟨taken ++ [last], ?_, ?_⟩
      · rw [List.map_append]
        exact hsub.append (List.Sublist.refl _)
      · rw [hnext, hrunner, NodeStageRunner.history, NodeStageRunner.history, List.foldl_append]
        rfl

end Connection

/-! ## One step of the server -/

namespace NodeServer

variable {depth : Nat} {validateCommand : Option (OpenRequest → Option Bytes)} {s : NodeServer}

theorem update_none {id : Nat} (h : s.connections id = none) :
    Function.update s.connections id none = s.connections := by
  rw [← h, Function.update_eq_self]

theorem destroy_spec (s : NodeServer) (id : Nat) : s.destroy id =
    { s with
      connections := Function.update s.connections id none
      gone := s.gone ++ ((s.connections id).map fun c => ⟨id, c.runner,
        c.runner.killed⟩).toList } := by
  unfold destroy
  split
  · rename_i hnone
    rw [update_none hnone, hnone]
    simp
  · rename_i c hsome
    rw [hsome]
    rfl

theorem foldl_destroy (s : NodeServer) (l : List Nat) :
    ∃ more, l.foldl destroy s =
      { s with
        connections := fun id => if id ∈ l then none else s.connections id
        gone := s.gone ++ more } := by
  induction l generalizing s with
  | nil => exact ⟨[], by simp⟩
  | cons id l ih =>
    obtain ⟨more, hmore⟩ := ih (s.destroy id)
    rw [List.foldl_cons, hmore, destroy_spec]
    refine ⟨((s.connections id).map fun c => ⟨id, c.runner, c.runner.killed⟩).toList ++ more, ?_⟩
    simp only [List.append_assoc]
    congr 1
    funext j
    by_cases hj : j = id
    · simp [hj]
    · simp [hj]

/-- What was given to a connection. -/
def toConnection (id : Nat) : Input → Option Connection.Input
  | .on other input => if other = id then some input else none
  | _ => none

/-- What happens to one connection. -/
def own (id : Nat) (inputs : List Input) : List Connection.Input :=
  inputs.filterMap (toConnection id)

/-- The connection that was accepted with this number, after its own inputs. -/
def Lives (depth : Nat) (validateCommand : Option (OpenRequest → Option Bytes))
    (inputs : List Input) (id : Nat) (c : Connection) : Prop :=
  ∃ pre early post, inputs = pre ++ .accept true early true :: post ∧
    (run depth validateCommand pre).nextConnId = id ∧
    c = (own id post).foldl (Connection.step depth) (.new validateCommand early)

/-- The connection was destroyed when only some of the inputs had come. -/
def Lived (depth : Nat) (validateCommand : Option (OpenRequest → Option Bytes))
    (inputs : List Input) (g : Gone) : Prop :=
  ∃ before c, before <+: inputs ∧ Lives depth validateCommand before g.id c ∧ g.runner = c.runner ∧
    g.killed = c.runner.killed

theorem Lived.mono {inputs more : List Input} {g : Gone}
    (h : Lived depth validateCommand inputs g) :
    Lived depth validateCommand (inputs ++ more) g := by
  obtain ⟨before, c, hprefix, hrest⟩ := h
  exact ⟨before, c, hprefix.trans (List.prefix_append _ _), hrest⟩

theorem Lives.aside {inputs : List Input} {id : Nat} {c : Connection} {input : Input}
    (h : Lives depth validateCommand inputs id c) (hnot : toConnection id input = none) :
    Lives depth validateCommand (inputs ++ [input]) id c := by
  obtain ⟨pre, early, post, rfl, hid, rfl⟩ := h
  refine ⟨pre, early, post ++ [input], by simp, hid, ?_⟩
  simp [own, hnot]

theorem Lives.on {inputs : List Input} {id : Nat} {c : Connection}
    (h : Lives depth validateCommand inputs id c) (input : Connection.Input) :
    Lives depth validateCommand (inputs ++ [.on id input]) id (c.step depth input) := by
  obtain ⟨pre, early, post, rfl, hid, rfl⟩ := h
  refine ⟨pre, early, post ++ [.on id input], by simp, hid, ?_⟩
  simp [own, toConnection]

/-! ## The invariant -/

/-- The books: each connection is a run of its own, in the map or gone. -/
structure Books (depth : Nat) (validateCommand : Option (OpenRequest → Option Bytes))
    (inputs : List Input) (s : NodeServer) : Prop where
  validator : s.validateCommand = validateCommand
  fresh : ∀ id, s.nextConnId ≤ id → s.connections id = none
  live : ∀ id c, s.connections id = some c → Lives depth validateCommand inputs id c
  lived : ∀ g ∈ s.gone, Lived depth validateCommand inputs g
  apart : ∀ g ∈ s.gone, g.id < s.nextConnId ∧ s.connections g.id = none
  once : (s.gone.map Gone.id).Nodup
  accepted : s.acceptedTotal = s.ids.length + s.gone.length

theorem mem_ids (hfresh : ∀ id, s.nextConnId ≤ id → s.connections id = none) {id : Nat} :
    id ∈ s.ids ↔ s.connections id ≠ none := by
  rw [ids, List.mem_filter, List.mem_range, Option.isSome_iff_ne_none]
  refine ⟨And.right, fun hne => ⟨?_, hne⟩⟩
  by_contra hge
  exact hne (hfresh id (Nat.le_of_not_lt hge))

theorem ids_nodup (s : NodeServer) : s.ids.Nodup := List.nodup_range.filter _

theorem Books.destroy {inputs : List Input} (h : Books depth validateCommand inputs s) (id : Nat) :
    Books depth validateCommand inputs (s.destroy id) := by
  rw [destroy_spec]
  cases hc : s.connections id with
  | none =>
    rw [update_none hc]
    simpa using h
  | some c =>
    have hfresh : ∀ j, s.nextConnId ≤ j → Function.update s.connections id none j = none := by
      intro j hj
      by_cases hji : j = id
      · simp [hji]
      · simp [hji, h.fresh j hj]
    have hlt : id < s.nextConnId := by
      by_contra hge
      rw [h.fresh id (Nat.le_of_not_lt hge)] at hc
      cases hc
    refine ⟨h.validator, hfresh, fun j d hd => ?_, fun g hg => ?_, fun g hg => ?_, ?_, ?_⟩
    · by_cases hji : j = id
      · simp [hji] at hd
      · exact h.live j d (by simpa [hji] using hd)
    · rcases List.mem_append.mp hg with hold | hnew
      · exact h.lived g hold
      · obtain rfl : g = ⟨id, c.runner, c.runner.killed⟩ := by simpa using hnew
        exact ⟨inputs, c, List.prefix_refl _, h.live id c hc, rfl, rfl⟩
    · rcases List.mem_append.mp hg with hold | hnew
      · obtain ⟨hbelow, hnone⟩ := h.apart g hold
        refine ⟨hbelow, ?_⟩
        by_cases hgi : g.id = id
        · simp [hgi]
        · simp [hgi, hnone]
      · obtain rfl : g = ⟨id, c.runner, c.runner.killed⟩ := by simpa using hnew
        simp [hlt]
    · have hnot : id ∉ s.gone.map Gone.id := by
        intro hin
        obtain ⟨g, hg, rfl⟩ := List.mem_map.mp hin
        rw [(h.apart g hg).2] at hc
        cases hc
      simpa [List.nodup_append, h.once] using hnot
    · have hperm : s.ids.Perm
          (id :: ({ s with connections := Function.update s.connections id none } :
          NodeServer).ids) := by
        rw [List.perm_ext_iff_of_nodup s.ids_nodup]
        · intro j
          rw [mem_ids h.fresh, List.mem_cons, mem_ids hfresh]
          by_cases hji : j = id
          · simp [hji, hc]
          · simp [hji]
        · rw [List.nodup_cons, mem_ids hfresh]
          exact ⟨by simp, ids_nodup _⟩
      have hlength := hperm.length_eq
      have haccepted := h.accepted
      simp only [List.length_cons] at hlength
      change s.acceptedTotal = _ + (s.gone ++ [_]).length
      simp only [List.length_append, List.length_singleton]
      change s.acceptedTotal = ({ s with connections := Function.update s.connections id none } :
        NodeServer).ids.length + _
      omega

theorem Books.destroyAll {inputs : List Input} (h : Books depth validateCommand inputs s)
    (l : List Nat) :
    Books depth validateCommand inputs (l.foldl NodeServer.destroy s) := by
  induction l generalizing s with
  | nil => exact h
  | cons id l ih => exact ih (h.destroy id)

section

variable {inputs : List Input}

/-- The flags are none of the books. -/
theorem Books.flagged (h : Books depth validateCommand inputs s) (pendingRemoval : List Nat)
    (reapScheduled down : Bool) :
    Books depth validateCommand inputs { s with pendingRemoval, reapScheduled, down } :=
  ⟨h.validator, h.fresh, h.live, h.lived, h.apart, h.once, h.accepted⟩

/-- An input that no connection takes. -/
theorem Books.aside (h : Books depth validateCommand inputs s) (input : Input)
    (hnot : ∀ id c, s.connections id = some c → toConnection id input = none) :
    Books depth validateCommand (inputs ++ [input]) s :=
  { h with
    live := fun id c hc => (h.live id c hc).aside (hnot id c hc)
    lived := fun g hg => (h.lived g hg).mono }

/-- A number that no connection got. -/
theorem Books.skip (h : Books depth validateCommand inputs s) :
    Books depth validateCommand inputs { s with nextConnId := s.nextConnId + 1 } := by
  have hids : ({ s with nextConnId := s.nextConnId + 1 } : NodeServer).ids = s.ids := by
    simp [ids, List.range_succ, h.fresh s.nextConnId (Nat.le_refl _)]
  refine { h with
           fresh := fun id hid => h.fresh id (by dsimp only at hid; omega), apart := fun g hg => ?_,
           accepted := ?_ }
  · obtain ⟨hlt, hnone⟩ := h.apart g hg
    exact ⟨Nat.lt_succ_of_lt hlt, hnone⟩
  · rw [hids]
    exact h.accepted

theorem Books.emplace (h : Books depth validateCommand inputs s) {c : Connection}
    (hlives : Lives depth validateCommand inputs s.nextConnId c) :
    Books depth validateCommand inputs
      { s with
        nextConnId := s.nextConnId + 1
        connections := Function.update s.connections s.nextConnId (some c)
        acceptedTotal := s.acceptedTotal + 1 } := by
  have hother : ∀ id, id ≠ s.nextConnId →
      Function.update s.connections s.nextConnId (some c) id = s.connections id :=
    fun id hid => Function.update_of_ne hid _ _
  refine ⟨h.validator, fun id hid => ?_, fun id d hd => ?_, h.lived, fun g hg => ?_, h.once, ?_⟩
  · dsimp only at hid ⊢
    rw [hother id (by omega)]
    exact h.fresh id (by omega)
  · by_cases hid : id = s.nextConnId
    · subst hid
      dsimp only at hd
      rw [Function.update_self] at hd
      rw [← Option.some.inj hd]
      exact hlives
    · apply h.live id d
      rw [← hother id hid]
      exact hd
  · obtain ⟨hlt, hnone⟩ := h.apart g hg
    refine ⟨Nat.lt_succ_of_lt hlt, ?_⟩
    dsimp only
    rw [hother g.id (by omega)]
    exact hnone
  · have hsame : (List.range s.nextConnId).filter (fun id =>
        (Function.update s.connections s.nextConnId (some c) id).isSome) = s.ids := by
      apply List.filter_congr
      intro id hid
      rw [hother id (Nat.ne_of_lt (List.mem_range.mp hid))]
    have hids : ({ s with
        nextConnId := s.nextConnId + 1
        connections := Function.update s.connections s.nextConnId (some c) } : NodeServer).ids =
        s.ids ++ [s.nextConnId] := by
      rw [ids]
      dsimp only
      rw [List.range_succ, List.filter_append, hsame]
      simp
    have haccepted := h.accepted
    change s.acceptedTotal + 1 = ({ s with
      nextConnId := s.nextConnId + 1
      connections := Function.update s.connections s.nextConnId (some c) } :
        NodeServer).ids.length +
        s.gone.length
    rw [hids, List.length_append, List.length_singleton]
    omega

/-- Something happened to one connection. -/
theorem Books.on (h : Books depth validateCommand inputs s) {id : Nat} {c : Connection}
    (hc : s.connections id = some c) (input : Connection.Input) :
    Books depth validateCommand (inputs ++ [.on id input])
      { s with connections := Function.update s.connections id (some (c.step depth input)) } := by
  have hnone : ∀ j, Function.update s.connections id (some (c.step depth input)) j = none ↔
      s.connections j = none := by
    intro j
    by_cases hj : j = id
    · simp [hj, hc]
    · simp [hj]
  have hids :
      ({ s with connections := Function.update s.connections id (some (c.step depth input)) } :
      NodeServer).ids = s.ids := by
    apply List.filter_congr
    intro j _
    dsimp only
    rw [Bool.eq_iff_iff, Option.isSome_iff_ne_none, Option.isSome_iff_ne_none, Ne, hnone]
  refine ⟨h.validator, fun j hj => (hnone j).mpr (h.fresh j hj), fun j d hd => ?_,
    fun g hg => (h.lived g hg).mono, fun g hg => ?_, h.once, ?_⟩
  · by_cases hj : j = id
    · subst hj
      dsimp only at hd
      rw [Function.update_self] at hd
      rw [← Option.some.inj hd]
      exact (h.live j c hc).on input
    · dsimp only at hd
      rw [Function.update_of_ne hj] at hd
      apply (h.live j d hd).aside
      simp [toConnection, Ne.symm hj]
  · obtain ⟨hlt, hgone⟩ := h.apart g hg
    exact ⟨hlt, (hnone g.id).mpr hgone⟩
  · rw [hids]
    exact h.accepted

/-- The connections that failed are on the list, and while there are some the timer is set. -/
structure Tidy (s : NodeServer) : Prop where
  pending : ∀ id c, s.connections id = some c → (c.failed = true ↔ id ∈ s.pendingRemoval)
  known : ∀ id ∈ s.pendingRemoval, id < s.nextConnId
  scheduled : s.pendingRemoval ≠ [] → s.reapScheduled = true
  down : s.down = true → ∀ id, s.connections id = none

end

theorem Tidy.put (h : Tidy s) {id : Nat} {before after : Connection}
    (hc : s.connections id = some before)
    (hid : id < s.nextConnId) (hstays : before.failed = true → after.failed = true) :
    Tidy (s.put id before after) := by
  have hdown : ∀ {P : Prop}, s.down = true → P := by
    intro P hd
    have hnone := h.down hd id
    rw [hc] at hnone
    cases hnone
  have hbefore := h.pending id before hc
  unfold NodeServer.put
  dsimp only
  split
  · rename_i hfails
    rw [Bool.and_eq_true, Bool.not_eq_true'] at hfails
    refine ⟨fun j d hd => ?_, fun j hj => ?_, fun _ => rfl, hdown⟩
    · simp only [dropConnection, List.mem_append, List.mem_singleton] at hd ⊢
      by_cases hj : j = id
      · subst hj
        rw [Function.update_self] at hd
        rw [← Option.some.inj hd]
        simp [hfails.2]
      · rw [Function.update_of_ne hj] at hd
        rw [h.pending j d hd]
        simp [hj]
    · rcases List.mem_append.mp hj with hold | hnew
      · exact h.known j hold
      · rw [List.mem_singleton.mp hnew]
        exact hid
  · rename_i hquiet
    refine ⟨fun j d hd => ?_, h.known, h.scheduled, hdown⟩
    dsimp only at hd ⊢
    by_cases hj : j = id
    · subst hj
      rw [Function.update_self] at hd
      rw [← Option.some.inj hd, ← hbefore]
      refine ⟨fun hafter => ?_, hstays⟩
      simpa [hafter] using hquiet
    · rw [Function.update_of_ne hj] at hd
      exact h.pending j d hd

/-- A new connection is on the list when its start failed. -/
theorem Tidy.accept (h : Tidy s) (hup : s.down = false) (hfresh : s.connections s.nextConnId = none)
    (secured early started : Bool) : Tidy (s.acceptOne secured early started) := by
  have hdown : ∀ {P : Prop}, s.down = true → P := by
    intro P hd
    rw [hup] at hd
    cases hd
  have hother : ∀ {id : Nat} {c : Connection}, s.connections id = some c → id ≠ s.nextConnId := by
    rintro id c hc rfl
    rw [hfresh] at hc
    cases hc
  have hnew : s.nextConnId ∉ s.pendingRemoval := fun hin => Nat.lt_irrefl _ (h.known _ hin)
  have hdropped : ∀ {l : List Nat}, (∀ id ∈ l, id < s.nextConnId) →
      ∀ id ∈ l ++ [s.nextConnId], id < s.nextConnId + 1 := by
    intro l hl id hid
    rcases List.mem_append.mp hid with hold | hlast
    · exact Nat.lt_succ_of_lt (hl id hold)
    · rw [List.mem_singleton.mp hlast]
      exact Nat.lt_succ_self _
  unfold acceptOne
  cases secured with
  | false => exact h
  | true =>
    cases early <;> cases started
    · exact ⟨h.pending, fun id hid => Nat.lt_succ_of_lt (h.known id hid), h.scheduled, hdown⟩
    · refine ⟨fun id c hc => ?_, fun id hid => Nat.lt_succ_of_lt (h.known id hid),
        h.scheduled, hdown⟩
      by_cases hid : id = s.nextConnId
      · subst hid
        simp only [Bool.not_true, Bool.false_eq_true, if_false, Function.update_self] at hc
        rw [← Option.some.inj hc]
        simp [Connection.new, hnew]
      · apply h.pending id c
        simpa [hid] using hc
    · refine ⟨fun id c hc => ?_, hdropped h.known, fun _ => rfl, hdown⟩
      have hold : s.connections id = some c := by simpa [dropConnection] using hc
      rw [h.pending id c hold]
      simp [dropConnection, hother hold]
    · refine ⟨fun id c hc => ?_, hdropped h.known, fun _ => rfl, hdown⟩
      by_cases hid : id = s.nextConnId
      · subst hid
        simp only [Bool.not_true, Bool.false_eq_true, if_false, if_true, Function.update_self] at hc
        rw [← Option.some.inj hc]
        simp [Connection.new, dropConnection]
      · have hold : s.connections id = some c := by simpa [dropConnection, hid] using hc
        rw [h.pending id c hold]
        simp [dropConnection, hid]

theorem reap_spec (s : NodeServer) : ∃ more, s.reap =
    { s with
      connections := fun id => if id ∈ s.pendingRemoval then none else s.connections id
      pendingRemoval := []
      reapScheduled := false
      gone := s.gone ++ more } := by
  obtain ⟨more, hmore⟩ :=
    foldl_destroy { s with reapScheduled := false, pendingRemoval := [] } s.pendingRemoval
  exact ⟨more, hmore⟩

theorem Tidy.reap (h : Tidy s) : Tidy s.reap := by
  obtain ⟨more, hmore⟩ := reap_spec s
  rw [hmore]
  refine ⟨fun id c hc => ?_, by simp, by simp, fun hdown id => ?_⟩
  · dsimp only at hc ⊢
    split at hc
    · cases hc
    · rename_i hid
      simp [h.pending id c hc, hid]
  · dsimp only
    rw [h.down hdown, ite_self]

theorem shutdown_connections (hfresh : ∀ id, s.nextConnId ≤ id → s.connections id = none)
    (id : Nat) :
    s.shutdown.connections id = none := by
  obtain ⟨more, hmore⟩ := foldl_destroy
    { s with reapScheduled := false, pendingRemoval := [], down := true } s.ids
  rw [shutdown, hmore]
  dsimp only
  split
  · rfl
  · rename_i hid
    simpa [mem_ids hfresh] using hid

theorem Tidy.shutdown (hfresh : ∀ id, s.nextConnId ≤ id → s.connections id = none) :
    Tidy s.shutdown := by
  have hnone := shutdown_connections hfresh
  obtain ⟨more, hmore⟩ := foldl_destroy
    { s with reapScheduled := false, pendingRemoval := [], down := true } s.ids
  refine ⟨fun id c hc => ?_, ?_, ?_, fun _ => hnone⟩
  · rw [hnone] at hc
    cases hc
  · rw [NodeServer.shutdown, hmore]
    simp
  · rw [NodeServer.shutdown, hmore]
    simp

/-! ## Runs -/

theorem books_accept {inputs : List Input}
    (h : Books depth validateCommand inputs (run depth validateCommand inputs))
    (secured early started : Bool) :
    Books depth validateCommand (inputs ++ [.accept secured early started])
      ((run depth validateCommand inputs).acceptOne secured early started) := by
  have haside := h.aside (.accept secured early started) fun _ _ _ => rfl
  unfold acceptOne
  cases secured with
  | false => exact haside
  | true =>
    cases started with
    | false =>
      cases early
      · exact haside.skip
      · exact haside.skip.flagged _ _ _
    | true =>
      have hlives : Lives depth validateCommand (inputs ++ [.accept true early true])
          (run depth validateCommand inputs).nextConnId
          (.new (run depth validateCommand inputs).validateCommand early) := by
        rw [h.validator]
        exact ⟨inputs, early, [], rfl, rfl, rfl⟩
      cases early
      · exact haside.emplace hlives
      · exact (haside.emplace hlives).flagged _ _ _

theorem run_sound (depth : Nat) (validateCommand : Option (OpenRequest → Option Bytes))
    (inputs : List Input) :
    Books depth validateCommand inputs (run depth validateCommand inputs) ∧
      Tidy (run depth validateCommand inputs) := by
  induction inputs using List.reverseRecOn with
  | nil =>
    refine ⟨⟨rfl, fun _ _ => rfl, ?_, ?_, ?_, List.nodup_nil, rfl⟩, ⟨?_, ?_, ?_, ?_⟩⟩ <;> simp [run]
  | append_singleton inputs input ih =>
    obtain ⟨hbooks, htidy⟩ := ih
    have hrun : run depth validateCommand (inputs ++ [input]) =
        (run depth validateCommand inputs).step depth input := by
      simp [run]
    rw [hrun]
    generalize hs : run depth validateCommand inputs = s at *
    unfold step
    cases hup : s.down with
    | true =>
      refine ⟨hbooks.aside _ fun id c hc => ?_, htidy⟩
      rw [htidy.down hup] at hc
      cases hc
    | false =>
      rw [if_neg Bool.false_ne_true]
      cases input with
      | accept secured early started =>
        subst hs
        refine ⟨books_accept hbooks secured early started, ?_⟩
        exact htidy.accept hup (hbooks.fresh _ (Nat.le_refl _)) secured early started
      | on id input =>
        dsimp only
        split
        · rename_i hnone
          refine ⟨hbooks.aside _ fun j c hc => ?_, htidy⟩
          have hne : id ≠ j := by
            rintro rfl
            rw [hnone] at hc
            cases hc
          simp [toConnection, hne]
        · rename_i c hc
          have hid : id < s.nextConnId := by
            by_contra hge
            rw [hbooks.fresh id (Nat.le_of_not_lt hge)] at hc
            cases hc
          refine ⟨?_, htidy.put hc hid (Connection.step_cases depth c input).2⟩
          have hon := hbooks.on hc input
          unfold put
          dsimp only
          split
          · exact hon.flagged _ _ _
          · exact hon
      | reap =>
        have haside := hbooks.aside .reap fun _ _ _ => rfl
        dsimp only
        split
        · exact ⟨(haside.flagged [] false s.down).destroyAll s.pendingRemoval, htidy.reap⟩
        · exact ⟨haside, htidy⟩
      | shutdown =>
        have haside := hbooks.aside .shutdown fun _ _ _ => rfl
        exact ⟨(haside.flagged [] false true).destroyAll s.ids, Tidy.shutdown hbooks.fresh⟩

/-- The runner of a connection, in the map or gone, is a node's on its own. -/
theorem Lives.sound {inputs : List Input} {id : Nat} {c : Connection}
    (h : Lives depth validateCommand inputs id c) : c.runner.Sound kDefaultStreamWindow := by
  obtain ⟨pre, early, post, -, -, rfl⟩ := h
  obtain ⟨taken, -, hrunner⟩ := Connection.runner_history depth validateCommand early (own id post)
  rw [hrunner]
  exact NodeStageRunner.sound_history depth kDefaultStreamWindow validateCommand taken

/-- When a connection is destroyed, the stages that it started and that were not reaped are killed,
and no others. A connection that failed is destroyed when the timer fires, which is set, and nothing
else is then; when the daemon ends, all of them are. None is destroyed twice. -/
theorem no_stage_outlives_its_connection (depth : Nat)
    (validateCommand : Option (OpenRequest → Option Bytes)) (inputs : List Input) :
    let s := run depth validateCommand inputs
    (∀ g ∈ s.gone, g.killed.Nodup ∧ ∀ stream, stream ∈ g.killed ↔
      NodeStageRunner.Started stream g.runner.log ∧ ∀ status,
        .reaped stream status ∉ g.runner.log) ∧
    ((s.gone.map Gone.id).Nodup ∧ ∀ g ∈ s.gone, s.connections g.id = none) ∧
    (∀ id c, s.connections id = some c → c.failed = true → s.reapScheduled = true) ∧
    (s.reapScheduled = true → ∀ id,
      (s.step depth .reap).connections id = (s.connections id).filter fun c => !c.failed) ∧
    ∀ id, (s.step depth .shutdown).connections id = none := by
  intro s
  obtain ⟨hbooks, htidy⟩ := run_sound depth validateCommand inputs
  refine ⟨fun g hg => ?_, ⟨hbooks.once, fun g hg => (hbooks.apart g hg).2⟩,
    fun id c hc hfailed => ?_,
    fun hscheduled id => ?_, fun id => ?_⟩
  · obtain ⟨before, c, -, hlives, hrunner, hkilled⟩ := hbooks.lived g hg
    have hsound := hlives.sound
    rw [hkilled, hrunner]
    exact ⟨hsound.killed_nodup, fun stream => hsound.mem_killed⟩
  · apply htidy.scheduled
    apply List.ne_nil_of_mem
    exact (htidy.pending id c hc).mp hfailed
  · cases hup : s.down with
    | true =>
      have hnone := htidy.down hup
      simp [step, s, hup, hnone]
    | false =>
      obtain ⟨more, hmore⟩ := reap_spec s
      have hreap : s.step depth .reap = s.reap := by simp [step, hup, hscheduled]
      rw [hreap, hmore]
      dsimp only
      cases hc : s.connections id with
      | none => simp
      | some c =>
        have hpending := htidy.pending id c hc
        by_cases hfailed : c.failed = true
        · rw [if_pos (hpending.mp hfailed), Option.filter_some, hfailed]
          rfl
        · rw [if_neg (mt hpending.mpr hfailed), Option.filter_some, Bool.eq_false_iff.mpr hfailed]
          rfl
  · cases hup : s.down with
    | true =>
      have hnone := htidy.down hup
      simp [step, s, hup, hnone]
    | false =>
      have hshutdown : s.step depth .shutdown = s.shutdown := by simp [step, hup]
      rw [hshutdown]
      exact shutdown_connections hbooks.fresh id

/-- The metrics: each accepted connection is active or gone, and the active stages are those of the
active connections that were started and whose EXIT was not sent. -/
theorem the_metrics_add_up (depth : Nat) (validateCommand : Option (OpenRequest → Option Bytes))
    (inputs : List Input) :
    let s := run depth validateCommand inputs
    s.metrics.acceptedTotal = s.metrics.activeConnections + s.gone.length ∧
    ∃ stages : List (Nat × StreamId), stages.Nodup ∧ s.metrics.activeStages = stages.length ∧
      ∀ id stream, (id, stream) ∈ stages ↔ ∃ r, s.runnerOf id = some r ∧
        NodeStageRunner.Started stream r.log ∧ ∀ status, .exitSent stream status ∉ r.log := by
  intro s
  obtain ⟨hbooks, -⟩ := run_sound depth validateCommand inputs
  have hsound : ∀ id r, s.runnerOf id = some r → r.Sound kDefaultStreamWindow := by
    intro id r hr
    obtain ⟨c, hc, rfl⟩ := Option.map_eq_some_iff.mp hr
    exact (hbooks.live id c hc).sound
  let runningAt := fun id => ((s.runnerOf id).map NodeStageRunner.running).getD []
  refine ⟨hbooks.accepted, s.ids.flatMap fun id => (runningAt id).map (Prod.mk id), ?_, ?_, ?_⟩
  · rw [List.nodup_flatMap]
    refine ⟨fun id _ => ?_, ?_⟩
    · apply List.Nodup.map fun _ _ heq => congrArg Prod.snd heq
      cases hr : s.runnerOf id with
      | none => simp [runningAt, hr]
      | some r => simpa [runningAt, hr] using (hsound id r hr).running_nodup
    · apply s.ids_nodup.imp
      intro id other hne
      apply List.disjoint_left.mpr
      intro pair hin hin'
      obtain ⟨_, -, rfl⟩ := List.mem_map.mp hin
      obtain ⟨_, -, heq⟩ := List.mem_map.mp hin'
      exact hne (congrArg Prod.fst heq).symm
  · rw [List.length_flatMap]
    change (s.ids.map _).sum = _
    congr 1
    apply List.map_congr_left
    intro id _
    cases hr : s.runnerOf id <;> simp [runningAt, hr]
  · intro id stream
    rw [List.mem_flatMap]
    constructor
    · rintro ⟨other, -, hin⟩
      obtain ⟨_, hrunning, heq⟩ := List.mem_map.mp hin
      cases heq
      cases hr : s.runnerOf id with
      | none => simp [runningAt, hr] at hrunning
      | some r =>
        refine ⟨r, rfl, (hsound id r hr).mem_running.mp ?_⟩
        simpa [runningAt, hr] using hrunning
    · rintro ⟨r, hr, hstage⟩
      refine ⟨id, ?_, ?_⟩
      · rw [mem_ids hbooks.fresh]
        intro hnone
        simp [runnerOf, s, hnone] at hr
      · apply List.mem_map_of_mem
        simpa [runningAt, hr] using (hsound id r hr).mem_running.mpr hstage

end NodeServer

end psx.transport
