-- The controller of a native run: it connects to the targets, a bounded number at
-- a time, runs one command on each, and reports one result for each. What the network
-- does to a launch is a parameter; everything after it comes as an input.
import PipeShellX.Stream.SpoolBuffer
import PipeShellX.Transport.Session

namespace psx.transport

open psx.os (ExitStatus)
open psx.stream (OverflowPolicy ReadAnswers SpoolAnswers SpoolBuffer)

namespace NativeController

/-- Where a node listens. -/
structure Target where
  host : String
  port : UInt16
  deriving DecidableEq

/-- What is reported of a host. -/
structure HostResult where
  host : String := ""
  ok : Bool := false
  exitCode : Int := -1
  error : String := ""
  output : Bytes := []
  stdoutData : Bytes := []
  stderrData : Bytes := []
  droppedBytes : Nat := 0
  timedOut : Bool := false
  cancelled : Bool := false
  aborted : Bool := false
  deriving DecidableEq

/-- 0 means all targets may connect at once. -/
structure Options where
  concurrency : Nat := 0
  policy : OverflowPolicy := .Block
  ringBytes : Nat := 0
  failFast : Bool := false
  deriving DecidableEq

/-- Why a host was cancelled. -/
inductive CancelKind
  | Other
  | Timeout
  | Interrupt
  | FailFast
  deriving DecidableEq

set_option linter.dupNamespace false in
/-- One host of a run. `stdoutBack` and `stderrBack` are what the spools will be answered when they
are read back. -/
structure Conn where
  target : Target := ⟨"", 0⟩
  /-- The session is bound once the transport is built. -/
  session : Bool := false
  transport : Bool := false
  result : HostResult := {}
  stdoutRing : Bytes := []
  stderrRing : Bytes := []
  stdoutSpool : SpoolBuffer := {}
  stderrSpool : SpoolBuffer := {}
  stdoutBack : ReadAnswers := {}
  stderrBack : ReadAnswers := {}
  active : Bool := false
  done : Bool := false
  deriving DecidableEq

/-- What the controller does, as others see it. -/
inductive Event
  | start (targets : List Target) (options : Options) (onComplete : Bool)
  | cancel
  | launch (index : Nat)
  | opened (index : Nat) (command : List Bytes)
  | consumed (index : Nat) (n : Nat)
  | output (host : String) (data : Bytes) (channel : Channel)
  | done (index : Nat) (result : HostResult)
  | retired (index : Nat)
  | complete (results : List HostResult)
  deriving DecidableEq

end NativeController

/-- One command on many nodes. -/
structure NativeController where
  command : List Bytes := []
  conns : List NativeController.Conn := []
  /-- There is a completion handler. -/
  onComplete : Bool := false
  options : NativeController.Options := {}
  nextToStart : Nat := 0
  active : Nat := 0
  remaining : Nat := 0
  filling : Bool := false
  cancelling : Bool := false
  completed : Bool := false
  started : Bool := false
  /-- The retire timers that are pending, each by the connection it retires. -/
  retireTimers : List Nat := []
  log : List NativeController.Event := []
  deriving DecidableEq

namespace NativeController

def note (c : NativeController) (e : Event) : NativeController := { c with log := c.log ++ [e] }

def conn (c : NativeController) (index : Nat) : Conn := c.conns.getD index {}

def modify (c : NativeController) (index : Nat) (f : Conn → Conn) : NativeController :=
  { c with conns := c.conns.modify index f }

/-! ## The capture of output -/

/-- The ring and the spool of one channel after a chunk, and how many bytes were dropped. -/
def capture (options : Options) (ring : Bytes) (spool : SpoolBuffer) (data : Bytes)
    (answers : SpoolAnswers) : Bytes × SpoolBuffer × Nat :=
  let cap := if options.policy = .Block then 0 else options.ringBytes
  if cap = 0 then (ring ++ data, spool, 0)
  else if options.policy = .DropNewest then
    let available := cap - ring.length
    let retained := min available data.length
    (ring ++ data.take retained, spool, data.length - retained)
  else
    let available := cap - ring.length
    let overflow := if data.length > available then data.length - available else 0
    let fromRing := min overflow ring.length
    let fromData := overflow - fromRing
    let kept := ring.drop fromRing ++ data.drop fromData
    if options.policy = .Spool then
      let (spool, first) :=
        if fromRing ≠ 0 then spool.append (ring.take fromRing) answers.first else (spool, true)
      let (spool, second) :=
        if fromData ≠ 0 then spool.append (data.take fromData) answers.second else (spool, true)
      (kept, spool, (if first then 0 else fromRing) + (if second then 0 else fromData))
    else (kept, spool, overflow)

namespace Conn

/-- Output of a host is kept, by its channel. -/
def capture (options : Options) (data : Bytes) (channel : Channel) (answers : SpoolAnswers)
    (conn : Conn) : Conn :=
  match channel with
  | .Stdout =>
    let (ring, spool, dropped) :=
      NativeController.capture options conn.stdoutRing conn.stdoutSpool data answers
    { conn with
      stdoutRing := ring
      stdoutSpool := spool
      stdoutBack := answers.back
      result.droppedBytes := conn.result.droppedBytes + dropped }
  | .Stderr =>
    let (ring, spool, dropped) :=
      NativeController.capture options conn.stderrRing conn.stderrSpool data answers
    { conn with
      stderrRing := ring
      stderrSpool := spool
      stderrBack := answers.back
      result.droppedBytes := conn.result.droppedBytes + dropped }

/-- A launch takes a slot. -/
def activated (conn : Conn) : Conn := { conn with active := true }

/-- The transport is built, and its session bound. -/
def connected (conn : Conn) : Conn := { conn with transport := true, session := true }

/-- The transport is gone, and the slot free. -/
def retired (conn : Conn) : Conn :=
  { conn with session := false, transport := false, active := false }

/-- `onExit`, up to `finish`. -/
def exited (status : ExitStatus) (conn : Conn) : Conn :=
  { conn with
    result.ok := true
    result.exitCode := if status.kind = .Exited then status.code.toInt else -1 }

/-- `fail`, up to `finish`. -/
def failed (message : String) (kind : CancelKind) (conn : Conn) : Conn :=
  { conn with
    result.error := message
    result.ok := false
    result.timedOut := kind = .Timeout
    result.cancelled := kind = .Interrupt
    result.aborted := kind = .FailFast }

/-- `finish`, up to `onConnDone`. -/
def finished (conn : Conn) : Conn :=
  let stdoutData :=
    if conn.stdoutSpool.empty then conn.stdoutRing
    else conn.stdoutSpool.readAll conn.stdoutBack ++ conn.stdoutRing
  let stderrData :=
    if conn.stderrSpool.empty then conn.stderrRing
    else conn.stderrSpool.readAll conn.stderrBack ++ conn.stderrRing
  { conn with
    result.stdoutData := stdoutData
    result.stderrData := stderrData
    result.output := stdoutData ++ stderrData
    done := true }

end Conn

/-! ## The end of a connection -/

/-- The stage did not run to exit code 0. -/
def HostResult.failed (result : HostResult) : Bool :=
  !result.ok || result.exitCode ≠ 0 || result.error ≠ ""

/-- The results are handed over once every host is done and every connection is gone. -/
def completeIfReady (c : NativeController) : NativeController :=
  if c.remaining ≠ 0 ∨ c.active ≠ 0 ∨ c.completed then c
  else if c.onComplete then
    let c : NativeController := { c with completed := true, onComplete := false }
    c.note (.complete (c.conns.map (·.result)))
  else { c with completed := true }

/-- `onConnDone`, given what it calls to cancel the run under fail-fast. -/
def onConnDoneWith (cancel : NativeController → NativeController) (c : NativeController)
    (index : Nat) : NativeController :=
  let c := { c with remaining := c.remaining - 1 }
  let c :=
    if c.options.failFast ∧ ¬ c.cancelling ∧ (c.conn index).result.failed then cancel c else c
  let c :=
    if (c.conn index).active then { c with retireTimers := c.retireTimers ++ [index] } else c
  c.completeIfReady

/-- `Conn::finish` of one connection, given `onConnDone`. -/
def finishWith (onConnDone : NativeController → Nat → NativeController) (c : NativeController)
    (index : Nat) : NativeController :=
  if (c.conn index).done then c
  else
    let c := c.modify index Conn.finished
    onConnDone (c.note (.done index (c.conn index).result)) index

/-- `Conn::fail` of one connection, given `onConnDone`. -/
def failWith (onConnDone : NativeController → Nat → NativeController) (c : NativeController)
    (index : Nat) (message : String) (kind : CancelKind) : NativeController :=
  let c := if (c.conn index).done then c else c.modify index (Conn.failed message kind)
  finishWith onConnDone c index

/-- The kind that a plain reason stands for. -/
def kindOf (reason : String) (kind : CancelKind) : CancelKind :=
  if kind = .Other then
    if reason = "timed out" then .Timeout
    else if reason = "fail-fast" then .FailFast
    else if reason = "cancelled" ∨ reason = "interrupted" then .Interrupt
    else kind
  else kind

/-- `cancel`, given `onConnDone`. -/
def cancelWith (onConnDone : NativeController → Nat → NativeController) (c : NativeController)
    (reason : String) (kind : CancelKind) : NativeController :=
  if c.completed then c
  else
    let kind := kindOf reason kind
    let c := { c with cancelling := true }.note .cancel
    let c := (List.range c.conns.length).foldl
      (fun c index => if (c.conn index).done then c else failWith onConnDone c index reason kind) c
    c.completeIfReady

/-- While the run is being cancelled `onConnDone` does not cancel it again, so the calls
nest no deeper than this. -/
def cancel : NativeController → String → CancelKind → NativeController :=
  cancelWith (onConnDoneWith id)

/-- A host is done: under fail-fast a failure cancels the others. -/
def onConnDone : NativeController → Nat → NativeController :=
  onConnDoneWith fun c => c.cancel "fail-fast" .FailFast

/-- A host is done, whatever it came to. -/
def finish : NativeController → Nat → NativeController := finishWith onConnDone

/-- A host has failed. -/
def fail : NativeController → Nat → String → CancelKind → NativeController := failWith onConnDone

/-! ## What a transport reports -/

/-- A callback of a connection's transport. With data come the answers of the spool, and
what the owner's `onOutput` calls on the controller. -/
inductive Callback
  | ready
  | data (bytes : Bytes) (channel : Channel) (answers : SpoolAnswers)
      (cancels : List (String × CancelKind))
  | exit (status : ExitStatus)
  | error (message : String)
  deriving DecidableEq

/-- Output of a host. -/
def onData (c : NativeController) (index : Nat) (data : Bytes) (channel : Channel)
    (answers : SpoolAnswers) (cancels : List (String × CancelKind)) : NativeController :=
  let c := if (c.conn index).session then c.note (.consumed index data.length) else c
  if (c.conn index).done then c
  else
    let c := c.modify index (Conn.capture c.options data channel answers)
    let c := c.note (.output (c.conn index).result.host data channel)
    cancels.foldl (fun c call => c.cancel call.1 call.2) c

/-- What a connection calls. -/
def callback (c : NativeController) (index : Nat) : Callback → NativeController
  | .ready =>
    if ¬ (c.conn index).done ∧ (c.conn index).session then c.note (.opened index c.command) else c
  | .data bytes channel answers cancels => c.onData index bytes channel answers cancels
  | .exit status =>
    if (c.conn index).done then c else (c.modify index (Conn.exited status)).finish index
  | .error message => c.fail index message .Other

/-! ## Launches -/

/-- How the launch of a connection goes. A transport that starts may call back before its
`start` returns. -/
inductive Launch
  | connectFailed (message : String)
  | tlsFailed (message : String)
  | started (during : List Callback) (failed : Option String)

/-- A connection to a host is started. -/
def launch (network : Nat → Launch) (c : NativeController) (index : Nat) : NativeController :=
  let c := c.modify index Conn.activated
  let c := { c with active := c.active + 1 }.note (.launch index)
  match network index with
  | .connectFailed message => c.fail index ("connect: " ++ message) .Other
  | .tlsFailed message => c.fail index ("tls: " ++ message) .Other
  | .started during failed =>
    let c := c.modify index Conn.connected
    let c := during.foldl (fun c call => c.callback index call) c
    match failed with
    | none => c
    | some message => c.fail index ("start: " ++ message) .Other

/-- How many hosts may run at once. -/
def limit (c : NativeController) : Nat :=
  if c.options.concurrency = 0 then c.conns.length else c.options.concurrency

/-- The loop of `fillSlots`. Every turn starts a target, so the targets that are left bound
the turns. -/
def fill (network : Nat → Launch) : Nat → NativeController → NativeController
  | 0, c => c
  | turns + 1, c =>
    if c.nextToStart < c.conns.length ∧ c.active < c.limit ∧ ¬ c.cancelling then
      fill network turns (launch network { c with nextToStart := c.nextToStart + 1 } c.nextToStart)
    else c

/-- Hosts are started as long as there is room for them. -/
def fillSlots (network : Nat → Launch) (c : NativeController) : NativeController :=
  if c.completed ∨ c.cancelling ∨ c.filling then c
  else
    let c := { c with filling := true }
    { fill network (c.conns.length - c.nextToStart) c with filling := false }

/-- A connection is taken down. -/
def retire (network : Nat → Launch) (c : NativeController) (index : Nat) : NativeController :=
  let c :=
    if (c.conn index).active then
      let c := c.modify index Conn.retired
      { c with active := c.active - 1 }.note (.retired index)
    else c
  let c := if c.cancelling then c else c.fillSlots network
  c.completeIfReady

/-! ## Runs -/

/-- The error of a call that is refused. -/
def invalid (op : String) : Error := ⟨.InvalidArgument, 0, op⟩

/-- The command is started on the targets. -/
def start (network : Nat → Launch) (c : NativeController) (targets : List Target)
    (command : List Bytes) (onComplete : Bool) (options : Options) :
    NativeController × Result Unit :=
  if c.started then (c, .error (invalid "native_controller.start.already_started"))
  else if command = [] ∨ command.head? = some [] then
    (c, .error (invalid "native_controller.start.command"))
  else if targets.any fun target => target.host = "" || target.port = 0 then
    (c, .error (invalid "native_controller.start.target"))
  else
    let c := { c with
      started := true
      command
      onComplete
      options
      nextToStart := 0
      active := 0
      remaining := targets.length
      filling := false
      cancelling := false
      completed := false }.note (.start targets options onComplete)
    if targets = [] then
      let c := { c with completed := true }
      (if c.onComplete then c.note (.complete []) else c, .ok ())
    else
      let conns := targets.map fun target =>
        ({ target, result := { host := target.host } } : Conn)
      (fillSlots network { c with conns := c.conns ++ conns }, .ok ())

/-- What can happen to a controller. -/
inductive Input
  | start (targets : List Target) (command : List Bytes) (onComplete : Bool) (options : Options)
  | cancel (reason : String) (kind : CancelKind)
  | callback (index : Nat) (callback : Callback)
  | retire (index : Nat)

/-- Only a transport that is there calls back, and only a pending timer fires. -/
def step (network : Nat → Launch) (c : NativeController) : Input → NativeController
  | .start targets command onComplete options =>
    (c.start network targets command onComplete options).1
  | .cancel reason kind => c.cancel reason kind
  | .callback index callback =>
    if (c.conn index).transport then c.callback index callback else c
  | .retire index =>
    if index ∈ c.retireTimers then
      { c with retireTimers := c.retireTimers.erase index }.retire network index
    else c

/-- The inputs of a run, one after the other, on a controller as constructed. -/
def run (network : Nat → Launch) (inputs : List Input) : NativeController :=
  inputs.foldl (step network) {}

end NativeController

end psx.transport
