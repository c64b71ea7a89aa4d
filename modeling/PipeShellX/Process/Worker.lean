-- One child of a run (process_manager.cpp): what is known of its process and its pipes, what
-- is kept of its output, and what its stderr says about ssh (ssh_auth.cpp).
import Mathlib.Data.List.Infix
import PipeShellX.Os
import PipeShellX.Stream.SpoolBuffer

namespace psx.process

open psx.os (ExitStatus)
open psx.stream (OverflowPolicy ReadAnswers SpoolAnswers SpoolBuffer)

/-- `running` is `process.running()`: the child was spawned and is not reaped. `stdoutBack` and
`stderrBack` are what the spools will be answered when they are read back. -/
structure Worker where
  clientId : String := ""
  failureMessage : Bytes := []
  running : Bool := false
  stdoutData : Bytes := []
  stderrData : Bytes := []
  status : Option ExitStatus := none
  stdoutClosed : Bool := false
  stderrClosed : Bool := false
  stdinClosed : Bool := false
  exited : Bool := false
  timedOut : Bool := false
  cancelled : Bool := false
  aborted : Bool := false
  attempt : Nat := 0
  awaitingRetry : Bool := false
  droppedBytes : Nat := 0
  stdoutSpool : SpoolBuffer := {}
  stderrSpool : SpoolBuffer := {}
  stdoutBack : ReadAnswers := {}
  stderrBack : ReadAnswers := {}
  counted : Bool := false
  spawned : Bool := false
  deriving DecidableEq

namespace Worker

/-- All of the worker is over: the process and its three pipes. -/
def complete (w : Worker) : Bool := w.exited && w.stdoutClosed && w.stderrClosed && w.stdinClosed

/-- The worker could not be started, and says why on standard error. -/
def failToStart (w : Worker) (message : Bytes) : Worker :=
  { w with
    failureMessage := message
    stderrData := message
    stdoutClosed := true
    stderrClosed := true
    stdinClosed := true
    exited := true }

/-- What belongs to one attempt goes; who the worker is and how often it was tried stays. -/
def resetForRetry (w : Worker) : Worker :=
  { clientId := w.clientId, running := w.running, attempt := w.attempt, spawned := w.spawned }

/-- The exit code of a worker. -/
def exitCode (w : Worker) : Int :=
  if w.failureMessage ≠ [] then 127
  else
    match w.status with
    | some status => if status.kind = .Exited then status.code.toInt else -1
    | none => -1

/-! ## The capture of output -/

/-- The ring and the spool of one stream after a chunk, and how many bytes were dropped. -/
def captureRing (outputCap : Nat) (outputPolicy : OverflowPolicy) (ring : Bytes)
    (spool : SpoolBuffer) (chunk : Bytes) (answers : SpoolAnswers) : Bytes × SpoolBuffer × Nat :=
  if outputCap = 0 then (ring ++ chunk, spool, 0)
  else if outputPolicy = .DropNewest then
    let available := outputCap - ring.length
    let retained := min available chunk.length
    (ring ++ chunk.take retained, spool, chunk.length - retained)
  else
    let available := outputCap - ring.length
    let overflow := if chunk.length > available then chunk.length - available else 0
    let fromRing := min overflow ring.length
    let fromChunk := overflow - fromRing
    let kept := ring.drop fromRing ++ chunk.drop fromChunk
    if outputPolicy = .Spool then
      let (spool, first) :=
        if fromRing ≠ 0 then spool.append (ring.take fromRing) answers.first else (spool, true)
      let (spool, second) :=
        if fromChunk ≠ 0 then spool.append (chunk.take fromChunk) answers.second else (spool, true)
      (kept, spool, (if first then 0 else fromRing) + (if second then 0 else fromChunk))
    else (kept, spool, overflow)

/-- A chunk of output is kept, by its channel. -/
def capture (outputCap : Nat) (outputPolicy : OverflowPolicy) (w : Worker) (isStdout : Bool)
    (chunk : Bytes) (answers : SpoolAnswers) : Worker :=
  if isStdout then
    let (ring, spool, dropped) :=
      captureRing outputCap outputPolicy w.stdoutData w.stdoutSpool chunk answers
    { w with
      stdoutData := ring
      stdoutSpool := spool
      stdoutBack := answers.back
      droppedBytes := w.droppedBytes + dropped }
  else
    let (ring, spool, dropped) :=
      captureRing outputCap outputPolicy w.stderrData w.stderrSpool chunk answers
    { w with
      stderrData := ring
      stderrSpool := spool
      stderrBack := answers.back
      droppedBytes := w.droppedBytes + dropped }

/-- The stream that a result shows: the older bytes live in the spool. -/
def stdoutFull (w : Worker) : Bytes :=
  if w.stdoutSpool.empty then w.stdoutData
  else w.stdoutSpool.readAll w.stdoutBack ++ w.stdoutData

/-- All of standard error that was kept. -/
def stderrFull (w : Worker) : Bytes :=
  if w.stderrSpool.empty then w.stderrData
  else w.stderrSpool.readAll w.stderrBack ++ w.stderrData

end Worker

/-! ## What ssh says on stderr -/

/-- The bytes of a text. -/
def bytes (s : String) : Bytes := s.toUTF8.toList

/-- `find` has a result. -/
def contains (text : Bytes) (needle : String) : Bool := bytes needle <:+: text

/-- One of the needles is in the text. -/
def containsAny (text : Bytes) (needles : List String) : Bool := needles.any (contains text)

/-- The text in lower case, as far as it is ASCII. -/
def toLowerCopy (text : Bytes) : Bytes :=
  text.map fun c => if 65 ≤ c ∧ c ≤ 90 then c + 32 else c

/-- What `ssh` says when the key of a host has changed. -/
def kHostKeyChangedNeedles : List String := ["remote host identification has changed"]

/-- What `ssh` says when it does not know the key of a host. -/
def kHostKeyFailedNeedles : List String := ["host key verification failed"]

/-- What `ssh` says when it does not find a host. -/
def kUnreachableNeedles : List String :=
  ["could not resolve hostname", "name or service not known",
    "temporary failure in name resolution"]

/-- What `ssh` says when a host does not answer. -/
def kConnectionNeedles : List String :=
  ["connection refused", "connection timed out", "no route to host", "operation not permitted",
    "connection reset", "connection closed"]

/-- What `ssh` says when a host does not let the user in. -/
def kAuthNeedles : List String :=
  ["permission denied", "authentication failed", "no more authentication methods"]

/-- What went wrong, by what `ssh` said. -/
def classifySshFailure (stderrText : Bytes) : Option String :=
  let lowered := toLowerCopy stderrText
  if containsAny lowered kHostKeyChangedNeedles then
    some ("host key changed (possible MITM) — verify the new key, " ++
      "then clear the old one with ssh-keygen -R")
  else if containsAny lowered kHostKeyFailedNeedles then some "host key verification failed"
  else if containsAny lowered kUnreachableNeedles then some "unreachable host"
  else if containsAny lowered kConnectionNeedles then some "connection failed"
  else if containsAny lowered kAuthNeedles then some "authentication failed"
  else none

/-- Another attempt may do better. -/
def isRetryableSshFailure (stderrText : Bytes) : Bool :=
  let lowered := toLowerCopy stderrText
  containsAny lowered kUnreachableNeedles || containsAny lowered kConnectionNeedles

end psx.process
