-- One end of a psx/1 connection (session.cpp). Every function gives the next
-- state and the events it caused, in order: the frames it wrote, the callbacks
-- it made, and what it accepted from its own caller.
import PipeShellX.Stream.CreditWindow
import PipeShellX.Transport.Payloads
import Mathlib.Logic.Function.Basic

namespace psx.transport

open psx.os (ExitStatus)
open psx.stream (CreditWindow)

/-- The two ends of a connection. -/
inductive Role
  | Controller
  | Node
  deriving DecidableEq, Repr

/-- The two outputs of a stage. -/
inductive Channel
  | Stdout
  | Stderr
  deriving DecidableEq, Repr

def kDefaultStreamWindow : UInt32 := 256 * 1024

/-- The value a window may not exceed after a WINDOW_UPDATE. -/
def kMaxStreamWindow : Nat := 0x7FFFFFFF

/-- The error of a peer that breaks the protocol. -/
def protocolError (what : String) : Error := ⟨.Other, 0, what⟩

def channelFlag (channel : Channel) : UInt8 :=
  if channel = .Stderr then kFlagStderr else 0

def hasOnlyFlags (frame : Frame) (allowed : UInt8) : Bool := frame.flags &&& ~~~allowed = 0

/-- What a frame of the connection has to be. -/
def validateConnectionFrame (frame : Frame) : Result Unit :=
  if frame.streamId ≠ 0 ∨ frame.flags ≠ 0 ∨ frame.payload ≠ [] then
    .error (protocolError "connection frame must have stream 0, flags 0, and an empty payload")
  else .ok ()

/-- What a frame of a stream has to be. -/
def validateStreamFrame (frame : Frame) (allowedFlags : UInt8) : Result Unit :=
  if frame.streamId = 0 then
    .error (protocolError "stream frame must have a nonzero stream id")
  else if !hasOnlyFlags frame allowedFlags then
    .error (protocolError "frame contains unknown or reserved flags")
  else .ok ()

/-! ## The state -/

structure Segment where
  channel : Channel
  bytes : Bytes
  deriving DecidableEq

/-- A stream, as one end has it. -/
structure Stream where
  recvWindow : CreditWindow
  sendCredit : Nat
  sendQueue : List Segment := []
  sendBytes : Nat := 0
  sendEndPending : Bool := false
  exitPending : Bool := false
  localDataClosed : Bool := false
  peerDataClosed : Bool := false
  exitStatus : ExitStatus := {}
  deriving DecidableEq

def Stream.new (window : UInt32) : Stream :=
  { recvWindow := .new window 0, sendCredit := window.toNat }

/-- What is kept of a stream that this end has closed. -/
structure LocallyClosedStream where
  peerDataClosed : Bool := false
  deriving DecidableEq

/-- `streamWritable` says whether the owner set that callback. The maps are functions. -/
structure Session where
  role : Role
  initialWindow : UInt32
  streamWritable : Bool
  decoder : FrameDecoder := {}
  streams : StreamId → Option Stream := fun _ => none
  locallyClosedStreams : StreamId → Option LocallyClosedStream := fun _ => none
  nextStreamId : StreamId := 1
  nextPeerStreamId : StreamId := 1
  sentGoAway : Bool := false
  receivedGoAway : Bool := false
  protocolFailed : Bool := false

/-- What a session did. The first group is what the code does: `wrote` is `write_` of the
encoded frame, the others are the callbacks. The second group records, for the laws, what
the code took in: a frame that `dispatch` accepted, and the calls that passed their guards
(`consumed` holds the bytes that counted). -/
inductive Event
  | wrote (frame : Frame)
  | onOpen (id : StreamId) (request : OpenRequest)
  | onData (id : StreamId) (bytes : Bytes) (endStream : Bool) (channel : Channel)
  | onExit (id : StreamId) (status : ExitStatus)
  | onGoAway
  | onPong
  | onStreamWritable (id : StreamId)
  | got (frame : Frame)
  | queued (id : StreamId) (channel : Channel) (bytes : Bytes) (endStream : Bool)
  | exitAsked (id : StreamId) (status : ExitStatus)
  | consumed (id : StreamId) (n : Nat)
  deriving DecidableEq

namespace Session

/-- A session at the start of a connection. -/
def new (role : Role) (initialWindow : UInt32) (streamWritable : Bool) : Session :=
  { role, initialWindow, streamWritable }

def setStream (s : Session) (id : StreamId) (stream : Stream) : Session :=
  { s with streams := Function.update s.streams id (some stream) }

/-- `streams_.try_emplace(id, initialWindow_)`: a stream that is there stays. -/
def tryEmplace (s : Session) (id : StreamId) : Session :=
  match s.streams id with
  | some _ => s
  | none => s.setStream id (.new s.initialWindow)

def eraseStream (s : Session) (id : StreamId) : Session :=
  { s with streams := Function.update s.streams id none }

/-! ## The sending side -/

def send (s : Session) (frame : Frame) : List Event :=
  if s.protocolFailed then [] else [.wrote frame]

/-- `open` is a keyword here, so `open_`. Zero means that nothing was opened. -/
def open_ (s : Session) (request : OpenRequest) : Session × StreamId × List Event :=
  if s.protocolFailed ∨ s.role ≠ .Controller ∨ s.sentGoAway ∨ s.receivedGoAway ∨
      s.nextStreamId = 0 ∨ validateOpenRequest request ≠ .ok () then
    (s, 0, [])
  else
    let id := s.nextStreamId
    let s := { s with nextStreamId := id + 1 }.tryEmplace id
    (s, id, s.send ⟨.Open, 0, id, encodeOpen request⟩)

/-- One turn of the loop of `flushStream`: a DATA frame of as much of the front segment as
the credit allows. The endStream flag rides the last byte of the last segment. -/
def flushTurn (s : Session) (id : StreamId) (stream : Stream) : Option (Stream × List Event) :=
  match stream.sendQueue with
  | [] => none
  | front :: rest =>
    if stream.sendCredit > 0 then
      let chunk := min front.bytes.length stream.sendCredit
      let drainsQueue := chunk = front.bytes.length ∧ rest = []
      let last := decide drainsQueue && stream.sendEndPending
      let flags := if last then channelFlag front.channel ||| kFlagEndStream
        else channelFlag front.channel
      some ({ stream with
          sendCredit := stream.sendCredit - chunk
          sendBytes := stream.sendBytes - chunk
          sendQueue := if chunk = front.bytes.length then rest
            else { front with bytes := front.bytes.drop chunk } :: rest
          sendEndPending := if last then false else stream.sendEndPending },
        s.send ⟨.Data, flags, id, front.bytes.take chunk⟩)
    else none

/-- The loop. Each turn takes a segment off the queue or spends the credit. -/
def flushQueue (s : Session) (id : StreamId) (stream : Stream) : Stream × List Event :=
  Loop.run (s.flushTurn id) stream.sendQueue.length stream

/-- A pending end that has no more buffered bytes rides a zero-length frame. -/
def flushEnd (s : Session) (id : StreamId) (stream : Stream) : Stream × List Event :=
  if stream.sendQueue = [] ∧ stream.sendEndPending then
    ({ stream with sendEndPending := false }, s.send ⟨.Data, kFlagEndStream, id, []⟩)
  else (stream, [])

/-- This end is done with a stream; frames for it may still be on their way. -/
def closeLocally (s : Session) (id : StreamId) (peerDataClosed : Bool) : Session :=
  { s with
    locallyClosedStreams := Function.update s.locallyClosedStreams id (some ⟨peerDataClosed⟩)
    streams := Function.update s.streams id none }

/-- The caller's `stream` is the entry of `id` in the map; the result puts it back, or closes
the stream when a deferred EXIT rode out. -/
def flushStream (s : Session) (id : StreamId) (stream : Stream) : Session × List Event :=
  let wasFull := stream.sendBytes ≥ s.initialWindow.toNat
  let (drained, data) := s.flushQueue id stream
  let (ended, endFrame) := s.flushEnd id drained
  if ended.sendQueue = [] ∧ !ended.sendEndPending ∧ ended.exitPending then
    ((s.setStream id ended).closeLocally id ended.peerDataClosed,
      data ++ endFrame ++ s.send ⟨.Exit, kFlagEndStream, id, encodeExit ended.exitStatus⟩)
  else
    (s.setStream id ended,
      data ++ endFrame ++
        if wasFull ∧ ended.sendBytes < s.initialWindow.toNat ∧ s.streamWritable then
          [.onStreamWritable id]
        else [])

/-- The stream as `sendData` queues the bytes and the end. -/
def queueData (stream : Stream) (bytes : Bytes) (endStream : Bool) (channel : Channel) : Stream :=
  let stream := if bytes ≠ [] then
      { stream with
        sendQueue := stream.sendQueue ++ [⟨channel, bytes⟩]
        sendBytes := stream.sendBytes + bytes.length }
    else stream
  if endStream then { stream with localDataClosed := true, sendEndPending := true } else stream

/-- Bytes are queued, and sent as far as there is credit. -/
def sendData (s : Session) (id : StreamId) (bytes : Bytes) (endStream : Bool)
    (channel : Channel) : Session × List Event :=
  if s.protocolFailed ∨ (s.role = .Controller ∧ channel ≠ .Stdout) then (s, [])
  else
    match s.streams id with
    | none => (s, [])
    | some stream =>
      if stream.localDataClosed ∨ stream.exitPending then (s, [])
      else
        let (s, events) := s.flushStream id (queueData stream bytes endStream channel)
        (s, .queued id channel bytes endStream :: events)

/-- The backpressure question of a producer. -/
def isWritable (s : Session) (id : StreamId) : Bool :=
  match s.streams id with
  | none => true
  | some stream => stream.sendBytes < s.initialWindow.toNat

/-- The receiver has taken bytes, and gives credit for them now and then. -/
def consume (s : Session) (id : StreamId) (n : Nat) : Session × List Event :=
  if s.protocolFailed then (s, [])
  else
    match s.streams id with
    | none => (s, [])
    | some stream =>
      let (recvWindow, delta) := stream.recvWindow.onConsumed n
      (s.setStream id { stream with recvWindow },
        .consumed id (stream.recvWindow.clamp n) ::
          if delta > 0 then s.send ⟨.WindowUpdate, 0, id, encodeWindowUpdate (.ofNat delta)⟩
          else [])

/-- The status of a stage is sent, behind its data. -/
def sendExit (s : Session) (id : StreamId) (status : ExitStatus) : Session × List Event :=
  if s.protocolFailed ∨ s.role ≠ .Node then (s, [])
  else
    match s.streams id with
    | none => (s, [])
    | some stream =>
      if stream.exitPending then (s, [])
      else
        let stream := { stream with localDataClosed := true }
        if stream.sendQueue ≠ [] ∨ stream.sendEndPending then
          -- EXIT must not overtake the buffered DATA; flushStream emits it
          (s.setStream id { stream with exitPending := true, exitStatus := status },
            [.exitAsked id status])
        else
          ((s.setStream id stream).closeLocally id stream.peerDataClosed,
            .exitAsked id status :: s.send ⟨.Exit, kFlagEndStream, id, encodeExit status⟩)

def ping (s : Session) : Session × List Event :=
  if s.protocolFailed then (s, []) else (s, s.send ⟨.Ping, 0, 0, []⟩)

/-- No more streams are taken. -/
def goAway (s : Session) : Session × List Event :=
  if s.protocolFailed ∨ s.sentGoAway then (s, [])
  else
    let s := { s with sentGoAway := true }
    (s, s.send ⟨.GoAway, 0, 0, []⟩)

/-! ## The receiving side -/

/-- `if (bad) return protocolError(what);` -/
def refuse (bad : Prop) [Decidable bad] (what : String) : Result Unit :=
  if bad then .error (protocolError what) else .ok ()

/-- An OPEN arrives. -/
def dispatchOpen (s : Session) (frame : Frame) : Result (Session × List Event) := do
  validateStreamFrame frame 0
  refuse (s.role ≠ .Node) "OPEN received by a controller"
  refuse (s.sentGoAway ∨ s.receivedGoAway) "OPEN received after GOAWAY"
  refuse (frame.streamId ≠ s.nextPeerStreamId) "OPEN stream ids must be strictly sequential"
  let request ← decodeOpen frame.payload
  -- the increment of the largest id wraps to the 0 that ends the sequence
  return ({ s with nextPeerStreamId := frame.streamId + 1 }.tryEmplace frame.streamId,
    [.onOpen frame.streamId request])

def endsStream (frame : Frame) : Bool := frame.flags &&& kFlagEndStream ≠ 0

/-- A DATA arrives. -/
def dispatchData (s : Session) (frame : Frame) : Result (Session × List Event) := do
  validateStreamFrame frame (kFlagEndStream ||| kFlagStderr)
  refuse (s.role = .Node ∧ frame.flags &&& kFlagStderr ≠ 0)
    "controller DATA cannot select an output channel"
  match s.locallyClosedStreams frame.streamId with
  | some closed =>
    refuse closed.peerDataClosed "DATA received after END_STREAM"
    -- a valid cross-direction race with our locally sent EXIT
    let closed := if endsStream frame then { closed with peerDataClosed := true } else closed
    return ({ s with locallyClosedStreams :=
      Function.update s.locallyClosedStreams frame.streamId (some closed) }, [])
  | none =>
    match s.streams frame.streamId with
    | none => throw (protocolError "DATA for an unknown or peer-closed stream")
    | some stream =>
      refuse stream.peerDataClosed "DATA received after END_STREAM"
      match stream.recvWindow.onData frame.payload.length with
      | none => throw (protocolError "DATA exceeds the stream's flow-control window")
      | some recvWindow =>
        let stream := { stream with recvWindow }
        let stream := if endsStream frame then { stream with peerDataClosed := true } else stream
        let channel := if frame.flags &&& kFlagStderr ≠ 0 then .Stderr else .Stdout
        return (s.setStream frame.streamId stream,
          [.onData frame.streamId frame.payload (endsStream frame) channel])

/-- An EXIT arrives. -/
def dispatchExit (s : Session) (frame : Frame) : Result (Session × List Event) := do
  validateStreamFrame frame kFlagEndStream
  refuse (s.role ≠ .Controller) "EXIT received by a node"
  let status ← decodeExit frame.payload
  refuse (s.streams frame.streamId = none) "EXIT for an unknown stream"
  return (s.eraseStream frame.streamId, [.onExit frame.streamId status])

/-- A WINDOW_UPDATE arrives. -/
def dispatchWindowUpdate (s : Session) (frame : Frame) : Result (Session × List Event) := do
  validateStreamFrame frame 0
  let delta ← decodeWindowUpdate frame.payload
  match s.streams frame.streamId with
  | none =>
    -- credit crossing an EXIT that this end sent is harmless
    refuse (s.locallyClosedStreams frame.streamId = none)
      "WINDOW_UPDATE for an unknown or peer-closed stream"
    return (s, [])
  | some stream =>
    let credit := stream.sendCredit + delta.toNat
    refuse (credit > kMaxStreamWindow) "WINDOW_UPDATE overflows the stream flow-control window"
    return s.flushStream frame.streamId { stream with sendCredit := credit }

/-- The frames of the connection itself. -/
def dispatchConnection (frame : Frame) (accept : Session × List Event) :
    Result (Session × List Event) := do
  validateConnectionFrame frame
  return accept

/-- One accepted frame. An error leaves the session as it was. -/
def dispatch (s : Session) (frame : Frame) : Result (Session × List Event) :=
  match frame.type with
  | .Open => s.dispatchOpen frame
  | .Data => s.dispatchData frame
  | .Exit => s.dispatchExit frame
  | .Ping => dispatchConnection frame (s, s.send ⟨.Pong, 0, 0, []⟩)
  | .Pong => dispatchConnection frame (s, [.onPong])
  | .GoAway => dispatchConnection frame ({ s with receivedGoAway := true }, [.onGoAway])
  | .WindowUpdate => s.dispatchWindowUpdate frame
  | .unknown _ _ => .error (protocolError "unknown frame type")

/-! ## Runs -/

/-- The local API calls. -/
inductive Call
  | open_ (request : OpenRequest)
  | sendData (id : StreamId) (bytes : Bytes) (endStream : Bool) (channel : Channel)
  | sendExit (id : StreamId) (status : ExitStatus)
  | consume (id : StreamId) (n : UInt32)
  | ping
  | goAway
  deriving DecidableEq

/-- One call, with what it writes and tells. -/
def call (s : Session) : Call → Session × List Event
  | .open_ request => ((s.open_ request).1, (s.open_ request).2.2)
  | .sendData id bytes endStream channel => s.sendData id bytes endStream channel
  | .sendExit id status => s.sendExit id status
  | .consume id n => s.consume id n.toNat
  | .ping => s.ping
  | .goAway => s.goAway

def calls (s : Session) : List Call → Session × List Event
  | [] => (s, [])
  | c :: cs => (((s.call c).1.calls cs).1, (s.call c).2 ++ ((s.call c).1.calls cs).2)

/-- The sink of `receive`, over the frames of one `push`. A callback is the last thing that
`dispatch` does, so the calls that the handler makes from it (the entry of `replies` for this
frame) come right after it. The first error ends the dispatching. -/
def dispatchAll (s : Session) : List Frame → List (List Call) →
    Session × List Event × Result Unit
  | [], _ => (s, [], .ok ())
  | frame :: frames, replies =>
    match s.dispatch frame with
    | .error e => (s, [], .error e)
    | .ok (s, events) =>
      let (s, answers) := s.calls (replies.headD [])
      let (s, more, result) := s.dispatchAll frames replies.tail
      (s, .got frame :: events ++ answers ++ more, result)

/-- Bytes arrive: the frames that they complete are handled one after the other. -/
def receive (s : Session) (bytes : Bytes) (replies : List (List Call)) :
    Session × List Event × Result Unit :=
  if s.protocolFailed then
    (s, [], .error (protocolError "session poisoned by an earlier protocol error"))
  else
    let (decoder, frames, decoded) := s.decoder.push bytes
    let (s, events, dispatched) := { s with decoder }.dispatchAll frames replies
    match decoded, dispatched with
    | .error e, _ => ({ s with protocolFailed := true }, events, .error e)
    | .ok (), .error e => ({ s with protocolFailed := true }, events, .error e)
    | .ok (), .ok () => (s, events, .ok ())

/-- What happens to a session: a local call, or received bytes. -/
inductive Input
  | call (c : Call)
  | receive (bytes : Bytes) (replies : List (List Call))

/-- One step of a session. -/
def step (s : Session) : Input → Session × List Event × Result Unit
  | .call c => ((s.call c).1, (s.call c).2, .ok ())
  | .receive bytes replies => s.receive bytes replies

/-- A whole run of a session. -/
def run (s : Session) : List Input → Session × List Event
  | [] => (s, [])
  | i :: is => (((s.step i).1.run is).1, (s.step i).2.1 ++ ((s.step i).1.run is).2)

end Session

end psx.transport
