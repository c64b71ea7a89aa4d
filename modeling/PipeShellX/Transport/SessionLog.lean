-- The account that the log of a session keeps of each stream, and the monitor of
-- the protocol: which event may follow which history of its stream. The laws of
-- one session and of a pair both read these.
import PipeShellX.Trace
import PipeShellX.Transport.Session

namespace psx.transport

open psx.os (ExitStatus)

/-! ## Frames -/

/-- The channel that the flags of a DATA frame name. -/
def channelOf (flags : UInt8) : Channel := if flags &&& kFlagStderr ≠ 0 then .Stderr else .Stdout

/-- Bytes, each with its channel: two lists of pieces are the same bytes on the same
channels exactly when they agree after adjacent pieces of one channel are merged. -/
def tag (channel : Channel) (bytes : Bytes) : List (Channel × UInt8) := bytes.map (channel, ·)

@[simp] theorem tag_length (channel : Channel) (bytes : Bytes) :
    (tag channel bytes).length = bytes.length := by simp [tag]

@[simp] theorem tag_nil (channel : Channel) : tag channel [] = [] := rfl

theorem tag_append (channel : Channel) (a b : Bytes) :
    tag channel (a ++ b) = tag channel a ++ tag channel b := by simp [tag]

namespace Frame

def data (frame : Frame) : List (Channel × UInt8) :=
  if frame.type = .Data then tag (channelOf frame.flags) frame.payload else []

/-- A DATA frame that ends its direction. -/
def endsData (frame : Frame) : Bool := frame.type = .Data && Session.endsStream frame

/-- The credit that a frame carries. -/
def delta (frame : Frame) : Nat :=
  if frame.type = .WindowUpdate then
    match decodeWindowUpdate frame.payload with
    | .ok delta => delta.toNat
    | .error _ => 0
  else 0

/-- A frame of the connection, as the code builds it. -/
def Connection (frame : Frame) : Prop :=
  (frame.type = .Ping ∨ frame.type = .Pong ∨ frame.type = .GoAway) ∧
    frame.streamId = 0 ∧ frame.flags = 0 ∧ frame.payload = []

end Frame

def dataOf (frames : List Frame) : List (Channel × UInt8) := frames.flatMap Frame.data

def creditOf : List Frame → Nat
  | [] => 0
  | frame :: frames => frame.delta + creditOf frames

def ended (frames : List Frame) : Bool := frames.any Frame.endsData

def exited (frames : List Frame) : Bool := frames.any fun frame => frame.type = .Exit

def opensOf (frames : List Frame) : List StreamId :=
  (frames.filter fun frame => frame.type = .Open).map (·.streamId)

section

variable (a b : List Frame) (frame : Frame)

@[simp] theorem dataOf_append : dataOf (a ++ b) = dataOf a ++ dataOf b := by simp [dataOf]

@[simp] theorem dataOf_one : dataOf [frame] = frame.data := by simp [dataOf]

@[simp] theorem creditOf_append : creditOf (a ++ b) = creditOf a + creditOf b := by
  induction a with
  | nil => simp [creditOf]
  | cons f a ih => simp only [List.cons_append, creditOf, ih, Nat.add_assoc]

@[simp] theorem creditOf_one : creditOf [frame] = frame.delta := by simp [creditOf]

@[simp] theorem ended_append : ended (a ++ b) = (ended a || ended b) := by simp [ended]

@[simp] theorem ended_one : ended [frame] = frame.endsData := by simp [ended]

@[simp] theorem exited_append : exited (a ++ b) = (exited a || exited b) := by simp [exited]

@[simp] theorem exited_one : exited [frame] = decide (frame.type = .Exit) := by simp [exited]

@[simp] theorem opensOf_append : opensOf (a ++ b) = opensOf a ++ opensOf b := by simp [opensOf]

@[simp] theorem opensOf_one :
    opensOf [frame] = if frame.type = .Open then [frame.streamId] else [] := by
  by_cases h : frame.type = .Open <;> simp [opensOf, h]

end

/-! ## The account of a log -/

/-- What a log adds up to: the frames both ways, what `sendData` and `sendExit` accepted,
what `onData` handed to the handler, and what the handler consumed. -/
structure Account where
  wrote : List Frame := []
  got : List Frame := []
  taken : List (Channel × UInt8) := []
  takenEnd : Bool := false
  exitsAsked : List ExitStatus := []
  delivered : List (Channel × UInt8) := []
  deliveredEnd : Bool := false
  consumed : Nat := 0

@[simp] def Account.note (a : Account) : Event → Account
  | .wrote frame => { a with wrote := a.wrote ++ [frame] }
  | .got frame => { a with got := a.got ++ [frame] }
  | .queued _ channel bytes endStream =>
    { a with taken := a.taken ++ tag channel bytes, takenEnd := a.takenEnd || endStream }
  | .exitAsked _ status => { a with exitsAsked := a.exitsAsked ++ [status] }
  | .onData _ bytes endStream channel =>
    { a with
      delivered := a.delivered ++ tag channel bytes
      deliveredEnd := a.deliveredEnd || endStream }
  | .consumed _ n => { a with consumed := a.consumed + n }
  | .onOpen .. | .onExit .. | .onGoAway | .onPong | .onStreamWritable _ => a

/-- What happened to a stream. -/
def account (log : List Event) : Account := log.foldl Account.note {}

@[simp] theorem account_nil : account [] = {} := rfl

@[simp] theorem account_append (a b : List Event) :
    account (a ++ b) = b.foldl Account.note (account a) := by simp [account]

/-- The stream that an event belongs to. The connection is stream 0. -/
def Event.streamId : Event → StreamId
  | .wrote frame | .got frame => frame.streamId
  | .onGoAway | .onPong => 0
  | .onOpen id _ | .onData id _ _ _ | .onExit id _ | .onStreamWritable id | .queued id _ _ _
  | .exitAsked id _ | .consumed id _ => id

/-- An event that neither opens a stream nor says farewell. -/
def Event.Plain : Event → Prop
  | .wrote frame | .got frame => frame.type ≠ .Open ∧ frame.type ≠ .GoAway
  | .onOpen .. => False
  | _ => True

/-- The events of one stream. -/
def view (id : StreamId) (log : List Event) : List Event := log.filter fun e => e.streamId = id

@[simp] theorem view_append (id : StreamId) (a b : List Event) :
    view id (a ++ b) = view id a ++ view id b := by simp [view]

theorem view_all {id : StreamId} {log : List Event} (h : ∀ e ∈ log, e.streamId = id) :
    view id log = log := by
  simpa [view, List.filter_eq_self] using h

theorem view_none {id : StreamId} {log : List Event} (h : ∀ e ∈ log, e.streamId ≠ id) :
    view id log = [] := by
  simpa [view, List.filter_eq_nil_iff] using h

/-- The ids of the OPEN frames that count for an end: a controller writes them, a node
accepts them. -/
def Account.opens (role : Role) (a : Account) : List StreamId :=
  match role with
  | .Controller => opensOf a.wrote
  | .Node => opensOf a.got

/-- The stream was opened, and no EXIT went out or came in. -/
structure Account.OpenIn (role : Role) (a : Account) : Prop where
  opened : a.opens role ≠ []
  noExitWrote : exited a.wrote = false
  noExitGot : exited a.got = false

/-! ## The monitor -/

/-- What a history of its stream must be like for an end to write a frame there. -/
def MayWrite (role : Role) (W : Nat) (v : List Event) (frame : Frame) : Prop :=
  let a := account v
  match frame.type with
  | .Open => role = .Controller ∧ a = {} ∧ frame.flags = 0 ∧
      ∃ request, validateOpenRequest request = .ok () ∧ frame.payload = encodeOpen request
  | .Data => a.OpenIn role ∧ ended a.wrote = false ∧
      hasOnlyFlags frame (kFlagEndStream ||| kFlagStderr) = true ∧
      (role = .Controller → frame.flags &&& kFlagStderr = 0) ∧
      (dataOf a.wrote).length + frame.payload.length ≤ W + creditOf a.got ∧
      dataOf a.wrote ++ frame.data <+: a.taken ∧
      (frame.endsData = true → a.takenEnd = true ∧ dataOf a.wrote ++ frame.data = a.taken)
  | .WindowUpdate => a.OpenIn role ∧ frame.flags = 0 ∧
      ∃ delta, delta ≠ 0 ∧ frame.payload = encodeWindowUpdate delta ∧
        (W ≤ kMaxStreamWindow → creditOf a.wrote + delta.toNat ≤ a.consumed)
  | .Exit => role = .Node ∧ a.OpenIn role ∧ frame.flags = kFlagEndStream ∧
      dataOf a.wrote = a.taken ∧ (a.takenEnd = true → ended a.wrote = true) ∧
      ∃ status, a.exitsAsked = [status] ∧ frame.payload = encodeExit status
  | _ => frame.Connection

/-- Which event may follow which history of its stream, for an end with this role and this
initial window. -/
def Allowed (role : Role) (W : Nat) (v : List Event) : Event → Prop
  | .wrote frame => frame.Fits ∧ MayWrite role W v frame
  | .onOpen _ request => validateOpenRequest request = .ok ()
  | .onData _ bytes endStream channel =>
      (account v).OpenIn role ∧ (account v).deliveredEnd = false ∧
      (account v).delivered ++ tag channel bytes = dataOf (account v).got ∧
      (account v).delivered.length + bytes.length ≤ W + (account v).consumed ∧
      (endStream = true → ended (account v).got = true)
  | .onExit _ status => (account v).delivered = dataOf (account v).got ∧
      ∃ before frame, v = before ++ [.got frame] ∧ frame.type = .Exit ∧
        (account before).OpenIn role ∧ decodeExit frame.payload = .ok status
  | .queued .. => (account v).OpenIn role ∧ (account v).takenEnd = false ∧
      (account v).exitsAsked = []
  | .exitAsked .. => role = .Node ∧ (account v).OpenIn role ∧ (account v).exitsAsked = []
  | .consumed _ n => (account v).consumed + n ≤ (account v).delivered.length
  | .got _ | .onGoAway | .onPong | .onStreamWritable _ => True

end psx.transport
