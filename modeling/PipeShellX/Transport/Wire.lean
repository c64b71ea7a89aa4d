-- The frame envelope of psx/1 (docs/wire_protocol.md, "Frame envelope"): a
-- 10-byte header and the payload. The laws: the decoder reads back what the
-- encoder wrote, in any chunks, and each frame it emits stands on the wire.
import PipeShellX.Loop
import PipeShellX.PrefixCode
import PipeShellX.Result

namespace psx.transport

/-! ## Big-endian words -/

/-- The four big-endian bytes of a word. Each cast to a byte keeps the low eight bits. -/
def writeU32BE (value : UInt32) : Bytes :=
  [UInt8.ofNat (value.toNat / 0x1000000), UInt8.ofNat (value.toNat / 0x10000),
    UInt8.ofNat (value.toNat / 0x100), UInt8.ofNat value.toNat]

def readU32BE (b0 b1 b2 b3 : UInt8) : UInt32 :=
  UInt32.ofNat (b0.toNat * 0x1000000 + b1.toNat * 0x10000 + b2.toNat * 0x100 + b3.toNat)

@[simp] theorem writeU32BE_length (value : UInt32) : (writeU32BE value).length = 4 := rfl

theorem read_write (value : UInt32) :
    readU32BE (UInt8.ofNat (value.toNat / 0x1000000)) (UInt8.ofNat (value.toNat / 0x10000))
      (UInt8.ofNat (value.toNat / 0x100)) (UInt8.ofNat value.toNat) = value := by
  have h := value.toNat_lt
  apply UInt32.toNat_inj.mp
  simp only [readU32BE, UInt32.toNat_ofNat', UInt8.toNat_ofNat']
  omega

theorem write_read (b0 b1 b2 b3 : UInt8) :
    writeU32BE (readU32BE b0 b1 b2 b3) = [b0, b1, b2, b3] := by
  have h0 := b0.toNat_lt
  have h1 := b1.toNat_lt
  have h2 := b2.toNat_lt
  have h3 := b3.toNat_lt
  simp only [writeU32BE, readU32BE, List.cons.injEq, and_true]
  refine ⟨?_, ?_, ?_, ?_⟩ <;>
  · apply UInt8.toNat_inj.mp
    simp only [UInt32.toNat_ofNat', UInt8.toNat_ofNat']
    omega

/-! ## Frames -/

/-- The frame types. Any byte can be cast to the C++ enumeration, so a byte that names no
type stays as it is. -/
inductive FrameType
  | Open
  | Data
  | WindowUpdate
  | Exit
  | Ping
  | Pong
  | GoAway
  | unknown (byte : UInt8) (h : byte = 0 ∨ 7 < byte)
  deriving DecidableEq

def FrameType.toByte : FrameType → UInt8
  | .Open => 1
  | .Data => 2
  | .WindowUpdate => 3
  | .Exit => 4
  | .Ping => 5
  | .Pong => 6
  | .GoAway => 7
  | .unknown byte _ => byte

def FrameType.ofByte (byte : UInt8) : FrameType :=
  if h : byte = 0 ∨ 7 < byte then .unknown byte h
  else if byte = 1 then .Open
  else if byte = 2 then .Data
  else if byte = 3 then .WindowUpdate
  else if byte = 4 then .Exit
  else if byte = 5 then .Ping
  else if byte = 6 then .Pong
  else .GoAway

theorem FrameType.ofByte_toByte (type : FrameType) : ofByte type.toByte = type := by
  cases type with
  | unknown byte h => simp [toByte, ofByte, h]
  | _ => rfl

theorem FrameType.toByte_ofByte (byte : UInt8) : (ofByte byte).toByte = byte := by
  unfold ofByte
  split
  · rfl
  · rename_i h
    simp only [not_or, UInt8.not_lt] at h
    split_ifs with h1 h2 h3 h4 h5 h6
    case neg =>
      have hne : ∀ k : UInt8, byte ≠ k → byte.toNat ≠ k.toNat :=
        fun k hk h' => hk (UInt8.toNat_inj.mp h')
      have e0 := hne 0 h.1
      have e1 := hne 1 h1
      have e2 := hne 2 h2
      have e3 := hne 3 h3
      have e4 := hne 4 h4
      have e5 := hne 5 h5
      have e6 := hne 6 h6
      have e7 : byte.toNat ≤ (7 : UInt8).toNat := h.2
      apply UInt8.toNat_inj.mp
      simp only [toByte, UInt8.toNat_ofNat] at e0 e1 e2 e3 e4 e5 e6 e7 ⊢
      omega
    all_goals simp only [toByte, *]

/-- Marks the last frame of a direction (half-close). -/
def kFlagEndStream : UInt8 := 0x01

/-- On a DATA frame, marks the payload as stderr. -/
def kFlagStderr : UInt8 := 0x02

/-- What a stream goes by. -/
abbrev StreamId := UInt32

/-- What is sent at once. -/
structure Frame where
  type : FrameType
  flags : UInt8
  streamId : StreamId
  payload : Bytes
  deriving DecidableEq

def kFrameHeaderSize : Nat := 10

/-- A longer payload is a protocol violation: 16 MiB. -/
def kDefaultMaxFramePayload : Nat := 16 * 1024 * 1024

/-- The bytes of a frame. -/
def encodeFrame (frame : Frame) : Bytes :=
  frame.type.toByte :: frame.flags ::
    (writeU32BE frame.streamId ++ writeU32BE (UInt32.ofNat frame.payload.length) ++ frame.payload)

theorem encodeFrame_length (frame : Frame) :
    (encodeFrame frame).length = kFrameHeaderSize + frame.payload.length := by
  simp only [encodeFrame, kFrameHeaderSize, List.length_cons, List.length_append,
    writeU32BE_length]
  omega

/-! ## The decoder -/

/-- The bytes that are no frame yet. -/
structure FrameDecoder where
  buffer : Bytes := []
  maxPayload : Nat := kDefaultMaxFramePayload
  failed : Bool := false
  deriving DecidableEq

/-- What the bytes from `pos` on start with. -/
inductive Head
  | frame (frame : Frame) (rest : Bytes)
  | incomplete
  | tooLong

/-- What stands at the front of the bytes. -/
def nextFrame (maxPayload : Nat) : Bytes → Head
  | type :: flags :: i0 :: i1 :: i2 :: i3 :: l0 :: l1 :: l2 :: l3 :: bytes =>
    let length := (readU32BE l0 l1 l2 l3).toNat
    if length > maxPayload then .tooLong
    else if bytes.length < length then .incomplete
    else .frame ⟨.ofByte type, flags, readU32BE i0 i1 i2 i3, bytes.take length⟩ (bytes.drop length)
  | _ => .incomplete

/-- One turn of the loop of `push`: a complete frame goes to the sink. -/
def decodeTurn (maxPayload : Nat) (bytes : Bytes) : Option (Bytes × List Frame) :=
  match nextFrame maxPayload bytes with
  | .frame frame rest => some (rest, [frame])
  | _ => none

/-- The loop of `push`. Each frame takes its header at least, so the bytes are fuel enough. -/
def decodeLoop (maxPayload : Nat) (bytes : Bytes) : Bytes × List Frame :=
  Loop.run (decodeTurn maxPayload) bytes.length bytes

/-- The frames go to the sink in order; on an error the decoder stays poisoned, with its
buffer not compacted. -/
def FrameDecoder.push (d : FrameDecoder) (data : Bytes) :
    FrameDecoder × List Frame × Result Unit :=
  if d.failed then
    (d, [], .error ⟨.Other, 0, "frame decoder poisoned by an earlier protocol error"⟩)
  else
    let buffer := d.buffer ++ data
    let (rest, frames) := decodeLoop d.maxPayload buffer
    match nextFrame d.maxPayload rest with
    | .tooLong =>
      ({ d with buffer, failed := true }, frames,
        .error ⟨.Other, 0, "frame payload length exceeds the maximum"⟩)
    | _ => ({ d with buffer := rest }, frames, .ok ())

/-! ## The laws of the codec -/

/-- The length field of a frame holds its payload length. -/
def Frame.Fits (frame : Frame) : Prop := frame.payload.length < UInt32.size

theorem nextFrame_encode {maxPayload : Nat} {frame : Frame} (h : frame.payload.length ≤ maxPayload)
    (hfit : frame.Fits) (rest : Bytes) :
    nextFrame maxPayload (encodeFrame frame ++ rest) = .frame frame rest := by
  have hlen : (UInt32.ofNat frame.payload.length).toNat = frame.payload.length := by
    rw [UInt32.toNat_ofNat']
    exact Nat.mod_eq_of_lt hfit
  simp only [encodeFrame, writeU32BE, List.cons_append, List.nil_append, nextFrame, read_write,
    FrameType.ofByte_toByte]
  simp only [hlen]
  rw [if_neg (by omega), if_neg (by simp)]
  simp

theorem nextFrame_encode_tooLong {maxPayload : Nat} {frame : Frame}
    (h : maxPayload < frame.payload.length) (hfit : frame.Fits) (rest : Bytes) :
    nextFrame maxPayload (encodeFrame frame ++ rest) = .tooLong := by
  have hlen : (UInt32.ofNat frame.payload.length).toNat = frame.payload.length := by
    rw [UInt32.toNat_ofNat']
    exact Nat.mod_eq_of_lt hfit
  simp only [encodeFrame, writeU32BE, List.cons_append, List.nil_append, nextFrame, read_write]
  simp only [hlen]
  rw [if_pos h]

/-- A header and its payload are the encoding of the frame they are read as. The two words
are variables: the kernel must not unfold the products that read them. -/
theorem encodeFrame_header {type flags i0 i1 i2 i3 l0 l1 l2 l3 : UInt8} {bytes : Bytes}
    {streamId length : UInt32} (hid : writeU32BE streamId = [i0, i1, i2, i3])
    (hlen : writeU32BE length = [l0, l1, l2, l3]) (h : length.toNat ≤ bytes.length) :
    type :: flags :: i0 :: i1 :: i2 :: i3 :: l0 :: l1 :: l2 :: l3 :: bytes =
      encodeFrame ⟨.ofByte type, flags, streamId, bytes.take length.toNat⟩ ++
        bytes.drop length.toNat := by
  have htake : (bytes.take length.toNat).length = length.toNat := by
    rw [List.length_take]
    omega
  simp only [encodeFrame, FrameType.toByte_ofByte, htake, UInt32.ofNat_toNat, hlen, hid]
  simp

/-- The first frame of a byte string stands there encoded. -/
theorem nextFrame_frame {maxPayload : Nat} {bytes rest : Bytes} {frame : Frame}
    (h : nextFrame maxPayload bytes = .frame frame rest) :
    bytes = encodeFrame frame ++ rest ∧ frame.payload.length ≤ maxPayload ∧ frame.Fits := by
  unfold nextFrame at h
  split at h
  · rename_i type flags i0 i1 i2 i3 l0 l1 l2 l3 tail
    simp only at h
    split_ifs at h with h1 h2
    have hle : (readU32BE l0 l1 l2 l3).toNat ≤ tail.length := Nat.le_of_not_lt h2
    have htake : (tail.take (readU32BE l0 l1 l2 l3).toNat).length =
        (readU32BE l0 l1 l2 l3).toNat := by
      rw [List.length_take, Nat.min_eq_left hle]
    obtain ⟨rfl, rfl⟩ := Head.frame.inj h
    refine ⟨encodeFrame_header (write_read ..) (write_read ..) hle, ?_, ?_⟩
    · exact Nat.le_trans (Nat.le_of_eq htake) (Nat.le_of_not_lt h1)
    · exact Nat.lt_of_le_of_lt (Nat.le_of_eq htake) (UInt32.toNat_lt _)
  · cases h

/-- A length that is too long stays so, whatever bytes follow. -/
theorem nextFrame_tooLong {maxPayload : Nat} {bytes : Bytes}
    (h : nextFrame maxPayload bytes = .tooLong) (more : Bytes) :
    nextFrame maxPayload (bytes ++ more) = .tooLong := by
  unfold nextFrame at h
  split at h
  · simp only at h
    split_ifs at h with hlong
    simp only [List.cons_append, nextFrame, hlong, if_true]
  · cases h

/-- psx/1 frames on a byte channel. -/
def frameCode : PrefixCode Frame UInt8 where
  enc := encodeFrame
  fits := Frame.Fits
  enc_ne_nil := fun frame h => by simp [encodeFrame] at h
  cancel := fun a b r r' ha hb h => by
    have h1 := nextFrame_encode (Nat.le_max_left _ b.payload.length) ha r
    have h2 := nextFrame_encode (Nat.le_max_right a.payload.length _) hb r'
    rw [h, h2] at h1
    simp only [Head.frame.injEq] at h1
    exact ⟨h1.1.symm, h1.2.symm⟩

/-- The wire bytes of a list of frames. -/
abbrev encodeFrames (frames : List Frame) : Bytes := frameCode.encAll frames

theorem decodeLoop_spec (maxPayload : Nat) (bytes : Bytes) :
    bytes = encodeFrames (decodeLoop maxPayload bytes).2 ++ (decodeLoop maxPayload bytes).1 ∧
      ∀ frame ∈ (decodeLoop maxPayload bytes).2,
        frame.payload.length ≤ maxPayload ∧ frame.Fits := by
  have key := Loop.run_induction (decodeTurn maxPayload)
    (fun rest frames => bytes = encodeFrames frames ++ rest ∧
      ∀ frame ∈ frames, frame.payload.length ≤ maxPayload ∧ frame.Fits)
    (fun rest frames rest' ev ⟨hb, hf⟩ hturn => by
      unfold decodeTurn at hturn
      split at hturn
      · rename_i frame tail hhead
        cases hturn
        obtain ⟨hrest, hlen, hfit⟩ := nextFrame_frame hhead
        refine ⟨?_, ?_⟩
        · rw [hb, hrest]
          simp [encodeFrames]
          rfl
        · intro f hmem
          rcases List.mem_append.mp hmem with hmem | hmem
          · exact hf f hmem
          · rw [List.mem_singleton.mp hmem]
            exact ⟨hlen, hfit⟩
      · cases hturn)
    bytes.length bytes [] ⟨rfl, by simp⟩
  simpa [decodeLoop] using key

/-- The loop ends on bytes that hold no complete frame. -/
theorem decodeLoop_stops (maxPayload : Nat) (bytes : Bytes) :
    decodeTurn maxPayload (decodeLoop maxPayload bytes).1 = none := by
  apply Loop.run_stops List.length _ _ (Nat.le_refl _)
  intro rest rest' ev hturn
  unfold decodeTurn at hturn
  split at hturn
  · rename_i frame tail hhead
    cases hturn
    rw [(nextFrame_frame hhead).1, List.length_append, encodeFrame_length, kFrameHeaderSize]
    omega
  · cases hturn

/-- One `push` of a decoder that has not failed: the frames it emits and the bytes it keeps
are, in order, the bytes that came in. -/
theorem push_spec {d d' : FrameDecoder} {data : Bytes} {frames : List Frame} {r : Result Unit}
    (hd : d.failed = false) (h : d.push data = (d', frames, r)) :
    d'.maxPayload = d.maxPayload ∧
    (∀ frame ∈ frames, frame.payload.length ≤ d.maxPayload ∧ frame.Fits) ∧
    ∃ rest, d.buffer ++ data = encodeFrames frames ++ rest ∧
      ((r = .ok () ∧ d'.buffer = rest ∧ d'.failed = false ∧
          nextFrame d.maxPayload rest = .incomplete) ∨
        r = .error ⟨.Other, 0, "frame payload length exceeds the maximum"⟩ ∧ d'.failed = true ∧
          nextFrame d.maxPayload rest = .tooLong) := by
  have hspec := decodeLoop_spec d.maxPayload (d.buffer ++ data)
  have hstop := decodeLoop_stops d.maxPayload (d.buffer ++ data)
  simp only [FrameDecoder.push, hd, Bool.false_eq_true, if_false] at h
  cases hhead : nextFrame d.maxPayload (decodeLoop d.maxPayload (d.buffer ++ data)).1 with
  | frame frame rest => simp [decodeTurn, hhead] at hstop
  | incomplete =>
    rw [hhead] at h
    obtain ⟨rfl, rfl, rfl⟩ : _ ∧ _ ∧ _ := by simpa using h
    exact ⟨rfl, hspec.2, _, hspec.1, Or.inl ⟨rfl, rfl, rfl, hhead⟩⟩
  | tooLong =>
    rw [hhead] at h
    obtain ⟨rfl, rfl, rfl⟩ : _ ∧ _ ∧ _ := by simpa using h
    exact ⟨rfl, hspec.2, _, hspec.1, Or.inr ⟨rfl, rfl, hhead⟩⟩

/-- A push onto bytes that start with a whole frame: the frame is emitted first, or it is too
long and nothing is. -/
theorem push_first {d d' : FrameDecoder} {data : Bytes} {frames : List Frame} {r : Result Unit}
    {frame : Frame} (hd : d.failed = false) (hpush : d.push data = (d', frames, r))
    (hfit : frame.Fits) (hhead : encodeFrame frame <+: d.buffer ++ data) :
    (frame.payload.length ≤ d.maxPayload ∧ ∃ later, frames = frame :: later) ∨
      (d.maxPayload < frame.payload.length ∧ frames = [] ∧
        r = .error ⟨.Other, 0, "frame payload length exceeds the maximum"⟩) := by
  obtain ⟨-, hframes, rest, hcut, hstop⟩ := push_spec hd hpush
  obtain ⟨more, hmore⟩ := hhead
  rw [← hmore] at hcut
  cases frames with
  | nil =>
    have hrest : rest = encodeFrame frame ++ more := by simpa [encodeFrames] using hcut.symm
    rw [hrest] at hstop
    rcases Nat.lt_or_ge d.maxPayload frame.payload.length with hlong | hle
    · rw [nextFrame_encode_tooLong hlong hfit] at hstop
      rcases hstop with ⟨-, -, -, hstop⟩ | ⟨hr, -, -⟩
      · cases hstop
      · exact Or.inr ⟨hlong, rfl, hr⟩
    · rw [nextFrame_encode hle hfit] at hstop
      rcases hstop with ⟨-, -, -, hstop⟩ | ⟨-, -, hstop⟩ <;> cases hstop
  | cons first later =>
    obtain ⟨hle, hfirst⟩ := hframes first (by simp)
    have hsame : encodeFrame frame ++ more = encodeFrame first ++ (encodeFrames later ++ rest) := by
      rw [hcut]
      simp [encodeFrames, frameCode]
    obtain ⟨rfl, -⟩ := frameCode.cancel _ _ _ _ hfit hfirst hsame
    exact Or.inl ⟨hle, later, rfl⟩

end psx.transport
