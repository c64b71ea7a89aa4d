-- The frame decoder over a whole channel: where the bytes are cut makes no difference, the
-- frames that were encoded come out, and after a payload that is too long nothing does.
import PipeShellX.Transport.Wire

namespace psx.transport

namespace FrameDecoder

/-- The frames and the results of all pushes of the chunks. -/
def pushAll (d : FrameDecoder) : List Bytes → FrameDecoder × List Frame × List (Result Unit)
  | [] => (d, [], [])
  | chunk :: chunks =>
    let (d, frames, result) := d.push chunk
    let (d, later, results) := d.pushAll chunks
    (d, frames ++ later, result :: results)

/-- No bytes of an incomplete frame are kept. -/
def hasPartialFrame (d : FrameDecoder) : Bool := d.buffer ≠ []

/-- The error of a decoder that has failed before. -/
def poisoned : Error := ⟨.Other, 0, "frame decoder poisoned by an earlier protocol error"⟩

/-- The error of a frame that is too long. -/
def tooLong : Error := ⟨.Other, 0, "frame payload length exceeds the maximum"⟩

/-! ## The loop -/

theorem decodeTurn_frame {maxPayload : Nat} {bytes rest : Bytes} {frame : Frame}
    (h : nextFrame maxPayload bytes = .frame frame rest) :
    decodeTurn maxPayload bytes = some (rest, [frame]) := by
  unfold decodeTurn
  rw [h]

theorem decodeTurn_shorter {maxPayload : Nat} {bytes rest : Bytes} {frames : List Frame}
    (h : decodeTurn maxPayload bytes = some (rest, frames)) : rest.length < bytes.length := by
  unfold decodeTurn at h
  split at h
  · rename_i frame tail hhead
    obtain ⟨rfl, -⟩ := Prod.mk.inj (Option.some.inj h)
    rw [(nextFrame_frame hhead).1, List.length_append, encodeFrame_length, kFrameHeaderSize]
    omega
  · cases h

/-- Bytes that start with no complete frame stay. -/
theorem decodeLoop_none {maxPayload : Nat} {bytes : Bytes}
    (h : decodeTurn maxPayload bytes = none) : decodeLoop maxPayload bytes = (bytes, []) :=
  Loop.run_none h _

theorem decodeLoop_some {maxPayload : Nat} {bytes rest : Bytes} {frames : List Frame}
    (h : decodeTurn maxPayload bytes = some (rest, frames)) :
    decodeLoop maxPayload bytes =
      ((decodeLoop maxPayload rest).1, frames ++ (decodeLoop maxPayload rest).2) := by
  have hshorter := decodeTurn_shorter h
  obtain ⟨fuel, hlength⟩ : ∃ fuel, bytes.length = fuel + 1 := ⟨bytes.length - 1, by omega⟩
  have hrest : Loop.run (decodeTurn maxPayload) fuel rest = decodeLoop maxPayload rest :=
    Loop.run_enough List.length (fun _ _ _ h => decodeTurn_shorter h) (by omega) (Nat.le_refl _)
  unfold decodeLoop
  rw [hlength, Loop.run_some h, hrest]
  rfl

theorem encodeFrames_cons (frame : Frame) (frames : List Frame) (rest : Bytes) :
    encodeFrames (frame :: frames) ++ rest = encodeFrame frame ++
      (encodeFrames frames ++ rest) := by
  rw [encodeFrames, PrefixCode.encAll_cons, List.append_assoc]
  rfl

/-- Frames at the start of the bytes come out first. -/
theorem decodeLoop_frames {maxPayload : Nat} {frames : List Frame}
    (h : ∀ frame ∈ frames, frame.payload.length ≤ maxPayload ∧ frame.Fits) (rest : Bytes) :
    decodeLoop maxPayload (encodeFrames frames ++ rest) =
      ((decodeLoop maxPayload rest).1, frames ++ (decodeLoop maxPayload rest).2) := by
  induction frames with
  | nil => rfl
  | cons frame frames ih =>
    obtain ⟨hle, hfit⟩ := h frame (by simp)
    have hturn := decodeTurn_frame (nextFrame_encode hle hfit (encodeFrames frames ++ rest))
    rw [encodeFrames_cons, decodeLoop_some hturn, ih fun f hf => h f (by simp [hf])]
    rfl

/-! ## One push -/

/-- What the decoder keeps starts with no complete frame. -/
def Waiting (d : FrameDecoder) : Prop :=
  d.failed = false ∧ nextFrame d.maxPayload d.buffer = .incomplete

/-- What a push does to a decoder that waits, by the bytes that are there. -/
theorem push_eq {d : FrameDecoder} (hd : d.failed = false) {data : Bytes} {frames : List Frame}
    {rest : Bytes} (hcut : d.buffer ++ data = encodeFrames frames ++ rest)
    (hframes : ∀ frame ∈ frames, frame.payload.length ≤ d.maxPayload ∧ frame.Fits) :
    (nextFrame d.maxPayload rest = .incomplete →
        d.push data = ({ d with buffer := rest }, frames, .ok ())) ∧
      (nextFrame d.maxPayload rest = .tooLong →
        d.push data = ({ d with buffer := d.buffer ++ data, failed := true }, frames,
          .error tooLong)) := by
  have hloop : decodeTurn d.maxPayload rest = none →
      decodeLoop d.maxPayload (d.buffer ++ data) = (rest, frames) := by
    intro hnone
    rw [hcut, decodeLoop_frames hframes, decodeLoop_none hnone, List.append_nil]
  refine ⟨fun hhead => ?_, fun hhead => ?_⟩
  · have hnone : decodeTurn d.maxPayload rest = none := by simp [decodeTurn, hhead]
    simp [push, hd, hloop hnone, hhead]
  · have hnone : decodeTurn d.maxPayload rest = none := by simp [decodeTurn, hhead]
    simp [push, hd, hloop hnone, hhead, tooLong]

/-- The bytes that are there, cut into the frames that a push emits and what is left. -/
theorem push_cut (maxPayload : Nat) (bytes : Bytes) :
    ∃ frames rest, bytes = encodeFrames frames ++ rest ∧
      (∀ frame ∈ frames, frame.payload.length ≤ maxPayload ∧ frame.Fits) ∧
      (nextFrame maxPayload rest = .incomplete ∨ nextFrame maxPayload rest = .tooLong) := by
  obtain ⟨hcut, hframes⟩ := decodeLoop_spec maxPayload bytes
  refine ⟨_, _, hcut, hframes, ?_⟩
  have hstop := decodeLoop_stops maxPayload bytes
  cases hhead : nextFrame maxPayload (decodeLoop maxPayload bytes).1 with
  | frame frame rest => simp [decodeTurn, hhead] at hstop
  | incomplete => exact .inl rfl
  | tooLong => exact .inr rfl

/-- After a failure nothing comes out, and every push fails. -/
theorem pushAll_failed {d : FrameDecoder} (hd : d.failed = true) (chunks : List Bytes) :
    d.pushAll chunks = (d, [], chunks.map fun _ => .error poisoned) := by
  induction chunks with
  | nil => rfl
  | cons chunk chunks ih =>
    have hpush : d.push chunk = (d, [], .error poisoned) := by simp [push, hd, poisoned]
    simp [pushAll, hpush, ih]

theorem pushAll_append (d : FrameDecoder) (chunks more : List Bytes) :
    d.pushAll (chunks ++ more) =
      (((d.pushAll chunks).1.pushAll more).1,
        (d.pushAll chunks).2.1 ++ ((d.pushAll chunks).1.pushAll more).2.1,
        (d.pushAll chunks).2.2 ++ ((d.pushAll chunks).1.pushAll more).2.2) := by
  induction chunks generalizing d with
  | nil => rfl
  | cons chunk chunks ih => simp [pushAll, ih]

/-! ## All chunks -/

theorem decodeTurn_none {maxPayload : Nat} {bytes : Bytes} :
    decodeTurn maxPayload bytes = none ↔
      nextFrame maxPayload bytes = .incomplete ∨ nextFrame maxPayload bytes = .tooLong := by
  unfold decodeTurn
  cases nextFrame maxPayload bytes <;> simp

/-- Bytes are cut into frames and a rest in one way only. -/
theorem decodeLoop_cut {maxPayload : Nat} {bytes rest : Bytes} {frames : List Frame}
    (hcut : bytes = encodeFrames frames ++ rest)
    (hframes : ∀ frame ∈ frames, frame.payload.length ≤ maxPayload ∧ frame.Fits)
    (hrest : decodeTurn maxPayload rest = none) : decodeLoop maxPayload bytes = (rest, frames) := by
  rw [hcut, decodeLoop_frames hframes, decodeLoop_none hrest, List.append_nil]

/-- What the pushes of all chunks come to, by the bytes of all of them. -/
theorem pushAll_eq {d : FrameDecoder} (hd : d.Waiting) {chunks : List Bytes} {frames : List Frame}
    {rest : Bytes} (hcut : d.buffer ++ chunks.flatten = encodeFrames frames ++ rest)
    (hframes : ∀ frame ∈ frames, frame.payload.length ≤ d.maxPayload ∧ frame.Fits)
    (hrest : decodeTurn d.maxPayload rest = none) :
    (nextFrame d.maxPayload rest = .incomplete →
        d.pushAll chunks = ({ d with buffer := rest }, frames, chunks.map fun _ => .ok ())) ∧
      (nextFrame d.maxPayload rest = .tooLong →
        (d.pushAll chunks).1.failed = true ∧ (d.pushAll chunks).2.1 = frames ∧
          .error tooLong ∈ (d.pushAll chunks).2.2) := by
  have hloop := decodeLoop_cut hcut hframes hrest
  induction chunks generalizing d frames with
  | nil =>
    rw [List.flatten_nil, List.append_nil] at hloop
    rw [decodeLoop_none (decodeTurn_none.mpr (.inl hd.2)), Prod.mk.injEq] at hloop
    obtain ⟨rfl, rfl⟩ := hloop
    refine ⟨fun _ => rfl, fun hhead => ?_⟩
    rw [hd.2] at hhead
    cases hhead
  | cons chunk chunks ih =>
    obtain ⟨first, left, hleft, hfirst, hstop⟩ := push_cut d.maxPayload (d.buffer ++ chunk)
    obtain ⟨hwaits, hfails⟩ := push_eq hd.1 hleft hfirst
    have hall : d.buffer ++ (chunk :: chunks).flatten =
        encodeFrames first ++ (left ++ chunks.flatten) := by
      rw [List.flatten_cons, ← List.append_assoc, hleft, List.append_assoc]
    rcases hstop with hstop | hstop
    · -- The push waits: the frames that it emitted are the first ones.
      rw [hall, decodeLoop_frames hfirst, Prod.mk.injEq] at hloop
      obtain ⟨hlast, rfl⟩ := hloop
      obtain ⟨hcut', hlater⟩ := decodeLoop_spec d.maxPayload (left ++ chunks.flatten)
      rw [hlast] at hcut'
      obtain ⟨hok, hlong⟩ := ih (d := { d with buffer := left }) ⟨hd.1, hstop⟩ hcut' hlater hrest
        (decodeLoop_cut hcut' hlater hrest)
      refine ⟨fun hhead => ?_, fun hhead => ?_⟩
      · simp [pushAll, hwaits hstop, hok hhead]
      · obtain ⟨hfailed, hemitted, herror⟩ := hlong hhead
        simp [pushAll, hwaits hstop, hfailed, hemitted, herror]
    · -- The push fails, and whatever follows makes no difference.
      have hlong := nextFrame_tooLong hstop chunks.flatten
      rw [decodeLoop_cut hall hfirst (decodeTurn_none.mpr (.inr hlong)), Prod.mk.injEq] at hloop
      obtain ⟨rfl, rfl⟩ := hloop
      have hafter :=
        pushAll_failed (d := { d with buffer := d.buffer ++ chunk, failed := true }) rfl
        chunks
      refine ⟨fun hhead => ?_, fun _ => ?_⟩
      · rw [hlong] at hhead
        cases hhead
      · simp [pushAll, hfails hstop, hafter]

theorem length_results (d : FrameDecoder) (chunks : List Bytes) :
    (d.pushAll chunks).2.2.length = chunks.length := by
  induction chunks generalizing d with
  | nil => rfl
  | cons chunk chunks ih => simp [pushAll, ih]

/-! ## The decoder of a channel -/

/-- A decoder at the start of a stream. -/
def create (maxPayload : UInt32) : FrameDecoder := { maxPayload := maxPayload.toNat }

theorem create_waiting (maxPayload : UInt32) : (create maxPayload).Waiting := ⟨rfl, rfl⟩

/-- Some pushes come to the same as one push of all bytes. -/
structure SameAsOnePush (d : FrameDecoder) (chunks : List Bytes) : Prop where
  frames : (d.pushAll chunks).2.1 = (d.push chunks.flatten).2.1
  fails : (∃ e, .error e ∈ (d.pushAll chunks).2.2) ↔ ∃ e, (d.push chunks.flatten).2.2 = .error e
  failed : (d.pushAll chunks).1.failed = (d.push chunks.flatten).1.failed
  kept : (d.push chunks.flatten).1.failed = false →
    (d.pushAll chunks).1 = (d.push chunks.flatten).1

/-- The bytes start with a header whose payload is longer than the maximum. -/
def AnnouncesTooLong (maxPayload : UInt32) (bytes : Bytes) : Prop :=
  ∃ type flags i0 i1 i2 i3 l0 l1 l2 l3 tail,
    bytes = type :: flags :: i0 :: i1 :: i2 :: i3 :: l0 :: l1 :: l2 :: l3 :: tail ∧
      maxPayload < readU32BE l0 l1 l2 l3

theorem AnnouncesTooLong.next {maxPayload : UInt32} {bytes : Bytes}
    (h : AnnouncesTooLong maxPayload bytes) : nextFrame maxPayload.toNat bytes = .tooLong := by
  obtain ⟨type, flags, i0, i1, i2, i3, l0, l1, l2, l3, tail, rfl, hlong⟩ := h
  have hgt : (readU32BE l0 l1 l2 l3).toNat > maxPayload.toNat := hlong
  simp only [nextFrame]
  rw [if_pos hgt]

theorem pushAll_same (maxPayload : UInt32) (chunks : List Bytes) :
    SameAsOnePush (create maxPayload) chunks := by
  obtain ⟨frames, rest, hcut, hframes, hstop⟩ := push_cut maxPayload.toNat chunks.flatten
  obtain ⟨hok, hlong⟩ := pushAll_eq (create_waiting maxPayload) hcut hframes
    (decodeTurn_none.mpr hstop)
  obtain ⟨hok', hlong'⟩ := push_eq (create_waiting maxPayload).1 hcut hframes
  rcases hstop with hstop | hstop
  · have hall := hok hstop
    have hone := hok' hstop
    refine ⟨?_, ?_, ?_, fun _ => ?_⟩ <;> simp [hall, hone]
  · obtain ⟨hfailed, hemitted, herror⟩ := hlong hstop
    have hone := hlong' hstop
    refine ⟨?_, ⟨fun _ => ?_, fun _ => ⟨_, herror⟩⟩, ?_, fun hkept => ?_⟩
    · rw [hemitted, hone]
    · rw [hone]
      exact ⟨_, rfl⟩
    · rw [hfailed, hone]
    · rw [hone] at hkept
      cases hkept

theorem pushAll_encoded (maxPayload : UInt32) {frames : List Frame} {chunks : List Bytes}
    (hframes : ∀ frame ∈ frames, frame.payload.length ≤ maxPayload.toNat)
    (hchunks : chunks.flatten = encodeFrames frames) :
    (create maxPayload).pushAll chunks = (create maxPayload, frames,
      chunks.map fun _ => .ok ()) := by
  have hfit : ∀ frame ∈ frames, frame.payload.length ≤ maxPayload.toNat ∧ frame.Fits :=
    fun frame hin => ⟨hframes frame hin, Nat.lt_of_le_of_lt (hframes frame hin) maxPayload.toNat_lt⟩
  have hcut : (create maxPayload).buffer ++ chunks.flatten = encodeFrames frames ++ [] := by
    rw [hchunks, List.append_nil]
    rfl
  exact (pushAll_eq (create_waiting maxPayload) hcut hfit rfl).1 rfl

theorem pushAll_tooLong (maxPayload : UInt32) {frames : List Frame} {rest : Bytes}
    {chunks : List Bytes} (hframes : ∀ frame ∈ frames, frame.payload.length ≤ maxPayload.toNat)
    (hchunks : chunks.flatten = encodeFrames frames ++ rest)
    (hlong : AnnouncesTooLong maxPayload rest) (more : List Bytes) :
    ((create maxPayload).pushAll (chunks ++ more)).2.1 = frames ∧
      ((create maxPayload).pushAll (chunks ++ more)).2.2.drop chunks.length =
        more.map fun _ => .error poisoned := by
  have hfit : ∀ frame ∈ frames, frame.payload.length ≤ maxPayload.toNat ∧ frame.Fits :=
    fun frame hin => ⟨hframes frame hin, Nat.lt_of_le_of_lt (hframes frame hin) maxPayload.toNat_lt⟩
  have hcut : (create maxPayload).buffer ++ chunks.flatten = encodeFrames frames ++ rest := hchunks
  obtain ⟨hfailed, hemitted, -⟩ := (pushAll_eq (create_waiting maxPayload) hcut hfit
    (decodeTurn_none.mpr (.inr hlong.next))).2 hlong.next
  rw [pushAll_append, pushAll_failed hfailed]
  refine ⟨by rw [hemitted, List.append_nil], ?_⟩
  rw [← length_results (create maxPayload) chunks, List.drop_left]

/-- The frames that come out depend on the bytes alone, not on where they are cut: encoded frames
come out as they went in, and after a header with a payload that is too long nothing comes out any
more and every push fails. -/
theorem frames_do_not_depend_on_the_chunks (maxPayload : UInt32) :
    (∀ chunks, SameAsOnePush (create maxPayload) chunks) ∧
      (∀ frames chunks, (∀ frame ∈ frames, frame.payload.length ≤ maxPayload.toNat) →
        chunks.flatten = encodeFrames frames →
        ((create maxPayload).pushAll chunks).2 = (frames, chunks.map fun _ => .ok ()) ∧
          ((create maxPayload).pushAll chunks).1.hasPartialFrame = false) ∧
      ∀ frames rest chunks more, (∀ frame ∈ frames, frame.payload.length ≤ maxPayload.toNat) →
        chunks.flatten = encodeFrames frames ++ rest → AnnouncesTooLong maxPayload rest →
        ((create maxPayload).pushAll (chunks ++ more)).2.1 = frames ∧
          ((create maxPayload).pushAll (chunks ++ more)).2.2.drop chunks.length =
            more.map fun _ => .error poisoned := by
  refine ⟨pushAll_same maxPayload, fun frames chunks hframes hchunks => ?_,
    fun frames rest chunks more hframes hchunks hlong =>
      pushAll_tooLong maxPayload hframes hchunks hlong more⟩
  rw [pushAll_encoded maxPayload hframes hchunks]
  exact ⟨rfl, rfl⟩

end FrameDecoder

end psx.transport
