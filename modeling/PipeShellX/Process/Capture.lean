-- What a run keeps of its output: the capture of a worker, of a native connection and of a
-- bounded buffer are one and the same, and exact.
import PipeShellX.Process.Worker
import PipeShellX.Stream.BoundedBuffer
import PipeShellX.Transport.NativeController

namespace psx.process

open psx.stream (OverflowPolicy ReadAnswers SpoolAnswers SpoolBuffer BoundedBuffer dropsOnOverflow)
open psx.transport (Channel NativeController)
open psx.transport.NativeController (Options Conn)

/-- Output as it arrives, with what the operating system answers the spool. -/
structure Chunk where
  channel : Channel
  bytes : Bytes
  answers : SpoolAnswers
  deriving DecidableEq

/-- The chunks of one channel. -/
def ofChannel (channel : Channel) (chunks : List Chunk) : List Chunk :=
  chunks.filter fun chunk => chunk.channel = channel

/-- What came on a channel. -/
def received (channel : Channel) (chunks : List Chunk) : Bytes :=
  (ofChannel channel chunks).flatMap (·.bytes)

/-- The cap of a run: `block` ignores the ring size, and a ring size of 0 is no cap. -/
def outputCap (policy : OverflowPolicy) (ringBytes : Nat) : Nat :=
  if policy = .Block then 0 else ringBytes

/-- What is kept of one channel. -/
structure Kept where
  ring : Bytes := []
  spool : SpoolBuffer := {}
  back : ReadAnswers := {}
  dropped : Nat := 0

/-- One more chunk is kept. -/
def Kept.capture (cap : Nat) (policy : OverflowPolicy) (kept : Kept) (chunk : Chunk) : Kept :=
  let (ring, spool, dropped) :=
    Worker.captureRing cap policy kept.ring kept.spool chunk.bytes chunk.answers
  { ring, spool, back := chunk.answers.back, dropped := kept.dropped + dropped }

/-- A series of chunks is kept. -/
def Kept.run (cap : Nat) (policy : OverflowPolicy) (chunks : List Chunk) : Kept :=
  chunks.foldl (Kept.capture cap policy) {}

/-- What a result shows of it. -/
def Kept.full (kept : Kept) : Bytes :=
  if kept.spool.empty then kept.ring else kept.spool.readAll kept.back ++ kept.ring

section

variable {cap : Nat} {ring data : Bytes} {spool : SpoolBuffer} {answers : SpoolAnswers}
  {policy : OverflowPolicy}

theorem captureRing_unbounded :
    Worker.captureRing 0 policy ring spool data answers = (ring ++ data, spool, 0) := by
  rw [Worker.captureRing, if_pos rfl]

theorem captureRing_dropNewest (hcap : cap ≠ 0) (hring : ring.length ≤ cap) :
    Worker.captureRing cap .DropNewest ring spool data answers =
      ((ring ++ data).take cap, spool, ring.length + data.length - cap) := by
  unfold Worker.captureRing
  rw [if_neg hcap, if_pos rfl, List.take_append, List.take_of_length_le hring]
  dsimp only
  congr 2
  · rw [← List.take_take, List.take_length]
  · omega

/-- What makes room for a chunk comes from the ring first, then from the chunk. -/
structure Evicts (cap : Nat) (ring data : Bytes) (fromRing fromData : Nat) : Prop where
  ring_le : fromRing ≤ ring.length
  data_le : fromData ≤ data.length
  all : fromRing + fromData = ring.length + data.length - cap
  order : fromData ≠ 0 → fromRing = ring.length

theorem Evicts.kept {fromRing fromData : Nat} (h : Evicts cap ring data fromRing fromData) :
    ring.drop fromRing ++ data.drop fromData = (ring ++ data).rtake cap := by
  have hring := h.ring_le
  have hall := h.all
  rw [List.rtake, List.length_append, ← hall, List.drop_append]
  by_cases hdata : fromData = 0
  · rw [hdata, Nat.add_zero, Nat.sub_eq_zero_of_le hring]
  · have horder := h.order hdata
    have hnil : ring.drop (ring.length + fromData) = [] :=
      List.drop_eq_nil_of_le (Nat.le_add_right _ _)
    rw [horder, List.drop_length, Nat.add_sub_cancel_left, hnil]

theorem Evicts.evicted {fromRing fromData : Nat} (h : Evicts cap ring data fromRing fromData) :
    ring.take fromRing ++ data.take fromData ++ (ring ++ data).rtake cap = ring ++ data := by
  rw [← h.kept]
  by_cases hdata : fromData = 0
  · rw [hdata, List.take_zero, List.append_nil, List.drop_zero, ← List.append_assoc,
      List.take_append_drop]
  · rw [h.order hdata, List.take_length, List.drop_length, List.nil_append, List.append_assoc,
      List.take_append_drop]

/-- How much room a chunk needs, as the code computes it. -/
theorem evicts (data : Bytes) (hring : ring.length ≤ cap) :
    Evicts cap ring data
      (min (if data.length > cap - ring.length then data.length - (cap - ring.length) else 0)
        ring.length)
      ((if data.length > cap - ring.length then data.length - (cap - ring.length) else 0) -
        min (if data.length > cap - ring.length then data.length - (cap - ring.length) else 0)
          ring.length) := by
  constructor <;> split_ifs <;> omega

theorem captureRing_dropOldest (hcap : cap ≠ 0) (hring : ring.length ≤ cap) :
    Worker.captureRing cap .DropOldest ring spool data answers =
      ((ring ++ data).rtake cap, spool, ring.length + data.length - cap) := by
  have hevicts := evicts data hring
  unfold Worker.captureRing
  rw [if_neg hcap, if_neg (by decide)]
  dsimp only
  rw [if_neg (by decide), hevicts.kept]
  congr 2
  split_ifs <;> omega

/-- A spool that was only appended to, with all that it took. A flush that failed may have lost a
last part of it, and then no more is taken. -/
structure Spilled (spool : SpoolBuffer) (taken : Bytes) : Prop where
  sound : spool.Sound
  offset : spool.readOffset = 0
  size : spool.size = taken.length
  stored : spool.stored <+: taken
  works : spool.failed = false → spool.Whole

theorem spilled_new : Spilled {} [] :=
  ⟨SpoolBuffer.good_reset.sound, rfl, rfl, List.prefix_refl _, fun _ => Nat.le_refl 0⟩

/-- Nothing is lost on the way to a spool that has as many bytes as it took. -/
theorem Spilled.whole {taken : Bytes} (h : Spilled spool taken) (hwhole : spool.Whole) :
    spool.stored = taken := by
  apply h.stored.eq_of_length
  rw [SpoolBuffer.stored, List.length_take, ← h.size]
  exact Nat.min_eq_left hwhole

/-- One of the two appends, made when there is something to append. All of the bytes are taken, or
none of them. -/
structure Spills (spool : SpoolBuffer) (bytes : Bytes) (answers : psx.stream.AppendAnswers)
    (spool' : SpoolBuffer) (ok : Bool) : Prop where
  spilled : ∀ {taken}, Spilled spool taken →
    Spilled spool' (taken ++ if ok then bytes else [])
  whole : ∀ {taken}, Spilled spool taken → spool.Whole → answers.sought = none → spool'.Whole
  works : spool.failed = false → answers = {} → ok = true ∧ spool'.failed = false

theorem append_spills (spool : SpoolBuffer) (bytes : Bytes) (answers : psx.stream.AppendAnswers) :
    Spills spool bytes answers (spool.append bytes answers).1 (spool.append bytes answers).2 := by
  by_cases hnone : bytes = []
  · have hsame : spool.append bytes answers = (spool, true) := if_pos hnone
    rw [hsame, hnone]
    exact ⟨fun h => by simpa using h, fun _ hwhole _ => hwhole, fun hworks _ => ⟨rfl, hworks⟩⟩
  by_cases hbad : spool.Refuses answers
  · have hrefused : (spool.append bytes answers).2 = false := by
      obtain ⟨file, -, happend⟩ := SpoolBuffer.append_refused hnone hbad
      rw [happend]
    by_cases hfailed : spool.failed = true
    · have hsame : spool.append bytes answers = (spool, false) := by
        rw [SpoolBuffer.append, if_neg hnone, if_pos hfailed]
      rw [hsame]
      exact ⟨fun h => by simpa using h, fun _ hwhole _ => hwhole,
        fun hworks => absurd (hworks.symm.trans hfailed) Bool.false_ne_true⟩
    · obtain ⟨file, hleft, happend⟩ := SpoolBuffer.append_refused hnone hbad
      rw [happend]
      refine ⟨fun h => ?_, fun h hwhole hsought => ?_, fun hworks hanswers => ?_⟩
      · have hwhole := h.works (by simpa using hfailed)
        obtain ⟨hstored, -⟩ := SpoolBuffer.stored_refused hwhole hleft
        rw [if_neg Bool.false_ne_true, List.append_nil]
        exact ⟨h.sound.refused hleft, h.offset, h.size, hstored.trans h.stored, nofun⟩
      · refine (SpoolBuffer.stored_refused hwhole hleft).2 ?_
        rw [hsought]
        exact id
      · rw [hanswers] at hbad
        exact absurd hbad (SpoolBuffer.not_refuses_of_works hworks)
  · have hworks : spool.failed = false := by
      rw [← Bool.not_eq_true]
      exact fun hfailed => hbad (.inl hfailed)
    have hgood : ∀ {taken}, Spilled spool taken → spool.Good :=
      fun h => ⟨h.sound, h.works hworks, hworks⟩
    have htaken := SpoolBuffer.append_taken hnone hbad
    refine ⟨fun h => ?_, fun h _ _ => ?_, fun _ _ => ?_⟩
    · obtain ⟨hgood', hok, hpending⟩ := (hgood h).append hnone hbad
      have hoffset : (spool.append bytes answers).1.readOffset = 0 := by
        rw [htaken]
        exact h.offset
      rw [SpoolBuffer.pending, SpoolBuffer.pending, hoffset, h.offset, List.drop_zero,
        List.drop_zero, h.whole (h.works hworks)] at hpending
      rw [hok, if_pos rfl]
      refine ⟨hgood'.sound, hoffset, ?_, hpending ▸ List.prefix_refl _, fun _ => hgood'.whole⟩
      rw [htaken, List.length_append, ← h.size]
    · exact ((hgood h).append hnone hbad).1.whole
    · rw [htaken]
      exact ⟨rfl, hworks⟩

theorem spill_spec (spool : SpoolBuffer) (bytes : Bytes) (n : Nat) (hn : n = bytes.length)
    (answers : psx.stream.AppendAnswers) :
    ∃ spool' ok, (if n ≠ 0 then spool.append bytes answers else (spool, true)) = (spool', ok) ∧
      Spills spool bytes answers spool' ok := by
  by_cases hzero : n = 0
  · have hnil : bytes = [] := List.eq_nil_of_length_eq_zero (hn ▸ hzero)
    have hspills := append_spills spool bytes answers
    have hsame : spool.append bytes answers = (spool, true) := if_pos hnil
    rw [hsame] at hspills
    exact ⟨spool, true, by rw [if_neg (not_not.mpr hzero)], hspills⟩
  · exact ⟨_, _, by rw [if_pos hzero], append_spills spool bytes answers⟩

/-- Bytes that were not dropped were taken. -/
theorem taken_all {bytes : Bytes} {n : Nat} (ok : Bool) (hn : bytes.length = n)
    (hnone : (if ok then 0 else n) = 0) : (if ok then bytes else []) = bytes := by
  cases ok with
  | true => rfl
  | false => exact (List.eq_nil_of_length_eq_zero (hn.trans hnone)).symm

/-- What the spool takes of a chunk and of what the ring had to give up for it. -/
structure SpillsOver (spool : SpoolBuffer) (answers : SpoolAnswers) (evicted : Bytes)
    (spool' : SpoolBuffer) (dropped : Nat) : Prop where
  spilled : ∀ {taken}, Spilled spool taken → ∃ more,
    Spilled spool' (taken ++ more) ∧ more.length + dropped = evicted.length ∧
      (dropped = 0 → more = evicted)
  whole : ∀ {taken}, Spilled spool taken → spool.Whole → answers.first.sought = none →
    answers.second.sought = none → spool'.Whole
  works : spool.failed = false → answers.first = {} → answers.second = {} →
    dropped = 0 ∧ spool'.failed = false

theorem captureRing_spool (spool : SpoolBuffer) (data : Bytes) (answers : SpoolAnswers)
    (hcap : cap ≠ 0) (hring : ring.length ≤ cap) :
    ∃ spool' dropped evicted, Worker.captureRing cap .Spool ring spool data answers =
        ((ring ++ data).rtake cap, spool', dropped) ∧
      evicted ++ (ring ++ data).rtake cap = ring ++ data ∧
      SpillsOver spool answers evicted spool' dropped := by
  have hevicts := evicts data hring
  unfold Worker.captureRing
  rw [if_neg hcap, if_neg (by decide)]
  dsimp only
  generalize (if data.length > cap - ring.length then data.length - (cap - ring.length) else 0) =
    overflow at hevicts ⊢
  rw [if_pos rfl, hevicts.kept]
  generalize min overflow ring.length = fromRing at hevicts ⊢
  generalize overflow - fromRing = fromData at hevicts ⊢
  have hfromRing : (ring.take fromRing).length = fromRing := by
    rw [List.length_take, Nat.min_eq_left hevicts.ring_le]
  have hfromData : (data.take fromData).length = fromData := by
    rw [List.length_take, Nat.min_eq_left hevicts.data_le]
  obtain ⟨first, okFirst, hfirst, hspills⟩ :=
    spill_spec spool (ring.take fromRing) fromRing hfromRing.symm answers.first
  obtain ⟨second, okSecond, hsecond, hspills'⟩ :=
    spill_spec first (data.take fromData) fromData hfromData.symm answers.second
  rw [hfirst]
  dsimp only
  rw [hsecond]
  refine ⟨second, _, ring.take fromRing ++ data.take fromData, rfl, hevicts.evicted, ?_⟩
  refine ⟨fun {taken} h => ?_, fun h hwhole hfine hfine' => ?_, fun hworks hfine hfine' => ?_⟩
  · refine ⟨_, by simpa only [List.append_assoc] using hspills'.spilled (hspills.spilled h), ?_, ?_⟩
    · rw [List.length_append, List.length_append, apply_ite List.length, apply_ite List.length,
        hfromRing, hfromData]
      dsimp only [List.length_nil]
      split_ifs <;> omega
    · intro hnone
      rw [Nat.add_eq_zero_iff] at hnone
      rw [taken_all okFirst hfromRing hnone.1, taken_all okSecond hfromData hnone.2]
  · exact hspills'.whole (hspills.spilled h) (hspills.whole h hwhole hfine) hfine'
  · obtain ⟨hok, hfirstWorks⟩ := hspills.works hworks hfine
    obtain ⟨hok', hsecondWorks⟩ := hspills'.works hfirstWorks hfine'
    exact ⟨by simp [hok, hok'], hsecondWorks⟩

end

/-! ## A run of one channel -/

section

variable {cap : Nat} {policy : OverflowPolicy}

/-- All the bytes of some chunks. -/
def bytesOf (chunks : List Chunk) : Bytes := chunks.flatMap (·.bytes)

theorem bytesOf_snoc (chunks : List Chunk) (chunk : Chunk) :
    bytesOf (chunks ++ [chunk]) = bytesOf chunks ++ chunk.bytes := by
  simp [bytesOf]

/-- What the spool is answered when it is read back, after the last chunk. -/
def lastBack (chunks : List Chunk) : ReadAnswers :=
  (chunks.getLast?.map (·.answers.back)).getD {}

@[simp] theorem lastBack_snoc (chunks : List Chunk) (chunk : Chunk) :
    lastBack (chunks ++ [chunk]) = chunk.answers.back := by
  simp [lastBack]

theorem run_snoc (chunks : List Chunk) (chunk : Chunk) :
    Kept.run cap policy (chunks ++ [chunk]) =
      (Kept.run cap policy chunks).capture cap policy chunk := by
  rw [Kept.run, List.foldl_append]
  rfl

theorem run_unbounded (policy : OverflowPolicy) (chunks : List Chunk) :
    Kept.run 0 policy chunks = { ring := bytesOf chunks, back := lastBack chunks } := by
  induction chunks using List.reverseRecOn with
  | nil => rfl
  | append_singleton chunks chunk ih =>
    rw [run_snoc, ih, bytesOf_snoc, lastBack_snoc, Kept.capture, captureRing_unbounded]

theorem run_dropNewest (hcap : cap ≠ 0) (chunks : List Chunk) :
    Kept.run cap .DropNewest chunks =
      { ring := (bytesOf chunks).take cap
        back := lastBack chunks
        dropped := (bytesOf chunks).length - cap } := by
  induction chunks using List.reverseRecOn with
  | nil => simp [Kept.run, bytesOf, lastBack]
  | append_singleton chunks chunk ih =>
    have hring : ((bytesOf chunks).take cap).length ≤ cap := List.length_take_le _ _
    rw [run_snoc, ih, bytesOf_snoc, lastBack_snoc, Kept.capture, captureRing_dropNewest hcap hring,
      List.take_append_take, List.length_append, List.length_take]
    dsimp only
    congr 1
    omega

theorem run_dropOldest (hcap : cap ≠ 0) (chunks : List Chunk) :
    Kept.run cap .DropOldest chunks =
      { ring := (bytesOf chunks).rtake cap
        back := lastBack chunks
        dropped := (bytesOf chunks).length - cap } := by
  induction chunks using List.reverseRecOn with
  | nil => simp [Kept.run, bytesOf, List.rtake, lastBack]
  | append_singleton chunks chunk ih =>
    have hlen := (bytesOf chunks).length_rtake cap
    have hring : ((bytesOf chunks).rtake cap).length ≤ cap := by omega
    rw [run_snoc, ih, bytesOf_snoc, lastBack_snoc, Kept.capture, captureRing_dropOldest hcap hring,
      List.rtake_append_rtake, List.length_append, hlen]
    dsimp only
    congr 1
    omega

/-- Every append to the spool went well. -/
def AllWritten (chunks : List Chunk) : Prop :=
  ∀ chunk ∈ chunks, chunk.answers.first = {} ∧ chunk.answers.second = {}

/-- No seek of the spool failed, and no flush with it. -/
def AllSought (chunks : List Chunk) : Prop :=
  ∀ chunk ∈ chunks, chunk.answers.first.sought = none ∧ chunk.answers.second.sought = none

/-- One channel under the Spool policy. What the ring has to give up goes to the spool, which takes
a part of it, and the rest is counted. -/
structure SpoolRun (cap : Nat) (chunks : List Chunk) (kept : Kept) (evicted taken : Bytes) :
    Prop where
  ring : kept.ring = (bytesOf chunks).rtake cap
  back : kept.back = lastBack chunks
  split : evicted ++ (bytesOf chunks).rtake cap = bytesOf chunks
  spilled : Spilled kept.spool taken
  counted : taken.length + kept.dropped = evicted.length
  everything : kept.dropped = 0 → taken = evicted
  works : AllWritten chunks → kept.dropped = 0 ∧ kept.spool.failed = false
  whole : AllSought chunks → kept.spool.Whole

theorem run_spool (hcap : cap ≠ 0) (chunks : List Chunk) :
    ∃ evicted taken, SpoolRun cap chunks (Kept.run cap .Spool chunks) evicted taken := by
  induction chunks using List.reverseRecOn with
  | nil =>
    have hnil : ([] : Bytes).rtake cap = [] := List.drop_nil
    exact ⟨[], [], ⟨hnil.symm, rfl, hnil, spilled_new, rfl, fun _ => rfl, fun _ => ⟨rfl, rfl⟩,
      fun _ => Nat.le_refl 0⟩⟩
  | append_singleton chunks chunk ih =>
    obtain ⟨evicted, taken, hrun⟩ := ih
    have hlen := (bytesOf chunks).length_rtake cap
    rw [run_snoc]
    generalize Kept.run cap .Spool chunks = kept at hrun ⊢
    obtain ⟨spool, dropped, out, hcapture, hout, hover⟩ := captureRing_spool kept.spool
      chunk.bytes chunk.answers hcap (show ((bytesOf chunks).rtake cap).length ≤ cap by omega)
    rw [List.rtake_append_rtake, ← bytesOf_snoc] at hcapture hout
    obtain ⟨more, hspilled, hcounted, hall⟩ := hover.spilled hrun.spilled
    have hearlier : ∀ {p : Chunk → Prop}, (∀ c ∈ chunks ++ [chunk], p c) → ∀ c ∈ chunks, p c :=
      fun h c hc => h c (by simp [hc])
    rw [Kept.capture, hrun.ring, hcapture]
    refine ⟨evicted ++ out, taken ++ more, rfl, (lastBack_snoc chunks chunk).symm, ?_, hspilled,
      ?_, ?_, ?_, ?_⟩
    · rw [List.append_assoc, hout, ← List.append_assoc, hrun.split, bytesOf_snoc]
    · have hbefore := hrun.counted
      rw [List.length_append, List.length_append]
      dsimp only
      omega
    · intro hnone
      obtain ⟨hbefore, hnow⟩ := Nat.add_eq_zero_iff.mp hnone
      rw [hrun.everything hbefore, hall hnow]
    · intro hwritten
      obtain ⟨hbefore, hworks⟩ := hrun.works (hearlier hwritten)
      obtain ⟨hfirst, hsecond⟩ := hwritten chunk (by simp)
      obtain ⟨hnow, hstill⟩ := hover.works hworks hfirst hsecond
      exact ⟨Nat.add_eq_zero_iff.mpr ⟨hbefore, hnow⟩, hstill⟩
    · intro hsought
      obtain ⟨hfirst, hsecond⟩ := hsought chunk (by simp)
      exact hover.whole hrun.spilled (hrun.whole (hearlier hsought)) hfirst hsecond

/-- The spool gives back as many bytes as it took. -/
def Kept.ReadsBack (kept : Kept) : Prop :=
  (kept.spool.readAll kept.back).length = kept.spool.size

section

variable {chunks : List Chunk} {kept : Kept} {evicted taken : Bytes}

theorem SpoolRun.full (h : SpoolRun cap chunks kept evicted taken) :
    kept.full = kept.spool.readAll kept.back ++ kept.ring := by
  unfold Kept.full
  split_ifs with hempty
  · have hzero : kept.spool.size = 0 := by
      have hremaining := SpoolBuffer.empty_iff_remaining.mp hempty
      rwa [SpoolBuffer.remaining, h.spilled.offset, Nat.sub_zero] at hremaining
    have hnil : kept.spool.readAll kept.back = [] := if_pos (.inr hzero)
    rw [hnil, List.nil_append]
  · rfl

end

end

/-! ## The two transports -/

/-- The rings and the spools of both channels, and the count that they share. -/
structure Holds (out err : Kept) (stdoutRing stderrRing : Bytes)
    (stdoutSpool stderrSpool : SpoolBuffer) (stdoutBack stderrBack : ReadAnswers)
    (droppedBytes : Nat) : Prop where
  stdoutRing : stdoutRing = out.ring
  stderrRing : stderrRing = err.ring
  stdoutSpool : stdoutSpool = out.spool
  stderrSpool : stderrSpool = err.spool
  stdoutBack : stdoutBack = out.back
  stderrBack : stderrBack = err.back
  dropped : droppedBytes = out.dropped + err.dropped

section

variable {out err : Kept} {stdoutRing stderrRing : Bytes} {stdoutSpool stderrSpool : SpoolBuffer}
  {stdoutBack stderrBack : ReadAnswers} {droppedBytes : Nat}

theorem Holds.stdout (h : Holds out err stdoutRing stderrRing stdoutSpool stderrSpool stdoutBack
      stderrBack droppedBytes) (cap : Nat) (policy : OverflowPolicy) (chunk : Chunk) :
    let r := Worker.captureRing cap policy stdoutRing stdoutSpool chunk.bytes chunk.answers
    Holds (out.capture cap policy chunk) err r.1 stderrRing r.2.1 stderrSpool chunk.answers.back
      stderrBack (droppedBytes + r.2.2) := by
  obtain ⟨rfl, hring, rfl, hspool, -, hback, hdropped⟩ := h
  refine ⟨rfl, hring, rfl, hspool, rfl, hback, ?_⟩
  rw [hdropped, Nat.add_right_comm]
  rfl

theorem Holds.stderr (h : Holds out err stdoutRing stderrRing stdoutSpool stderrSpool stdoutBack
      stderrBack droppedBytes) (cap : Nat) (policy : OverflowPolicy) (chunk : Chunk) :
    let r := Worker.captureRing cap policy stderrRing stderrSpool chunk.bytes chunk.answers
    Holds out (err.capture cap policy chunk) stdoutRing r.1 stdoutSpool r.2.1 stdoutBack
      chunk.answers.back (droppedBytes + r.2.2) := by
  obtain ⟨hring, rfl, hspool, rfl, hback, -, hdropped⟩ := h
  refine ⟨hring, rfl, hspool, rfl, hback, rfl, ?_⟩
  rw [hdropped, Nat.add_assoc]
  rfl

end

/-- The worker of a process holds what is kept of its two channels. -/
def Worker.Holds (w : Worker) (out err : Kept) : Prop :=
  process.Holds out err w.stdoutData w.stderrData w.stdoutSpool w.stderrSpool w.stdoutBack
    w.stderrBack w.droppedBytes

/-- The connection to a node holds what is kept of its two channels. -/
def ConnHolds (conn : Conn) (out err : Kept) : Prop :=
  Holds out err conn.stdoutRing conn.stderrRing conn.stdoutSpool conn.stderrSpool conn.stdoutBack
    conn.stderrBack conn.result.droppedBytes

theorem ofChannel_snoc (channel : Channel) (chunks : List Chunk) (chunk : Chunk) :
    ofChannel channel (chunks ++ [chunk]) =
      ofChannel channel chunks ++ if chunk.channel = channel then [chunk] else [] := by
  by_cases h : chunk.channel = channel <;> simp [ofChannel, h]

variable (policy : OverflowPolicy) (ringBytes : Nat) (chunks : List Chunk)

/-- What is kept of a channel of the run. -/
def keptOf (channel : Channel) : Kept :=
  Kept.run (outputCap policy ringBytes) policy (ofChannel channel chunks)

theorem keptOf_snoc (channel : Channel) (chunk : Chunk) :
    keptOf policy ringBytes (chunks ++ [chunk]) channel =
      if chunk.channel = channel then
        (keptOf policy ringBytes chunks channel).capture (outputCap policy ringBytes) policy chunk
      else keptOf policy ringBytes chunks channel := by
  unfold keptOf
  rw [ofChannel_snoc]
  split_ifs
  · exact run_snoc _ _
  · rw [List.append_nil]

/-- Chunk after chunk, for a worker that has no output yet. -/
theorem captures_hold {w : Worker} (h : w.Holds {} {}) :
    (chunks.foldl (fun w chunk => w.capture (outputCap policy ringBytes) policy
      (chunk.channel = .Stdout) chunk.bytes chunk.answers) w).Holds
      (keptOf policy ringBytes chunks .Stdout) (keptOf policy ringBytes chunks .Stderr) := by
  induction chunks using List.reverseRecOn with
  | nil => exact h
  | append_singleton chunks chunk ih =>
    rw [List.foldl_append, List.foldl_cons, List.foldl_nil, keptOf_snoc, keptOf_snoc]
    generalize chunks.foldl _ w = ran at ih ⊢
    cases hchannel : chunk.channel with
    | Stdout => exact Holds.stdout ih (outputCap policy ringBytes) policy chunk
    | Stderr => exact Holds.stderr ih (outputCap policy ringBytes) policy chunk

/-- The ring of a channel. -/
def Worker.ring (w : Worker) : Channel → Bytes
  | .Stdout => w.stdoutData
  | .Stderr => w.stderrData

/-- All that the worker gives back of a channel. -/
def Worker.full (w : Worker) : Channel → Bytes
  | .Stdout => w.stdoutFull
  | .Stderr => w.stderrFull

/-- The ring of a channel. -/
def connRing (conn : Conn) : Channel → Bytes
  | .Stdout => conn.stdoutRing
  | .Stderr => conn.stderrRing

/-- The stream of the result that `finish` leaves. -/
def connFull (conn : Conn) : Channel → Bytes
  | .Stdout => conn.finished.result.stdoutData
  | .Stderr => conn.finished.result.stderrData

/-- The bytes that the spool of a stream took. -/
def Worker.spooled (w : Worker) : Channel → Nat
  | .Stdout => w.stdoutSpool.size
  | .Stderr => w.stderrSpool.size

/-- The spool gives back as many bytes as it took. -/
def Worker.ReadsBack (w : Worker) : Channel → Prop
  | .Stdout => (w.stdoutSpool.readAll w.stdoutBack).length = w.stdoutSpool.size
  | .Stderr => (w.stderrSpool.readAll w.stderrBack).length = w.stderrSpool.size

theorem Worker.Holds.full {w : Worker} {kept : Channel → Kept}
    (h : w.Holds (kept .Stdout) (kept .Stderr)) (channel : Channel) :
    w.ring channel = (kept channel).ring ∧ w.full channel = (kept channel).full := by
  cases channel with
  | Stdout =>
    refine ⟨h.stdoutRing, ?_⟩
    unfold Worker.full stdoutFull Kept.full
    rw [h.stdoutRing, h.stdoutSpool, h.stdoutBack]
  | Stderr =>
    refine ⟨h.stderrRing, ?_⟩
    unfold Worker.full stderrFull Kept.full
    rw [h.stderrRing, h.stderrSpool, h.stderrBack]

theorem Worker.Holds.spool {w : Worker} {kept : Channel → Kept}
    (h : w.Holds (kept .Stdout) (kept .Stderr)) (channel : Channel) :
    w.spooled channel = (kept channel).spool.size ∧
      (w.ReadsBack channel ↔ (kept channel).ReadsBack) := by
  cases channel with
  | Stdout =>
    unfold Worker.spooled Worker.ReadsBack Kept.ReadsBack
    rw [h.stdoutSpool, h.stdoutBack]
    exact ⟨rfl, Iff.rfl⟩
  | Stderr =>
    unfold Worker.spooled Worker.ReadsBack Kept.ReadsBack
    rw [h.stderrSpool, h.stderrBack]
    exact ⟨rfl, Iff.rfl⟩

theorem ConnHolds.full {conn : Conn} {kept : Channel → Kept}
    (h : ConnHolds conn (kept .Stdout) (kept .Stderr)) (channel : Channel) :
    connRing conn channel = (kept channel).ring ∧ connFull conn channel = (kept channel).full := by
  cases channel with
  | Stdout =>
    refine ⟨h.stdoutRing, ?_⟩
    unfold connFull Conn.finished Kept.full
    dsimp only
    rw [h.stdoutRing, h.stdoutSpool, h.stdoutBack]
  | Stderr =>
    refine ⟨h.stderrRing, ?_⟩
    unfold connFull Conn.finished Kept.full
    dsimp only
    rw [h.stderrRing, h.stderrSpool, h.stderrBack]

section

variable {policy ringBytes chunks}

theorem keptOf_everything (h : policy = .Block ∨ ringBytes = 0) (channel : Channel) :
    keptOf policy ringBytes chunks channel =
      { ring := received channel chunks, back := lastBack (ofChannel channel chunks) } := by
  have hcap : outputCap policy ringBytes = 0 := by
    unfold outputCap
    rcases h with rfl | rfl
    · rfl
    · exact ite_self 0
  rw [keptOf, hcap, run_unbounded]
  rfl

end

end psx.process
