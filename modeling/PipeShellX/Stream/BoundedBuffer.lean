-- The bounded ring of a stream (bounded_buffer.cpp). What it holds is a list: the drop
-- policies keep the first or the last bytes of all that came, and count the others.
import PipeShellX.Ring
import PipeShellX.Stream.SpoolBuffer

namespace psx.stream

/-- The policy makes room by losing something. -/
def dropsOnOverflow (policy : OverflowPolicy) : Bool :=
  policy = .DropNewest || policy = .DropOldest

/-- A ring of bytes with what becomes of those that do not fit. -/
structure BoundedBuffer (capacity : Nat) where
  ring : RingBuffer UInt8 capacity
  policy : OverflowPolicy
  dropped : Nat := 0

namespace BoundedBuffer

variable {capacity : Nat}

/-- An empty buffer. -/
def create (capacity : Nat) (policy : OverflowPolicy) : BoundedBuffer capacity where
  ring := {
    cells := Vector.replicate capacity 0
    head := 0
    size := 0
    head_lt := RingBuffer.first_cell capacity
    size_le := Nat.zero_le capacity }
  policy := policy

/-- How many more bytes fit. -/
def available (b : BoundedBuffer capacity) : Nat := b.ring.free

theorem fits (r : RingBuffer UInt8 capacity) (data : Bytes) :
    r.size + (data.take (min data.length r.free)).length ≤ capacity := by
  have := r.free_add_size
  rw [List.length_take]
  omega

/-- A copy into the ring, whatever the policy. -/
def appendUpTo (b : BoundedBuffer capacity) (data : Bytes) : BoundedBuffer capacity × Nat :=
  let n := min data.length b.available
  if n = 0 then (b, 0)
  else ({ b with ring := b.ring.write (data.take n) (fits b.ring data) }, n)

/-- The oldest bytes are let go. -/
def discardFront (b : BoundedBuffer capacity) (n : Nat) : BoundedBuffer capacity :=
  { b with ring := b.ring.discard n }

/-- The tally of dropped bytes is preserved. -/
def clear (b : BoundedBuffer capacity) : BoundedBuffer capacity := { b with ring := b.ring.clear }

/-- The case of `append` that evicts. -/
def appendOldest (b : BoundedBuffer capacity) (data : Bytes) : BoundedBuffer capacity :=
  if data.length ≥ capacity then
    -- only the last bytes can survive, and nothing that was held
    let b := { b with dropped := b.dropped + (b.ring.size + (data.length - capacity)) }.clear
    (b.appendUpTo (data.drop (data.length - capacity))).1
  else if data.length > b.available then
    let evict := data.length - b.available
    let b := { b with dropped := b.dropped + evict }.discardFront evict
    (b.appendUpTo data).1
  else (b.appendUpTo data).1

/-- The buffer, and how many bytes the caller need not keep. -/
def append (b : BoundedBuffer capacity) (data : Bytes) : BoundedBuffer capacity × Nat :=
  if capacity = 0 ∨ data = [] then
    if dropsOnOverflow b.policy then ({ b with dropped := b.dropped + data.length }, data.length)
    else (b, 0)
  else
    match b.policy with
    | .Block => b.appendUpTo data
    -- an in-memory ring cannot spool
    | .Spool => b.appendUpTo data
    | .DropNewest =>
      let (b, accepted) := b.appendUpTo data
      ({ b with dropped := b.dropped + (data.length - accepted) }, data.length)
    | .DropOldest => (b.appendOldest data, data.length)

/-- Nothing is held. -/
def empty (b : BoundedBuffer capacity) : Bool := b.ring.size = 0

/-- Nothing more fits. -/
def full (b : BoundedBuffer capacity) : Bool := b.ring.size = capacity

/-- The bytes at the front, up to where the ring wraps. -/
def peek (b : BoundedBuffer capacity) : Bytes :=
  b.ring.toList.take (min b.ring.size (capacity - b.ring.head))

/-- The oldest bytes are given up by the reader. -/
def drop (b : BoundedBuffer capacity) (n : Nat) : BoundedBuffer capacity := b.discardFront n

/-- A copy out of the ring, for which `n` bytes have room. -/
def consume (b : BoundedBuffer capacity) (n : Nat) : BoundedBuffer capacity × Bytes :=
  (b.discardFront n, b.ring.toList.take n)

/-! ## What the buffer holds -/

/-- What is held, the oldest byte first. -/
def contents (b : BoundedBuffer capacity) : Bytes := b.ring.toList

@[simp] theorem contents_create (policy : OverflowPolicy) :
    (create capacity policy).contents = [] := by
  simp [contents, create, RingBuffer.toList]

@[simp] theorem contents_discardFront (b : BoundedBuffer capacity) (n : Nat) :
    (b.discardFront n).contents = b.contents.drop n := b.ring.toList_discard n

@[simp] theorem contents_clear (b : BoundedBuffer capacity) : b.clear.contents = [] :=
  b.ring.toList_clear

theorem empty_iff (b : BoundedBuffer capacity) : b.empty = true ↔ b.contents = [] := by
  rw [empty, decide_eq_true_eq, contents, ← List.length_eq_zero_iff, RingBuffer.length_toList]

theorem full_iff (b : BoundedBuffer capacity) : b.full = true ↔ b.contents.length = capacity := by
  rw [full, decide_eq_true_eq, contents, RingBuffer.length_toList]

/-- A peek gives a first part of what is held, and some of it when there is any. -/
theorem peek_spec (b : BoundedBuffer capacity) :
    ∃ n, b.peek = b.contents.take n ∧ (b.contents ≠ [] → 0 < n) := by
  refine ⟨_, rfl, fun hsome => ?_⟩
  have hsize : 0 < b.ring.size := by
    rw [← RingBuffer.length_toList]
    exact List.length_pos_iff.mpr hsome
  have hle := b.ring.size_le
  have hhead := b.ring.head_lt
  omega

theorem size_ring (b : BoundedBuffer capacity) : b.ring.size = b.contents.length := by
  rw [contents, RingBuffer.length_toList]

theorem length_contents_le (b : BoundedBuffer capacity) : b.contents.length ≤ capacity := by
  rw [contents, RingBuffer.length_toList]
  exact b.ring.size_le

theorem available_eq (b : BoundedBuffer capacity) :
    b.available = capacity - b.contents.length := by
  rw [contents, RingBuffer.length_toList]
  rfl

theorem appendUpTo_spec (b : BoundedBuffer capacity) (data : Bytes) :
    (b.appendUpTo data).1.contents = b.contents ++ data.take b.available ∧
      (b.appendUpTo data).1.policy = b.policy ∧ (b.appendUpTo data).1.dropped = b.dropped ∧
      (b.appendUpTo data).2 = min data.length b.available := by
  have htake : data.take (min data.length b.available) = data.take b.available := by
    rw [← List.take_take, List.take_of_length_le (List.length_take_le' _ _)]
  unfold appendUpTo
  dsimp only
  split_ifs with hn
  · refine ⟨?_, rfl, rfl, hn.symm⟩
    rw [← htake, hn, List.take_zero, List.append_nil]
  · refine ⟨?_, rfl, rfl, rfl⟩
    rw [← htake]
    exact b.ring.toList_write _ _

/-- What an append may do: the buffer keeps its policy and holds `kept`, and every byte that it
does not hold any more, or never did, is counted. -/
structure Appended (b : BoundedBuffer capacity) (data kept : Bytes) (b' : BoundedBuffer capacity) :
    Prop where
  policy : b'.policy = b.policy
  contents : b'.contents = kept
  dropped : b'.dropped + kept.length = b.dropped + b.contents.length + data.length

/-- The first bytes stay. -/
theorem append_dropNewest {b : BoundedBuffer capacity} (hb : b.policy = .DropNewest)
    (data : Bytes) :
    Appended b data ((b.contents ++ data).take capacity) (b.append data).1 := by
  have hle := b.length_contents_le
  have hdrops : dropsOnOverflow b.policy = true := by simp [dropsOnOverflow, hb]
  have hall : (b.contents ++ data).take capacity = b.contents ++ data.take b.available := by
    rw [List.take_append, List.take_of_length_le hle, available_eq]
  rw [hall]
  unfold append
  by_cases hnone : capacity = 0 ∨ data = []
  · rw [if_pos hnone, if_pos hdrops]
    have hkept : data.take b.available = [] := by
      rcases hnone with rfl | rfl
      · rw [available_eq, Nat.zero_sub, List.take_zero]
      · exact List.take_nil
    rw [hkept, List.append_nil]
    exact ⟨rfl, rfl, by dsimp only; omega⟩
  · rw [if_neg hnone, hb]
    obtain ⟨hcontents, hpolicy, hdropped, hcount⟩ := b.appendUpTo_spec data
    refine ⟨hpolicy, hcontents, ?_⟩
    dsimp only
    rw [hdropped, hcount, List.length_append, List.length_take]
    omega

/-- An append of bytes for which there is room. -/
theorem appendUpTo_all (b : BoundedBuffer capacity) (data : Bytes)
    (h : b.contents.length + data.length ≤ capacity) :
    Appended b data (b.contents ++ data) (b.appendUpTo data).1 := by
  obtain ⟨hcontents, hpolicy, hdropped, -⟩ := b.appendUpTo_spec data
  refine ⟨hpolicy, ?_, ?_⟩
  · rw [hcontents, available_eq, List.take_of_length_le]
    omega
  · rw [hdropped, List.length_append]
    omega

/-- Room is made before the append: first by what is held, then by what comes. -/
theorem appendOldest_spec (b : BoundedBuffer capacity) (data : Bytes) :
    Appended b data ((b.contents ++ data).rtake capacity) (b.appendOldest data) := by
  have hle := b.length_contents_le
  have hsize := b.size_ring
  unfold appendOldest
  dsimp only
  split_ifs with hlong hevict
  · have hall := appendUpTo_all
      { b with dropped := b.dropped + (b.ring.size + (data.length - capacity)) }.clear
      (data.drop (data.length - capacity)) (by simp; omega)
    rw [contents_clear, List.nil_append] at hall
    rw [List.rtake_append_of_le hlong]
    refine ⟨hall.policy, hall.contents, ?_⟩
    rw [← List.rtake, List.length_rtake]
    rw [← List.rtake] at hall
    have hdropped := hall.dropped
    rw [contents_clear, List.length_rtake, List.length_nil] at hdropped
    change _ = b.dropped + (b.ring.size + (data.length - capacity)) + 0 + _ at hdropped
    omega
  · have hroom := b.available_eq
    have hall := appendUpTo_all
      ({ b with dropped := b.dropped + (data.length - b.available) }.discardFront
        (data.length - b.available)) data (by
          rw [contents_discardFront, List.length_drop]
          change b.contents.length - _ + _ ≤ _
          omega)
    have hkept : (b.contents ++ data).rtake capacity =
        b.contents.drop (data.length - b.available) ++ data := by
      rw [List.rtake, List.length_append, List.drop_append_of_le_length (by omega)]
      congr 2
      omega
    rw [hkept]
    refine ⟨hall.policy, hall.contents.trans (by rw [contents_discardFront]; rfl), ?_⟩
    have hdropped := hall.dropped
    rw [contents_discardFront, List.length_append, List.length_drop] at hdropped
    rw [List.length_append, List.length_drop]
    change _ = b.dropped + (data.length - b.available) + _ + _ at hdropped
    change _ + (b.contents.length - _ + _) = _ + (b.contents.length - _) + _ at hdropped
    omega
  · have hroom := b.available_eq
    rw [List.rtake_of_length_le (by rw [List.length_append]; omega)]
    exact appendUpTo_all _ _ (by omega)

theorem append_dropOldest {b : BoundedBuffer capacity} (hb : b.policy = .DropOldest)
    (data : Bytes) :
    Appended b data ((b.contents ++ data).rtake capacity) (b.append data).1 := by
  have hdrops : dropsOnOverflow b.policy = true := by simp [dropsOnOverflow, hb]
  unfold append
  by_cases hnone : capacity = 0 ∨ data = []
  · rw [if_pos hnone, if_pos hdrops]
    have hle := b.length_contents_le
    have hkept : (b.contents ++ data).rtake capacity = b.contents := by
      rcases hnone with rfl | rfl
      · have hnil : b.contents = [] := List.eq_nil_of_length_eq_zero (by omega)
        rw [hnil, List.nil_append, List.rtake, Nat.sub_zero, List.drop_length]
      · rw [List.append_nil, List.rtake_of_length_le hle]
    rw [hkept]
    exact ⟨rfl, rfl, by dsimp only; omega⟩
  · rw [if_neg hnone, hb]
    exact b.appendOldest_spec data

/-- A buffer that does not drop takes what fits. -/
theorem append_blocks {b : BoundedBuffer capacity} (hb : dropsOnOverflow b.policy = false)
    (data : Bytes) :
    (b.append data).1.contents = b.contents ++ data.take b.available ∧
      (b.append data).1.policy = b.policy ∧ (b.append data).2 = min data.length b.available := by
  obtain ⟨hcontents, hpolicy, -, hcount⟩ := b.appendUpTo_spec data
  unfold append
  by_cases hnone : capacity = 0 ∨ data = []
  · rw [if_pos hnone, if_neg (by simp [hb])]
    rcases hnone with rfl | rfl
    · rw [available_eq, Nat.zero_sub, List.take_zero, List.append_nil, Nat.min_zero]
      exact ⟨rfl, rfl, rfl⟩
    · rw [List.take_nil, List.append_nil, List.length_nil, Nat.zero_min]
      exact ⟨rfl, rfl, rfl⟩
  · rw [if_neg hnone]
    cases hp : b.policy with
    | Block | Spool => exact ⟨hcontents, hpolicy.trans hp, hcount⟩
    | DropNewest | DropOldest => simp [dropsOnOverflow, hp] at hb

/-! ## Many appends -/

/-- All that a buffer of a drop policy keeps of what came. -/
def keeps (capacity : Nat) (policy : OverflowPolicy) (received : Bytes) : Bytes :=
  if policy = .DropNewest then received.take capacity else received.rtake capacity

end BoundedBuffer

end psx.stream
