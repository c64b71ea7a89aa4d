-- The bounded ring under any sequence of calls (bounded_buffer.cpp). Its cells are read up to the
-- end of the array and again from its start, and what comes out is the front of a list that never
-- outgrows the capacity.
import PipeShellX.Stream.BoundedBuffer

namespace psx.stream

namespace BoundedBuffer

variable {capacity : Nat} {policy : OverflowPolicy} {b : BoundedBuffer capacity}

/-! ## Reads of the cells -/

theorem copy_stops (r : RingBuffer UInt8 capacity) (room : Nat) :
    RingBuffer.copyOut r.cells (min room r.size) r.head (min room r.size) =
      ((r.discard (min room r.size)).head, r.toList.take (min room r.size)) :=
  RingBuffer.copyOut_eq _ _ r (Nat.min_le_right ..) (Nat.le_refl _)

theorem copy_lt (r : RingBuffer UInt8 capacity) (room : Nat) :
    (RingBuffer.copyOut r.cells (min room r.size) r.head (min room r.size)).1 < max 1 capacity := by
  rw [copy_stops]
  exact (r.discard _).head_lt

/-- `consume`, cell by cell. -/
def copyFront (b : BoundedBuffer capacity) (room : Nat) : BoundedBuffer capacity × Bytes :=
  let n := min room b.ring.size
  let copied := RingBuffer.copyOut b.ring.cells n b.ring.head n
  ({ b with
    ring := { b.ring with
      head := copied.1
      size := b.ring.size - n
      head_lt := copy_lt b.ring room
      size_le := Nat.le_trans (Nat.sub_le ..) b.ring.size_le } }, copied.2)

/-- `peek`, as a span of the cells. -/
def front (b : BoundedBuffer capacity) : Bytes :=
  if b.ring.size = 0 then []
  else RingBuffer.span b.ring.cells b.ring.head (min b.ring.size (capacity - b.ring.head))

theorem discard_min (r : RingBuffer UInt8 capacity) (n : Nat) :
    r.discard (min n r.size) = r.discard n := by
  have hmin : min (min n r.size) r.size = min n r.size := by omega
  simp only [RingBuffer.discard, hmin]

theorem take_size (r : RingBuffer UInt8 capacity) (n : Nat) :
    r.toList.take (min n r.size) = r.toList.take n := by
  rw [← r.length_toList, List.take_eq_take_iff]
  omega

theorem copyFront_eq (b : BoundedBuffer capacity) (room : Nat) :
    b.copyFront room = b.consume room := by
  have hring : (b.copyFront room).1.ring = b.ring.discard room := by
    rw [← discard_min]
    unfold copyFront RingBuffer.discard
    simp only [copy_stops, RingBuffer.mk.injEq, true_and]
    refine ⟨rfl, ?_⟩
    omega
  have hbytes : (b.copyFront room).2 = b.ring.toList.take room := by
    have hcopied := congrArg Prod.snd (copy_stops b.ring room)
    rw [← take_size]
    exact hcopied
  refine Prod.ext ?_ hbytes
  change { b with ring := (b.copyFront room).1.ring } = b.discardFront room
  rw [hring]
  rfl

theorem front_eq (b : BoundedBuffer capacity) : b.front = b.peek := by
  unfold front peek
  by_cases hnone : b.ring.size = 0
  · rw [if_pos hnone, hnone, Nat.zero_min, List.take_zero]
  · have hhead := b.ring.head_lt
    have hle := b.ring.size_le
    rw [if_neg hnone]
    apply RingBuffer.span_eq
    · exact Nat.min_le_left ..
    · omega

/-! ## Calls -/

/-- What a buffer is asked. -/
inductive Call
  | append (data : Bytes)
  | consume (room : Nat)
  | peek
  | drop (n : Nat)
  | clear

/-- What a call gives. -/
def Call.data : Call → Bytes
  | .append data => data
  | _ => []

/-- What a call returns. -/
structure Answer where
  accepted : Nat := 0
  bytes : Bytes := []
  deriving DecidableEq, Repr

def call (b : BoundedBuffer capacity) : Call → BoundedBuffer capacity × Answer
  | .append data =>
    let (b, accepted) := b.append data
    (b, { accepted })
  | .consume room =>
    let (b, bytes) := b.copyFront room
    (b, { bytes })
  | .peek => (b, { bytes := b.front })
  | .drop n => (b.drop n, {})
  | .clear => (b.clear, {})

/-! ## A list of at most `capacity` bytes -/

/-- The list after a call. -/
def after (capacity : Nat) (policy : OverflowPolicy) (list : Bytes) : Call → Bytes
  | .append data =>
    if policy = .DropOldest then (list ++ data).rtake capacity
    else list ++ data.take (capacity - list.length)
  | .consume n | .drop n => list.drop n
  | .peek => list
  | .clear => []

/-- What the call may answer. A peek gives a part of the list's front, and some of it when there is
any. -/
def Answers (capacity : Nat) (policy : OverflowPolicy) (list : Bytes) : Call → Answer → Prop
  | .append data, answer =>
    answer =
      { accepted :=
          if dropsOnOverflow policy then data.length
          else min data.length (capacity - list.length) }
  | .consume n, answer => answer = { bytes := list.take n }
  | .peek, answer =>
    answer.accepted = 0 ∧ answer.bytes <+: list ∧ (list ≠ [] → answer.bytes ≠ [])
  | .drop _, answer | .clear, answer => answer = {}

theorem append_count (b : BoundedBuffer capacity) (data : Bytes) :
    (b.append data).2 =
      if dropsOnOverflow b.policy then data.length
      else min data.length (capacity - b.contents.length) := by
  by_cases hdrops : dropsOnOverflow b.policy = true
  · rw [if_pos hdrops]
    unfold append
    split_ifs
    · rfl
    · cases hpolicy : b.policy with
      | Block | Spool => simp [dropsOnOverflow, hpolicy] at hdrops
      | DropNewest | DropOldest => rfl
  · rw [if_neg hdrops, (append_blocks (by simpa using hdrops) data).2.2, available_eq]

theorem after_append (list data : Bytes) :
    after capacity policy list (.append data) =
      if policy = .DropOldest then (list ++ data).rtake capacity
      else list ++ data.take (capacity - list.length) := rfl

theorem append_contents (b : BoundedBuffer capacity) (data : Bytes) :
    (b.append data).1.policy = b.policy ∧
      (b.append data).1.contents = after capacity b.policy b.contents (.append data) := by
  have hle := b.length_contents_le
  rw [after_append]
  cases hpolicy : b.policy with
  | Block | Spool =>
    have hkeeps : dropsOnOverflow b.policy = false := by simp [dropsOnOverflow, hpolicy]
    obtain ⟨hcontents, hsame, -⟩ := append_blocks hkeeps data
    rw [hcontents, available_eq, if_neg (by decide)]
    exact ⟨hsame.trans hpolicy, rfl⟩
  | DropNewest =>
    have happended := append_dropNewest hpolicy data
    rw [happended.contents, if_neg (by decide), List.take_append, List.take_of_length_le hle]
    exact ⟨happended.policy.trans hpolicy, rfl⟩
  | DropOldest =>
    have happended := append_dropOldest hpolicy data
    rw [if_pos rfl]
    exact ⟨happended.policy.trans hpolicy, happended.contents⟩

theorem call_consume (b : BoundedBuffer capacity) (room : Nat) :
    b.call (.consume room) = (b.discardFront room, { bytes := b.contents.take room }) := by
  dsimp only [call]
  rw [copyFront_eq]
  rfl

theorem call_policy (b : BoundedBuffer capacity) (c : Call) : (b.call c).1.policy = b.policy := by
  cases c with
  | append data => exact (append_contents b data).1
  | consume room =>
    rw [call_consume]
    rfl
  | peek | drop | clear => rfl

/-- Every call acts on the list. -/
theorem call_refines (b : BoundedBuffer capacity) (c : Call) :
    (b.call c).1.contents = after capacity b.policy b.contents c ∧
      Answers capacity b.policy b.contents c (b.call c).2 := by
  cases c with
  | append data =>
    refine ⟨(append_contents b data).2, ?_⟩
    unfold call Answers
    dsimp only
    rw [append_count]
  | consume room =>
    rw [call_consume]
    exact ⟨b.contents_discardFront room, rfl⟩
  | peek =>
    obtain ⟨n, hpeek, hsome⟩ := b.peek_spec
    refine ⟨rfl, rfl, ?_, fun hlist => ?_⟩
    · unfold call
      rw [front_eq, hpeek]
      exact List.take_prefix n b.contents
    · unfold call
      rw [front_eq, hpeek]
      have hpos := hsome hlist
      simp [List.take_eq_nil_iff, hlist]
      omega
  | drop n => exact ⟨b.contents_discardFront n, rfl⟩
  | clear => exact ⟨b.contents_clear, rfl⟩

/-! ## Runs -/

/-- A buffer, with how many bytes were given to it, and how many were taken from it. -/
structure Tally (capacity : Nat) where
  buffer : BoundedBuffer capacity
  given : Nat := 0
  removed : Nat := 0

/-- How many bytes a call takes out of the buffer. -/
def removes (b : BoundedBuffer capacity) : Call → Nat
  | .append _ | .peek => 0
  | .consume room => (b.call (.consume room)).2.bytes.length
  | .drop n => b.ring.size - (b.drop n).ring.size
  | .clear => b.ring.size

/-- One call, with what it gave and took. -/
def Tally.call (t : Tally capacity) (c : Call) : Tally capacity where
  buffer := (t.buffer.call c).1
  given := t.given + c.data.length
  removed := t.removed + t.buffer.removes c

/-- All the calls to a new buffer. -/
def run (capacity : Nat) (policy : OverflowPolicy) (calls : List Call) : Tally capacity :=
  calls.foldl Tally.call { buffer := .create capacity policy }

theorem run_snoc (calls : List Call) (c : Call) :
    run capacity policy (calls ++ [c]) = (run capacity policy calls).call c := by
  unfold run
  rw [List.foldl_append]
  rfl

theorem run_refines (calls : List Call) :
    (run capacity policy calls).buffer.policy = policy ∧
      (run capacity policy calls).buffer.contents = calls.foldl (after capacity policy) [] := by
  induction calls using List.reverseRecOn with
  | nil => exact ⟨rfl, contents_create policy⟩
  | append_singleton calls c ih =>
    obtain ⟨hpolicy, hcontents⟩ := ih
    have hstep := (call_refines (run capacity policy calls).buffer c).1
    rw [run_snoc, List.foldl_append, ← hcontents]
    refine ⟨(call_policy _ c).trans hpolicy, ?_⟩
    rw [hpolicy] at hstep
    exact hstep

/-- No byte that came is forgotten by a call: it was taken, it is held or it is counted. -/
theorem call_counts (hdrops : dropsOnOverflow b.policy = true) (c : Call) :
    b.ring.size + b.dropped + c.data.length =
      b.removes c + (b.call c).1.ring.size + (b.call c).1.dropped := by
  cases c with
  | append data =>
    have happended : ∃ kept, Appended b data kept (b.append data).1 := by
      have hcases : b.policy = .DropNewest ∨ b.policy = .DropOldest := by
        simpa [dropsOnOverflow] using hdrops
      rcases hcases with hpolicy | hpolicy
      · exact ⟨_, append_dropNewest hpolicy data⟩
      · exact ⟨_, append_dropOldest hpolicy data⟩
    obtain ⟨kept, happended⟩ := happended
    have hcount := happended.dropped
    rw [← happended.contents, ← size_ring, ← size_ring] at hcount
    change b.ring.size + b.dropped + data.length =
      0 + (b.append data).1.ring.size + (b.append data).1.dropped
    omega
  | consume room =>
    have hsize : (b.contents.take room).length + (b.discardFront room).ring.size =
        b.ring.size := by
      rw [size_ring, size_ring, contents_discardFront, List.length_drop, List.length_take]
      omega
    dsimp only [removes]
    rw [call_consume]
    change b.ring.size + b.dropped + 0 =
      (b.contents.take room).length + (b.discardFront room).ring.size + b.dropped
    omega
  | peek =>
    change b.ring.size + b.dropped + 0 = 0 + b.ring.size + b.dropped
    omega
  | drop n =>
    have hsize : (b.drop n).ring.size ≤ b.ring.size := Nat.sub_le ..
    change b.ring.size + b.dropped + 0 =
      b.ring.size - (b.drop n).ring.size + (b.drop n).ring.size + b.dropped
    omega
  | clear =>
    change b.ring.size + b.dropped + 0 = b.ring.size + 0 + b.dropped
    omega

theorem run_counts (hdrops : dropsOnOverflow policy = true) (calls : List Call) :
    (run capacity policy calls).given =
      (run capacity policy calls).removed + (run capacity policy calls).buffer.ring.size +
        (run capacity policy calls).buffer.dropped := by
  induction calls using List.reverseRecOn with
  | nil => rfl
  | append_singleton calls c ih =>
    have hpolicy := (@run_refines capacity policy calls).1
    have hstep := call_counts (b := (run capacity policy calls).buffer) (by rwa [hpolicy]) c
    rw [run_snoc]
    unfold Tally.call
    dsimp only
    omega

/-- A buffer is a list of at most `capacity` bytes, and one of a drop policy knows how many bytes it
has lost. -/
theorem a_buffer_is_a_bounded_list (capacity : Nat) (policy : OverflowPolicy) (calls : List Call) :
    ((run capacity policy calls).buffer.contents = calls.foldl (after capacity policy) [] ∧
      (run capacity policy calls).buffer.contents.length =
        (run capacity policy calls).buffer.ring.size ∧
      (run capacity policy calls).buffer.ring.size ≤ capacity) ∧
    (∀ c, ((run capacity policy calls).buffer.call c).1.contents =
        after capacity policy (run capacity policy calls).buffer.contents c ∧
      Answers capacity policy (run capacity policy calls).buffer.contents c
        ((run capacity policy calls).buffer.call c).2) ∧
    (dropsOnOverflow policy = true →
      (run capacity policy calls).given =
        (run capacity policy calls).removed + (run capacity policy calls).buffer.ring.size +
          (run capacity policy calls).buffer.dropped) := by
  obtain ⟨hpolicy, hcontents⟩ := @run_refines capacity policy calls
  refine ⟨⟨hcontents, (size_ring _).symm, RingBuffer.size_le _⟩, fun c => ?_, fun hdrops => ?_⟩
  · have hstep := call_refines (run capacity policy calls).buffer c
    rw [hpolicy] at hstep
    exact hstep
  · exact run_counts hdrops calls

/-- Six bytes go to a ring of three: one is read, three stay, and two were the oldest. -/
theorem two_bytes_are_dropped :
    (run 3 .DropOldest [.append [1, 2], .consume 1, .peek, .append [3, 4, 5, 6]]).given =
      1 + 3 + (run 3 .DropOldest
        [.append [1, 2], .consume 1, .peek, .append [3, 4, 5, 6]]).buffer.dropped :=
  (a_buffer_is_a_bounded_list 3 .DropOldest
    [.append [1, 2], .consume 1, .peek, .append [3, 4, 5, 6]]).2.2 rfl

end BoundedBuffer

end psx.stream
