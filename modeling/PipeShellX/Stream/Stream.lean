-- A stream (stream.cpp): a byte channel with the states of a pipe. Its bytes are in a bounded ring
-- and, under the Spool policy, in a spill file behind it. The law: it is a queue of bytes, however
-- they are moved between the two.
import PipeShellX.Stream.BoundedBuffer

namespace psx.stream

/-- Which sides of a stream are open. -/
inductive StreamState
  | Open
  | HalfClosedRemote
  | HalfClosedLocal
  | Closed
  | Error
  deriving DecidableEq, Repr

/-- A buffer between a writer and a reader, with a file behind it. -/
structure Stream (capacity : Nat) where
  buffer : BoundedBuffer capacity
  spool : SpoolBuffer := {}
  state : StreamState := .Open
  error : Option psx.Error := none

namespace Stream

variable {capacity : Nat}

/-- The size of the chunks that come from the spill file. -/
def kChunkBytes : Nat := 64 * 1024

/-- A stream with both sides open. -/
def create (capacity : Nat) (policy : OverflowPolicy) : Stream capacity :=
  { buffer := .create capacity policy }

/-- There is something to read. -/
def readable (s : Stream capacity) : Bool := !s.buffer.empty || !s.spool.empty

/-! ## The producer -/

/-- Behind bytes that wait in the spill file all goes there. -/
def appendSpool (s : Stream capacity) (data : Bytes) (answers : AppendAnswers := {}) :
    Stream capacity × Nat :=
  if data = [] then (s, 0)
  else if ¬ s.spool.empty then
    let (spool, appended) := s.spool.append data answers
    ({ s with spool }, if appended then data.length else 0)
  else
    let (buffer, accepted) := s.buffer.append data
    let s := { s with buffer }
    if accepted = data.length then (s, accepted)
    else
      let (spool, appended) := s.spool.append (data.drop accepted) answers
      ({ s with spool }, if appended then data.length else accepted)

/-- How many bytes were taken. -/
def write (s : Stream capacity) (data : Bytes) (answers : AppendAnswers := {}) :
    Stream capacity × Nat :=
  if s.state ≠ .Open then (s, 0)
  else if s.buffer.policy = .Spool then s.appendSpool data answers
  else
    let (buffer, accepted) := s.buffer.append data
    ({ s with buffer }, accepted)

/-! ## The sink -/

/-- A ring that ran empty takes the next chunk of the spill file. -/
def fillFromSpool (s : Stream capacity) (answers : ReadAnswers := {}) : Stream capacity :=
  if ¬ s.buffer.empty ∨ capacity = 0 ∨ s.spool.empty then s
  else
    let (spool, chunk) := s.spool.read (min kChunkBytes capacity) answers
    if chunk = [] then { s with spool }
    else
      { s with
        buffer := (s.buffer.append chunk).1
        spool := if spool.empty then .reset else spool }

/-- A stream whose writer is gone is over once it is empty. -/
def maybeCloseAfterDrain (s : Stream capacity) : Stream capacity :=
  if s.state = .HalfClosedRemote ∧ ¬ s.readable then { s with state := .Closed } else s

/-- Without a ring the bytes come out of the spill file. -/
def takeSpool (s : Stream capacity) (n : Nat) (answers : ReadAnswers := {}) :
    Stream capacity × Bytes :=
  let (spool, bytes) := s.spool.read n answers
  ({ s with spool := if spool.empty then .reset else spool }, bytes)

/-- The loop of `read`. Every turn takes a byte, so the room that is left bounds the turns. A turn
reads the file at most once, with the answers of its own number. -/
def readLoop : Nat → Nat → (Nat → ReadAnswers) → Stream capacity → Stream capacity × Bytes
  | 0, _, _, s => (s, [])
  | turns + 1, left, answers, s =>
    if left = 0 then (s, [])
    else
      let s := s.fillFromSpool (answers 0)
      if s.buffer.empty then
        if capacity = 0 ∧ ¬ s.spool.empty then
          let (s, bytes) := s.takeSpool left (answers 0)
          if bytes = [] then (s, [])
          else
            let (s, rest) := readLoop turns (left - bytes.length) (fun i => answers (i + 1)) s
            (s, bytes ++ rest)
        else (s, [])
      else
        let (buffer, bytes) := s.buffer.consume left
        let (s, rest) :=
          readLoop turns (left - bytes.length) (fun i => answers (i + 1)) { s with buffer }
        (s, bytes ++ rest)

/-- A read into room for `n` bytes. -/
def read (s : Stream capacity) (n : Nat) (answers : Nat → ReadAnswers := fun _ => {}) :
    Stream capacity × Bytes :=
  if s.state = .Error then (s, [])
  else
    let (s, bytes) := readLoop n n answers s
    (s.maybeCloseAfterDrain, bytes)

/-- A look at the bytes that lie in one piece at the front of the ring. -/
def peek (s : Stream capacity) (answers : ReadAnswers := {}) : Stream capacity × Bytes :=
  let s := s.fillFromSpool answers
  (s, s.buffer.peek)

/-- The loop of `drop`, with what is discarded. -/
def dropLoop : Nat → Nat → (Nat → ReadAnswers) → Stream capacity → Stream capacity × Bytes
  | 0, _, _, s => (s, [])
  | turns + 1, left, answers, s =>
    if left = 0 then (s, [])
    else
      let s := s.fillFromSpool (answers 0)
      if 0 < min left s.buffer.ring.size then
        let (buffer, bytes) := s.buffer.consume left
        let (s, rest) :=
          dropLoop turns (left - bytes.length) (fun i => answers (i + 1)) { s with buffer }
        (s, bytes ++ rest)
      else if capacity = 0 ∧ ¬ s.spool.empty then
        let (s, bytes) := s.takeSpool (min left kChunkBytes) (answers 0)
        if bytes = [] then (s, [])
        else
          let (s, rest) := dropLoop turns (left - bytes.length) (fun i => answers (i + 1)) s
          (s, bytes ++ rest)
      else (s, [])

/-- `n` bytes are discarded, or all that there are. -/
def drop (s : Stream capacity) (n : Nat) (answers : Nat → ReadAnswers := fun _ => {}) :
    Stream capacity × Bytes :=
  let (s, bytes) := dropLoop n n answers s
  (s.maybeCloseAfterDrain, bytes)

/-! ## The ends -/

/-- The writer is done. -/
def closeRemote (s : Stream capacity) : Stream capacity :=
  match s.state with
  | .Open => { s with state := .HalfClosedRemote }
  | .HalfClosedLocal => { s with state := .Closed }
  | _ => s

/-- The reader is done, and what is held is let go. -/
def closeLocal (s : Stream capacity) : Stream capacity :=
  match s.state with
  | .Open => { s with state := .HalfClosedLocal, buffer := s.buffer.clear, spool := .reset }
  | .HalfClosedRemote => { s with state := .Closed, buffer := s.buffer.clear, spool := .reset }
  | _ => s

/-- The stream ends with an error. -/
def fail (s : Stream capacity) (e : psx.Error) : Stream capacity :=
  if s.state = .Closed ∨ s.state = .Error then s else { s with state := .Error, error := some e }

/-- A write would take something. -/
def writable (s : Stream capacity) : Bool :=
  s.state = .Open && (s.buffer.policy = .Spool || dropsOnOverflow s.buffer.policy || !s.buffer.full)

/-- There is nothing to read any more. -/
def atEnd (s : Stream capacity) : Bool :=
  s.state = .Closed || s.state = .Error || s.state = .HalfClosedLocal ||
    s.state = .HalfClosedRemote && !s.readable

end Stream

/-! ## What a stream holds -/

namespace Stream

variable {capacity : Nat} {policy : OverflowPolicy} {s s' s'' : Stream capacity}
  {bytes rest : Bytes} {k n : Nat}

/-- The ring comes before the spill file. -/
def held (s : Stream capacity) : Bytes := s.buffer.contents ++ s.spool.pending

/-- A stream that loses nothing: only under the Spool policy is there something in the file. -/
structure Good (policy : OverflowPolicy) (s : Stream capacity) : Prop where
  given : s.buffer.policy = policy
  keeps : dropsOnOverflow policy = false
  spool : s.spool.Good
  block : policy ≠ .Spool → s.spool.pending = []

theorem good_create (h : dropsOnOverflow policy = false) :
    (create capacity policy).Good policy where
  given := rfl
  keeps := h
  spool := SpoolBuffer.good_reset
  block _ := rfl

@[simp] theorem held_create : (create capacity policy).held = [] := by
  rw [held, create, BoundedBuffer.contents_create]
  rfl

theorem held_of_empty (h : s.buffer.contents = []) : s.held = s.spool.pending := by
  rw [held, h, List.nil_append]

theorem maybeClose_held (s : Stream capacity) : s.maybeCloseAfterDrain.held = s.held := by
  unfold maybeCloseAfterDrain
  split_ifs <;> rfl

theorem maybeClose_spool (s : Stream capacity) : s.maybeCloseAfterDrain.spool = s.spool := by
  unfold maybeCloseAfterDrain
  split_ifs <;> rfl

theorem readable_iff (h : s.spool.Whole) : s.readable = true ↔ s.held ≠ [] := by
  have hbuffer := s.buffer.empty_iff
  have hspool := h.empty_iff
  rw [readable, Bool.or_eq_true, Bool.not_eq_true', Bool.not_eq_true', held, Ne,
    List.append_eq_nil_iff, ← hbuffer, ← hspool, not_and_or, Bool.not_eq_true, Bool.not_eq_true]

/-- The first `n` bytes that `s` holds are taken out of it, and nothing else happens to it. -/
structure Taken (policy : OverflowPolicy) (s : Stream capacity) (n : Nat) (s' : Stream capacity)
    (bytes : Bytes) : Prop where
  good : s'.Good policy
  bytes : bytes = s.held.take n
  held : s'.held = s.held.drop n
  state : s'.state = s.state
  error : s'.error = s.error

theorem Taken.zero (h : s.Good policy) : Taken policy s 0 s [] :=
  ⟨h, List.take_zero.symm, List.drop_zero.symm, rfl, rfl⟩

theorem Taken.none (h : s.Good policy) (hheld : s.held = []) (n : Nat) :
    Taken policy s n s [] := by
  refine ⟨h, ?_, ?_, rfl, rfl⟩
  · rw [hheld, List.take_nil]
  · rw [hheld, List.drop_nil]

/-- A part of the first `n` bytes, and then the others. -/
theorem take_then (l : Bytes) (hk : k ≤ n) :
    l.take k ++ (l.drop k).take (n - (l.take k).length) = l.take n := by
  rw [List.length_take]
  by_cases hshort : k ≤ l.length
  · rw [Nat.min_eq_left hshort, ← List.take_add, Nat.add_sub_cancel' hk]
  · rw [List.drop_of_length_le (by omega), List.take_nil, List.append_nil,
      List.take_of_length_le (by omega), List.take_of_length_le (by omega)]

theorem drop_then (l : Bytes) (hk : k ≤ n) :
    (l.drop k).drop (n - (l.take k).length) = l.drop n := by
  rw [List.length_take, List.drop_drop]
  by_cases hshort : k ≤ l.length
  · rw [Nat.min_eq_left hshort, Nat.add_sub_cancel' hk]
  · rw [List.drop_of_length_le (by omega), List.drop_of_length_le (by omega)]

theorem Taken.andThen (h : Taken policy s k s' bytes) (hk : k ≤ n)
    (hrest : Taken policy s' (n - bytes.length) s'' rest) :
    Taken policy s n s'' (bytes ++ rest) := by
  refine ⟨hrest.good, ?_, ?_, hrest.state.trans h.state, hrest.error.trans h.error⟩
  · rw [hrest.bytes, h.held, h.bytes]
    exact take_then s.held hk
  · rw [hrest.held, h.held, h.bytes]
    exact drop_then s.held hk

/-! ## One call -/

theorem fillFromSpool_spec (h : s.Good policy) :
    Taken policy s 0 s.fillFromSpool [] ∧
      (s.fillFromSpool.buffer.contents = [] → capacity = 0 ∨ s.fillFromSpool.held = []) := by
  unfold fillFromSpool
  by_cases hnone : ¬ s.buffer.empty = true ∨ capacity = 0 ∨ s.spool.empty = true
  · rw [if_pos hnone]
    refine ⟨.zero h, fun hempty => ?_⟩
    rcases hnone with hsome | hzero | hspool
    · exact absurd (s.buffer.empty_iff.mpr hempty) hsome
    · exact .inl hzero
    · rw [held, hempty, SpoolBuffer.pending_of_empty hspool]
      exact .inr rfl
  · rw [if_neg hnone]
    push Not at hnone
    obtain ⟨hempty, hcapacity, hpending⟩ := hnone
    rw [s.buffer.empty_iff] at hempty
    rw [Ne, h.spool.whole.empty_iff] at hpending
    obtain ⟨hgood, hchunk, hleft⟩ := h.spool.read (min kChunkBytes capacity)
    have hsome : (s.spool.read (min kChunkBytes capacity)).2 ≠ [] := by
      rw [hchunk, Ne, List.take_eq_nil_iff]
      have : 0 < kChunkBytes := by decide
      rintro (hzero | hnil)
      · omega
      · exact hpending hnil
    have hfits : (s.spool.read (min kChunkBytes capacity)).2.length ≤ capacity := by
      rw [hchunk, List.length_take]
      omega
    generalize s.spool.read (min kChunkBytes capacity) = r at hgood hchunk hleft hsome hfits ⊢
    obtain ⟨spool, chunk⟩ := r
    dsimp only at hgood hchunk hleft hsome hfits ⊢
    rw [if_neg hsome]
    obtain ⟨hcontents, hpolicy, -⟩ :=
      BoundedBuffer.append_blocks (b := s.buffer) (by rw [h.given]; exact h.keeps) chunk
    rw [hempty, BoundedBuffer.available_eq, hempty, List.nil_append, List.length_nil, Nat.sub_zero,
      List.take_of_length_le hfits] at hcontents
    obtain ⟨hrenewed, hsame⟩ := hgood.renew
    refine ⟨⟨⟨hpolicy.trans h.given, h.keeps, hrenewed, fun hb => ?_⟩, List.take_zero.symm, ?_,
      rfl, rfl⟩, fun hnil => absurd (hcontents.symm.trans hnil) hsome⟩
    · exact absurd (h.block hb) hpending
    · rw [held, held, List.drop_zero, hcontents, hsame, hleft, hempty, hchunk,
        List.take_append_drop]
      rfl

/-- Without a ring, all that a stream holds is in the file. -/
theorem takeSpool_spec (h : s.Good policy) (hcapacity : capacity = 0) (n : Nat) :
    Taken policy s n (s.takeSpool n).1 (s.takeSpool n).2 := by
  have hnil : s.buffer.contents = [] := by
    have hle := s.buffer.length_contents_le
    exact List.length_eq_zero_iff.mp (by omega)
  have hheld := held_of_empty hnil
  obtain ⟨hgood, hbytes, hleft⟩ := h.spool.read n
  obtain ⟨hrenewed, hsame⟩ := hgood.renew
  refine ⟨⟨h.given, h.keeps, hrenewed, fun hb => ?_⟩, ?_, ?_, rfl, rfl⟩
  · exact hsame.trans (by rw [hleft, h.block hb, List.drop_nil])
  · rw [hheld]
    exact hbytes
  · rw [hheld, ← hleft, ← hsame, held]
    change s.buffer.contents ++ _ = _
    rw [hnil]
    rfl

theorem consume_spec (h : s.Good policy) (n : Nat) :
    Taken policy s (min n s.buffer.contents.length)
      { s with buffer := (s.buffer.consume n).1 } (s.buffer.consume n).2 := by
  have hcontents : (s.buffer.consume n).1.contents = s.buffer.contents.drop n :=
    s.buffer.contents_discardFront n
  have hbytes : (s.buffer.consume n).2 = s.buffer.contents.take n := rfl
  refine ⟨⟨h.given, h.keeps, h.spool, h.block⟩, ?_, ?_, rfl, rfl⟩
  · rw [hbytes, held, List.take_append_of_le_length (Nat.min_le_right ..), ← List.take_take,
      List.take_length]
  · rw [held, hcontents, held, List.drop_append_of_le_length (Nat.min_le_right ..)]
    congr 1
    by_cases hn : n ≤ s.buffer.contents.length
    · rw [Nat.min_eq_left hn]
    · rw [Nat.min_eq_right (by omega), List.drop_of_length_le (by omega), List.drop_length]

/-- Where neither the ring nor, without a ring, the file has a byte to give. -/
theorem held_of_stuck (hfill : s.buffer.contents = [] → capacity = 0 ∨ s.held = [])
    (hnil : s.buffer.contents = []) (hspool : ¬ (capacity = 0 ∧ ¬ s.spool.empty = true)) :
    s.held = [] := by
  rcases hfill hnil with hcapacity | hheld
  · have hpending : s.spool.empty = true := by
      by_contra hsome
      exact hspool ⟨hcapacity, hsome⟩
    rw [held, hnil, SpoolBuffer.pending_of_empty hpending]
    rfl
  · exact hheld

theorem readLoop_spec {turns left : Nat} (hturns : left ≤ turns) (h : s.Good policy) :
    Taken policy s left (readLoop turns left (fun _ => {}) s).1
      (readLoop turns left (fun _ => {}) s).2 := by
  induction turns generalizing left s with
  | zero =>
    rw [Nat.le_zero.mp hturns]
    exact .zero h
  | succ turns ih =>
    unfold readLoop
    by_cases hzero : left = 0
    · rw [if_pos hzero, hzero]
      exact .zero h
    · rw [if_neg hzero]
      obtain ⟨hfill, hempty⟩ := s.fillFromSpool_spec h
      refine hfill.andThen (Nat.zero_le left) ?_
      rw [List.length_nil, Nat.sub_zero]
      dsimp only
      generalize s.fillFromSpool = s at hfill hempty ⊢
      by_cases hnone : s.buffer.empty = true
      · rw [if_pos hnone]
        by_cases hspool : capacity = 0 ∧ ¬ s.spool.empty = true
        · rw [if_pos hspool]
          have htake := takeSpool_spec hfill.good hspool.1 left
          by_cases hgot : (s.takeSpool left).2 = []
          · rw [if_pos hgot]
            rw [hgot] at htake
            exact htake
          · rw [if_neg hgot]
            have hsome := List.length_pos_iff.mpr hgot
            exact htake.andThen (Nat.le_refl left) (ih (by omega) htake.good)
        · rw [if_neg hspool]
          have hnil := s.buffer.empty_iff.mp hnone
          exact .none hfill.good (held_of_stuck hempty hnil hspool) left
      · rw [if_neg hnone]
        have hconsume := consume_spec hfill.good left
        have hsome : 0 < (s.buffer.consume left).2.length := by
          rw [s.buffer.empty_iff, ← List.length_eq_zero_iff] at hnone
          change 0 < (s.buffer.contents.take left).length
          rw [List.length_take]
          omega
        exact hconsume.andThen (Nat.min_le_left ..) (ih (by omega) hconsume.good)

theorem dropLoop_spec {turns left : Nat} (hturns : left ≤ turns) (h : s.Good policy) :
    Taken policy s left (dropLoop turns left (fun _ => {}) s).1
      (dropLoop turns left (fun _ => {}) s).2 := by
  induction turns generalizing left s with
  | zero =>
    rw [Nat.le_zero.mp hturns]
    exact .zero h
  | succ turns ih =>
    unfold dropLoop
    by_cases hzero : left = 0
    · rw [if_pos hzero, hzero]
      exact .zero h
    · rw [if_neg hzero]
      obtain ⟨hfill, hempty⟩ := s.fillFromSpool_spec h
      refine hfill.andThen (Nat.zero_le left) ?_
      rw [List.length_nil, Nat.sub_zero]
      dsimp only
      generalize s.fillFromSpool = s at hfill hempty ⊢
      rw [BoundedBuffer.size_ring]
      by_cases hsome : 0 < min left s.buffer.contents.length
      · rw [if_pos hsome]
        have hconsume := consume_spec hfill.good left
        have hlength : (s.buffer.consume left).2.length = min left s.buffer.contents.length :=
          List.length_take
        exact hconsume.andThen (Nat.min_le_left ..) (ih (by omega) hconsume.good)
      · rw [if_neg hsome]
        have hnil : s.buffer.contents = [] := List.length_eq_zero_iff.mp (by omega)
        by_cases hspool : capacity = 0 ∧ ¬ s.spool.empty = true
        · rw [if_pos hspool]
          have htake := takeSpool_spec hfill.good hspool.1 (min left kChunkBytes)
          have hlast : (s.takeSpool (min left kChunkBytes)).2 ≠ [] := by
            rw [htake.bytes, Ne, List.take_eq_nil_iff, held, hnil, List.nil_append,
              ← hfill.good.spool.whole.empty_iff]
            have : 0 < kChunkBytes := by decide
            rintro (hnone | hnone)
            · omega
            · exact hspool.2 hnone
          rw [if_neg hlast]
          have hlength := List.length_pos_iff.mpr hlast
          exact htake.andThen (Nat.min_le_left ..) (ih (by omega) htake.good)
        · rw [if_neg hspool]
          exact .none hfill.good (held_of_stuck hempty hnil hspool) left

/-- All but what neither the ring nor the file took. -/
theorem appendSpool_spec (h : s.Good policy) (hspool : policy = .Spool) (data : Bytes) :
    (s.appendSpool data).1.Good policy ∧
      (s.appendSpool data).1.held = s.held ++ data ∧
      (s.appendSpool data).2 = data.length ∧
      (s.appendSpool data).1.state = s.state := by
  have hblock : ∀ {spool : SpoolBuffer}, policy ≠ .Spool → spool.pending = [] :=
    fun hne => absurd hspool hne
  unfold appendSpool
  by_cases hnone : data = []
  · rw [if_pos hnone, hnone, List.append_nil]
    exact ⟨h, rfl, rfl, rfl⟩
  · rw [if_neg hnone]
    by_cases hsome : ¬ s.spool.empty = true
    · rw [if_pos hsome]
      obtain ⟨hgood, happended, hpending⟩ :=
        h.spool.append hnone (SpoolBuffer.not_refuses_of_works h.spool.works)
      generalize s.spool.append data {} = r at hgood happended hpending ⊢
      refine ⟨⟨h.given, h.keeps, hgood, hblock⟩, ?_, if_pos happended, rfl⟩
      rw [held, hpending, held, List.append_assoc]
    · rw [if_neg hsome]
      rw [not_not, h.spool.whole.empty_iff] at hsome
      obtain ⟨hcontents, hpolicy, hcount⟩ :=
        BoundedBuffer.append_blocks (b := s.buffer) (by rw [h.given]; exact h.keeps) data
      generalize s.buffer.append data = b at hcontents hpolicy hcount ⊢
      obtain ⟨buffer, accepted⟩ := b
      dsimp only at hcontents hpolicy hcount ⊢
      by_cases hall : accepted = data.length
      · rw [if_pos hall]
        refine ⟨⟨hpolicy.trans h.given, h.keeps, h.spool, hblock⟩, ?_, hall, rfl⟩
        rw [held, hcontents, hsome, List.append_nil, held, hsome, List.append_nil,
          List.take_of_length_le (by omega)]
      · rw [if_neg hall]
        have hrest : data.drop accepted ≠ [] := by
          rw [Ne, List.drop_eq_nil_iff]
          omega
        obtain ⟨hgood, happended, hpending⟩ :=
          h.spool.append hrest (SpoolBuffer.not_refuses_of_works h.spool.works)
        generalize s.spool.append (data.drop accepted) {} = r at hgood happended hpending ⊢
        refine ⟨⟨hpolicy.trans h.given, h.keeps, hgood, hblock⟩, ?_, if_pos happended, rfl⟩
        have hroom : accepted = s.buffer.available := by omega
        rw [held, hcontents, hpending, hsome, List.nil_append, held, hsome, List.append_nil, hroom,
          List.append_assoc, List.take_append_drop]

end Stream

/-! ## The calls -/

/-- The calls that use the spill file have the answers that it gets. -/
inductive Call
  | write (data : Bytes) (answers : AppendAnswers := {})
  | read (n : Nat) (answers : Nat → ReadAnswers := fun _ => {})
  | peek (answers : ReadAnswers := {})
  | drop (n : Nat) (answers : Nat → ReadAnswers := fun _ => {})
  | closeRemote
  | closeLocal
  | fail (e : psx.Error)

/-- How many bytes a call put in, and which bytes it took out. -/
structure Answer where
  accepted : Nat := 0
  taken : Bytes := []
  deriving DecidableEq

namespace Call

/-- The bytes that a call brings. -/
def data : Call → Bytes
  | .write data _ => data
  | _ => []

/-- Nothing fails for the spill file. -/
def Works : Call → Prop
  | .write _ answers => answers = {}
  | .read _ answers => answers = fun _ => {}
  | .peek answers => answers = {}
  | .drop _ answers => answers = fun _ => {}
  | _ => True

/-- The call of a sink that is done, or a failure. -/
def Ends : Call → Prop
  | .closeLocal => True
  | .fail _ => True
  | _ => False

/-- A read or a drop. -/
def Takes : Call → Prop
  | .read .. => True
  | .drop .. => True
  | _ => False

end Call

/-- One call, with what it returns. -/
def Stream.call {capacity : Nat} (s : Stream capacity) : Call → Stream capacity × Answer
  | .write data answers => ((s.write data answers).1, { accepted := (s.write data answers).2 })
  | .read n answers => ((s.read n answers).1, { taken := (s.read n answers).2 })
  | .peek answers => ((s.peek answers).1, {})
  | .drop n answers => ((s.drop n answers).1, { taken := (s.drop n answers).2 })
  | .closeRemote => (s.closeRemote, {})
  | .closeLocal => (s.closeLocal, {})
  | .fail e => (s.fail e, {})

/-! ## The pipe that a stream is -/

/-- A queue of bytes between a writer and a sink. -/
structure Pipe where
  held : Bytes := []
  state : StreamState := .Open

namespace Pipe

/-- How many of `n` bytes go in. -/
def room (capacity : Nat) (policy : OverflowPolicy) (p : Pipe) (n : Nat) : Nat :=
  if p.state ≠ .Open then 0
  else if policy = .Spool then n
  else min n (capacity - p.held.length)

/-- `n` bytes go out. The last one after the end of the writer closes the pipe. -/
def take (p : Pipe) (n : Nat) : Pipe where
  held := p.held.drop n
  state := if p.state = .HalfClosedRemote ∧ p.held.drop n = [] then .Closed else p.state

/-- The writer is done. -/
def closeRemote (p : Pipe) : Pipe :=
  match p.state with
  | .Open => { p with state := .HalfClosedRemote }
  | .HalfClosedLocal => { p with state := .Closed }
  | _ => p

/-- The reader is done. -/
def closeLocal (p : Pipe) : Pipe :=
  match p.state with
  | .Open => { held := [], state := .HalfClosedLocal }
  | .HalfClosedRemote => { held := [], state := .Closed }
  | _ => p

/-- The pipe ends with an error. -/
def fail (p : Pipe) : Pipe :=
  if p.state = .Closed ∨ p.state = .Error then p else { p with state := .Error }

/-- One call, as a pipe of bytes answers it. -/
def call (capacity : Nat) (policy : OverflowPolicy) (p : Pipe) : Call → Pipe × Answer
  | .write data _ =>
    let n := p.room capacity policy data.length
    ({ p with held := p.held ++ data.take n }, { accepted := n })
  | .read n _ => if p.state = .Error then (p, {}) else (p.take n, { taken := p.held.take n })
  | .peek _ => (p, {})
  | .drop n _ => (p.take n, { taken := p.held.take n })
  | .closeRemote => (p.closeRemote, {})
  | .closeLocal => (p.closeLocal, {})
  | .fail _ => (p.fail, {})

end Pipe

namespace Stream

variable {capacity : Nat} {policy : OverflowPolicy} {s s' : Stream capacity} {bytes : Bytes}
  {n : Nat}

/-- The pipe that a stream is. -/
def view (s : Stream capacity) : Pipe := { held := s.held, state := s.state }

@[simp] theorem view_held (s : Stream capacity) : s.view.held = s.held := rfl

@[simp] theorem view_state (s : Stream capacity) : s.view.state = s.state := rfl

theorem write_refines (h : s.Good policy) (data : Bytes) :
    (s.write data).1.Good policy ∧
      (s.write data).2 = s.view.room capacity policy data.length ∧
      (s.write data).1.view =
        { s.view with held := s.held ++ data.take (s.view.room capacity policy data.length) } := by
  unfold write Pipe.room
  rw [view_state]
  by_cases hopen : s.state ≠ .Open
  · rw [if_pos hopen, if_pos hopen, List.take_zero, List.append_nil]
    exact ⟨h, rfl, rfl⟩
  · rw [if_neg hopen, if_neg hopen, h.given]
    by_cases hspool : policy = .Spool
    · rw [if_pos hspool, if_pos hspool]
      obtain ⟨hgood, hheld, hcount, hstate⟩ := appendSpool_spec h hspool data
      refine ⟨hgood, hcount, ?_⟩
      rw [view, hheld, hstate, List.take_length, view]
    · rw [if_neg hspool, if_neg hspool]
      have hfree : s.view.held = s.buffer.contents := by
        rw [view, held, h.block hspool, List.append_nil]
      obtain ⟨hcontents, hpolicy, hcount⟩ :=
        BoundedBuffer.append_blocks (b := s.buffer) (by rw [h.given]; exact h.keeps) data
      rw [BoundedBuffer.available_eq] at hcontents hcount
      rw [hfree]
      refine ⟨⟨hpolicy.trans h.given, h.keeps, h.spool, h.block⟩, hcount, ?_⟩
      rw [view, held, hcontents, h.block hspool, List.append_nil, held, h.block hspool,
        List.append_nil, ← List.take_take, List.take_of_length_le (List.length_take_le' _ data)]
      rfl

/-- A stream that was read from closes when it is drained. -/
theorem Taken.closes (h : Taken policy s n s' bytes) :
    s'.maybeCloseAfterDrain.Good policy ∧ s'.maybeCloseAfterDrain.view = s.view.take n := by
  have hsame : s'.state = .HalfClosedRemote ∧ ¬ s'.readable = true ↔
      s.state = .HalfClosedRemote ∧ s.held.drop n = [] := by
    rw [readable_iff h.good.spool.whole, not_not, h.held, h.state]
  unfold maybeCloseAfterDrain Pipe.take
  rw [view_state, view_held]
  by_cases hclose : s.state = .HalfClosedRemote ∧ s.held.drop n = []
  · rw [if_pos (hsame.mpr hclose), if_pos hclose]
    refine ⟨⟨h.good.given, h.good.keeps, h.good.spool, h.good.block⟩, ?_⟩
    rw [view]
    congr 1
    exact h.held
  · rw [if_neg (mt hsame.mp hclose), if_neg hclose]
    refine ⟨h.good, ?_⟩
    rw [view, h.held, h.state]

theorem closeRemote_refines (h : s.Good policy) :
    s.closeRemote.Good policy ∧ s.closeRemote.view = s.view.closeRemote := by
  unfold closeRemote Pipe.closeRemote
  rw [view_state]
  cases s.state with
  | Open | HalfClosedLocal => exact ⟨⟨h.given, h.keeps, h.spool, h.block⟩, rfl⟩
  | HalfClosedRemote | Closed | Error => exact ⟨h, rfl⟩

theorem closeLocal_refines (h : s.Good policy) :
    s.closeLocal.Good policy ∧ s.closeLocal.view = s.view.closeLocal := by
  have hnone : s.buffer.clear.contents ++ SpoolBuffer.reset.pending = [] := by
    rw [BoundedBuffer.contents_clear]
    rfl
  unfold closeLocal Pipe.closeLocal
  rw [view_state]
  cases s.state with
  | Open | HalfClosedRemote =>
    refine ⟨⟨h.given, h.keeps, SpoolBuffer.good_reset, fun _ => rfl⟩, ?_⟩
    rw [view, held, hnone]
  | HalfClosedLocal | Closed | Error => exact ⟨h, rfl⟩

theorem fail_refines (h : s.Good policy) (e : psx.Error) :
    (s.fail e).Good policy ∧ (s.fail e).view = s.view.fail := by
  unfold fail Pipe.fail
  rw [view_state]
  by_cases hover : s.state = .Closed ∨ s.state = .Error
  · rw [if_pos hover, if_pos hover]
    exact ⟨h, rfl⟩
  · rw [if_neg hover, if_neg hover]
    exact ⟨⟨h.given, h.keeps, h.spool, h.block⟩, rfl⟩

/-- A stream does what the pipe does. -/
theorem call_refines (h : s.Good policy) {c : Call} (hc : c.Works) :
    (s.call c).1.Good policy ∧
      ((s.call c).1.view, (s.call c).2) = Pipe.call capacity policy s.view c := by
  cases c with
  | write data answers =>
    obtain rfl : answers = {} := hc
    obtain ⟨hgood, hcount, hview⟩ := write_refines h data
    refine ⟨hgood, ?_⟩
    simp only [call, Pipe.call]
    rw [hview, hcount]
    rfl
  | read n answers =>
    obtain rfl : answers = fun _ => {} := hc
    simp only [call, Pipe.call, read]
    rw [view_state]
    by_cases herror : s.state = .Error
    · rw [if_pos herror, if_pos herror]
      exact ⟨h, rfl⟩
    · rw [if_neg herror, if_neg herror]
      have htake := readLoop_spec (Nat.le_refl n) h
      refine ⟨htake.closes.1, ?_⟩
      rw [← htake.closes.2, htake.bytes]
      rfl
  | peek answers =>
    obtain rfl : answers = {} := hc
    obtain ⟨hfill, -⟩ := s.fillFromSpool_spec h
    refine ⟨hfill.good, ?_⟩
    simp only [call, Pipe.call, peek, view, hfill.held, hfill.state, List.drop_zero]
  | drop n answers =>
    obtain rfl : answers = fun _ => {} := hc
    have htake := dropLoop_spec (Nat.le_refl n) h
    refine ⟨htake.closes.1, ?_⟩
    simp only [call, Pipe.call, drop]
    rw [← htake.closes.2, htake.bytes]
    rfl
  | closeRemote =>
    obtain ⟨hgood, hview⟩ := closeRemote_refines h
    refine ⟨hgood, ?_⟩
    simp only [call, Pipe.call, hview]
  | closeLocal =>
    obtain ⟨hgood, hview⟩ := closeLocal_refines h
    refine ⟨hgood, ?_⟩
    simp only [call, Pipe.call, hview]
  | fail e =>
    obtain ⟨hgood, hview⟩ := fail_refines h e
    refine ⟨hgood, ?_⟩
    simp only [call, Pipe.call, hview]

end Stream

/-! ## What a pipe does -/

/-- The arrows between the states. -/
inductive Moves : StreamState → StreamState → Prop
  | closeRemote : Moves .Open .HalfClosedRemote
  | closeLocal : Moves .Open .HalfClosedLocal
  | drained : Moves .HalfClosedRemote .Closed
  | bothClosed : Moves .HalfClosedLocal .Closed
  | fail {state : StreamState} : state ≠ .Closed → state ≠ .Error → Moves state .Error

theorem Moves.not_over {a b : StreamState} (h : Moves a b) : ¬ (a = .Closed ∨ a = .Error) := by
  rintro (rfl | rfl)
  · cases h with
    | fail hclosed _ => exact hclosed rfl
  · cases h with
    | fail _ herror => exact herror rfl

namespace Pipe

variable (capacity : Nat) (policy : OverflowPolicy) (p : Pipe)

theorem room_le (n : Nat) : p.room capacity policy n ≤ n := by
  unfold room
  split_ifs
  · exact Nat.zero_le n
  · exact Nat.le_refl n
  · exact Nat.min_le_left ..

theorem room_le_free (h : policy ≠ .Spool) (n : Nat) :
    p.room capacity policy n ≤ capacity - p.held.length := by
  unfold room
  rw [if_neg h]
  split_ifs
  · exact Nat.zero_le _
  · exact Nat.min_le_right ..

theorem take_moves (n : Nat) : (p.take n).state = p.state ∨ Moves p.state (p.take n).state := by
  unfold take
  by_cases hclose : p.state = .HalfClosedRemote ∧ p.held.drop n = []
  · rw [if_pos hclose, hclose.1]
    exact .inr .drained
  · rw [if_neg hclose]
    exact .inl rfl

theorem call_read_error (h : p.state = .Error) (n : Nat) (answers : Nat → ReadAnswers) :
    p.call capacity policy (.read n answers) = (p, {}) := if_pos h

theorem call_read (h : p.state ≠ .Error) (n : Nat) (answers : Nat → ReadAnswers) :
    p.call capacity policy (.read n answers) = (p.take n, { taken := p.held.take n }) := if_neg h

theorem call_accepted (c : Call) :
    (p.call capacity policy c).2.accepted = p.room capacity policy c.data.length := by
  have hnone : p.room capacity policy 0 = 0 := Nat.le_zero.mp (p.room_le capacity policy 0)
  cases c with
  | write => rfl
  | read n =>
    refine Eq.trans ?_ hnone.symm
    by_cases herror : p.state = .Error
    · rw [p.call_read_error capacity policy herror]
    · rw [p.call_read capacity policy herror]
  | peek | drop | closeRemote | closeLocal | fail => exact hnone.symm

theorem closeRemote_moves :
    p.closeRemote.state = p.state ∨ Moves p.state p.closeRemote.state := by
  unfold closeRemote
  cases hstate : p.state with
  | Open => exact .inr .closeRemote
  | HalfClosedLocal => exact .inr .bothClosed
  | HalfClosedRemote | Closed | Error => exact .inl hstate

theorem closeLocal_moves :
    p.closeLocal.state = p.state ∨ Moves p.state p.closeLocal.state := by
  unfold closeLocal
  cases hstate : p.state with
  | Open => exact .inr .closeLocal
  | HalfClosedRemote => exact .inr .drained
  | HalfClosedLocal | Closed | Error => exact .inl hstate

theorem fail_moves : p.fail.state = p.state ∨ Moves p.state p.fail.state := by
  unfold fail
  by_cases hover : p.state = .Closed ∨ p.state = .Error
  · rw [if_pos hover]
    exact .inl rfl
  · rw [if_neg hover]
    exact .inr (.fail (fun h => hover (.inl h)) fun h => hover (.inr h))

/-- The states change along the arrows. -/
theorem call_moves (c : Call) :
    (p.call capacity policy c).1.state = p.state ∨
      Moves p.state (p.call capacity policy c).1.state := by
  cases c with
  | write | peek => exact .inl rfl
  | read n =>
    by_cases herror : p.state = .Error
    · rw [p.call_read_error capacity policy herror]
      exact .inl rfl
    · rw [p.call_read capacity policy herror]
      exact p.take_moves n
  | drop n => exact p.take_moves n
  | closeRemote => exact p.closeRemote_moves
  | closeLocal => exact p.closeLocal_moves
  | fail e => exact p.fail_moves

theorem held_closeRemote : p.closeRemote.held = p.held := by
  unfold closeRemote
  cases p.state with
  | Open | HalfClosedLocal | HalfClosedRemote | Closed | Error => rfl

/-- What is in the pipe and what goes in is what comes out and what is left. -/
theorem call_conserves {c : Call} (hc : ¬ c.Ends) :
    p.held ++ c.data.take (p.call capacity policy c).2.accepted =
      (p.call capacity policy c).2.taken ++ (p.call capacity policy c).1.held := by
  cases c with
  | write data => rfl
  | read n =>
    by_cases herror : p.state = .Error
    · rw [p.call_read_error capacity policy herror]
      exact List.append_nil p.held
    · rw [p.call_read capacity policy herror]
      exact (List.append_nil p.held).trans (List.take_append_drop n p.held).symm
  | drop n => exact (List.append_nil p.held).trans (List.take_append_drop n p.held).symm
  | peek => exact List.append_nil p.held
  | closeRemote => exact (List.append_nil p.held).trans p.held_closeRemote.symm
  | closeLocal | fail => exact absurd trivial hc

theorem take_closes (n : Nat) :
    (p.take n).state = .Closed ↔
      p.state = .Closed ∨ p.state = .HalfClosedRemote ∧ (p.take n).held = [] := by
  unfold take
  by_cases hclose : p.state = .HalfClosedRemote ∧ p.held.drop n = []
  · rw [if_pos hclose]
    exact iff_of_true rfl (.inr hclose)
  · rw [if_neg hclose]
    exact ⟨.inl, fun h => h.resolve_right hclose⟩

/-- As long as the sink goes on and nothing fails, a pipe is closed by the sink that takes its
last byte. -/
theorem call_closes {c : Call} (hc : ¬ c.Ends) (h : p.state ≠ .HalfClosedLocal)
    (herror : p.state ≠ .Error) :
    (p.call capacity policy c).1.state = .Closed ↔
      p.state = .Closed ∨
        p.state = .HalfClosedRemote ∧ c.Takes ∧ (p.call capacity policy c).1.held = [] := by
  cases c with
  | write | peek =>
    exact ⟨.inl, fun hclosed => hclosed.resolve_right fun hnone => hnone.2.1⟩
  | read n =>
    rw [p.call_read capacity policy herror, Call.Takes, true_and]
    exact p.take_closes n
  | drop n =>
    rw [Call.Takes, true_and]
    exact p.take_closes n
  | closeRemote =>
    have hsame : p.closeRemote.state = .Closed ↔ p.state = .Closed := by
      unfold closeRemote
      cases hstate : p.state with
      | HalfClosedLocal => exact absurd hstate h
      | Open | HalfClosedRemote | Closed | Error => simp [hstate]
    unfold call
    rw [hsame]
    exact ⟨.inl, fun hclosed => hclosed.resolve_right fun hnone => hnone.2.1⟩
  | closeLocal | fail => exact absurd trivial hc

theorem take_goes_on (h : p.state ≠ .HalfClosedLocal ∧ p.state ≠ .Error) (n : Nat) :
    (p.take n).state ≠ .HalfClosedLocal ∧ (p.take n).state ≠ .Error := by
  unfold take
  split_ifs
  · exact ⟨nofun, nofun⟩
  · exact h

/-- Only the sink's own end and a failure lead to the other two states. -/
theorem call_goes_on {c : Call} (hc : ¬ c.Ends)
    (h : p.state ≠ .HalfClosedLocal ∧ p.state ≠ .Error) :
    (p.call capacity policy c).1.state ≠ .HalfClosedLocal ∧
      (p.call capacity policy c).1.state ≠ .Error := by
  cases c with
  | write | peek => exact h
  | read n =>
    rw [p.call_read capacity policy h.2]
    exact p.take_goes_on h n
  | drop n => exact p.take_goes_on h n
  | closeRemote =>
    unfold call closeRemote
    cases hstate : p.state with
    | HalfClosedLocal => exact absurd hstate h.1
    | Error => exact absurd hstate h.2
    | Open | HalfClosedRemote | Closed => simp [hstate]
  | closeLocal | fail => exact absurd trivial hc

end Pipe

/-! ## Runs -/

/-- A stream with all the bytes that went in and all that came out. -/
structure Account (capacity : Nat) where
  now : Stream capacity
  accepted : Bytes := []
  taken : Bytes := []

/-- One call, with what went in and out. -/
def Account.call {capacity : Nat} (a : Account capacity) (c : Call) : Account capacity where
  now := (a.now.call c).1
  accepted := a.accepted ++ c.data.take (a.now.call c).2.accepted
  taken := a.taken ++ (a.now.call c).2.taken

namespace Stream

variable {capacity : Nat} {policy : OverflowPolicy} {calls : List Call} {c : Call}

/-- All the calls to a new stream. -/
def run (capacity : Nat) (policy : OverflowPolicy) (calls : List Call) : Account capacity :=
  calls.foldl Account.call { now := .create capacity policy }

theorem run_snoc (calls : List Call) (c : Call) :
    run capacity policy (calls ++ [c]) = Account.call (run capacity policy calls) c := by
  unfold run
  rw [List.foldl_append]
  rfl

theorem run_good (hkeeps : dropsOnOverflow policy = false) (hworks : ∀ c ∈ calls, c.Works) :
    (run capacity policy calls).now.Good policy := by
  induction calls using List.reverseRecOn with
  | nil => exact good_create hkeeps
  | append_singleton calls c ih =>
    rw [run_snoc]
    exact (call_refines (ih fun d hd => hworks d (by simp [hd])) (hworks c (by simp))).1

/-- The next call, as the pipe has it. -/
theorem run_refines (hkeeps : dropsOnOverflow policy = false)
    (hworks : ∀ d ∈ calls ++ [c], d.Works) :
    (((run capacity policy calls).now.call c).1.view, ((run capacity policy calls).now.call c).2) =
      Pipe.call capacity policy (run capacity policy calls).now.view c :=
  (call_refines (run_good hkeeps fun d hd => hworks d (by simp [hd])) (hworks c (by simp))).2

/-- Nothing is lost, and the order stays, until the sink is done or the stream fails. -/
theorem run_conserves (hkeeps : dropsOnOverflow policy = false) (hworks : ∀ c ∈ calls, c.Works)
    (hgoes : ∀ c ∈ calls, ¬ c.Ends) :
    (run capacity policy calls).taken ++ (run capacity policy calls).now.held =
      (run capacity policy calls).accepted := by
  induction calls using List.reverseRecOn with
  | nil =>
    have hnew : (create capacity policy).held = [] := held_create
    exact hnew
  | append_singleton calls c ih =>
    have hstep := Pipe.call_conserves capacity policy (run capacity policy calls).now.view
      (hgoes c (by simp))
    rw [← run_refines hkeeps hworks] at hstep
    rw [run_snoc]
    simp only [Account.call]
    rw [List.append_assoc, ← view_held, ← hstep, ← List.append_assoc, view_held,
      ih (fun d hd => hworks d (by simp [hd])) fun d hd => hgoes d (by simp [hd])]

theorem run_goes_on (hkeeps : dropsOnOverflow policy = false) (hworks : ∀ c ∈ calls, c.Works)
    (hgoes : ∀ c ∈ calls, ¬ c.Ends) :
    (run capacity policy calls).now.state ≠ .HalfClosedLocal ∧
      (run capacity policy calls).now.state ≠ .Error := by
  induction calls using List.reverseRecOn with
  | nil => exact ⟨nofun, nofun⟩
  | append_singleton calls c ih =>
    have hstep := Pipe.call_goes_on capacity policy (run capacity policy calls).now.view
      (hgoes c (by simp))
      (ih (fun d hd => hworks d (by simp [hd])) fun d hd => hgoes d (by simp [hd]))
    rw [← run_refines hkeeps hworks] at hstep
    rw [run_snoc]
    exact hstep

/-- What a call may do to a stream. -/
structure Behaves (policy : OverflowPolicy) (s : Stream capacity) (c : Call) : Prop where
  /-- Under Spool an open stream takes all. -/
  spools : policy = .Spool → s.state = .Open → (s.call c).2.accepted = c.data.length
  /-- Under Block a stream takes no more than there is room for in the ring. -/
  blocks : policy = .Block → (s.call c).2.accepted ≤ s.buffer.available
  moves : (s.call c).1.state = s.state ∨ Moves s.state (s.call c).1.state
  rests : s.state = .Closed ∨ s.state = .Error → (s.call c).1.state = s.state

theorem call_behaves {s : Stream capacity} (h : s.Good policy) (hc : c.Works) :
    s.Behaves policy c := by
  have hsame := (call_refines h hc).2
  have hmoves := Pipe.call_moves capacity policy s.view c
  have hcount := Pipe.call_accepted capacity policy s.view c
  rw [← hsame] at hmoves hcount
  refine ⟨fun hspool hopen => ?_, fun hblock => ?_, hmoves, fun hover => ?_⟩
  · rw [hcount, Pipe.room, view_state, if_neg (not_not.mpr hopen), if_pos hspool]
  · have hnone : s.spool.pending = [] := h.block (by rw [hblock]; nofun)
    rw [hcount, BoundedBuffer.available_eq]
    refine (s.view.room_le_free capacity policy (by rw [hblock]; nofun) _).trans ?_
    rw [view_held, held, hnone, List.append_nil]
  · exact hmoves.resolve_right fun hmove => hmove.not_over hover

/-- A stream is a queue of bytes. What was accepted comes out in its order, until the sink is done
or the stream fails, and a stream whose writer is done closes with the last byte that is taken. -/
theorem a_stream_is_a_queue (capacity : Nat) (hpolicy : policy = .Block ∨ policy = .Spool)
    (calls : List Call) (hworks : ∀ c ∈ calls, c.Works) :
    ((∀ c ∈ calls, ¬ c.Ends) →
      (run capacity policy calls).taken ++ (run capacity policy calls).now.held =
        (run capacity policy calls).accepted) ∧
    ∀ pre c post, calls = pre ++ c :: post →
      (run capacity policy pre).now.Behaves policy c ∧
      ((∀ d ∈ pre ++ [c], ¬ d.Ends) →
        ((run capacity policy (pre ++ [c])).now.state = .Closed ↔
          (run capacity policy pre).now.state = .Closed ∨
            (run capacity policy pre).now.state = .HalfClosedRemote ∧ c.Takes ∧
              (run capacity policy (pre ++ [c])).now.held = [])) := by
  have hkeeps : dropsOnOverflow policy = false := by
    rcases hpolicy with rfl | rfl
    · rfl
    · rfl
  refine ⟨run_conserves hkeeps hworks, fun pre c post hcalls => ?_⟩
  have hbefore : ∀ d ∈ pre ++ [c], d.Works := by
    intro d hd
    refine hworks d ?_
    rw [hcalls, List.append_cons]
    exact List.mem_append_left post hd
  have hpre : ∀ d ∈ pre, d.Works := fun d hd => hbefore d (by simp [hd])
  refine ⟨call_behaves (run_good hkeeps hpre) (hbefore c (by simp)), fun hgoes => ?_⟩
  have hgoing : ∀ d ∈ pre, ¬ d.Ends := fun d hd => hgoes d (by simp [hd])
  obtain ⟨hlocal, herror⟩ := run_goes_on hkeeps hpre hgoing
  have hcloses := Pipe.call_closes capacity policy (run capacity policy pre).now.view
    (hgoes c (by simp)) hlocal herror
  rw [← run_refines hkeeps hbefore] at hcloses
  rw [run_snoc]
  exact hcloses

/-- Five bytes go through a ring of two, and the writer is done before the last of them is read. -/
theorem five_bytes_pass :
    (run 2 .Spool [.write [1, 2, 3], .read 1, .write [4, 5], .closeRemote, .drop 2,
        .peek, .read 9]).taken = [1, 2, 3, 4, 5] ∧
      (run 2 .Spool [.write [1, 2, 3], .read 1, .write [4, 5], .closeRemote, .drop 2,
        .peek, .read 9]).now.state = .Closed := by
  have hqueue := a_stream_is_a_queue 2 (.inr rfl) [.write [1, 2, 3], .read 1,
    .write [4, 5], .closeRemote, .drop 2, .peek, .read 9] (by simp [Call.Works])
  have hsame := hqueue.1 (by simp [Call.Ends])
  have hall : (run 2 .Spool [.write [1, 2, 3], .read 1, .write [4, 5], .closeRemote,
      .drop 2, .peek, .read 9]).accepted = [1, 2, 3, 4, 5] := by decide
  have hnone : (run 2 .Spool [.write [1, 2, 3], .read 1, .write [4, 5], .closeRemote,
      .drop 2, .peek, .read 9]).now.held = [] := by decide
  rw [hnone, List.append_nil, hall] at hsame
  refine ⟨hsame, ?_⟩
  exact ((hqueue.2 [.write [1, 2, 3], .read 1, .write [4, 5], .closeRemote, .drop 2,
    .peek] (.read 9) [] rfl).2 (by simp [Call.Ends])).mpr
      (.inr ⟨by decide, trivial, hnone⟩)

end Stream

end psx.stream
