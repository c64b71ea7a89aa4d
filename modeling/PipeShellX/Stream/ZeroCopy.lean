-- The sink that drops what it has peeked, beside the sink that reads (stream.cpp). Both take the
-- ring in one piece after the other, so they leave the same stream behind, unless there is no ring
-- or the stream has failed.
import PipeShellX.Stream.BoundedBufferRuns
import PipeShellX.Stream.Stream
import Mathlib.Algebra.GroupWithZero.Nat

namespace psx.stream

namespace BoundedBuffer

variable {capacity : Nat}

theorem discardFront_all (b : BoundedBuffer capacity) {n : Nat} (h : b.contents.length ≤ n) :
    b.discardFront n = b.discardFront b.contents.length := by
  unfold discardFront
  rw [← discard_min b.ring n, size_ring, Nat.min_eq_right h]

theorem discardFront_discardFront (b : BoundedBuffer capacity) (m n : Nat) :
    (b.discardFront m).discardFront n = b.discardFront (m + n) := by
  unfold discardFront
  dsimp only
  rw [RingBuffer.discard_discard]

theorem discardFront_zero (b : BoundedBuffer capacity) : b.discardFront 0 = b := by
  unfold discardFront
  rw [RingBuffer.discard_zero]

end BoundedBuffer

namespace Stream

variable {capacity : Nat} {policy : OverflowPolicy} {s s' s'' : Stream capacity}
  {bytes rest : Bytes} {k n : Nat}

/-! ## The two sinks -/

/-- A sink that takes a peek and drops what it saw, until it sees nothing. -/
def drainLoop : Nat → Stream capacity → Stream capacity × Bytes
  | 0, s => (s, [])
  | turns + 1, s =>
    let (s, bytes) := s.peek
    let s := (s.drop bytes.length).1
    if bytes = [] then (s, [])
    else
      let (s, rest) := drainLoop turns s
      (s, bytes ++ rest)

/-- A sink that reads, into room after room. -/
def reads (s : Stream capacity) : List Nat → Stream capacity × Bytes
  | [] => (s, [])
  | room :: rooms =>
    let (s, bytes) := s.read room
    let (s, rest) := s.reads rooms
    (s, bytes ++ rest)

/-! ## A stream that is emptied -/

/-- All of the ring is taken, and again whenever the spill file has filled it. -/
inductive Empties : Stream capacity → Bytes → Stream capacity → Prop
  | done {s : Stream capacity} : s.held = [] → Empties s [] s
  | ring {s s' : Stream capacity} {bytes : Bytes} : s.buffer.contents ≠ [] →
      Empties { s with buffer := s.buffer.discardFront s.buffer.contents.length } bytes s' →
      Empties s (s.buffer.contents ++ bytes) s'
  | fill {s s' : Stream capacity} {bytes : Bytes} : s.buffer.contents = [] →
      s.spool.pending ≠ [] → s.fillFromSpool.held = s.held → Empties s.fillFromSpool bytes s' →
      Empties s bytes s'

theorem held_ne_nil (h : s.buffer.contents ≠ []) : s.held ≠ [] :=
  fun hheld => h (List.append_eq_nil_iff.mp hheld).1

theorem Empties.deterministic {bytes' : Bytes} (h : Empties s bytes s')
    (h' : Empties s bytes' s'') :
    bytes = bytes' ∧ s' = s'' := by
  induction h generalizing bytes' s'' with
  | done hheld =>
    cases h' with
    | done => exact ⟨rfl, rfl⟩
    | ring hring => exact absurd hheld (held_ne_nil hring)
    | fill hring hspool => exact absurd (held_of_empty hring ▸ hheld) hspool
  | ring hring _ ih =>
    cases h' with
    | done hheld => exact absurd hheld (held_ne_nil hring)
    | ring _ hrest =>
      obtain ⟨rfl, rfl⟩ := ih hrest
      exact ⟨rfl, rfl⟩
    | fill hempty => exact absurd hempty hring
  | fill hempty hspool _ _ ih =>
    cases h' with
    | done hheld => exact absurd (held_of_empty hempty ▸ hheld) hspool
    | ring hring => exact absurd hempty hring
    | fill _ _ _ hrest => exact ih hrest

theorem Empties.all (h : Empties s bytes s') : bytes = s.held := by
  induction h with
  | done hheld => exact hheld.symm
  | ring _ _ ih =>
    rw [ih, held, held, BoundedBuffer.contents_discardFront, List.drop_length, List.nil_append]
  | fill _ _ hsame _ ih => exact ih.trans hsame

/-- It does not matter that a part of the ring is taken first. -/
theorem Empties.discard
    (h : Empties { s with buffer := s.buffer.discardFront n } bytes s') :
    Empties s (s.buffer.contents.take n ++ bytes) s' := by
  by_cases hring : s.buffer.contents = []
  · have hsame : s.buffer.discardFront n = s.buffer := by
      rw [BoundedBuffer.discardFront_all _ (by simp [hring]), hring]
      exact s.buffer.discardFront_zero
    rw [hsame] at h
    rw [hring, List.take_nil]
    exact h
  by_cases hall : s.buffer.contents.length ≤ n
  · rw [BoundedBuffer.discardFront_all _ hall] at h
    rw [List.take_of_length_le hall]
    exact h.ring hring
  · -- what is left of the ring goes next
    have hleft : (s.buffer.discardFront n).contents = s.buffer.contents.drop n :=
      s.buffer.contents_discardFront n
    have hsome : (s.buffer.discardFront n).contents ≠ [] := by
      rw [hleft, Ne, List.drop_eq_nil_iff]
      exact hall
    cases h with
    | done hheld => exact absurd hheld (held_ne_nil hsome)
    | fill hempty => exact absurd hempty hsome
    | ring _ hrest =>
      dsimp only at hrest ⊢
      rw [BoundedBuffer.discardFront_discardFront, hleft, List.length_drop,
        Nat.add_sub_cancel' (by omega)] at hrest
      rw [hleft, ← List.append_assoc, List.take_append_drop]
      exact hrest.ring hring

/-! ## What the two sinks do -/

/-- A stream of any policy without an I/O failure: only under Spool is there something in the
file. -/
structure Sound (s : Stream capacity) : Prop where
  spool : s.spool.Good
  block : s.buffer.policy ≠ .Spool → s.spool.pending = []

theorem Good.sound (h : s.Good policy) : s.Sound where
  spool := h.spool
  block hne := h.block (by rwa [h.given] at hne)

/-- The first `n` bytes are taken on the way to an empty stream. -/
structure Pulls (s : Stream capacity) (n : Nat) (s' : Stream capacity) (bytes : Bytes) : Prop where
  sound : s'.Sound
  goesOn : ∀ {rest : Bytes} {s'' : Stream capacity}, Empties s' rest s'' →
    Empties s (bytes ++ rest) s''
  bytes : bytes = s.held.take n
  held : s'.held = s.held.drop n
  state : s'.state = s.state

theorem Pulls.zero (h : s.Sound) : Pulls s 0 s [] :=
  ⟨h, id, List.take_zero.symm, List.drop_zero.symm, rfl⟩

theorem Pulls.none (h : s.Sound) (hheld : s.held = []) (n : Nat) : Pulls s n s [] := by
  refine ⟨h, id, ?_, ?_, rfl⟩
  · rw [hheld, List.take_nil]
  · rw [hheld, List.drop_nil]

theorem Pulls.andThen (h : Pulls s k s' bytes) (hk : k ≤ n)
    (hrest : Pulls s' (n - bytes.length) s'' rest) : Pulls s n s'' (bytes ++ rest) := by
  refine ⟨hrest.sound, fun hempties => ?_, ?_, ?_, hrest.state.trans h.state⟩
  · rw [List.append_assoc]
    exact h.goesOn (hrest.goesOn hempties)
  · rw [hrest.bytes, h.held, h.bytes]
    exact take_then s.held hk
  · rw [hrest.held, h.held, h.bytes]
    exact drop_then s.held hk

theorem fillFromSpool_ring (h : s.buffer.contents ≠ []) : s.fillFromSpool = s := by
  have hsome : ¬ s.buffer.empty = true := fun hempty => h (s.buffer.empty_iff.mp hempty)
  exact if_pos (.inl hsome)

theorem fillFromSpool_dry (h : s.spool.empty = true) (answers : ReadAnswers) :
    s.fillFromSpool answers = s := if_pos (.inr (.inr h))

theorem Sound.empty (hs : s.Sound) (h : s.held = []) : s.spool.empty = true :=
  hs.spool.whole.empty_iff.mpr (List.append_eq_nil_iff.mp h).2

theorem Sound.maybeClose (hs : s.Sound) : s.maybeCloseAfterDrain.Sound := by
  unfold maybeCloseAfterDrain
  split_ifs
  · exact ⟨hs.spool, hs.block⟩
  · exact hs

/-- The ring is not empty after that, as long as the stream holds a byte. -/
theorem fillFromSpool_pulls (h : s.Sound) (hcapacity : capacity ≠ 0) :
    Pulls s 0 s.fillFromSpool [] ∧ (s.fillFromSpool.buffer.contents = [] → s.held = []) := by
  by_cases hring : s.buffer.contents = []
  · by_cases hspool : s.spool.pending = []
    · rw [fillFromSpool_dry (h.spool.whole.empty_iff.mpr hspool)]
      refine ⟨.zero h, fun _ => ?_⟩
      rw [held_of_empty hring]
      exact hspool
    · -- only the Spool policy has something in the file
      have hpolicy : s.buffer.policy = .Spool := by
        by_contra hne
        exact hspool (h.block hne)
      have hgood : s.Good .Spool := ⟨hpolicy, rfl, h.spool, fun hne => absurd rfl hne⟩
      obtain ⟨htaken, hempty⟩ := fillFromSpool_spec hgood
      have hsame : s.fillFromSpool.held = s.held := htaken.held
      refine ⟨⟨htaken.good.sound, ?_, htaken.bytes, htaken.held, htaken.state⟩, fun hnone => ?_⟩
      · exact fun hempties => .fill hring hspool hsame hempties
      · rw [← hsame]
        exact (hempty hnone).resolve_left hcapacity
  · rw [fillFromSpool_ring hring]
    exact ⟨.zero h, fun hempty => absurd hempty hring⟩

theorem consume_pulls (h : s.Sound) (n : Nat) :
    Pulls s (min n s.buffer.contents.length)
      { s with buffer := s.buffer.discardFront n } (s.buffer.contents.take n) := by
  refine ⟨⟨h.spool, h.block⟩, Empties.discard, ?_, ?_, rfl⟩
  · rw [held, List.take_append_of_le_length (Nat.min_le_right ..), ← List.take_take,
      List.take_length]
  · rw [held, held, BoundedBuffer.contents_discardFront,
      List.drop_append_of_le_length (Nat.min_le_right ..)]
    congr 1
    by_cases hn : n ≤ s.buffer.contents.length
    · rw [Nat.min_eq_left hn]
    · rw [Nat.min_eq_right (by omega), List.drop_of_length_le (by omega), List.drop_length]

theorem readLoop_pulls (hcapacity : capacity ≠ 0) {turns left : Nat} (hturns : left ≤ turns)
    (h : s.Sound) :
    Pulls s left (readLoop turns left (fun _ => {}) s).1
      (readLoop turns left (fun _ => {}) s).2 := by
  induction turns generalizing left s with
  | zero =>
    rw [Nat.le_zero.mp hturns]
    exact .zero h
  | succ turns ih =>
    unfold readLoop
    by_cases hzero : left = 0
    · rw [if_pos hzero, hzero]
      exact .zero h
    · rw [if_neg hzero]
      obtain ⟨hfill, hempty⟩ := fillFromSpool_pulls h hcapacity
      have hsame : s.fillFromSpool.held = s.held := hfill.held
      refine hfill.andThen (Nat.zero_le left) ?_
      rw [List.length_nil, Nat.sub_zero]
      dsimp only
      rw [← hsame] at hempty
      generalize s.fillFromSpool = s at hfill hempty ⊢
      by_cases hnone : s.buffer.empty = true
      · rw [if_pos hnone, if_neg fun hspool => hcapacity hspool.1]
        exact .none hfill.sound (hempty (s.buffer.empty_iff.mp hnone)) left
      · rw [if_neg hnone]
        have hconsume := consume_pulls hfill.sound left
        have hsome : 0 < (s.buffer.contents.take left).length := by
          rw [s.buffer.empty_iff, ← List.length_eq_zero_iff] at hnone
          rw [List.length_take]
          omega
        exact hconsume.andThen (Nat.min_le_left ..) (ih (by omega) hconsume.sound)

/-- A drop of a part of the ring. -/
theorem dropLoop_ring (hk : k ≤ s.buffer.contents.length) :
    dropLoop k k (fun _ => {}) s =
      ({ s with buffer := s.buffer.discardFront k }, s.buffer.contents.take k) := by
  cases k with
  | zero =>
    rw [BoundedBuffer.discardFront_zero, List.take_zero]
    rfl
  | succ k =>
    have hring : s.buffer.contents ≠ [] := by
      rw [← List.length_pos_iff]
      omega
    have hsome : 0 < min (k + 1) s.buffer.ring.size := by
      rw [BoundedBuffer.size_ring]
      omega
    have hall : (s.buffer.consume (k + 1)).2.length = k + 1 := by
      change (s.buffer.contents.take (k + 1)).length = k + 1
      rw [List.length_take, Nat.min_eq_left hk]
    unfold dropLoop
    dsimp only
    rw [if_neg (Nat.succ_ne_zero k), fillFromSpool_ring hring, if_pos hsome, hall, Nat.sub_self]
    have hstop : ∀ s : Stream capacity, dropLoop k 0 (fun _ => {}) s = (s, []) := by
      intro s
      cases k with
      | zero => rfl
      | succ k => exact if_pos rfl
    rw [hstop]
    dsimp only
    rw [List.append_nil]
    rfl

/-! ## The ends of the two sinks -/

theorem maybeClose_readable (hs : s.Sound) (h : s.held ≠ []) : s.maybeCloseAfterDrain = s := by
  have hreadable : s.readable = true := (readable_iff hs.spool.whole).mpr h
  exact if_neg fun hclose => hclose.2 hreadable

theorem maybeClose_error (s : Stream capacity) :
    s.maybeCloseAfterDrain.state = .Error ↔ s.state = .Error := by
  unfold maybeCloseAfterDrain
  split_ifs with hclose
  · rw [hclose.1]
    exact iff_of_false nofun nofun
  · exact Iff.rfl

theorem maybeClose_twice (s : Stream capacity) :
    s.maybeCloseAfterDrain.maybeCloseAfterDrain = s.maybeCloseAfterDrain := by
  by_cases hclose : s.state = .HalfClosedRemote ∧ ¬ s.readable = true
  · have hclosed : s.maybeCloseAfterDrain = { s with state := .Closed } := if_pos hclose
    rw [hclosed]
    exact if_neg fun h => nomatch h.1
  · have hsame : s.maybeCloseAfterDrain = s := if_neg hclose
    rw [hsame, hsame]

theorem contents_of_held (h : s.held = []) : s.buffer.contents = [] :=
  (List.append_eq_nil_iff.mp h).1

/-- A turn of the sink that peeks. It sees a part of the ring. -/
theorem drainLoop_succ (turns : Nat) (s : Stream capacity) :
    ∃ k, s.fillFromSpool.buffer.peek = s.fillFromSpool.buffer.contents.take k ∧
      (s.fillFromSpool.buffer.contents ≠ [] → 0 < k) ∧
      drainLoop (turns + 1) s =
        if s.fillFromSpool.buffer.peek = [] then (s.fillFromSpool.maybeCloseAfterDrain, [])
        else
          let t := { s.fillFromSpool with buffer := s.fillFromSpool.buffer.discardFront k }
          ((drainLoop turns t.maybeCloseAfterDrain).1,
            s.fillFromSpool.buffer.contents.take k ++
              (drainLoop turns t.maybeCloseAfterDrain).2) := by
  obtain ⟨n, hpeek, hsome⟩ := s.fillFromSpool.buffer.peek_spec
  generalize hfilled : s.fillFromSpool = t at hpeek hsome ⊢
  have htake : t.buffer.contents.take (min n t.buffer.contents.length) =
      t.buffer.contents.take n := by
    rw [← List.take_take, List.take_length]
  refine ⟨min n t.buffer.contents.length, hpeek.trans htake.symm, fun hring => ?_, ?_⟩
  · have hlength := List.length_pos_iff.mpr hring
    have hn := hsome hring
    omega
  · have hlength : t.buffer.peek.length = min n t.buffer.contents.length := by
      rw [hpeek, List.length_take]
    have hdrop : (t.drop t.buffer.peek.length).1 =
        Stream.maybeCloseAfterDrain
          { t with buffer := t.buffer.discardFront (min n t.buffer.contents.length) } := by
      unfold drop
      rw [hlength, dropLoop_ring (Nat.min_le_right ..)]
    have hturn : drainLoop (turns + 1) s =
        if t.buffer.peek = [] then ((t.drop t.buffer.peek.length).1, [])
        else
          ((drainLoop turns (t.drop t.buffer.peek.length).1).1,
            t.buffer.peek ++ (drainLoop turns (t.drop t.buffer.peek.length).1).2) := by
      rw [← hfilled]
      rfl
    rw [hturn, hdrop]
    by_cases hnone : t.buffer.peek = []
    · rw [hnone, List.length_nil] at hlength
      rw [if_pos hnone, if_pos hnone, ← hlength, BoundedBuffer.discardFront_zero]
    · rw [if_neg hnone, if_neg hnone, hpeek, htake]

/-- There is nothing to see. -/
theorem drainLoop_nothing (hs : s.Sound) (h : s.held = []) {turns : Nat} (hturns : 0 < turns) :
    drainLoop turns s = (s.maybeCloseAfterDrain, []) := by
  obtain ⟨turns, rfl⟩ := Nat.exists_eq_succ_of_ne_zero hturns.ne'
  obtain ⟨k, hpeek, -, hturn⟩ := drainLoop_succ turns s
  rw [fillFromSpool_dry (hs.empty h)] at hpeek hturn
  rw [contents_of_held h, List.take_nil] at hpeek
  rw [if_pos hpeek] at hturn
  exact hturn

/-- Every turn sees a byte, as long as there is one. -/
theorem drainLoop_empties (hcapacity : capacity ≠ 0) {turns : Nat} (h : s.Sound)
    (hturns : s.held.length < turns) :
    ∃ s', Empties s (drainLoop turns s).2 s' ∧
      (drainLoop turns s).1 = s'.maybeCloseAfterDrain := by
  induction turns generalizing s with
  | zero => exact absurd hturns (Nat.not_lt_zero _)
  | succ turns ih =>
    by_cases hheld : s.held = []
    · rw [drainLoop_nothing h hheld (Nat.succ_pos turns)]
      exact ⟨s, .done hheld, rfl⟩
    · obtain ⟨hfill, hempty⟩ := fillFromSpool_pulls h hcapacity
      have hring : s.fillFromSpool.buffer.contents ≠ [] := fun hnone => hheld (hempty hnone)
      obtain ⟨k, hpeek, hsome, hturn⟩ := drainLoop_succ turns s
      have hk := hsome hring
      have hseen : s.fillFromSpool.buffer.peek ≠ [] := by
        rw [hpeek, Ne, List.take_eq_nil_iff]
        rintro (hzero | hnone)
        · omega
        · exact hring hnone
      have hpull := consume_pulls hfill.sound k
      have hsame : s.fillFromSpool.held = s.held := hfill.held
      have hless : (s.held.drop (min k s.fillFromSpool.buffer.contents.length)).length < turns := by
        have hlength := List.length_pos_iff.mpr hring
        have hpart := congrArg List.length hsame
        rw [held, List.length_append] at hpart
        rw [List.length_drop]
        omega
      rw [if_neg hseen] at hturn
      rw [hturn]
      dsimp only
      rw [← hsame, ← hpull.held] at hless
      generalize ({ s.fillFromSpool with
        buffer := s.fillFromSpool.buffer.discardFront k } : Stream capacity) = t at hpull hless ⊢
      by_cases hlast : t.held = []
      · -- the next turn sees nothing
        have hnothing := drainLoop_nothing hpull.sound.maybeClose ((maybeClose_held t).trans hlast)
          (Nat.zero_lt_of_lt hless)
        rw [hnothing]
        exact ⟨t, hfill.goesOn (hpull.goesOn (.done hlast)), maybeClose_twice t⟩
      · rw [maybeClose_readable hpull.sound hlast]
        obtain ⟨s', hempties, hstop⟩ := ih hpull.sound hless
        exact ⟨s', hfill.goesOn (hpull.goesOn hempties), hstop⟩

theorem readLoop_nothing (hs : s.Sound) (h : s.held = []) (turns left : Nat) :
    readLoop turns left (fun _ => {}) s = (s, []) := by
  cases turns with
  | zero => rfl
  | succ turns =>
    have hempty : s.buffer.empty = true := s.buffer.empty_iff.mpr (contents_of_held h)
    have hspool : s.spool.empty = true := hs.empty h
    have hnone : ¬ (capacity = 0 ∧ ¬ s.spool.empty = true) := fun hsome => hsome.2 hspool
    unfold readLoop
    by_cases hzero : left = 0
    · exact if_pos hzero
    · rw [if_neg hzero]
      dsimp only
      rw [fillFromSpool_dry hspool, if_pos hempty, if_neg hnone]

theorem read_nothing (hs : s.Sound) (h : s.held = []) (herror : s.state ≠ .Error) (room : Nat) :
    s.read room = (s.maybeCloseAfterDrain, []) := by
  unfold read
  rw [if_neg herror, readLoop_nothing hs h]

/-- Later reads leave the stream that the first one has left. -/
theorem reads_closed (hs : s.Sound) (h : s.held = []) (herror : s.state ≠ .Error)
    (rooms : List Nat) :
    s.maybeCloseAfterDrain.reads rooms = (s.maybeCloseAfterDrain, []) := by
  induction rooms with
  | nil => rfl
  | cons room rooms ih =>
    have hgoing : s.maybeCloseAfterDrain.state ≠ .Error :=
      fun hnot => herror ((maybeClose_error s).mp hnot)
    unfold reads
    rw [read_nothing hs.maybeClose ((maybeClose_held s).trans h) hgoing, maybeClose_twice]
    dsimp only
    rw [ih]
    rfl

theorem reads_nothing (hs : s.Sound) (h : s.held = []) (herror : s.state ≠ .Error)
    {rooms : List Nat} (hrooms : rooms ≠ []) : s.reads rooms = (s.maybeCloseAfterDrain, []) := by
  obtain ⟨room, rooms, rfl⟩ := List.exists_cons_of_ne_nil hrooms
  unfold reads
  rw [read_nothing hs h herror]
  dsimp only
  rw [reads_closed hs h herror]
  rfl

theorem reads_empties (hcapacity : capacity ≠ 0) (h : s.Sound) (herror : s.state ≠ .Error)
    {rooms : List Nat} (hrooms : rooms ≠ []) (hsum : s.held.length ≤ rooms.sum) :
    ∃ s', Empties s (s.reads rooms).2 s' ∧ (s.reads rooms).1 = s'.maybeCloseAfterDrain := by
  induction rooms generalizing s with
  | nil => exact absurd rfl hrooms
  | cons room rooms ih =>
    have hpull := readLoop_pulls hcapacity (Nat.le_refl room) h
    have hread : s.read room =
        ((readLoop room room (fun _ => {}) s).1.maybeCloseAfterDrain,
          (readLoop room room (fun _ => {}) s).2) := if_neg herror
    have hlength := congrArg List.length hpull.held
    rw [List.length_drop] at hlength
    rw [List.sum_cons] at hsum
    unfold reads
    rw [hread]
    dsimp only
    generalize readLoop room room (fun _ => {}) s = r at hpull hlength ⊢
    obtain ⟨t, bytes⟩ := r
    dsimp only at hpull hlength ⊢
    have hgoing : t.state ≠ .Error := by
      rw [hpull.state]
      exact herror
    by_cases hlast : t.held = []
    · refine ⟨t, ?_⟩
      rw [reads_closed hpull.sound hlast hgoing]
      exact ⟨hpull.goesOn (.done hlast), rfl⟩
    · have hmore : rooms ≠ [] := by
        rintro rfl
        rw [List.sum_nil] at hsum
        exact hlast (List.length_eq_zero_iff.mp (by omega))
      rw [maybeClose_readable hpull.sound hlast]
      obtain ⟨s', hempties, hstop⟩ := ih hpull.sound hgoing hmore (by omega)
      exact ⟨s', hpull.goesOn hempties, hstop⟩

theorem maybeClose_failed (h : s.state = .Error) : s.maybeCloseAfterDrain = s := by
  apply if_neg
  rw [h]
  rintro ⟨herror, -⟩
  cases herror

/-- A stream that failed gives nothing to a read. -/
theorem reads_failed (h : s.state = .Error) (rooms : List Nat) : s.reads rooms = (s, []) := by
  induction rooms with
  | nil => rfl
  | cons room rooms ih =>
    have hread : s.read room = (s, []) := if_pos h
    unfold reads
    rw [hread]
    dsimp only
    rw [ih]
    rfl

/-! ## The streams that calls lead to -/

/-- The ring never changes its policy, and the spill file stays as it is while it is dry. -/
structure Dry (s s' : Stream capacity) : Prop where
  policy : s'.buffer.policy = s.buffer.policy
  spool : s'.spool = s.spool

theorem Dry.refl (s : Stream capacity) : Dry s s := ⟨rfl, rfl⟩

theorem Dry.trans (h : Dry s s') (h' : Dry s' s'') : Dry s s'' :=
  ⟨h'.policy.trans h.policy, h'.spool.trans h.spool⟩

theorem Dry.empty (h : Dry s s') (hdry : s.spool.empty = true) : s'.spool.empty = true := by
  rw [h.spool]
  exact hdry

theorem Dry.maybeClose (h : Dry s s') : Dry s s'.maybeCloseAfterDrain := by
  unfold maybeCloseAfterDrain
  split_ifs
  · exact ⟨h.policy, h.spool⟩
  · exact h

theorem not_spilled (hdry : s.spool.empty = true) : ¬ (capacity = 0 ∧ ¬ s.spool.empty = true) :=
  fun hsome => hsome.2 hdry

theorem readLoop_dry (hdry : s.spool.empty = true) (turns left : Nat)
    (answers : Nat → ReadAnswers) :
    Dry s (readLoop turns left answers s).1 := by
  induction turns generalizing left answers s with
  | zero => exact .refl s
  | succ turns ih =>
    unfold readLoop
    rw [fillFromSpool_dry hdry]
    dsimp only
    rw [if_neg (not_spilled hdry)]
    split_ifs
    · exact .refl s
    · exact .refl s
    · have hconsume : Dry s { s with buffer := (s.buffer.consume left).1 } := ⟨rfl, rfl⟩
      exact hconsume.trans (ih (hconsume.empty hdry) _ _)

theorem dropLoop_dry (hdry : s.spool.empty = true) (turns left : Nat)
    (answers : Nat → ReadAnswers) :
    Dry s (dropLoop turns left answers s).1 := by
  induction turns generalizing left answers s with
  | zero => exact .refl s
  | succ turns ih =>
    unfold dropLoop
    rw [fillFromSpool_dry hdry]
    dsimp only
    rw [if_neg (not_spilled hdry)]
    split_ifs
    · exact .refl s
    · have hconsume : Dry s { s with buffer := (s.buffer.consume left).1 } := ⟨rfl, rfl⟩
      exact hconsume.trans (ih (hconsume.empty hdry) _ _)
    · exact .refl s

/-- A call to a stream that does not spill. -/
theorem call_dry (hpolicy : s.buffer.policy ≠ .Spool) (hdry : s.spool.empty = true) (c : Call) :
    (s.call c).1.buffer.policy = s.buffer.policy ∧
      ((s.call c).1.spool = s.spool ∨ (s.call c).1.spool = .reset) := by
  have hsame : ∀ {s' : Stream capacity}, Dry s s' →
      s'.buffer.policy = s.buffer.policy ∧ (s'.spool = s.spool ∨ s'.spool = .reset) :=
    fun h => ⟨h.policy, .inl h.spool⟩
  cases c with
  | write data answers =>
    unfold call write
    dsimp only
    rw [if_neg hpolicy]
    split_ifs
    · exact hsame (.refl s)
    · exact ⟨(s.buffer.append_contents data).1, .inl rfl⟩
  | read n answers =>
    unfold call read
    dsimp only
    split_ifs
    · exact hsame (.refl s)
    · exact hsame (readLoop_dry hdry n n answers).maybeClose
  | peek answers =>
    unfold call peek
    dsimp only
    rw [fillFromSpool_dry hdry]
    exact hsame (.refl s)
  | drop n answers => exact hsame (dropLoop_dry hdry n n answers).maybeClose
  | closeRemote =>
    unfold call closeRemote
    dsimp only
    split
    · exact ⟨rfl, .inl rfl⟩
    · exact ⟨rfl, .inl rfl⟩
    · exact hsame (.refl s)
  | closeLocal =>
    unfold call closeLocal
    dsimp only
    split
    · exact ⟨rfl, .inr rfl⟩
    · exact ⟨rfl, .inr rfl⟩
    · exact hsame (.refl s)
  | fail e =>
    unfold call fail
    dsimp only
    split_ifs
    · exact hsame (.refl s)
    · exact ⟨rfl, .inl rfl⟩

theorem run_dry (hpolicy : policy ≠ .Spool) (calls : List Call) :
    (run capacity policy calls).now.buffer.policy = policy ∧
      (run capacity policy calls).now.spool.Good ∧
      (run capacity policy calls).now.spool.empty = true := by
  induction calls using List.reverseRecOn with
  | nil => exact ⟨rfl, SpoolBuffer.good_reset, rfl⟩
  | append_singleton calls c ih =>
    obtain ⟨hsame, hgood, hdry⟩ := ih
    obtain ⟨hkeeps, hspool⟩ := call_dry (by rw [hsame]; exact hpolicy) hdry c
    rw [run_snoc]
    refine ⟨hkeeps.trans hsame, ?_⟩
    change (Stream.call _ c).1.spool.Good ∧ (Stream.call _ c).1.spool.empty = true
    rcases hspool with hspool | hspool
    · rw [hspool]
      exact ⟨hgood, hdry⟩
    · rw [hspool]
      exact ⟨SpoolBuffer.good_reset, rfl⟩

theorem run_sound {calls : List Call} (hworks : ∀ c ∈ calls, c.Works) :
    (run capacity policy calls).now.Sound := by
  by_cases hpolicy : policy = .Spool
  · exact (run_good (by rw [hpolicy]; rfl) hworks).sound
  · obtain ⟨-, hgood, hdry⟩ := @run_dry capacity policy hpolicy calls
    exact ⟨hgood, fun _ => SpoolBuffer.pending_of_empty hdry⟩

/-! ## Where they agree -/

/-- The sink that peeks gets the bytes of the sink that reads, and leaves the same stream. -/
structure Agrees (s : Stream capacity) : Prop where
  progress : s.readable = true → s.peek.2 ≠ []
  same : ∀ turns rooms, s.held.length < turns → rooms ≠ [] → s.held.length ≤ rooms.sum →
    s.drainLoop turns = s.reads rooms

theorem peek_progress (hcapacity : capacity ≠ 0) (h : s.Sound) (hreadable : s.readable = true) :
    s.peek.2 ≠ [] := by
  obtain ⟨-, hempty⟩ := fillFromSpool_pulls h hcapacity
  obtain ⟨n, hpeek, hsome⟩ := s.fillFromSpool.buffer.peek_spec
  have hring : s.fillFromSpool.buffer.contents ≠ [] :=
    fun hnone => (readable_iff h.spool.whole).mp hreadable (hempty hnone)
  have hn := hsome hring
  change s.fillFromSpool.buffer.peek ≠ []
  rw [hpeek, Ne, List.take_eq_nil_iff]
  rintro (hzero | hnone)
  · omega
  · exact hring hnone

theorem agrees_iff (h : s.Sound) :
    s.Agrees ↔ (s.readable = true → capacity ≠ 0 ∧ s.state ≠ .Error) := by
  constructor
  · intro hagrees hreadable
    have hheld := (readable_iff h.spool.whole).mp hreadable
    -- a peek sees the ring only
    have hcapacity : capacity ≠ 0 := by
      rintro rfl
      apply hagrees.progress hreadable
      have hnone : s.fillFromSpool.buffer.contents = [] :=
        List.length_eq_zero_iff.mp (Nat.le_zero.mp s.fillFromSpool.buffer.length_contents_le)
      obtain ⟨n, hpeek, -⟩ := s.fillFromSpool.buffer.peek_spec
      rw [hnone, List.take_nil] at hpeek
      exact hpeek
    refine ⟨hcapacity, fun herror => ?_⟩
    have hsame := hagrees.same (s.held.length + 1) [s.held.length] (Nat.lt_succ_self _)
      (List.cons_ne_nil _ _) (Nat.le_of_eq List.sum_singleton.symm)
    obtain ⟨s', hempties, -⟩ := drainLoop_empties hcapacity h (Nat.lt_succ_self s.held.length)
    rw [hsame, reads_failed herror] at hempties
    exact hheld hempties.all.symm
  · intro hcondition
    refine ⟨fun hreadable => peek_progress (hcondition hreadable).1 h hreadable, ?_⟩
    intro turns rooms hturns hrooms hsum
    by_cases hheld : s.held = []
    · rw [drainLoop_nothing h hheld (Nat.zero_lt_of_lt hturns)]
      by_cases herror : s.state = .Error
      · rw [maybeClose_failed herror, reads_failed herror]
      · exact (reads_nothing h hheld herror hrooms).symm
    · obtain ⟨hcapacity, herror⟩ := hcondition ((readable_iff h.spool.whole).mpr hheld)
      obtain ⟨s₁, hdrain, hstop₁⟩ := drainLoop_empties hcapacity h hturns
      obtain ⟨s₂, hreads, hstop₂⟩ := reads_empties hcapacity h herror hrooms hsum
      obtain ⟨hbytes, hsame⟩ := hdrain.deterministic hreads
      exact Prod.ext (hstop₁.trans ((congrArg maybeCloseAfterDrain hsame).trans hstop₂.symm)) hbytes

/-- Without a ring a peek never sees what is in the spill file, and of a stream that failed it still
sees what a read does not give. In all other states that calls lead to, both sinks are the same. -/
theorem peeks_need_a_ring (capacity : Nat) (policy : OverflowPolicy) (calls : List Call)
    (hworks : ∀ c ∈ calls, c.Works) :
    (run capacity policy calls).now.Agrees ↔
      ((run capacity policy calls).now.readable = true →
        capacity ≠ 0 ∧ (run capacity policy calls).now.state ≠ .Error) :=
  agrees_iff (run_sound hworks)

/-- Five bytes behind a ring of two. -/
theorem a_ring_of_two_agrees :
    (run 2 .Spool [.write [1, 2, 3], .read 1, .write [4, 5], .closeRemote]).now.Agrees :=
  (peeks_need_a_ring 2 .Spool [.write [1, 2, 3], .read 1, .write [4, 5], .closeRemote]
    (by simp [Call.Works])).mpr fun _ => ⟨by decide, by decide⟩

/-- A byte that no peek sees. -/
theorem a_byte_stays_unseen :
    ¬ ∀ (capacity : Nat) (policy : OverflowPolicy) (calls : List Call), (∀ c ∈ calls, c.Works) →
      (run capacity policy calls).now.Agrees := by
  intro h
  have hprogress := (h 0 .Spool [.write [1]] (by simp [Call.Works])).progress (by decide)
  exact hprogress (by decide)

end Stream

end psx.stream
