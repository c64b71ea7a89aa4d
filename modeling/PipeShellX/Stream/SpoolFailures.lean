-- A spilling stream whose file may fail (stream.cpp, spool_buffer.hpp). An append that fails
-- poisons the file for good, and a flush that fails loses what was in its buffer. Either may leave
-- the stream with bytes that no read will ever give.
import PipeShellX.Counts
import PipeShellX.Stream.Stream

namespace psx.stream

/-- The file gives what is asked for, or some of it. -/
def ReadAnswers.Gives (answers : ReadAnswers) : Prop :=
  answers.sought = none ∧ answers.given ≠ some 0

namespace Stream

variable {capacity : Nat} {s s' s'' : Stream capacity} {bytes rest : Bytes}

/-! ## What the sink does -/

/-- A stream that spills. -/
structure Spills (s : Stream capacity) : Prop where
  policy : s.buffer.policy = .Spool
  sound : s.spool.Sound

/-- A file that has all that it took, and nothing more to give when it is poisoned. -/
structure Healthy (s : Stream capacity) : Prop where
  whole : s.spool.Whole
  dry : s.spool.failed = true → s.spool.empty = true

/-- Bytes that come out of a stream, from the front. Nothing gets lost when `lossless` holds. -/
structure Draws (lossless : Prop) (s s' : Stream capacity) (bytes : Bytes) : Prop where
  spills : s'.Spills
  out : bytes ++ s'.held <+: s.held
  state : s'.state = s.state
  kept : lossless → s.Healthy → s'.Healthy ∧ bytes ++ s'.held = s.held

theorem Draws.refl (h : s.Spills) {lossless : Prop} : Draws lossless s s [] :=
  ⟨h, List.prefix_refl _, rfl, fun _ hs => ⟨hs, rfl⟩⟩

theorem Draws.trans {first second : Prop} (h : Draws first s s' bytes)
    (h' : Draws second s' s'' rest) (hthen : first → second) :
    Draws first s s'' (bytes ++ rest) where
  spills := h'.spills
  out := by
    rw [List.append_assoc]
    exact ((List.prefix_append_right_inj bytes).mpr h'.out).trans h.out
  state := h'.state.trans h.state
  kept hlossless hs := by
    obtain ⟨hs', hout⟩ := h.kept hlossless hs
    obtain ⟨hs'', hout'⟩ := h'.kept (hthen hlossless) hs'
    exact ⟨hs'', by rw [List.append_assoc, hout', hout]⟩

theorem Draws.weaken {first second : Prop} (h : Draws first s s' bytes) (hthen : second → first) :
    Draws second s s' bytes :=
  ⟨h.spills, h.out, h.state, fun hlossless => h.kept (hthen hlossless)⟩

theorem Spills.maybeClose (h : s.Spills) : s.maybeCloseAfterDrain.Spills := by
  unfold maybeCloseAfterDrain
  split_ifs
  · exact ⟨h.policy, h.sound⟩
  · exact h

theorem Healthy.maybeClose (h : s.Healthy) : s.maybeCloseAfterDrain.Healthy := by
  refine ⟨?_, ?_⟩
  · rw [maybeClose_spool]
    exact h.whole
  · rw [maybeClose_spool]
    exact h.dry

/-- The file after a read of it, when it is replaced by a new one at its end. -/
theorem read_draws {f g : SpoolBuffer} {n : Nat} {answers : ReadAnswers} (h : f.Sound)
    (hg : g = if (f.read n answers).1.empty then .reset else (f.read n answers).1) :
    g.Sound ∧ (f.read n answers).2 ++ g.pending <+: f.pending ∧
      (¬ f.stdio.Loses answers.sought → f.Whole → f.failed = false →
        g.Whole ∧ g.failed = false ∧ (f.read n answers).2 ++ g.pending = f.pending) := by
  obtain ⟨hout, hall⟩ := @SpoolBuffer.read_pending f n answers
  by_cases hempty : (f.read n answers).1.empty = true
  · rw [if_pos hempty] at hg
    rw [SpoolBuffer.pending_of_empty hempty] at hout hall
    rw [hg]
    exact ⟨SpoolBuffer.good_reset.sound, hout, fun hkept hwhole _ =>
      ⟨SpoolBuffer.good_reset.whole, rfl, (hall hkept hwhole).2⟩⟩
  · rw [if_neg hempty] at hg
    rw [hg]
    refine ⟨h.read, hout, fun hkept hwhole hworks => ?_⟩
    exact ⟨(hall hkept hwhole).1, SpoolBuffer.failed_read.trans hworks, (hall hkept hwhole).2⟩

/-- A healthy stream with something in its file has one that works. -/
theorem Healthy.works (h : s.Healthy) (hmore : ¬ s.spool.empty = true) :
    s.spool.failed = false := by
  rw [← Bool.not_eq_true]
  exact mt h.dry hmore

/-- A ring takes a chunk that is no longer than itself. -/
theorem contents_chunk (h : s.buffer.policy = .Spool) (hring : s.buffer.contents = [])
    (chunk : Bytes) (hfits : chunk.length ≤ capacity) :
    (s.buffer.append chunk).1.contents = chunk ∧ (s.buffer.append chunk).1.policy = .Spool := by
  have hblocks : dropsOnOverflow s.buffer.policy = false := by
    rw [h]
    rfl
  obtain ⟨hcontents, hpolicy, -⟩ := BoundedBuffer.append_blocks hblocks chunk
  rw [hring, BoundedBuffer.available_eq, hring, List.nil_append,
    List.take_of_length_le (by simpa using hfits)] at hcontents
  exact ⟨hcontents, hpolicy.trans h⟩

theorem fill_draws (h : s.Spills) (answers : ReadAnswers) :
    Draws (s.buffer.contents = [] → ¬ s.spool.stdio.Loses answers.sought) s
      (s.fillFromSpool answers) [] := by
  unfold fillFromSpool
  by_cases hnone : ¬ s.buffer.empty = true ∨ capacity = 0 ∨ s.spool.empty = true
  · rw [if_pos hnone]
    exact .refl h
  · rw [if_neg hnone]
    push Not at hnone
    obtain ⟨hempty, -, hmore⟩ := hnone
    rw [s.buffer.empty_iff] at hempty
    generalize hn : min kChunkBytes capacity = n
    obtain ⟨hrenewed, hout, hkept⟩ := @read_draws s.spool _ n answers h.sound rfl
    obtain ⟨hread, hreadKept⟩ := @SpoolBuffer.read_pending s.spool n answers
    have hlength := @SpoolBuffer.length_read_le s.spool n answers
    have hsound := @SpoolBuffer.Sound.read s.spool n answers h.sound
    have hfailed := @SpoolBuffer.failed_read s.spool n answers
    generalize s.spool.read n answers = r
      at hrenewed hout hkept hread hreadKept hlength hsound hfailed ⊢
    obtain ⟨spool, chunk⟩ := r
    dsimp only at hrenewed hout hkept hread hreadKept hlength hsound hfailed ⊢
    by_cases hgot : chunk = []
    · rw [if_pos hgot]
      rw [hgot, List.nil_append] at hread hreadKept
      refine ⟨⟨h.policy, hsound⟩, ?_, rfl, fun hlossless hs => ?_⟩
      · exact (List.prefix_append_right_inj s.buffer.contents).mpr hread
      · obtain ⟨hwhole, hsame⟩ := hreadKept (hlossless hempty) hs.whole
        refine ⟨⟨hwhole, fun hpoisoned => ?_⟩, congrArg (s.buffer.contents ++ ·) hsame⟩
        exact absurd ((hs.works hmore).symm.trans (hfailed ▸ hpoisoned)) Bool.false_ne_true
    · rw [if_neg hgot]
      obtain ⟨hcontents, hpolicy⟩ := contents_chunk h.policy hempty chunk (by omega)
      refine ⟨⟨hpolicy, hrenewed⟩, ?_, rfl, fun hlossless hs => ?_⟩
      · rw [List.nil_append, held, held, hcontents, hempty]
        exact hout
      · obtain ⟨hwhole, hworks, hsame⟩ := hkept (hlossless hempty) hs.whole (hs.works hmore)
        refine ⟨⟨hwhole, fun hpoisoned => ?_⟩, ?_⟩
        · exact absurd (hworks.symm.trans hpoisoned) Bool.false_ne_true
        · rw [List.nil_append, held, held, hcontents, hempty]
          exact hsame

theorem take_draws (h : s.Spills) (hmore : ¬ s.spool.empty = true)
    (hring : s.buffer.contents = []) (n : Nat) (answers : ReadAnswers) :
    Draws (¬ s.spool.stdio.Loses answers.sought) s (s.takeSpool n answers).1
      (s.takeSpool n answers).2 := by
  obtain ⟨hrenewed, hout, hkept⟩ := @read_draws s.spool _ n answers h.sound rfl
  have hheld : (s.takeSpool n answers).1.held =
      (s.takeSpool n answers).1.spool.pending := held_of_empty hring
  refine ⟨⟨h.policy, hrenewed⟩, ?_, rfl, fun hlossless hs => ?_⟩
  · rw [hheld, held_of_empty hring]
    exact hout
  · obtain ⟨hwhole, hworks, hsame⟩ := hkept hlossless hs.whole (hs.works hmore)
    refine ⟨⟨hwhole, fun hpoisoned => ?_⟩, ?_⟩
    · exact absurd (hworks.symm.trans hpoisoned) Bool.false_ne_true
    · rw [hheld, held_of_empty hring]
      exact hsame

theorem consume_draws (h : s.Spills) (n : Nat) {lossless : Prop} :
    Draws lossless s { s with buffer := (s.buffer.consume n).1 } (s.buffer.consume n).2 := by
  have hcontents : (s.buffer.consume n).1.contents = s.buffer.contents.drop n :=
    s.buffer.contents_discardFront n
  have hall : (s.buffer.consume n).2 ++ s.buffer.contents.drop n = s.buffer.contents :=
    List.take_append_drop n s.buffer.contents
  have hsame : (s.buffer.consume n).2 ++
      Stream.held { s with buffer := (s.buffer.consume n).1 } = s.held := by
    rw [held, hcontents, ← List.append_assoc, hall]
    rfl
  exact ⟨⟨h.policy, h.sound⟩, hsame ▸ List.prefix_refl _, rfl,
    fun _ hs => ⟨⟨hs.whole, hs.dry⟩, hsame⟩⟩

/-! ## The loops of the sink -/

/-- The first read of the file that taking `n` bytes makes does not lose any. It is made in the
first turn when the ring is empty, and otherwise in the second. -/
def Keeps (s : Stream capacity) (n : Nat) (answers : Nat → ReadAnswers) : Prop :=
  s.buffer.contents.length < n →
    ¬ s.spool.stdio.Loses (answers (if s.buffer.contents = [] then 0 else 1)).sought

theorem keeps_of_settled (h : s.spool.stdio.buffer = []) (n : Nat) (answers : Nat → ReadAnswers) :
    s.Keeps n answers := fun _ => BufferedFile.not_loses_of_nil h

theorem Keeps.fill {n : Nat} {answers : Nat → ReadAnswers} (h : s.Keeps n answers) (hn : n ≠ 0)
    (hring : s.buffer.contents = []) : ¬ s.spool.stdio.Loses (answers 0).sought := by
  have hlost := h (by rw [hring]; exact Nat.pos_of_ne_zero hn)
  rwa [if_pos hring] at hlost

theorem min_chunk_ne_zero (h : capacity ≠ 0) : min kChunkBytes capacity ≠ 0 := by
  have hchunk : 0 < kChunkBytes := by decide
  omega

/-- Only the first read of the file finds something in its buffer. -/
theorem fill_settles (h : s.Spills) (answers : ReadAnswers) :
    s.fillFromSpool answers = s ∨
      s.buffer.contents = [] ∧ (s.fillFromSpool answers).spool.stdio.buffer = [] := by
  unfold fillFromSpool
  by_cases hnone : ¬ s.buffer.empty = true ∨ capacity = 0 ∨ s.spool.empty = true
  · exact .inl (if_pos hnone)
  · rw [if_neg hnone]
    push Not at hnone
    obtain ⟨hempty, hcapacity, hmore⟩ := hnone
    rw [s.buffer.empty_iff] at hempty
    have hsettled := @SpoolBuffer.Sound.buffer_read s.spool _ answers h.sound
      (min_chunk_ne_zero hcapacity) hmore
    refine .inr ⟨hempty, ?_⟩
    generalize s.spool.read (min kChunkBytes capacity) answers = r at hsettled ⊢
    obtain ⟨spool, chunk⟩ := r
    dsimp only at hsettled ⊢
    by_cases hgot : chunk = []
    · rw [if_pos hgot]
      exact hsettled
    · rw [if_neg hgot]
      dsimp only
      split_ifs
      · rfl
      · exact hsettled

theorem take_settles (h : s.Spills) (hmore : ¬ s.spool.empty = true) {n : Nat} (hn : n ≠ 0)
    (answers : ReadAnswers) : (s.takeSpool n answers).1.spool.stdio.buffer = [] := by
  have hsettled := @SpoolBuffer.Sound.buffer_read s.spool n answers h.sound hn hmore
  change (if (s.spool.read n answers).1.empty = true then SpoolBuffer.reset
    else (s.spool.read n answers).1).stdio.buffer = []
  split_ifs
  · rfl
  · exact hsettled

/-- What is left to lose after the ring was consumed in a turn. -/
theorem Keeps.consumed {n : Nat} {answers : Nat → ReadAnswers} (h : s.Keeps n answers)
    (hwas : s = s' ∨ s'.spool.stdio.buffer = []) (hring : s'.buffer.contents ≠ []) :
    Keeps { s' with buffer := (s'.buffer.consume n).1 } (n - (s'.buffer.consume n).2.length)
      fun i => answers (i + 1) := by
  rcases hwas with rfl | hsettled
  · have hcontents : (s.buffer.consume n).1.contents = s.buffer.contents.drop n :=
      s.buffer.contents_discardFront n
    have hlength : (s.buffer.consume n).2.length = min n s.buffer.contents.length :=
      List.length_take
    intro hshort
    dsimp only at hshort ⊢
    rw [hcontents, hlength, List.length_drop] at hshort
    have hnil : s.buffer.contents.drop n = [] := List.drop_eq_nil_of_le (by omega)
    have hlost := h (by omega)
    rw [if_neg hring] at hlost
    rwa [hcontents, if_pos hnil]
  · exact fun _ => BufferedFile.not_loses_of_nil hsettled

theorem readLoop_draws (h : s.Spills) (turns left : Nat) (answers : Nat → ReadAnswers) :
    Draws (s.Keeps left answers) s (readLoop turns left answers s).1
      (readLoop turns left answers s).2 := by
  induction turns generalizing left answers s with
  | zero => exact .refl h
  | succ turns ih =>
    unfold readLoop
    by_cases hzero : left = 0
    · rw [if_pos hzero]
      exact .refl h
    · rw [if_neg hzero]
      have hsettles := fill_settles h (answers 0)
      have hfill := (fill_draws h (answers 0)).weaken
        fun hkeeps : s.Keeps left answers => hkeeps.fill hzero
      refine (?_ : Draws (s.Keeps left answers) s _ ([] ++ _))
      dsimp only
      generalize s.fillFromSpool (answers 0) = t at hfill hsettles ⊢
      have hwas : s = t ∨ t.spool.stdio.buffer = [] := hsettles.imp Eq.symm And.right
      by_cases hempty : t.buffer.empty = true
      · rw [if_pos hempty]
        rw [t.buffer.empty_iff] at hempty
        by_cases hspool : capacity = 0 ∧ ¬ t.spool.empty = true
        · rw [if_pos hspool]
          have htake := take_draws hfill.spills hspool.2 hempty left (answers 0)
          have hkept : s.Keeps left answers → ¬ t.spool.stdio.Loses (answers 0).sought := by
            rcases hwas with rfl | hsettled
            · exact fun hkeeps => hkeeps.fill hzero hempty
            · exact fun _ => BufferedFile.not_loses_of_nil hsettled
          split_ifs with hgot
          · rw [hgot] at htake
            exact hfill.trans htake hkept
          · have hsettled := take_settles hfill.spills hspool.2 hzero (answers 0)
            exact hfill.trans (htake.trans (ih htake.spills _ _)
              fun _ => keeps_of_settled hsettled _ _) hkept
        · rw [if_neg hspool]
          exact hfill
      · rw [if_neg hempty]
        rw [t.buffer.empty_iff] at hempty
        have hconsume := @consume_draws _ t hfill.spills left (s.Keeps left answers)
        refine hfill.trans (hconsume.trans (ih hconsume.spills _ _) ?_) id
        exact fun hkeeps => hkeeps.consumed hwas hempty

theorem dropLoop_draws (h : s.Spills) (turns left : Nat) (answers : Nat → ReadAnswers) :
    Draws (s.Keeps left answers) s (dropLoop turns left answers s).1
      (dropLoop turns left answers s).2 := by
  induction turns generalizing left answers s with
  | zero => exact .refl h
  | succ turns ih =>
    unfold dropLoop
    by_cases hzero : left = 0
    · rw [if_pos hzero]
      exact .refl h
    · rw [if_neg hzero]
      have hsettles := fill_settles h (answers 0)
      have hfill := (fill_draws h (answers 0)).weaken
        fun hkeeps : s.Keeps left answers => hkeeps.fill hzero
      refine (?_ : Draws (s.Keeps left answers) s _ ([] ++ _))
      dsimp only
      generalize s.fillFromSpool (answers 0) = t at hfill hsettles ⊢
      have hwas : s = t ∨ t.spool.stdio.buffer = [] := hsettles.imp Eq.symm And.right
      rw [BoundedBuffer.size_ring]
      by_cases hsome : 0 < min left t.buffer.contents.length
      · rw [if_pos hsome]
        have hring : t.buffer.contents ≠ [] := List.length_pos_iff.mp (by omega)
        have hconsume := @consume_draws _ t hfill.spills left (s.Keeps left answers)
        refine hfill.trans (hconsume.trans (ih hconsume.spills _ _) ?_) id
        exact fun hkeeps => hkeeps.consumed hwas hring
      · rw [if_neg hsome]
        have hring : t.buffer.contents = [] := List.length_eq_zero_iff.mp (by omega)
        by_cases hspool : capacity = 0 ∧ ¬ t.spool.empty = true
        · rw [if_pos hspool]
          have hn : min left kChunkBytes ≠ 0 := by
            have hchunk : 0 < kChunkBytes := by decide
            omega
          have htake := take_draws hfill.spills hspool.2 hring (min left kChunkBytes) (answers 0)
          have hkept : s.Keeps left answers → ¬ t.spool.stdio.Loses (answers 0).sought := by
            rcases hwas with rfl | hsettled
            · exact fun hkeeps => hkeeps.fill hzero hring
            · exact fun _ => BufferedFile.not_loses_of_nil hsettled
          split_ifs with hgot
          · rw [hgot] at htake
            exact hfill.trans htake hkept
          · have hsettled := take_settles hfill.spills hspool.2 hn (answers 0)
            exact hfill.trans (htake.trans (ih htake.spills _ _)
              fun _ => keeps_of_settled hsettled _ _) hkept
        · rw [if_neg hspool]
          exact hfill

/-! ## A read that does not fail -/

theorem Healthy.good (h : s.Healthy) (hs : s.Spills) (hmore : ¬ s.spool.empty = true) :
    s.spool.Good :=
  ⟨hs.sound, h.whole, h.works hmore⟩

theorem fill_stays (h : s.buffer.contents ≠ [] ∨ capacity = 0) (answers : ReadAnswers) :
    s.fillFromSpool answers = s := by
  apply if_pos
  rcases h with hring | hzero
  · exact .inl fun hempty => hring (s.buffer.empty_iff.mp hempty)
  · exact .inr (.inl hzero)

theorem fill_some (h : s.Spills) (hs : s.Healthy) (hring : s.buffer.contents = [])
    (hcapacity : capacity ≠ 0) (hmore : ¬ s.spool.empty = true) {answers : ReadAnswers}
    (hgives : answers.Gives) : (s.fillFromSpool answers).buffer.contents ≠ [] := by
  have hnone : ¬ (¬ s.buffer.empty = true ∨ capacity = 0 ∨ s.spool.empty = true) := by
    rintro (hsome | hzero | hdry)
    · exact hsome (s.buffer.empty_iff.mpr hring)
    · exact hcapacity hzero
    · exact hmore hdry
  have hread := (hs.good h hmore).read_some (min_chunk_ne_zero hcapacity)
    (mt hs.whole.empty_iff.mpr hmore) hgives.1 hgives.2
  have hlength := @SpoolBuffer.length_read_le s.spool (min kChunkBytes capacity) answers
  unfold fillFromSpool
  rw [if_neg hnone]
  generalize s.spool.read (min kChunkBytes capacity) answers = r at hread hlength ⊢
  obtain ⟨spool, chunk⟩ := r
  obtain ⟨hcontents, -⟩ := contents_chunk h.policy hring chunk
    (hlength.trans (Nat.min_le_right ..))
  dsimp only at hread ⊢
  rw [if_neg hread]
  exact fun hnil => hread (hcontents.symm.trans hnil)

theorem consume_some (hring : s.buffer.contents ≠ []) {n : Nat} (hn : n ≠ 0) :
    (s.buffer.consume n).2 ≠ [] := by
  change s.buffer.contents.take n ≠ []
  rw [Ne, List.take_eq_nil_iff]
  exact not_or.mpr ⟨hn, hring⟩

/-- A stream that holds a byte gives one, unless its file fails. -/
theorem readLoop_some (h : s.Spills) (hs : s.Healthy) (hheld : s.held ≠ []) {n : Nat} (hn : n ≠ 0)
    {answers : Nat → ReadAnswers} (hgives : (answers 0).Gives) :
    (readLoop n n answers s).2 ≠ [] := by
  obtain ⟨turns, rfl⟩ := Nat.exists_eq_succ_of_ne_zero hn
  have hturn : ∀ {t : Stream capacity}, s.fillFromSpool (answers 0) = t → t.buffer.contents ≠ [] →
      (readLoop (turns + 1) (turns + 1) answers s).2 ≠ [] := by
    intro t hfill hring
    have hsome : ¬ t.buffer.empty = true := fun hempty => hring (t.buffer.empty_iff.mp hempty)
    unfold readLoop
    rw [if_neg hn, hfill]
    dsimp only
    rw [if_neg hsome]
    exact List.append_ne_nil_of_left_ne_nil (consume_some hring hn) _
  by_cases hring : s.buffer.contents = []
  · have hpending : s.spool.pending ≠ [] := by
      rw [← held_of_empty hring]
      exact hheld
    have hmore : ¬ s.spool.empty = true := mt hs.whole.empty_iff.mp hpending
    by_cases hcapacity : capacity = 0
    · have hempty : s.buffer.empty = true := s.buffer.empty_iff.mpr hring
      have htake : (s.takeSpool (turns + 1) (answers 0)).2 ≠ [] :=
        (hs.good h hmore).read_some hn hpending hgives.1 hgives.2
      unfold readLoop
      rw [if_neg hn, fill_stays (.inr hcapacity)]
      dsimp only
      rw [if_pos hempty, if_pos ⟨hcapacity, hmore⟩, if_neg htake]
      exact List.append_ne_nil_of_left_ne_nil htake _
    · exact hturn rfl (fill_some h hs hring hcapacity hmore hgives)
  · exact hturn (fill_stays (.inl hring) _) hring

/-! ## A write -/

theorem Healthy.goodStream (h : s.Healthy) (hs : s.Spills) (hworks : s.spool.failed = false) :
    s.Good .Spool :=
  ⟨hs.policy, rfl, ⟨hs.sound, h.whole, hworks⟩, fun hnot => absurd rfl hnot⟩

/-- Answers without a failure make no difference. -/
theorem appendSpool_works {data : Bytes} {answers : AppendAnswers}
    (hworks : ¬ s.spool.Refuses answers) : s.appendSpool data answers = s.appendSpool data := by
  have hfailed : s.spool.failed = false := by
    rw [← Bool.not_eq_true]
    exact fun hfailed => hworks (.inl hfailed)
  have hsame : ∀ bytes : Bytes, s.spool.append bytes answers = s.spool.append bytes := by
    intro bytes
    by_cases hnone : bytes = []
    · rw [hnone]
      rfl
    · rw [SpoolBuffer.append_taken hnone hworks,
        SpoolBuffer.append_taken hnone (SpoolBuffer.not_refuses_of_works hfailed)]
  unfold appendSpool
  simp only [hsame]

theorem state_appendSpool {data : Bytes} {answers : AppendAnswers} :
    (s.appendSpool data answers).1.state = s.state := by
  unfold appendSpool
  dsimp only
  split_ifs <;> rfl

/-- What a spilling stream does with `data`, of which it takes the first `n` bytes. -/
structure Spooled (s : Stream capacity) (data : Bytes) (s' : Stream capacity) (n : Nat) :
    Prop where
  spills : s'.Spills
  healthy : s'.Healthy
  state : s'.state = s.state
  held : s'.held = s.held ++ data.take n

/-- A file that takes the bytes, -/
theorem appendSpool_taken (h : s.Spills) (hs : s.Healthy) {answers : AppendAnswers} (data : Bytes)
    (hworks : ¬ s.spool.Refuses answers) :
    Spooled s data (s.appendSpool data answers).1 (s.appendSpool data answers).2 ∧
      (s.appendSpool data answers).2 = data.length := by
  have hfailed : s.spool.failed = false := by
    rw [← Bool.not_eq_true]
    exact fun hfailed => hworks (.inl hfailed)
  obtain ⟨hgood, hheld, hall, hstate⟩ := appendSpool_spec (hs.goodStream h hfailed) rfl data
  rw [appendSpool_works hworks]
  refine ⟨⟨⟨hgood.given, hgood.spool.sound⟩, ⟨hgood.spool.whole, fun hpoisoned => ?_⟩, hstate, ?_⟩,
    hall⟩
  · exact absurd (hgood.spool.works.symm.trans hpoisoned) Bool.false_ne_true
  · rw [hheld, hall, List.take_length]

/-- one that refuses them behind others that wait in it, -/
theorem appendSpool_full {data : Bytes} {answers : AppendAnswers} (hsome : data ≠ [])
    (hbad : s.spool.Refuses answers) (hmore : ¬ s.spool.empty = true) :
    (s.appendSpool data answers).2 = 0 := by
  obtain ⟨file, -, hrefused⟩ := SpoolBuffer.append_refused hsome hbad
  unfold appendSpool
  rw [if_neg hsome, if_pos hmore, hrefused]
  rfl

/-- and one that refuses them with nothing in it, so that the ring takes what fits. -/
theorem appendSpool_dry (h : s.Spills) (hs : s.Healthy) {data : Bytes} {answers : AppendAnswers}
    (hsome : data ≠ []) (hbad : s.spool.Refuses answers) (hdry : s.spool.empty = true) :
    Spooled s data (s.appendSpool data answers).1 (s.appendSpool data answers).2 ∧
      ((s.appendSpool data answers).2 = 0 ↔ s.buffer.available = 0) := by
  have hblocks : dropsOnOverflow s.buffer.policy = false := by
    rw [h.policy]
    rfl
  have hlength := List.length_pos_iff.mpr hsome
  have hpending := SpoolBuffer.pending_of_empty hdry
  obtain ⟨hcontents, hpolicy, hcount⟩ := BoundedBuffer.append_blocks hblocks data
  unfold appendSpool
  rw [if_neg hsome, if_neg (not_not.mpr hdry)]
  generalize s.buffer.append data = b at hcontents hpolicy hcount ⊢
  obtain ⟨buffer, accepted⟩ := b
  dsimp only at hcontents hpolicy hcount ⊢
  by_cases hall : accepted = data.length
  · rw [if_pos hall]
    refine ⟨⟨⟨hpolicy.trans h.policy, h.sound⟩, ⟨hs.whole, hs.dry⟩, rfl, ?_⟩, by omega⟩
    rw [held, held, hcontents, hpending, List.append_nil, List.append_nil, hall, List.take_length,
      List.take_of_length_le (by omega)]
  · have hroom : accepted = s.buffer.available := by omega
    have hrest : data.drop accepted ≠ [] := by
      rw [Ne, List.drop_eq_nil_iff]
      omega
    obtain ⟨file, hleft, hrefused⟩ := SpoolBuffer.append_refused hrest hbad
    obtain ⟨hstored, hwhole⟩ := SpoolBuffer.stored_refused hs.whole hleft
    have hkept := hwhole (BufferedFile.not_loses_of_nil (h.sound.nothing_to_lose hdry))
    have hstill : SpoolBuffer.empty { s.spool with file, failed := true } = true := hdry
    rw [if_neg hall, hrefused]
    refine ⟨⟨⟨hpolicy.trans h.policy, h.sound.refused hleft⟩, ⟨hkept, fun _ => hstill⟩, rfl, ?_⟩,
      by rw [if_neg Bool.false_ne_true, hroom]⟩
    rw [if_neg Bool.false_ne_true, held, held, hcontents, hpending,
      SpoolBuffer.pending_of_empty hstill, List.append_nil, List.append_nil, hroom]

/-! ## Calls -/

/-- The sink has not come to an end, and nothing has failed. -/
def Live (s : Stream capacity) : Prop := s.state = .Open ∨ s.state = .HalfClosedRemote

/-- The condition on a call. Whenever the file refuses what a write may have to put in it, it holds
no unread byte, and the ring has room; and no flush of the file loses a byte. -/
def Fits (s : Stream capacity) : Call → Prop
  | .write data answers =>
    s.state = .Open → data ≠ [] → s.spool.Refuses answers →
      s.spool.empty = true ∧ s.buffer.available ≠ 0
  | .read n answers => s.Live → s.Keeps n answers
  | .peek answers =>
    s.Live → capacity ≠ 0 → s.buffer.contents = [] → ¬ s.spool.stdio.Loses answers.sought
  | .drop n answers => s.Live → s.Keeps n answers
  | _ => True

/-- What a call does to a spilling stream. Only the sink that ends the stream loses bytes, and one
that goes on after a failure. -/
structure Handles (s : Stream capacity) (c : Call) (r : Stream capacity × Answer) : Prop where
  spills : r.1.Spills
  kept : r.2.taken ++ r.1.held <+: s.held ++ c.data.take r.2.accepted
  opened : r.1.state = .Open → s.state = .Open ∧
    r.2.taken ++ r.1.held = s.held ++ c.data.take r.2.accepted
  closed : s.state ≠ .Open → r.2.accepted = 0
  healthy : r.1.Live → r.1.Healthy

/-- A call that only takes bytes out. -/
theorem Draws.handles {c : Call} {lossless : Prop} (h : Draws lossless s s' bytes)
    (hnone : c.data = []) (hhealthy : s.Live → s.Healthy) (hlossless : s.Live → lossless) :
    Handles s c (s', { taken := bytes }) := by
  refine ⟨h.spills, ?_, fun hopen => ?_, fun _ => rfl, fun hlive => ?_⟩
  · rw [hnone, List.take_nil, List.append_nil]
    exact h.out
  · have hwas : s.state = .Open := h.state ▸ hopen
    rw [hnone, List.take_nil, List.append_nil]
    exact ⟨hwas, (h.kept (hlossless (.inl hwas)) (hhealthy (.inl hwas))).2⟩
  · have hwas : s.Live := hlive.imp h.state.symm.trans h.state.symm.trans
    exact (h.kept (hlossless hwas) (hhealthy hwas)).1

/-- A stream that closes because it is drained keeps what it has. -/
theorem Handles.maybeClose {c : Call} {answer : Answer} (h : Handles s c (s', answer)) :
    Handles s c (s'.maybeCloseAfterDrain, answer) := by
  have hstate : s'.maybeCloseAfterDrain.state = s'.state ∨
      s'.maybeCloseAfterDrain.state = .Closed := by
    unfold maybeCloseAfterDrain
    split_ifs
    · exact .inr rfl
    · exact .inl rfl
  refine ⟨h.spills.maybeClose, ?_, fun hopen => ?_, h.closed, fun hlive => ?_⟩
  · rw [maybeClose_held]
    exact h.kept
  · rw [maybeClose_held]
    rcases hstate with hsame | hclosed
    · exact h.opened (hsame ▸ hopen)
    · exact absurd (hclosed.symm.trans hopen) nofun
  · rcases hstate with hsame | hclosed
    · exact Healthy.maybeClose (h.healthy (hlive.imp hsame.symm.trans hsame.symm.trans))
    · rcases hlive with hopen | hremote
      · exact absurd (hclosed.symm.trans hopen) nofun
      · exact absurd (hclosed.symm.trans hremote) nofun

/-- A call that moves no byte. -/
theorem Handles.moved {c : Call} (hspills : s'.Spills) (hheld : s'.held = s.held)
    (hstate : s'.state = .Open → s.state = .Open) (hhealthy : s'.Live → s'.Healthy) :
    Handles s c (s', {}) := by
  have hall : ([] : Bytes) ++ s'.held = s.held ++ c.data.take 0 := by
    rw [List.take_zero, List.append_nil, hheld]
    rfl
  exact ⟨hspills, hall ▸ List.prefix_refl _, fun hopen => ⟨hstate hopen, hall⟩, fun _ => rfl,
    hhealthy⟩

theorem write_handles (h : s.Spills) (hs : s.Live → s.Healthy) {data : Bytes}
    {answers : AppendAnswers} (hfits : s.Fits (.write data answers)) :
    Handles s (.write data answers) (s.call (.write data answers)) := by
  by_cases hopen : s.state = .Open
  · have hwrite : s.write data answers = s.appendSpool data answers := by
      unfold write
      rw [if_neg (not_not.mpr hopen), if_pos h.policy]
    have hhealthy : s.Healthy := hs (.inl hopen)
    have hspooled : Spooled s data (s.appendSpool data answers).1
        (s.appendSpool data answers).2 := by
      by_cases hnone : data = []
      · have hsame : s.appendSpool data answers = (s, 0) := if_pos hnone
        rw [hsame]
        exact ⟨h, hhealthy, rfl, by rw [List.take_zero, List.append_nil]⟩
      · by_cases hbad : s.spool.Refuses answers
        · exact (appendSpool_dry h hhealthy hnone hbad (hfits hopen hnone hbad).1).1
        · exact (appendSpool_taken h hhealthy data hbad).1
    dsimp only [call]
    rw [hwrite]
    exact ⟨hspooled.spills, hspooled.held ▸ List.prefix_refl _, fun _ => ⟨hopen, hspooled.held⟩,
      fun hnot => absurd hopen hnot, fun _ => hspooled.healthy⟩
  · have hstay : s.write data answers = (s, 0) := if_pos hopen
    dsimp only [call]
    rw [hstay]
    exact ⟨h, List.prefix_append s.held _, fun hnot => absurd hnot hopen, fun _ => rfl, hs⟩

theorem closeRemote_handles (h : s.Spills) (hs : s.Live → s.Healthy) :
    Handles s .closeRemote (s.call .closeRemote) := by
  dsimp only [call, closeRemote]
  split
  · next hopen =>
    have hhealthy := hs (.inl hopen)
    exact .moved ⟨h.policy, h.sound⟩ rfl nofun fun _ => ⟨hhealthy.whole, hhealthy.dry⟩
  · exact .moved ⟨h.policy, h.sound⟩ rfl nofun (Or.elim · nofun nofun)
  · exact .moved h rfl id hs

theorem closeLocal_handles (h : s.Spills) (hs : s.Live → s.Healthy) :
    Handles s .closeLocal (s.call .closeLocal) := by
  have hnew := SpoolBuffer.good_reset
  have hcleared : s.buffer.clear.contents ++ SpoolBuffer.reset.pending = [] := by
    rw [BoundedBuffer.contents_clear]
    rfl
  have hended : ∀ state : StreamState, state ≠ .Open → Handles s .closeLocal
      ({ s with state, buffer := s.buffer.clear, spool := .reset }, {}) := by
    intro state hstate
    refine ⟨⟨h.policy, hnew.sound⟩, ?_, fun hopen => absurd hopen hstate, fun _ => rfl,
      fun _ => ⟨hnew.whole, fun _ => rfl⟩⟩
    rw [List.nil_append, held, hcleared]
    exact List.nil_prefix
  dsimp only [call, closeLocal]
  split
  · exact hended .HalfClosedLocal (by decide)
  · exact hended .Closed (by decide)
  · exact .moved h rfl id hs

theorem call_handles (h : s.Spills) (hs : s.Live → s.Healthy) {c : Call}
    (hfits : s.Fits c) : Handles s c (s.call c) := by
  cases c with
  | write data answers => exact write_handles h hs hfits
  | read n answers =>
    dsimp only [call, read]
    by_cases herror : s.state = .Error
    · rw [if_pos herror]
      exact .moved h rfl id hs
    · rw [if_neg herror]
      exact ((readLoop_draws h n n answers).handles rfl hs hfits).maybeClose
  | peek answers =>
    by_cases hzero : capacity = 0
    · dsimp only [call, peek]
      rw [fill_stays (.inr hzero)]
      exact .moved h rfl id hs
    · exact (fill_draws h answers).handles rfl hs fun hlive => hfits hlive hzero
  | drop n answers => exact ((dropLoop_draws h n n answers).handles rfl hs hfits).maybeClose
  | closeRemote => exact closeRemote_handles h hs
  | closeLocal => exact closeLocal_handles h hs
  | fail e =>
    dsimp only [call, fail]
    split_ifs
    · exact .moved h rfl id hs
    · exact .moved ⟨h.policy, h.sound⟩ rfl nofun (Or.elim · nofun nofun)

/-! ## Repeated reads -/

/-- The stream after `count` reads, each into room of its own and with its own answers. -/
def readMany (rooms : Nat → Nat) (answers : Nat → Nat → ReadAnswers) :
    Nat → Stream capacity → Stream capacity
  | 0, s => s
  | count + 1, s => ((readMany rooms answers count s).read (rooms count) (answers count)).1

/-- The writer is done, and the stream is closed or can be read. -/
structure Draining (s : Stream capacity) : Prop where
  spills : s.Spills
  healthy : s.Live → s.Healthy
  state : s.state = .HalfClosedRemote ∨ s.state = .Closed

/-- How many bytes a stream has still to give before it is closed. -/
def left (s : Stream capacity) : Nat := if s.state = .Closed then 0 else s.held.length

theorem Draining.atEnd (h : s.Draining) (hleft : s.left = 0) : s.atEnd = true := by
  unfold Stream.atEnd
  rcases h.state with hremote | hclosed
  · have hheld : s.held = [] := by
      rw [left, if_neg (by rw [hremote]; nofun)] at hleft
      exact List.length_eq_zero_iff.mp hleft
    have hreadable : s.readable = false := by
      rw [← Bool.not_eq_true, readable_iff (h.healthy (.inr hremote)).whole, not_not]
      exact hheld
    simp [hremote, hreadable]
  · simp [hclosed]

/-- A read takes from the front, and something when the file does not fail. -/
theorem Draining.read (h : s.Draining) {n : Nat} {answers : Nat → ReadAnswers}
    (hfits : s.Fits (.read n answers)) :
    (s.read n answers).1.Draining ∧ (s.read n answers).1.left ≤ s.left ∧
      (s.left ≠ 0 → n ≠ 0 → (answers 0).Gives → (s.read n answers).1.left < s.left) := by
  have hgoing : ¬ s.state = .Error := by
    rcases h.state with hstate | hstate
    · simp [hstate]
    · simp [hstate]
  have hhandles := call_handles h.spills h.healthy hfits
  have hdraws := readLoop_draws h.spills n n answers
  have hsome := fun hs hheld hn => @readLoop_some _ s h.spills hs hheld n hn answers
  dsimp only [call] at hhandles
  unfold Stream.read at hhandles ⊢
  rw [if_neg hgoing] at hhandles ⊢
  generalize readLoop n n answers s = r at hhandles hdraws hsome ⊢
  obtain ⟨t, bytes⟩ := r
  dsimp only at hhandles hdraws hsome ⊢
  have hlength := hdraws.out.length_le
  rw [List.length_append] at hlength
  have hstate : t.maybeCloseAfterDrain.state = .HalfClosedRemote ∧ s.state = .HalfClosedRemote ∨
      t.maybeCloseAfterDrain.state = .Closed := by
    unfold maybeCloseAfterDrain
    rw [hdraws.state]
    rcases h.state with hremote | hclosed
    · split_ifs
      · exact .inr rfl
      · exact .inl ⟨hdraws.state.trans hremote, hremote⟩
    · have hnot : ¬ (s.state = .HalfClosedRemote ∧ ¬ t.readable = true) := by
        rw [hclosed]
        exact nofun
      rw [if_neg hnot]
      exact .inr (hdraws.state.trans hclosed)
  refine ⟨⟨hhandles.spills, hhandles.healthy, hstate.imp And.left id⟩, ?_⟩
  unfold left
  rw [maybeClose_held]
  rcases hstate with ⟨hremote, hwas⟩ | hclosed
  · rw [if_neg (by rw [hremote]; nofun), if_neg (by rw [hwas]; nofun)]
    refine ⟨by omega, fun hmore hn hgives => ?_⟩
    have hheld : s.held ≠ [] := fun hnil => hmore (List.length_eq_zero_iff.mpr hnil)
    have hpos := List.length_pos_iff.mpr (hsome (h.healthy (.inr hwas)) hheld hn hgives)
    omega
  · rw [if_pos hclosed]
    exact ⟨Nat.zero_le _, fun hmore _ _ => Nat.pos_of_ne_zero hmore⟩

theorem Draining.readMany (h : s.Draining) {rooms : Nat → Nat}
    {answers : Nat → Nat → ReadAnswers}
    (hfits : ∀ i, (readMany rooms answers i s).Fits (.read (rooms i) (answers i))) (count : Nat) :
    (readMany rooms answers count s).Draining := by
  induction count with
  | zero => exact h
  | succ count ih => exact (ih.read (hfits count)).1

/-- The reads of a stream come to its end, as long as its file does not fail for ever. -/
theorem Draining.ends (h : s.Draining) {rooms : Nat → Nat} {answers : Nat → Nat → ReadAnswers}
    (hrooms : ∀ i, 0 < rooms i)
    (hfits : ∀ i, (Stream.readMany rooms answers i s).Fits (.read (rooms i) (answers i)))
    (hgives : ∀ i, ∃ j, i ≤ j ∧ (answers j 0).Gives) :
    ∃ count, (Stream.readMany rooms answers count s).atEnd = true := by
  have hturn := fun i => (h.readMany hfits i).read (hfits i)
  obtain ⟨count, hnone⟩ := @Counts.falls_to_zero
    (fun i => (Stream.readMany rooms answers i s).left) (fun i => (hturn i).2.1)
    (by
      intro i
      obtain ⟨j, hij, hj⟩ := hgives i
      exact ⟨j, hij, fun hsome => (hturn j).2.2 hsome (hrooms j).ne' hj⟩)
  exact ⟨count, (h.readMany hfits count).atEnd hnone⟩

/-! ## A stream that is stuck -/

theorem fill_stuck (h : s.spool.Stuck) (answers : ReadAnswers) :
    (s.fillFromSpool answers).spool.Stuck ∧ (s.fillFromSpool answers).state = s.state := by
  unfold fillFromSpool
  have hread := @SpoolBuffer.Stuck.read s.spool (min kChunkBytes capacity) answers h
  generalize s.spool.read (min kChunkBytes capacity) answers = r at hread ⊢
  obtain ⟨spool, chunk⟩ := r
  dsimp only at hread ⊢
  rw [if_neg hread.more]
  split_ifs
  · exact ⟨h, rfl⟩
  · exact ⟨hread, rfl⟩
  · exact ⟨hread, rfl⟩

theorem take_stuck (h : s.spool.Stuck) (n : Nat) (answers : ReadAnswers) :
    (s.takeSpool n answers).1.spool.Stuck ∧ (s.takeSpool n answers).1.state = s.state := by
  have hread := @SpoolBuffer.Stuck.read s.spool n answers h
  unfold takeSpool
  dsimp only
  rw [if_neg hread.more]
  exact ⟨hread, rfl⟩

theorem readLoop_stuck (h : s.spool.Stuck) (turns left : Nat) (answers : Nat → ReadAnswers) :
    (readLoop turns left answers s).1.spool.Stuck ∧
      (readLoop turns left answers s).1.state = s.state := by
  induction turns generalizing left answers s with
  | zero => exact ⟨h, rfl⟩
  | succ turns ih =>
    obtain ⟨hfill, hstate⟩ := fill_stuck h (answers 0)
    unfold readLoop
    rw [← hstate]
    dsimp only
    generalize s.fillFromSpool (answers 0) = t at hfill hstate ⊢
    obtain ⟨htake, htaken⟩ := take_stuck hfill left (answers 0)
    split_ifs
    · exact ⟨h, hstate.symm⟩
    · exact ⟨htake, htaken⟩
    · rw [← htaken]
      exact ih htake _ _
    · exact ⟨hfill, rfl⟩
    · exact ih (s := { t with buffer := (t.buffer.consume left).1 }) hfill _ _

theorem readable_of_stuck (h : s.spool.Stuck) : s.readable = true := by
  unfold readable
  rw [Bool.or_eq_true, Bool.not_eq_true', Bool.not_eq_true']
  exact .inr (by simpa using h.more)

theorem maybeClose_stuck (h : s.spool.Stuck) : s.maybeCloseAfterDrain = s :=
  if_neg fun hclose => hclose.2 (readable_of_stuck h)

theorem read_stuck (h : s.spool.Stuck) (n : Nat) (answers : Nat → ReadAnswers) :
    (s.read n answers).1.spool.Stuck ∧ (s.read n answers).1.state = s.state := by
  obtain ⟨hloop, hstate⟩ := readLoop_stuck h n n answers
  unfold read
  split_ifs
  · exact ⟨h, rfl⟩
  · dsimp only
    rw [maybeClose_stuck hloop]
    exact ⟨hloop, hstate⟩

/-- No read gets it to its end, whatever the file would give. -/
theorem stuck_never_ends (h : s.spool.Stuck) (hstate : s.state = .HalfClosedRemote)
    (rooms : Nat → Nat) (answers : Nat → Nat → ReadAnswers) (count : Nat) :
    (readMany rooms answers count s).atEnd = false := by
  have hstuck : (readMany rooms answers count s).spool.Stuck ∧
      (readMany rooms answers count s).state = .HalfClosedRemote := by
    induction count with
    | zero => exact ⟨h, hstate⟩
    | succ count ih =>
      obtain ⟨hread, hsame⟩ := read_stuck ih.1 (rooms count) (answers count)
      exact ⟨hread, hsame.trans ih.2⟩
  unfold Stream.atEnd
  simp [hstuck.2, readable_of_stuck hstuck.1]

/-! ## How a stream gets stuck -/

/-- There is something in a file that can lose bytes. -/
theorem more_of_loses (h : s.Spills) {answer : Option Nat} (hlost : s.spool.stdio.Loses answer) :
    ¬ s.spool.empty = true :=
  fun hdry => BufferedFile.not_loses_of_nil (h.sound.nothing_to_lose hdry) hlost

/-- A flush that loses bytes gives none, and leaves the ring as it was. -/
theorem fill_loses (h : s.Spills) (hring : s.buffer.contents = []) (hcapacity : capacity ≠ 0)
    {answers : ReadAnswers} (hlost : s.spool.stdio.Loses answers.sought) :
    ∃ spool : SpoolBuffer, spool.Stuck ∧ s.fillFromSpool answers = { s with spool } := by
  have hnone : ¬ (¬ s.buffer.empty = true ∨ capacity = 0 ∨ s.spool.empty = true) := by
    rintro (hsome | hzero | hdry)
    · exact hsome (s.buffer.empty_iff.mpr hring)
    · exact hcapacity hzero
    · exact more_of_loses h hlost hdry
  obtain ⟨hstuck, hnothing⟩ := h.sound.stuck_of_loses (min_chunk_ne_zero hcapacity) hlost
  refine ⟨_, hstuck, ?_⟩
  unfold fillFromSpool
  rw [if_neg hnone]
  dsimp only
  rw [if_pos hnothing]

theorem take_loses (h : s.Spills) {n : Nat} (hn : n ≠ 0) {answers : ReadAnswers}
    (hlost : s.spool.stdio.Loses answers.sought) :
    ∃ spool : SpoolBuffer, spool.Stuck ∧ s.takeSpool n answers = ({ s with spool }, []) := by
  obtain ⟨hstuck, hnothing⟩ := h.sound.stuck_of_loses hn hlost
  refine ⟨_, hstuck, ?_⟩
  unfold takeSpool
  dsimp only
  rw [if_neg hstuck.more, hnothing]

/-- The turn that loses bytes is the last one. -/
theorem readLoop_loses (h : s.Spills) (hring : s.buffer.contents = []) (turns : Nat) {left : Nat}
    (hleft : left ≠ 0) (answers : Nat → ReadAnswers)
    (hlost : s.spool.stdio.Loses (answers 0).sought) :
    ∃ spool : SpoolBuffer, spool.Stuck ∧
      readLoop (turns + 1) left answers s = ({ s with spool }, []) := by
  have hempty : s.buffer.empty = true := s.buffer.empty_iff.mpr hring
  unfold readLoop
  rw [if_neg hleft]
  by_cases hcapacity : capacity = 0
  · obtain ⟨spool, hstuck, htake⟩ := take_loses h hleft hlost
    refine ⟨spool, hstuck, ?_⟩
    rw [fill_stays (.inr hcapacity)]
    dsimp only
    rw [if_pos hempty, if_pos ⟨hcapacity, more_of_loses h hlost⟩, htake, if_pos rfl]
  · obtain ⟨spool, hstuck, hfill⟩ := fill_loses h hring hcapacity hlost
    refine ⟨spool, hstuck, ?_⟩
    rw [hfill]
    dsimp only
    rw [if_pos hempty, if_neg fun hnot => hcapacity hnot.1]

theorem dropLoop_loses (h : s.Spills) (hring : s.buffer.contents = []) (turns : Nat) {left : Nat}
    (hleft : left ≠ 0) (answers : Nat → ReadAnswers)
    (hlost : s.spool.stdio.Loses (answers 0).sought) :
    ∃ spool : SpoolBuffer, spool.Stuck ∧
      dropLoop (turns + 1) left answers s = ({ s with spool }, []) := by
  have hnone : ¬ 0 < min left s.buffer.ring.size := by
    rw [BoundedBuffer.size_ring, hring, List.length_nil]
    omega
  unfold dropLoop
  rw [if_neg hleft]
  by_cases hcapacity : capacity = 0
  · have hn : min left kChunkBytes ≠ 0 := by
      have hchunk : 0 < kChunkBytes := by decide
      omega
    obtain ⟨spool, hstuck, htake⟩ := take_loses h hn hlost
    refine ⟨spool, hstuck, ?_⟩
    rw [fill_stays (.inr hcapacity)]
    dsimp only
    rw [if_neg hnone, if_pos ⟨hcapacity, more_of_loses h hlost⟩, htake, if_pos rfl]
  · obtain ⟨spool, hstuck, hfill⟩ := fill_loses h hring hcapacity hlost
    refine ⟨spool, hstuck, ?_⟩
    rw [hfill]
    dsimp only
    rw [if_neg hnone, if_neg fun hnot => hcapacity hnot.1]

/-- A stream whose ring was consumed, so that the next byte is in the file. -/
theorem Spills.drained (h : s.Spills) {n : Nat} (hshort : s.buffer.contents.length < n) :
    Spills { s with buffer := (s.buffer.consume n).1 } ∧ (s.buffer.consume n).1.contents = [] ∧
      (s.buffer.consume n).2.length = s.buffer.contents.length := by
  have hcontents : (s.buffer.consume n).1.contents = s.buffer.contents.drop n :=
    s.buffer.contents_discardFront n
  have hlength : (s.buffer.consume n).2.length = min n s.buffer.contents.length :=
    List.length_take
  exact ⟨⟨h.policy, h.sound⟩, by rw [hcontents, List.drop_eq_nil_of_le hshort.le], by omega⟩

/-- A read in which the file loses bytes, at its first or its second turn. -/
theorem readLoop_not_keeps (h : s.Spills) {n : Nat} {answers : Nat → ReadAnswers}
    (hlost : ¬ s.Keeps n answers) :
    (readLoop n n answers s).1.spool.Stuck ∧ (readLoop n n answers s).1.state = s.state := by
  unfold Keeps at hlost
  push Not at hlost
  obtain ⟨hshort, hlost⟩ := hlost
  obtain ⟨turns, rfl⟩ := Nat.exists_eq_add_one_of_ne_zero (Nat.ne_zero_of_lt hshort)
  by_cases hring : s.buffer.contents = []
  · rw [if_pos hring] at hlost
    obtain ⟨spool, hstuck, hloop⟩ :=
      readLoop_loses h hring turns (Nat.succ_ne_zero turns) answers hlost
    rw [hloop]
    exact ⟨hstuck, rfl⟩
  · rw [if_neg hring] at hlost
    have hsome : ¬ s.buffer.empty = true := fun hempty => hring (s.buffer.empty_iff.mp hempty)
    have hpos := List.length_pos_iff.mpr hring
    obtain ⟨hspills, hdrained, hlength⟩ := h.drained hshort
    obtain ⟨turns, rfl⟩ := Nat.exists_eq_add_one_of_ne_zero (show turns ≠ 0 by omega)
    have hleft : turns + 1 + 1 - (s.buffer.consume (turns + 1 + 1)).2.length ≠ 0 := by omega
    obtain ⟨spool, hstuck, hloop⟩ :=
      readLoop_loses hspills hdrained turns hleft (fun i => answers (i + 1)) hlost
    unfold readLoop
    rw [if_neg (Nat.succ_ne_zero _), fill_stays (.inl hring)]
    dsimp only
    rw [if_neg hsome, hloop]
    exact ⟨hstuck, rfl⟩

theorem dropLoop_not_keeps (h : s.Spills) {n : Nat} {answers : Nat → ReadAnswers}
    (hlost : ¬ s.Keeps n answers) :
    (dropLoop n n answers s).1.spool.Stuck ∧ (dropLoop n n answers s).1.state = s.state := by
  unfold Keeps at hlost
  push Not at hlost
  obtain ⟨hshort, hlost⟩ := hlost
  obtain ⟨turns, rfl⟩ := Nat.exists_eq_add_one_of_ne_zero (Nat.ne_zero_of_lt hshort)
  by_cases hring : s.buffer.contents = []
  · rw [if_pos hring] at hlost
    obtain ⟨spool, hstuck, hloop⟩ :=
      dropLoop_loses h hring turns (Nat.succ_ne_zero turns) answers hlost
    rw [hloop]
    exact ⟨hstuck, rfl⟩
  · rw [if_neg hring] at hlost
    have hpos := List.length_pos_iff.mpr hring
    have hsome : 0 < min (turns + 1) s.buffer.ring.size := by
      rw [BoundedBuffer.size_ring]
      omega
    obtain ⟨hspills, hdrained, hlength⟩ := h.drained hshort
    obtain ⟨turns, rfl⟩ := Nat.exists_eq_add_one_of_ne_zero (show turns ≠ 0 by omega)
    have hleft : turns + 1 + 1 - (s.buffer.consume (turns + 1 + 1)).2.length ≠ 0 := by omega
    obtain ⟨spool, hstuck, hloop⟩ :=
      dropLoop_loses hspills hdrained turns hleft (fun i => answers (i + 1)) hlost
    unfold dropLoop
    rw [if_neg (Nat.succ_ne_zero _), fill_stays (.inl hring)]
    dsimp only
    rw [if_pos hsome, hloop]
    exact ⟨hstuck, rfl⟩

/-- A call of the sink that does not fit leaves a stream that is stuck. -/
theorem not_fits_stuck (h : s.Spills) {c : Call} (hc : c.data = []) (hnot : ¬ s.Fits c) :
    (s.call c).1.spool.Stuck ∧ s.Live ∧ (s.call c).1.state = s.state := by
  have hgoing : s.Live → ¬ s.state = .Error := by
    rintro (hopen | hremote)
    · simp [hopen]
    · simp [hremote]
  cases c with
  | write data answers =>
    obtain rfl : data = [] := hc
    exact absurd (fun _ hsome => absurd rfl hsome) hnot
  | read n answers =>
    obtain ⟨hlive, hlost⟩ := Classical.not_imp.mp hnot
    obtain ⟨hstuck, hstate⟩ := readLoop_not_keeps h hlost
    dsimp only [call, read]
    rw [if_neg (hgoing hlive)]
    dsimp only
    rw [maybeClose_stuck hstuck]
    exact ⟨hstuck, hlive, hstate⟩
  | peek answers =>
    unfold Fits at hnot
    push Not at hnot
    obtain ⟨hlive, hcapacity, hring, hlost⟩ := hnot
    obtain ⟨spool, hstuck, hfill⟩ := fill_loses h hring hcapacity hlost
    dsimp only [call, peek]
    rw [hfill]
    exact ⟨hstuck, hlive, rfl⟩
  | drop n answers =>
    obtain ⟨hlive, hlost⟩ := Classical.not_imp.mp hnot
    obtain ⟨hstuck, hstate⟩ := dropLoop_not_keeps h hlost
    dsimp only [call, drop]
    rw [maybeClose_stuck hstuck]
    exact ⟨hstuck, hlive, hstate⟩
  | closeRemote | closeLocal | fail => exact absurd trivial hnot

end Stream

/-! ## Runs -/

namespace Stream

variable {capacity : Nat} {calls : List Call}

/-- What came out and what is held are the first bytes that were accepted, and all of them as long
as the stream is open. -/
structure Accounted (a : Account capacity) : Prop where
  spills : a.now.Spills
  kept : a.taken ++ a.now.held <+: a.accepted
  opened : a.now.state = .Open → a.taken ++ a.now.held = a.accepted
  healthy : a.now.Live → a.now.Healthy

theorem Accounted.call {a : Account capacity} {c : Call} (h : Accounted a) (hc : a.now.Fits c) :
    Accounted (a.call c) := by
  have hcall := call_handles h.spills h.healthy hc
  refine ⟨hcall.spills, ?_, fun hopen => ?_, hcall.healthy⟩
  · dsimp only [Account.call]
    rw [List.append_assoc]
    by_cases hopen : a.now.state = .Open
    · rw [← h.opened hopen, List.append_assoc]
      exact (List.prefix_append_right_inj a.taken).mpr hcall.kept
    · have hkept := hcall.kept
      rw [hcall.closed hopen, List.take_zero, List.append_nil] at hkept ⊢
      exact ((List.prefix_append_right_inj a.taken).mpr hkept).trans h.kept
  · obtain ⟨hwas, hall⟩ := hcall.opened hopen
    dsimp only [Account.call]
    rw [List.append_assoc, hall, ← List.append_assoc, h.opened hwas]

/-- Every call of a run of a spilling stream meets the condition. -/
def AllFit (capacity : Nat) (calls : List Call) : Prop :=
  ∀ before c after, calls = before ++ c :: after → (run capacity .Spool before).now.Fits c

theorem AllFit.before {c : Call} (h : AllFit capacity (calls ++ [c])) : AllFit capacity calls :=
  fun before d after hcalls => h before d (after ++ [c]) (by simp [hcalls])

theorem run_accounted (h : AllFit capacity calls) : Accounted (run capacity .Spool calls) := by
  induction calls using List.reverseRecOn with
  | nil =>
    have hheld : (create capacity .Spool).held = [] := held_create
    have hnew : [] ++ (create capacity .Spool).held = ([] : Bytes) := hheld
    have hgood := SpoolBuffer.good_reset
    exact ⟨⟨rfl, hgood.sound⟩, hnew ▸ List.nil_prefix, fun _ => hnew, fun _ => ⟨hgood.whole, nofun⟩⟩
  | append_singleton calls c ih =>
    rw [run_snoc]
    exact (ih h.before).call (h calls c [] rfl)

/-- What a spilling stream promises whatever fails: the order of the bytes, a write that is taken
or refused with an error, and an end that the reads come to when the writer is done. Those reads
lose nothing, and do not fail for ever. -/
structure Serves (capacity : Nat) (calls : List Call) : Prop where
  kept : ∀ before, before <+: calls →
    (run capacity .Spool before).taken <+: (run capacity .Spool before).accepted
  takes : ∀ before data answers after, calls = before ++ .write data answers :: after →
    data ≠ [] → (run capacity .Spool before).now.writable = true →
    0 < ((run capacity .Spool before).now.write data answers).2 ∨
      ((run capacity .Spool before).now.write data answers).1.state = .Error
  ends : ∀ before, before <+: calls → ∀ (rooms : Nat → Nat) (answers : Nat → Nat → ReadAnswers),
    let done := (run capacity .Spool before).now.closeRemote
    (∀ i, 0 < rooms i) →
    (∀ i, (readMany rooms answers i done).Fits (.read (rooms i) (answers i))) →
    (∀ i, ∃ j, i ≤ j ∧ (answers j 0).Gives) →
    ∃ count, (readMany rooms answers count done).atEnd = true

theorem Serves.before {c : Call} (h : Serves capacity (calls ++ [c])) : Serves capacity calls where
  kept before hbefore := h.kept before (hbefore.trans (List.prefix_append calls [c]))
  takes before data answers after hcalls :=
    h.takes before data answers (after ++ [c]) (by simp [hcalls])
  ends before hbefore := h.ends before (hbefore.trans (List.prefix_append calls [c]))

theorem write_some {s : Stream capacity} (h : s.Spills) (hs : s.Healthy) (hopen : s.state = .Open)
    {data : Bytes} (hsome : data ≠ []) (answers : AppendAnswers) :
    (0 < (s.write data answers).2 ∨ (s.write data answers).1.state = .Error) ↔
      s.Fits (.write data answers) := by
  have hwrite : s.write data answers = s.appendSpool data answers := by
    unfold write
    rw [if_neg (not_not.mpr hopen), if_pos h.policy]
  have hgoing : ¬ (s.appendSpool data answers).1.state = .Error := by
    rw [state_appendSpool, hopen]
    nofun
  rw [hwrite, or_iff_left hgoing]
  by_cases hbad : s.spool.Refuses answers
  · by_cases hdry : s.spool.empty = true
    · obtain ⟨-, hnone⟩ := appendSpool_dry h hs hsome hbad hdry
      rw [Nat.pos_iff_ne_zero, Ne, hnone]
      exact ⟨fun hroom _ _ _ => ⟨hdry, hroom⟩, fun hfits => (hfits hopen hsome hbad).2⟩
    · rw [appendSpool_full hsome hbad hdry]
      exact iff_of_false (Nat.lt_irrefl 0) fun hfits => hdry (hfits hopen hsome hbad).1
  · rw [(appendSpool_taken h hs data hbad).2]
    exact iff_of_true (List.length_pos_iff.mpr hsome) fun _ _ hnot => absurd hnot hbad

theorem AllFit.snoc {c : Call} (h : AllFit capacity calls)
    (hc : (run capacity .Spool calls).now.Fits c) : AllFit capacity (calls ++ [c]) := by
  intro before d after hcalls
  rcases List.eq_nil_or_concat after with rfl | ⟨earlier, e, rfl⟩
  · obtain ⟨rfl, hlast⟩ := List.append_inj' hcalls rfl
    obtain rfl : c = d := by simpa using hlast
    exact hc
  · rw [List.concat_eq_append, ← List.cons_append, ← List.append_assoc] at hcalls
    exact h before d earlier (List.append_inj' hcalls rfl).1

theorem AllFit.of_prefix {before : List Call} (h : AllFit capacity calls)
    (hbefore : before <+: calls) : AllFit capacity before := by
  obtain ⟨after, rfl⟩ := hbefore
  exact fun earlier c later hcalls => h earlier c (later ++ after) (by simp [hcalls])

/-- A call after which the stream still serves fits. -/
theorem Serves.fits {c : Call} (h : Serves capacity (calls ++ [c]))
    (haccounted : Accounted (run capacity .Spool calls)) :
    (run capacity .Spool calls).now.Fits c := by
  by_cases hdata : c.data = []
  · by_contra hnot
    obtain ⟨hstuck, hlive, hstate⟩ := not_fits_stuck haccounted.spills hdata hnot
    have hends := h.ends (calls ++ [c]) (List.prefix_refl _) (fun _ => 1) (fun _ _ => {})
    rw [run_snoc] at hends
    have hremote : ((run capacity .Spool calls).now.call c).1.closeRemote.spool.Stuck ∧
        ((run capacity .Spool calls).now.call c).1.closeRemote.state = .HalfClosedRemote := by
      unfold closeRemote
      rcases hlive with hopen | hremote
      · rw [hstate.trans hopen]
        exact ⟨hstuck, rfl⟩
      · rw [hstate.trans hremote]
        exact ⟨hstuck, hstate.trans hremote⟩
    obtain ⟨count, hend⟩ := hends (fun _ => Nat.one_pos) (fun _ _ _ => id)
      fun i => ⟨i, Nat.le_refl i, rfl, nofun⟩
    have hnever := stuck_never_ends hremote.1 hremote.2 (fun _ => 1) (fun _ _ => {}) count
    exact absurd (hend.symm.trans hnever) nofun
  · cases c with
    | write data answers =>
      intro hopen hsome
      have hwritable : (run capacity .Spool calls).now.writable = true := by
        simp [writable, hopen, haccounted.spills.policy]
      have htakes := h.takes calls data answers [] rfl hsome hwritable
      exact (write_some haccounted.spills (haccounted.healthy (.inl hopen)) hopen hsome answers).mp
        htakes hopen hsome
    | read | peek | drop | closeRemote | closeLocal | fail => exact absurd rfl hdata

/-- The writer of a run that fits is done. -/
theorem Accounted.done {a : Account capacity} (h : Accounted a) :
    a.now.closeRemote.Draining ∨ a.now.closeRemote.state = .Error := by
  have hclosed := closeRemote_handles h.spills h.healthy
  have hstate : (a.now.closeRemote.state = .HalfClosedRemote ∨ a.now.closeRemote.state = .Closed) ∨
      a.now.closeRemote.state = .Error := by
    unfold closeRemote
    cases hwas : a.now.state with
    | Open | HalfClosedRemote | HalfClosedLocal | Closed | Error => simp [hwas]
  exact hstate.imp (⟨hclosed.spills, hclosed.healthy, ·⟩) id

/-- A failure of the spill file does no harm as long as the file is dry and the ring has room
whenever it does not take a write, and no flush loses a byte. Otherwise a stream that is writable
takes nothing, or one that can be read gives nothing for ever. -/
theorem a_spool_failure_may_wedge (capacity : Nat) (calls : List Call) :
    Serves capacity calls ↔ AllFit capacity calls := by
  constructor
  · intro h
    induction calls using List.reverseRecOn with
    | nil => exact fun before c after hcalls => absurd hcalls (by simp)
    | append_singleton calls c ih =>
      have hearlier : AllFit capacity calls := ih h.before
      exact hearlier.snoc (h.fits (run_accounted hearlier))
  · intro h
    have haccounted := fun before hbefore => run_accounted (@AllFit.of_prefix _ _ before h hbefore)
    refine ⟨fun before hbefore => ?_, ?_, fun before hbefore rooms answers => ?_⟩
    · exact (List.prefix_append _ _).trans (haccounted before hbefore).kept
    · intro before data answers after hcalls hsome hwritable
      have hbefore := haccounted before ⟨_, hcalls.symm⟩
      have hopen : (run capacity .Spool before).now.state = .Open := by
        unfold writable at hwritable
        simpa using (Bool.and_eq_true_iff.mp hwritable).1
      exact (write_some hbefore.spills (hbefore.healthy (.inl hopen)) hopen hsome answers).mpr
        (h before _ after hcalls)
    · intro done hrooms hfits hgives
      rcases (haccounted before hbefore).done with hdraining | herror
      · exact hdraining.ends hrooms hfits hgives
      · exact ⟨0, by simp [readMany, Stream.atEnd, done, herror]⟩

/-- The file refuses a byte behind one that it holds. -/
def refusedRun : List Call :=
  [.write [1, 2], .write [3] { written := some 0 }, .closeRemote]

/-- A flush loses a byte, and the next one that is written is read in its place. -/
def lostRun : List Call :=
  [.write [1, 2], .read 1, .read 1 fun _ => { sought := some 0 }, .write [3], .read 1]

/-- In one run the reads never come to an end, in the other they give what was not written there. -/
theorem a_stream_is_wedged : ¬ Serves 1 refusedRun ∧ ¬ Serves 1 lostRun := by
  constructor
  · intro h
    have hstuck : (run 1 .Spool refusedRun).now.spool.Stuck :=
      ⟨⟨by decide, by decide, by decide, by decide, by decide⟩, by decide, .inl (by decide)⟩
    obtain ⟨count, hend⟩ := h.ends refusedRun (List.prefix_refl _) (fun _ => 1) (fun _ _ => {})
      (fun _ => Nat.one_pos) (fun _ _ _ => id) fun i => ⟨i, Nat.le_refl i, rfl, nofun⟩
    have hnever := stuck_never_ends hstuck (by decide) (fun _ => 1) (fun _ _ => {}) count
    exact absurd (hend.symm.trans hnever) nofun
  · intro h
    have hkept := h.kept lostRun (List.prefix_refl _)
    have hgot : (run 1 .Spool lostRun).taken = [1, 3] := by decide
    have hall : (run 1 .Spool lostRun).accepted = [1, 2, 3] := by decide
    rw [hgot, hall] at hkept
    exact absurd hkept (by decide)

end Stream

end psx.stream
