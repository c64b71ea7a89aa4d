-- The laws of a fan-in run: the stdin of the downstream is closed once the source is over, the
-- run completes once both sides are, and the outcome is made of what the two sides reported.
import PipeShellX.Pipeline.FanInPipeline
import PipeShellX.Trace

namespace psx.pipeline.FanInPipeline

open Trace (Lawful)
open psx.transport.NativeController (HostResult Target)

/-! ## What a run promises -/

/-- The source has ended. -/
def SourceOver (log : List Event) : Prop := ∃ results, .sourceOver results ∈ log

/-- The downstream has ended. -/
def DownstreamOver (log : List Event) : Prop := ∃ outcome, .downstreamOver outcome ∈ log

/-- The sides that there are have ended. -/
def BothOver (log : List Event) : Prop :=
  SourceOver log ∧ ((∃ stages, .downstreamRun stages ∈ log) → DownstreamOver log)

/-- The stdin of the downstream is closed once, after the source and before the end of the
downstream. The run completes once, after both sides. -/
def Allowed (log : List Event) : Event → Prop
  | .closeStdin => SourceOver log ∧ ¬ DownstreamOver log ∧ .closeStdin ∉ log
  | .complete _ => BothOver log ∧ ∀ earlier, .complete earlier ∉ log
  | _ => True

/-- The controller is used only when it has been created. -/
def Uses (log : List Event) : Event → Prop
  | .sourceStart .. | .cancel _ => .sourceCreated ∈ log
  | _ => True

/-- A downstream that has not ended before the source gets the end of its stdin. -/
def Closes (log : List Event) : Prop :=
  ∀ a results b, log = a ++ .sourceOver results :: b →
    (∃ stages, .downstreamRun stages ∈ log) → .closeStdin ∈ b ∨ DownstreamOver a

/-- The outcome of a run, from the results of the source and the outcome of the downstream. -/
def verdict (cancelled : Bool) (results : List HostResult) (downstream : Option Outcome) :
    Outcome :=
  let source := results.foldl (tally cancelled) (0, "")
  match downstream with
  | none => { exitCode := source.1, error := source.2 }
  | some outcome => merged source.1 source.2 outcome

/-! ## What every handler keeps -/

section

variable {p : FanInPipeline}

/-- What the flags say, by the log. -/
structure Core (p : FanInPipeline) : Prop where
  lawful : Lawful Allowed p.log
  chain : p.hasDownstream = true ↔ ∃ stages, .downstreamRun stages ∈ p.log
  sourceOver : p.sourceDone = true ↔ SourceOver p.log
  downstreamOver : p.downstreamDone = true ↔ DownstreamOver p.log
  chained : p.downstreamDone = true → p.hasDownstream = true
  handler : p.onComplete = !p.done
  complete : p.done = true ↔ ∃ outcome, .complete outcome ∈ p.log
  over_ : p.done = true → p.sourceDone = true ∧ (p.hasDownstream = true → p.downstreamDone = true)
  open_ : p.sourceDone = false → .closeStdin ∉ p.log
  /-- The exit code and the error are those of the results. -/
  fresh : p.sourceDone = false → p.sourceExit = 0 ∧ p.sourceError = ""
  tallied : ∀ results, .sourceOver results ∈ p.log → (p.sourceExit, p.sourceError) =
    results.foldl (tally p.sourceCancellationRequested) (0, "")
  awaited : p.done = false → ∀ outcome, .downstreamOver outcome ∈ p.log →
    p.downstreamOutcome = some outcome
  told : ∀ outcome, .complete outcome ∈ p.log → ∀ results, .sourceOver results ∈ p.log →
    (p.hasDownstream = false → outcome = verdict p.sourceCancellationRequested results none) ∧
      ∀ downstream, .downstreamOver downstream ∈ p.log →
        outcome = verdict p.sourceCancellationRequested results (some downstream)

/-- An event that ends nothing. -/
def Event.Plain : Event → Prop
  | .writeStdin _ | .cancel _ | .output _ | .stderr _ | .sourceCreated | .sourceStart .. => True
  | _ => False

theorem Core.quiet {e : Event} (h : Core p) (he : e.Plain) : Core (p.note e) := by
  have hsource : SourceOver (p.log ++ [e]) ↔ SourceOver p.log := by
    cases e <;> first | exact he.elim | simp [SourceOver]
  have hdownstream : DownstreamOver (p.log ++ [e]) ↔ DownstreamOver p.log := by
    cases e <;> first | exact he.elim | simp [DownstreamOver]
  have hmem : ∀ e', ¬ e'.Plain → (e' ∈ p.log ++ [e] ↔ e' ∈ p.log) := by
    intro e' hplain
    rw [List.mem_append, List.mem_singleton]
    refine or_iff_left fun heq => hplain (heq ▸ he)
  refine ⟨?_, ?_, ?_, ?_, h.chained, h.handler, ?_, h.over_, ?_, h.fresh, ?_, ?_, ?_⟩
  · refine h.lawful.snoc ?_
    cases e <;> first | exact he.elim | trivial
  · simp only [note, hmem _ (show ¬ (Event.downstreamRun _).Plain from id)]
    exact h.chain
  · exact h.sourceOver.trans hsource.symm
  · exact h.downstreamOver.trans hdownstream.symm
  · simp only [note, hmem _ (show ¬ (Event.complete _).Plain from id)]
    exact h.complete
  · simp only [note, hmem _ (show ¬ Event.closeStdin.Plain from id)]
    exact h.open_
  · simp only [note, hmem _ (show ¬ (Event.sourceOver _).Plain from id)]
    exact h.tallied
  · simp only [note, hmem _ (show ¬ (Event.downstreamOver _).Plain from id)]
    exact h.awaited
  · simp only [note, hmem _ (show ¬ (Event.sourceOver _).Plain from id),
      hmem _ (show ¬ (Event.downstreamOver _).Plain from id),
      hmem _ (show ¬ (Event.complete _).Plain from id)]
    exact h.told

/-- The source has told its end, and nothing followed yet. -/
def sourceHeard (p : FanInPipeline) (results : List HostResult) : FanInPipeline :=
  let source := results.foldl (tally p.sourceCancellationRequested) (p.sourceExit, p.sourceError)
  { p with sourceDone := true, sourceExit := source.1, sourceError := source.2 }.note
    (.sourceOver results)

/-- The downstream has told its end, and nothing followed yet. -/
def downstreamHeard (p : FanInPipeline) (outcome : Outcome) : FanInPipeline :=
  { p with downstreamOutcome := some outcome, downstreamDone := true }.note
    (.downstreamOver outcome)

theorem Core.running (h : Core p) (hsource : p.sourceDone = false) : p.done = false := by
  cases hdone : p.done with
  | false => rfl
  | true =>
    rw [(h.over_ hdone).1] at hsource
    cases hsource

theorem Core.silent (h : Core p) (hdone : p.done = false) (outcome : Outcome) :
    .complete outcome ∉ p.log := by
  intro hmem
  rw [h.complete.mpr ⟨outcome, hmem⟩] at hdone
  cases hdone

theorem Core.noSource (h : Core p) (hsource : p.sourceDone = false) (results : List HostResult) :
    .sourceOver results ∉ p.log := by
  intro hmem
  rw [h.sourceOver.mpr ⟨results, hmem⟩] at hsource
  cases hsource

theorem Core.noDownstream (h : Core p) (hdownstream : p.downstreamDone = false)
    (outcome : Outcome) : .downstreamOver outcome ∉ p.log := by
  intro hmem
  rw [h.downstreamOver.mpr ⟨outcome, hmem⟩] at hdownstream
  cases hdownstream

theorem Core.sourceHeard (h : Core p) (hsource : p.sourceDone = false)
    (results : List HostResult) : Core (p.sourceHeard results) := by
  have hrunning := h.running hsource
  have hsilent := h.silent hrunning
  have hnone := h.noSource hsource
  obtain ⟨hexit, herror⟩ := h.fresh hsource
  unfold FanInPipeline.sourceHeard
  refine ⟨h.lawful.snoc trivial, ?_, ?_, ?_, h.chained, h.handler, ?_, ?_, ?_, ?_, ?_, ?_, ?_⟩
  · simpa [note] using h.chain
  · simp [note, SourceOver]
  · simpa [note, DownstreamOver] using h.downstreamOver
  · simpa [note] using h.complete
  · intro hdone
    rw [hrunning] at hdone
    cases hdone
  · intro hopen
    cases hopen
  · intro hopen
    cases hopen
  · intro results' hmem
    obtain rfl : results' = results := by simpa [note, hnone] using hmem
    simp [note, hexit, herror]
  · simpa [note] using h.awaited
  · intro outcome hmem
    exact absurd (by simpa [note] using hmem) (hsilent outcome)

theorem Core.downstreamHeard (h : Core p) (hchain : p.hasDownstream = true)
    (hdownstream : p.downstreamDone = false) (outcome : Outcome) :
    Core (p.downstreamHeard outcome) := by
  have hnone := h.noDownstream hdownstream
  have hrunning : p.done = false := by
    cases hdone : p.done with
    | false => rfl
    | true =>
      rw [(h.over_ hdone).2 hchain] at hdownstream
      cases hdownstream
  have hsilent := h.silent hrunning
  unfold FanInPipeline.downstreamHeard
  refine ⟨h.lawful.snoc trivial, ?_, ?_, ?_, fun _ => hchain, h.handler, ?_, ?_, ?_,
    h.fresh, ?_, ?_, ?_⟩
  · simpa [note] using h.chain
  · simpa [note, SourceOver] using h.sourceOver
  · simp [note, DownstreamOver]
  · simpa [note] using h.complete
  · intro hdone
    exact ⟨(h.over_ hdone).1, fun _ => rfl⟩
  · simpa [note] using h.open_
  · simpa [note] using h.tallied
  · intro _ outcome' hmem
    obtain rfl : outcome' = outcome := by simpa [note, hnone] using hmem
    rfl
  · intro outcome' hmem
    exact absurd (by simpa [note] using hmem) (hsilent outcome')

theorem Core.closed (h : Core p) (hsource : p.sourceDone = true)
    (hdownstream : p.downstreamDone = false) (hopen : .closeStdin ∉ p.log) :
    Core (p.note .closeStdin) := by
  refine ⟨h.lawful.snoc ⟨h.sourceOver.mp hsource, ?_, hopen⟩, ?_, ?_, ?_, h.chained, h.handler, ?_,
    h.over_, ?_, h.fresh, ?_, ?_, ?_⟩
  · rintro ⟨outcome, hmem⟩
    exact h.noDownstream hdownstream outcome hmem
  · simpa [note] using h.chain
  · simpa [note, SourceOver] using h.sourceOver
  · simpa [note, DownstreamOver] using h.downstreamOver
  · simpa [note] using h.complete
  · intro hnone
    rw [show p.sourceDone = false from hnone] at hsource
    cases hsource
  · simpa [note] using h.tallied
  · simpa [note] using h.awaited
  · simpa [note] using h.told

/-- The source is to be cancelled. -/
theorem Core.asked (h : Core p) (hsource : p.sourceDone = false) :
    Core { p with sourceCancellationRequested := true } := by
  refine ⟨h.lawful, h.chain, h.sourceOver, h.downstreamOver, h.chained, h.handler,
    h.complete, h.over_,
    h.open_, h.fresh, ?_, h.awaited, ?_⟩
  · intro results hmem
    exact absurd hmem (h.noSource hsource results)
  · intro outcome hmem
    exact absurd hmem (h.silent (h.running hsource) outcome)

theorem finish_done (p : FanInPipeline) (h : p.done = true) (outcome : Outcome) :
    p.finish outcome = p := by
  unfold finish
  rw [if_pos h]

theorem finish_running (p : FanInPipeline) (h : p.done = false) (hhandler : p.onComplete = true)
    (outcome : Outcome) :
    p.finish outcome = { p with done := true, onComplete := false }.note (.complete outcome) := by
  unfold finish
  rw [if_neg (by simp [h]), if_pos hhandler]

theorem Core.finished (h : Core p) (hdone : p.done = false) (hsource : p.sourceDone = true)
    (hdownstream : p.hasDownstream = true → p.downstreamDone = true) {outcome : Outcome}
    (houtcome : ∀ results, .sourceOver results ∈ p.log →
      (p.hasDownstream = false → outcome = verdict p.sourceCancellationRequested results none) ∧
        ∀ downstream, .downstreamOver downstream ∈ p.log →
          outcome = verdict p.sourceCancellationRequested results (some downstream))
    (waiting : Option Outcome) :
    Core ({ p with downstreamOutcome := waiting }.finish outcome) ∧
      ({ p with downstreamOutcome := waiting }.finish outcome).done = true := by
  have hsilent := h.silent hdone
  have hhandler : p.onComplete = true := by
    rw [h.handler, hdone]
    rfl
  rw [finish_running { p with downstreamOutcome := waiting } hdone hhandler]
  refine ⟨⟨h.lawful.snoc ⟨⟨h.sourceOver.mp hsource, fun hrun => ?_⟩, hsilent⟩, ?_, ?_,
    ?_, h.chained,
    rfl, ?_, fun _ => ⟨hsource, hdownstream⟩, ?_, h.fresh, ?_, ?_, ?_⟩, rfl⟩
  · exact h.downstreamOver.mp (hdownstream (h.chain.mpr hrun))
  · simpa [note] using h.chain
  · simpa [note, SourceOver] using h.sourceOver
  · simpa [note, DownstreamOver] using h.downstreamOver
  · simp [note]
  · simpa [note] using h.open_
  · simpa [note] using h.tallied
  · intro hrunning
    cases hrunning
  · intro outcome' hmem
    obtain rfl : outcome' = outcome := by simpa [note, hsilent] using hmem
    simpa [note] using houtcome

/-! ## The stdin of the downstream -/

theorem Closes.snoc {log : List Event} {e : Event} (h : Closes log)
    (hsource : ∀ results, e ≠ .sourceOver results) (hrun : ∀ stages, e ≠ .downstreamRun stages) :
    Closes (log ++ [e]) := by
  intro a results b heq hchain
  rcases List.eq_nil_or_concat b with rfl | ⟨b, x, rfl⟩
  · obtain ⟨-, he⟩ := List.append_inj' heq rfl
    exact absurd (List.singleton_inj.mp he) (hsource results)
  · have hcut : log ++ [e] = (a ++ .sourceOver results :: b) ++ [x] := by simpa using heq
    obtain ⟨rfl, -⟩ := List.append_inj' hcut rfl
    have hbefore : ∃ stages, .downstreamRun stages ∈ a ++ .sourceOver results :: b := by
      obtain ⟨stages, hmem⟩ := hchain
      rcases List.mem_append.mp hmem with hmem | hmem
      · exact ⟨stages, hmem⟩
      · exact absurd (List.mem_singleton.mp hmem).symm (hrun stages)
    refine (h a results b rfl hbefore).imp_left fun hmem => ?_
    rw [List.concat_eq_append]
    exact List.mem_append_left _ hmem

theorem closes_of_none {log : List Event} (h : ∀ results, .sourceOver results ∉ log) :
    Closes log := by
  intro a results b heq
  exact absurd (by simp [heq]) (h results)

/-- The only end of the source is the last event but for what follows it. -/
theorem split_sourceOver {log : List Event} {results : List HostResult} {more : List Event}
    (h : ∀ results, .sourceOver results ∉ log) (hmore : ∀ results, .sourceOver results ∉ more)
    {a : List Event} {results' : List HostResult} {b : List Event}
    (heq : log ++ .sourceOver results :: more = a ++ .sourceOver results' :: b) :
    a = log ∧ b = more := by
  rcases List.append_eq_append_iff.mp heq with ⟨rest, rfl, hrest⟩ | ⟨rest, rfl, hrest⟩
  · cases rest with
    | nil =>
      obtain ⟨-, rfl⟩ := List.cons.inj hrest
      exact ⟨List.append_nil _, rfl⟩
    | cons x rest =>
      obtain ⟨-, hrest⟩ := List.cons.inj hrest
      exact absurd (by simp [hrest]) (hmore results')
  · cases rest with
    | nil =>
      obtain ⟨-, rfl⟩ := List.cons.inj hrest
      exact ⟨(List.append_nil _).symm, rfl⟩
    | cons x rest =>
      obtain ⟨rfl, -⟩ := List.cons.inj hrest
      exact absurd (by simp) (h results')

/-- Between two calls: a run whose sides are over has completed. -/
structure Inv (p : FanInPipeline) : Prop where
  core : Core p
  settled : p.sourceDone = true → (p.hasDownstream = true → p.downstreamDone = true) → p.done = true
  closes : Closes p.log

theorem Inv.quiet {e : Event} (h : Inv p) (he : e.Plain) : Inv (p.note e) := by
  refine ⟨h.core.quiet he, h.settled, h.closes.snoc ?_ ?_⟩
  · rintro results rfl
    exact he
  · rintro stages rfl
    exact he

theorem Core.finishIfReady (h : Core p) (hcloses : Closes p.log) (hchain : p.hasDownstream = true) :
    Inv p.finishIfReady := by
  unfold FanInPipeline.finishIfReady
  by_cases hover : p.sourceDone = true ∧ p.downstreamDone = true
  · obtain ⟨hsource, hdownstream⟩ := hover
    rw [if_neg (by simp [hsource, hdownstream])]
    obtain ⟨last, hlast⟩ := h.downstreamOver.mp hdownstream
    by_cases hdone : p.done = true
    · have hinv : Inv p := ⟨h, fun _ _ => hdone, hcloses⟩
      cases houtcome : p.downstreamOutcome with
      | none => exact hinv
      | some outcome =>
        dsimp only
        rw [finish_done { p with downstreamOutcome := none } hdone]
        exact ⟨⟨h.lawful, h.chain, h.sourceOver, h.downstreamOver, h.chained, h.handler, h.complete,
          h.over_, h.open_, h.fresh, h.tallied,
          fun hrunning => absurd (hdone.symm.trans hrunning) (by simp),
          h.told⟩, hinv.settled, hcloses⟩
    · rw [Bool.not_eq_true] at hdone
      have hawaited := h.awaited hdone
      have houtcome : ∀ results, .sourceOver results ∈ p.log →
          (p.hasDownstream = false → merged p.sourceExit p.sourceError last =
              verdict p.sourceCancellationRequested results none) ∧
            ∀ downstream, .downstreamOver downstream ∈ p.log →
              merged p.sourceExit p.sourceError last =
                verdict p.sourceCancellationRequested results (some downstream) := by
        intro results hmem
        have htally := h.tallied results hmem
        refine ⟨fun hnone => absurd hchain (by simp [hnone]), fun downstream hmem' => ?_⟩
        obtain rfl : last = downstream :=
          Option.some.inj ((hawaited last hlast).symm.trans (hawaited downstream hmem'))
        unfold verdict
        rw [← htally]
      rw [hawaited last hlast]
      dsimp only
      have hlog : ({ p with downstreamOutcome := none }.finish
          (merged p.sourceExit p.sourceError last)).log =
          p.log ++ [.complete (merged p.sourceExit p.sourceError last)] := by
        rw [finish_running { p with downstreamOutcome := none } hdone (by simp [h.handler, hdone])]
        rfl
      obtain ⟨hcore, hfinished⟩ := h.finished hdone hsource (fun _ => hdownstream) houtcome none
      refine ⟨hcore, fun _ _ => hfinished, ?_⟩
      rw [hlog]
      exact hcloses.snoc (by simp) (by simp)
  · rw [if_pos (by rcases Bool.eq_false_or_eq_true p.sourceDone with hs | hs <;>
      rcases Bool.eq_false_or_eq_true p.downstreamDone with hd | hd <;> simp_all)]
    exact ⟨h, fun hsource hdown => absurd ⟨hsource, hdown hchain⟩ hover, hcloses⟩

/-! ## The use of the controller -/

/-- The controller has been created, and was used only after that. -/
def Created (log : List Event) : Prop := .sourceCreated ∈ log ∧ Lawful Uses log

/-- A step that creates nothing. -/
structure Keeps (p p' : FanInPipeline) : Prop where
  hasDownstream : p'.hasDownstream = p.hasDownstream
  source : p'.source = p.source
  created : Created p.log → Created p'.log

theorem Keeps.refl (p : FanInPipeline) : Keeps p p := ⟨rfl, rfl, id⟩

theorem Keeps.trans {a b c : FanInPipeline} (h : Keeps a b) (h' : Keeps b c) : Keeps a c :=
  ⟨h'.hasDownstream.trans h.hasDownstream, h'.source.trans h.source,
    fun hc => h'.created (h.created hc)⟩

theorem keeps_note (p : FanInPipeline) (e : Event) : Keeps p (p.note e) := by
  refine ⟨rfl, rfl, fun ⟨hcreated, hlawful⟩ => ⟨List.mem_append_left _ hcreated, hlawful.snoc ?_⟩⟩
  cases e <;> first | exact hcreated | trivial

/-- Flags changed, and an event was noted. -/
theorem Keeps.noted {q : FanInPipeline} (h : Keeps p q) (e : Event) : Keeps p (q.note e) :=
  h.trans (keeps_note q e)

theorem keeps_finish (p : FanInPipeline) (outcome : Outcome) : Keeps p (p.finish outcome) := by
  unfold finish
  dsimp only
  split_ifs
  · exact .refl p
  · apply Keeps.noted
    exact ⟨rfl, rfl, id⟩
  · exact ⟨rfl, rfl, id⟩

theorem keeps_finishIfReady (p : FanInPipeline) : Keeps p p.finishIfReady := by
  unfold FanInPipeline.finishIfReady
  split_ifs
  · exact .refl p
  · cases p.downstreamOutcome with
    | none => exact .refl p
    | some outcome =>
      have htaken : Keeps p { p with downstreamOutcome := none } := ⟨rfl, rfl, id⟩
      exact htaken.trans (keeps_finish _ _)

theorem keeps_sourceHeard (p : FanInPipeline) (results : List HostResult) :
    Keeps p (p.sourceHeard results) := by
  apply Keeps.noted
  exact ⟨rfl, rfl, id⟩

theorem keeps_downstreamHeard (p : FanInPipeline) (outcome : Outcome) :
    Keeps p (p.downstreamHeard outcome) := by
  apply Keeps.noted
  exact ⟨rfl, rfl, id⟩

theorem keeps_sourceEnded {close : FanInPipeline → FanInPipeline} (hclose : ∀ q, Keeps q (close q))
    (p : FanInPipeline) (results : List HostResult) : Keeps p (sourceEnded close p results) := by
  have hheard := keeps_sourceHeard p results
  unfold sourceEnded
  by_cases hdone : p.done = true
  · rw [if_pos hdone]
    exact .refl p
  · rw [if_neg hdone]
    refine hheard.trans ?_
    change Keeps (p.sourceHeard results) (if ¬ (p.sourceHeard results).hasDownstream = true then
        (p.sourceHeard results).finish
          { exitCode := (p.sourceHeard results).sourceExit
            error := (p.sourceHeard results).sourceError }
      else
        (if ¬ (p.sourceHeard results).downstreamDone = true then close (p.sourceHeard results)
          else p.sourceHeard results).finishIfReady)
    split_ifs
    · exact keeps_finishIfReady _
    · exact (hclose _).trans (keeps_finishIfReady _)
    · exact keeps_finish _ _

theorem keeps_downstreamEnded {cancel : FanInPipeline → FanInPipeline}
    (hcancel : ∀ q, Keeps q (cancel q)) (p : FanInPipeline) (outcome : Outcome) :
    Keeps p (downstreamEnded cancel p outcome) := by
  have hheard := keeps_downstreamHeard p outcome
  unfold downstreamEnded
  by_cases hdone : p.done = true
  · rw [if_pos hdone]
    exact .refl p
  · rw [if_neg hdone]
    refine hheard.trans ?_
    change Keeps (p.downstreamHeard outcome) (if ¬ p.sourceDone = true then
        cancel { p.downstreamHeard outcome with sourceCancellationRequested := true }
      else (p.downstreamHeard outcome).finishIfReady)
    split_ifs
    · exact keeps_finishIfReady _
    · have hasked : Keeps (p.downstreamHeard outcome)
          { p.downstreamHeard outcome with sourceCancellationRequested := true } := ⟨rfl, rfl, id⟩
      exact hasked.trans (hcancel _)

theorem keeps_closeStdin (lost : Option Outcome) (p : FanInPipeline) :
    Keeps p (p.closeStdin lost) := by
  unfold FanInPipeline.closeStdin
  cases lost with
  | none => exact keeps_note p _
  | some outcome => exact (keeps_note p _).trans (keeps_downstreamEnded .refl _ outcome)

theorem keeps_cancelSource (stopped : Option (List HostResult)) (p : FanInPipeline) :
    Keeps p (p.cancelSource stopped) := by
  unfold cancelSource
  dsimp only
  split_ifs
  · cases stopped with
    | none => exact keeps_note p _
    | some results => exact (keeps_note p _).trans (keeps_sourceEnded .refl _ results)
  · exact keeps_note p _

theorem keeps_onSourceOutput (lost : Option Outcome) (stopped : Option (List HostResult))
    (p : FanInPipeline) (data : Bytes) : Keeps p (p.onSourceOutput lost stopped data) := by
  unfold onSourceOutput
  split_ifs
  · exact .refl p
  · cases lost with
    | none => exact keeps_note p _
    | some outcome =>
      dsimp only
      split_ifs
      · exact keeps_note p _
      · exact (keeps_note p _).trans (keeps_downstreamEnded (keeps_cancelSource stopped) _ outcome)
  · exact keeps_note p _
  · exact .refl p

theorem keeps_sourceCalled (p : FanInPipeline) (call : SourceCall) :
    Keeps p (p.sourceCalled call) := by
  unfold sourceCalled
  by_cases hsource : p.sourceDone = true
  · rw [if_pos hsource]
    exact .refl p
  · rw [if_neg hsource]
    cases call with
    | output bytes lost stopped => exact keeps_onSourceOutput lost stopped p bytes
    | stderr bytes =>
      dsimp only
      split_ifs
      · exact keeps_note p _
      · exact .refl p
    | done results lost => exact keeps_sourceEnded (keeps_closeStdin lost) p results

theorem keeps_downstreamCalled (p : FanInPipeline) (call : DownstreamCall) :
    Keeps p (p.downstreamCalled call) := by
  unfold downstreamCalled
  by_cases hdownstream : p.downstreamDone = true
  · rw [if_pos hdownstream]
    exact .refl p
  · rw [if_neg hdownstream]
    cases call with
    | output bytes =>
      dsimp only
      split_ifs
      · exact keeps_note p _
      · exact .refl p
    | done outcome stopped => exact keeps_downstreamEnded (keeps_cancelSource stopped) p outcome

theorem keeps_step (p : FanInPipeline) (input : Input) : Keeps p (p.step input) := by
  unfold step
  cases input with
  | source call =>
    dsimp only
    split_ifs
    · exact keeps_sourceCalled p call
    · exact .refl p
  | downstream call =>
    dsimp only
    split_ifs
    · exact keeps_downstreamCalled p call
    · exact .refl p

/-! ## The ends of the two sides -/

/-- With no downstream the run completes with what the source reported. -/
theorem Core.alone (h : Core p) (hsource : p.sourceDone = false) (hchain : ¬ p.hasDownstream = true)
    (results : List HostResult) :
    Inv ((p.sourceHeard results).finish
      { exitCode := (p.sourceHeard results).sourceExit
        error := (p.sourceHeard results).sourceError }) := by
  have hrunning := h.running hsource
  have hheard := h.sourceHeard hsource results
  have hrun : ∀ stages, .downstreamRun stages ∉ p.log := fun stages hmem =>
    hchain (h.chain.mpr ⟨stages, hmem⟩)
  have houtcome : ∀ results', .sourceOver results' ∈ (p.sourceHeard results).log →
      ((p.sourceHeard results).hasDownstream = false →
          ({ exitCode := (p.sourceHeard results).sourceExit
             error := (p.sourceHeard results).sourceError } : Outcome) =
            verdict (p.sourceHeard results).sourceCancellationRequested results' none) ∧
        ∀ downstream, .downstreamOver downstream ∈ (p.sourceHeard results).log →
          ({ exitCode := (p.sourceHeard results).sourceExit
             error := (p.sourceHeard results).sourceError } : Outcome) =
            verdict (p.sourceHeard results).sourceCancellationRequested results'
              (some downstream) := by
    intro results' hmem
    have htally := hheard.tallied results' hmem
    refine ⟨fun _ => ?_, fun downstream hmem' => ?_⟩
    · unfold verdict
      rw [← htally]
    · exact absurd (h.chained (h.downstreamOver.mpr ⟨downstream, by
        simpa [FanInPipeline.sourceHeard, note] using hmem'⟩)) hchain
  obtain ⟨hcore, hfinished⟩ := hheard.finished hrunning rfl (fun hdown => absurd hdown hchain)
    houtcome (p.sourceHeard results).downstreamOutcome
  refine ⟨hcore, fun _ _ => hfinished, fun a results' b heq hdown => ?_⟩
  obtain ⟨stages, hmem⟩ := hdown
  rw [finish_running (p.sourceHeard results) hrunning
    (by rw [hheard.handler]; exact congrArg _ hrunning)]
    at hmem
  exact absurd (by simpa [FanInPipeline.sourceHeard, note] using hmem) (hrun stages)

theorem Core.sourceEnded {close : FanInPipeline → FanInPipeline} (h : Core p)
    (hsource : p.sourceDone = false) {results : List HostResult}
    (hclose : p.hasDownstream = true → p.downstreamDone = false →
      Core (close (p.sourceHeard results)) ∧ Closes (close (p.sourceHeard results)).log ∧
        (close (p.sourceHeard results)).hasDownstream = true) :
    Inv (FanInPipeline.sourceEnded close p results) := by
  have hrunning := h.running hsource
  have hheard := h.sourceHeard hsource results
  unfold FanInPipeline.sourceEnded
  rw [if_neg (by simp [hrunning])]
  change Inv (if ¬ (p.sourceHeard results).hasDownstream = true then
      (p.sourceHeard results).finish
        { exitCode := (p.sourceHeard results).sourceExit
          error := (p.sourceHeard results).sourceError }
    else
      (if ¬ (p.sourceHeard results).downstreamDone = true then close (p.sourceHeard results)
        else p.sourceHeard results).finishIfReady)
  by_cases hchain : p.hasDownstream = true
  · rw [if_neg (show ¬ ¬ (p.sourceHeard results).hasDownstream = true from not_not.mpr hchain)]
    by_cases hdownstream : p.downstreamDone = true
    · rw [if_neg (show ¬ ¬ (p.sourceHeard results).downstreamDone = true from
        not_not.mpr hdownstream)]
      refine hheard.finishIfReady (fun a results' b heq _ => .inr ?_) hchain
      obtain ⟨rfl, -⟩ := split_sourceOver (h.noSource hsource) (by simp) heq
      exact h.downstreamOver.mp hdownstream
    · rw [if_pos (show ¬ (p.sourceHeard results).downstreamDone = true from hdownstream)]
      obtain ⟨hcore, hcloses, hsame⟩ := hclose hchain (by simpa using hdownstream)
      exact hcore.finishIfReady hcloses hsame
  · rw [if_pos (show ¬ (p.sourceHeard results).hasDownstream = true from hchain)]
    exact h.alone hsource hchain results

theorem Core.downstreamEnded {cancel : FanInPipeline → FanInPipeline} (h : Core p)
    (hcloses : Closes p.log) (hchain : p.hasDownstream = true)
    (hdownstream : p.downstreamDone = false) {outcome : Outcome}
    (hcancel : p.sourceDone = false →
      Inv (cancel { p.downstreamHeard outcome with sourceCancellationRequested := true })) :
    Inv (FanInPipeline.downstreamEnded cancel p outcome) := by
  have hrunning : ¬ p.done = true := fun hdone =>
    absurd ((h.over_ hdone).2 hchain) (by simp [hdownstream])
  have hheard := h.downstreamHeard hchain hdownstream outcome
  have hnext : Closes (p.downstreamHeard outcome).log := hcloses.snoc (by simp) (by simp)
  unfold FanInPipeline.downstreamEnded
  rw [if_neg hrunning]
  change Inv (if ¬ p.sourceDone = true then
      cancel { p.downstreamHeard outcome with sourceCancellationRequested := true }
    else (p.downstreamHeard outcome).finishIfReady)
  split_ifs with hsource
  · exact hheard.finishIfReady hnext hchain
  · exact hcancel (by simpa using hsource)

/-- The downstream may fail while its stdin is closed. -/
theorem Core.closeStdin (h : Core p) (hsource : p.sourceDone = false)
    (hchain : p.hasDownstream = true) (hdownstream : p.downstreamDone = false)
    (results : List HostResult) (lost : Option Outcome) :
    Inv (FanInPipeline.closeStdin lost (p.sourceHeard results)) := by
  have hnone := h.noSource hsource
  have hopen : .closeStdin ∉ (p.sourceHeard results).log := by
    simpa [FanInPipeline.sourceHeard, note] using h.open_ hsource
  have hclosed := (h.sourceHeard hsource results).closed rfl hdownstream hopen
  have hcloses : Closes ((p.sourceHeard results).note .closeStdin).log := by
    intro a results' b heq _
    have hsplit : p.log ++ .sourceOver results :: [.closeStdin] =
        a ++ .sourceOver results' :: b := by
      rw [← heq]
      simp [FanInPipeline.sourceHeard, note]
    obtain ⟨-, rfl⟩ := split_sourceOver hnone (by simp) hsplit
    exact .inl (by simp)
  unfold FanInPipeline.closeStdin
  cases lost with
  | none =>
    refine ⟨hclosed, fun _ hdone => ?_, hcloses⟩
    exact absurd (hdone hchain) (by
      rw [show ((p.sourceHeard results).note .closeStdin).downstreamDone =
        p.downstreamDone from rfl,
        hdownstream]
      simp)
  | some outcome =>
    refine hclosed.downstreamEnded hcloses hchain hdownstream fun hnone => ?_
    cases hnone

theorem Core.cancelSource (h : Core p) (hsource : p.sourceDone = false)
    (hdownstream : p.downstreamDone = true) (stopped : Option (List HostResult)) :
    Inv (p.cancelSource stopped) := by
  have hnoted : Core (p.note (.cancel "downstream completed")) := h.quiet trivial
  have hwaits : Inv (p.note (.cancel "downstream completed")) := by
    refine ⟨hnoted, fun hover => ?_, closes_of_none (hnoted.noSource hsource)⟩
    exact absurd (hsource.symm.trans hover) (by simp)
  unfold FanInPipeline.cancelSource
  dsimp only
  split_ifs
  · cases stopped with
    | none => exact hwaits
    | some results =>
      refine hnoted.sourceEnded hsource fun _ hopen => ?_
      exact absurd (hdownstream.symm.trans hopen) (by simp)
  · exact hwaits

theorem Inv.onDownstreamDone (h : Inv p) (hchain : p.hasDownstream = true)
    (hdownstream : p.downstreamDone = false) (stopped : Option (List HostResult))
    (outcome : Outcome) : Inv (p.onDownstreamDone stopped outcome) := by
  refine h.core.downstreamEnded h.closes hchain hdownstream fun hsource => ?_
  exact ((h.core.downstreamHeard hchain hdownstream outcome).asked hsource).cancelSource
    hsource rfl stopped

theorem Inv.onSourceDone (h : Inv p) (hsource : p.sourceDone = false) (lost : Option Outcome)
    (results : List HostResult) : Inv (p.onSourceDone lost results) := by
  refine h.core.sourceEnded hsource fun hchain hdownstream => ?_
  have hclosed := h.core.closeStdin hsource hchain hdownstream results lost
  refine ⟨hclosed.core, hclosed.closes, ?_⟩
  rw [(keeps_closeStdin lost _).hasDownstream]
  exact hchain

theorem Inv.onSourceOutput (h : Inv p) (lost : Option Outcome)
    (stopped : Option (List HostResult)) (data : Bytes) :
    Inv (p.onSourceOutput lost stopped data) := by
  unfold FanInPipeline.onSourceOutput
  split_ifs with _ hchain
  · exact h
  · cases lost with
    | none => exact h.quiet trivial
    | some outcome =>
      dsimp only
      have hwrote : Inv (p.note (.writeStdin data)) := h.quiet trivial
      split_ifs with hdownstream
      · exact hwrote
      · exact hwrote.onDownstreamDone hchain (by simpa using hdownstream) stopped outcome
  · exact h.quiet trivial
  · exact h

theorem Inv.sourceCalled (h : Inv p) (call : SourceCall) : Inv (p.sourceCalled call) := by
  unfold FanInPipeline.sourceCalled
  by_cases hsource : p.sourceDone = true
  · rw [if_pos hsource]
    exact h
  · rw [if_neg hsource]
    cases call with
    | output bytes lost stopped => exact h.onSourceOutput lost stopped bytes
    | stderr bytes =>
      dsimp only
      split_ifs
      · exact h.quiet trivial
      · exact h
    | done results lost => exact h.onSourceDone (by simpa using hsource) lost results

theorem Inv.downstreamCalled (h : Inv p) (hchain : p.hasDownstream = true) (call : DownstreamCall) :
    Inv (p.downstreamCalled call) := by
  unfold FanInPipeline.downstreamCalled
  by_cases hdownstream : p.downstreamDone = true
  · rw [if_pos hdownstream]
    exact h
  · rw [if_neg hdownstream]
    cases call with
    | output bytes =>
      dsimp only
      split_ifs
      · exact h.quiet trivial
      · exact h
    | done outcome stopped =>
      exact h.onDownstreamDone hchain (by simpa using hdownstream) stopped outcome

theorem Inv.step (h : Inv p) (input : Input) : Inv (p.step input) := by
  unfold FanInPipeline.step
  cases input with
  | source call =>
    dsimp only
    split_ifs
    · exact h.sourceCalled call
    · exact h
  | downstream call =>
    dsimp only
    split_ifs with hchain
    · exact h.downstreamCalled hchain call
    · exact h

end

end psx.pipeline.FanInPipeline
