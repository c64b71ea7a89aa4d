-- What holds of the stages of a remote chain after every order of events: who exited,
-- who was fenced, and whose session is gone. An exit fences every unfinished stage
-- before it, so the stages that are over are always the first ones.
import PipeShellX.Counts
import PipeShellX.Trace
import PipeShellX.Pipeline.DistributedRunner

namespace psx.pipeline.DistributedRunner

open psx.os (ExitStatus)
open psx.transport (Channel StreamId)

variable {d d' : DistributedRunner} {n index : Nat}

/-! ## Connections -/

@[simp] theorem conn_note (d : DistributedRunner) (e : Event) (i : Nat) :
    (d.note e).conn i = d.conn i := rfl

theorem conn_modify (f : Conn → Conn) (h : index < d.conns.length) (i : Nat) :
    (d.modify index f).conn i = if i = index then f (d.conn i) else d.conn i :=
  Counts.getD_modify f d.conns index i {} h

theorem conn_outside (h : d.conns.length ≤ index) : d.conn index = {} := by
  simp [conn, List.getD_eq_getElem?_getD, List.getElem?_eq_none h]

theorem lt_of_transport (h : (d.conn index).transport = true) : index < d.conns.length := by
  by_contra hout
  simp [conn_outside (Nat.le_of_not_lt hout)] at h

theorem lt_of_live (h : d.live index = true) : index < d.conns.length := by
  apply lt_of_transport
  simp only [live, Bool.and_eq_true] at h
  exact h.1.1.1

theorem conn_fenceBefore (h : index ≤ d.conns.length) (i : Nat) :
    (d.fenceBefore index).conn i = if i < index then (d.conn i).fence else d.conn i := by
  unfold conn fenceBefore
  rw [List.getD_eq_getElem?_getD, List.getElem?_mapIdx, List.getD_eq_getElem?_getD]
  by_cases hi : i < d.conns.length
  · rw [List.getElem?_eq_getElem hi]
    rfl
  · rw [List.getElem?_eq_none (Nat.le_of_not_lt hi), if_neg (by omega)]
    rfl

/-- The stages that a fence before `index` ends. -/
def fences (d : DistributedRunner) (index : Nat) : List Event :=
  ((List.range index).filter fun i => !(d.conn i).exited).map Event.fenced

theorem mem_fences {e : Event} :
    e ∈ d.fences index ↔ ∃ i, i < index ∧ (d.conn i).exited = false ∧ e = .fenced i := by
  unfold fences
  constructor
  · intro h
    obtain ⟨i, hi, rfl⟩ := List.mem_map.mp h
    obtain ⟨hlt, hexited⟩ := List.mem_filter.mp hi
    exact ⟨i, List.mem_range.mp hlt, by simpa using hexited, rfl⟩
  · rintro ⟨i, hlt, hexited, rfl⟩
    exact List.mem_map_of_mem (List.mem_filter.mpr ⟨List.mem_range.mpr hlt, by simpa using hexited⟩)

/-! ## Steps that end no stage -/

/-- An event of the start, or of the feed of the first stage. -/
def Event.Calm : Event → Prop
  | .opened .. => True
  | .sent index .. => index = 0
  | _ => False

/-- No stage ended, and only calm events happened. -/
structure Calmly (d d' : DistributedRunner) : Prop where
  length : d'.conns.length = d.conns.length
  session : ∀ i, (d'.conn i).session = (d.conn i).session
  transport : ∀ i, (d'.conn i).transport = (d.conn i).transport
  exited : ∀ i, (d'.conn i).exited = (d.conn i).exited
  exitCode : ∀ i, (d'.conn i).exitCode = (d.conn i).exitCode
  flags : (d'.done, d'.onOutput, d'.onStderr, d'.onComplete, d'.externalStdin) =
    (d.done, d.onOutput, d.onStderr, d.onComplete, d.externalStdin)
  log : ∃ more, d'.log = d.log ++ more ∧ ∀ e ∈ more, e.Calm

/-- Nor did a connection become ready. -/
structure Quiet (d d' : DistributedRunner) : Prop where
  calmly : Calmly d d'
  ready : d'.conns.map (·.ready) = d.conns.map (·.ready)
  readyCount : d'.readyCount = d.readyCount
  streamsOpen : d'.streamsOpen = d.streamsOpen

theorem Calmly.refl (d : DistributedRunner) : Calmly d d :=
  ⟨rfl, fun _ => rfl, fun _ => rfl, fun _ => rfl, fun _ => rfl, rfl, [], by simp, by simp⟩

theorem Calmly.trans {a b c : DistributedRunner} (h : Calmly a b) (h' : Calmly b c) :
    Calmly a c := by
  obtain ⟨first, hfirst, hcalm⟩ := h.log
  obtain ⟨second, hsecond, hcalm'⟩ := h'.log
  refine ⟨h'.length.trans h.length, fun i => (h'.session i).trans (h.session i),
    fun i => (h'.transport i).trans (h.transport i), fun i => (h'.exited i).trans (h.exited i),
    fun i => (h'.exitCode i).trans (h.exitCode i), h'.flags.trans h.flags, first ++ second,
    by rw [hsecond, hfirst, List.append_assoc], fun e he => ?_⟩
  rcases List.mem_append.mp he with he | he
  · exact hcalm e he
  · exact hcalm' e he

theorem Quiet.refl (d : DistributedRunner) : Quiet d d := ⟨.refl d, rfl, rfl, rfl⟩

theorem Quiet.trans {a b c : DistributedRunner} (h : Quiet a b) (h' : Quiet b c) : Quiet a c :=
  ⟨h.calmly.trans h'.calmly, h'.ready.trans h.ready, h'.readyCount.trans h.readyCount,
    h'.streamsOpen.trans h.streamsOpen⟩

theorem calmly_same (hconns : d'.conns = d.conns)
    (hflags : (d'.done, d'.onOutput, d'.onStderr, d'.onComplete, d'.externalStdin) =
      (d.done, d.onOutput, d.onStderr, d.onComplete, d.externalStdin))
    (hlog : d'.log = d.log) : Calmly d d' := by
  have hconn : ∀ i, d'.conn i = d.conn i := fun i => by simp only [conn, hconns]
  exact ⟨by rw [hconns], fun i => by rw [hconn], fun i => by rw [hconn], fun i => by rw [hconn],
    fun i => by rw [hconn], hflags, [], by simp [hlog], by simp⟩

theorem calmly_modify {f : Conn → Conn} (index : Nat)
    (hf : (f (d.conn index)).session = (d.conn index).session ∧
      (f (d.conn index)).transport = (d.conn index).transport ∧
      (f (d.conn index)).exited = (d.conn index).exited ∧
      (f (d.conn index)).exitCode = (d.conn index).exitCode) : Calmly d (d.modify index f) := by
  by_cases hi : index < d.conns.length
  · have hconn := conn_modify f hi
    refine ⟨List.length_modify .., fun i => ?_, fun i => ?_, fun i => ?_, fun i => ?_, rfl, [],
      (List.append_nil _).symm, by simp⟩
    all_goals
      rw [hconn]
      split_ifs with heq
      · subst heq
        simp only [hf]
      · rfl
  · exact calmly_same (List.modify_eq_self (Nat.le_of_not_lt hi)) rfl rfl

theorem quiet_note {e : Event} (he : e.Calm) : Quiet d (d.note e) :=
  ⟨⟨rfl, fun _ => rfl, fun _ => rfl, fun _ => rfl, fun _ => rfl, rfl, [e], rfl,
    fun _ hmem => List.mem_singleton.mp hmem ▸ he⟩, rfl, rfl, rfl⟩

theorem use_live {e : Event} (h : (d.conn index).session = true) : d.use index e = d.note e := by
  unfold use
  rw [if_pos h]

theorem use_null {e : Event} (h : (d.conn index).session = false) :
    d.use index e = d.note (.null index) := by
  unfold use
  rw [if_neg (by simp [h])]

theorem quiet_send (h : (d.conn 0).session = true) (bytes : Bytes) (endStream : Bool) :
    Quiet d (d.sendData 0 bytes endStream) := by
  unfold sendData
  rw [use_live h]
  exact quiet_note rfl

/-- `onConnReady` gives each connection its stream. -/
theorem quiet_opened (index : Nat) (id : StreamId) :
    Quiet d (d.modify index (Conn.opened id)) := by
  refine ⟨calmly_modify index ⟨rfl, rfl, rfl, rfl⟩, ?_, rfl, rfl⟩
  apply List.ext_getElem
  · simp [modify]
  · intro i hlen hlen'
    simp only [modify, List.getElem_map, List.getElem_modify]
    split_ifs <;> rfl

theorem quiet_open (opens : Nat → StreamId) (indices : List Nat)
    (h : ∀ i ∈ indices, (d.conn i).session = true) :
    Quiet d (indices.foldl (openStream opens) d) := by
  induction indices generalizing d with
  | nil => exact .refl d
  | cons i indices ih =>
    have hi : (d.conn i).session = true := h i (by simp)
    have hopened : Quiet d (openStream opens d i) := by
      unfold openStream
      rw [use_live hi]
      have hnoted : Quiet d (d.note (.opened i (d.argvs.getD i []))) := quiet_note trivial
      exact hnoted.trans (quiet_opened i (opens i))
    refine hopened.trans (ih fun j hj => ?_)
    rw [hopened.calmly.session]
    exact h j (by simp [hj])

theorem quiet_feed (h : (d.conn 0).session = true) : Quiet d d.feedFirst := by
  unfold feedFirst
  by_cases hexternal : d.externalStdin
  · rw [if_neg (not_not.mpr hexternal)]
    extract_lets sent fed
    have hfed : Quiet d fed := by
      by_cases hbuffer : d.stdinBuffer ≠ []
      · have hsent : Quiet d sent := quiet_send h d.stdinBuffer false
        simp only [fed, if_pos hbuffer]
        exact ⟨hsent.calmly.trans (calmly_same rfl rfl rfl), hsent.ready, hsent.readyCount,
          hsent.streamsOpen⟩
      · simpa only [fed, if_neg hbuffer] using Quiet.refl d
    split_ifs
    · apply hfed.trans (quiet_send _ [] true)
      rw [hfed.calmly.session]
      exact h
    · exact hfed
  · rw [if_pos hexternal]
    exact quiet_send h [] true

/-! ## Who is over, and why -/

/-- The connections agree with the log: a stage without a transport was fenced, and one that
has exited was fenced or reported it. -/
structure Stages (n : Nat) (d : DistributedRunner) : Prop where
  length : d.conns.length = n
  bound : ∀ i, (d.conn i).session = (d.conn i).transport
  fenced : ∀ i < n, (d.conn i).transport = false ↔ .fenced i ∈ d.log
  gone : ∀ i, .fenced i ∈ d.log →
    i < n ∧ (d.conn i).exited = true ∧ (d.conn i).exitCode = kFencedExitCode
  told : ∀ i status, .exited i status ∈ d.log →
    i < n ∧ (d.conn i).exited = true ∧ (d.conn i).exitCode = toExitCode status
  reason : ∀ i, (d.conn i).exited = true →
    .fenced i ∈ d.log ∨ ∃ status, .exited i status ∈ d.log
  apart : ∀ i status, .fenced i ∈ d.log → .exited i status ∉ d.log

/-- The stages that are over are the first ones. -/
def Down (d : DistributedRunner) : Prop :=
  ∀ i k, i < k → (d.conn k).exited = true → (d.conn i).exited = true

/-- The end of a stage. -/
def Event.Ends : Event → Prop
  | .fenced _ | .exited .. => True
  | _ => False

/-- An event that says nothing about who is over, nor that the run is. -/
def Event.Plain : Event → Prop
  | .fenced _ | .exited .. | .complete _ => False
  | _ => True

theorem Event.Plain.ends {e : Event} (h : e.Plain) : ¬ e.Ends := by
  cases e <;> first | exact id | exact fun _ => h

theorem Event.Calm.plain {e : Event} (h : e.Calm) : e.Plain := by
  cases e <;> trivial

theorem mem_tell {log more : List Event} {e : Event} (hmore : e ∉ more) :
    e ∈ log ++ more ↔ e ∈ log := by
  rw [List.mem_append, or_iff_left hmore]

/-- Only the ends of stages and the events about them matter. -/
theorem Stages.same (h : Stages n d) (hlength : d'.conns.length = d.conns.length)
    (hsession : ∀ i, (d'.conn i).session = (d.conn i).session)
    (htransport : ∀ i, (d'.conn i).transport = (d.conn i).transport)
    (hexited : ∀ i, (d'.conn i).exited = (d.conn i).exited)
    (hcode : ∀ i, (d'.conn i).exitCode = (d.conn i).exitCode)
    (hlog : ∃ more, d'.log = d.log ++ more ∧ ∀ e ∈ more, ¬ e.Ends) : Stages n d' := by
  obtain ⟨more, hlog, hmore⟩ := hlog
  have hfenced : ∀ i, .fenced i ∈ d'.log ↔ .fenced i ∈ d.log := fun i => by
    rw [hlog]
    exact mem_tell fun hmem => hmore (.fenced i) hmem trivial
  have htold : ∀ i status, .exited i status ∈ d'.log ↔ .exited i status ∈ d.log :=
    fun i status => by
    rw [hlog]
    exact mem_tell fun hmem => hmore (.exited i status) hmem trivial
  refine ⟨hlength.trans h.length, ?_, ?_, ?_, ?_, ?_, ?_⟩
  all_goals
    simp only [hsession, htransport, hexited, hcode, hfenced, htold]
  · exact h.bound
  · exact h.fenced
  · exact h.gone
  · exact h.told
  · exact h.reason
  · exact h.apart

theorem Stages.calmly (h : Stages n d) (hc : Calmly d d') : Stages n d' := by
  obtain ⟨more, hlog, hcalm⟩ := hc.log
  exact h.same hc.length hc.session hc.transport hc.exited hc.exitCode
    ⟨more, hlog, fun e he => (hcalm e he).plain.ends⟩

theorem Stages.note (h : Stages n d) {e : Event} (he : e.Plain) : Stages n (d.note e) :=
  h.same rfl (fun _ => rfl) (fun _ => rfl) (fun _ => rfl) (fun _ => rfl)
    ⟨[e], rfl, fun _ hmem => List.mem_singleton.mp hmem ▸ he.ends⟩

/-! ## A stage reports its exit -/

/-- The runner after `Conn::onExit` up to `onStageExit`. -/
def reported (d : DistributedRunner) (index : Nat) (status : ExitStatus) : DistributedRunner :=
  (d.note (.exited index status)).modify index (Conn.reported status)

theorem conn_reported (h : index < d.conns.length) (status : ExitStatus) (i : Nat) :
    (d.reported index status).conn i =
      if i = index then (d.conn i).reported status else d.conn i := by
  exact conn_modify (d := d.note (.exited index status)) _ h i

theorem Stages.reported (h : Stages n d) (hi : index < n) (hlive : (d.conn index).exited = false)
    (status : ExitStatus) : Stages n (d.reported index status) := by
  have hlt : index < d.conns.length := h.length.symm ▸ hi
  have hconn := conn_reported hlt status
  have hnone : .fenced index ∉ d.log := fun hmem => by
    rw [(h.gone index hmem).2.1] at hlive
    cases hlive
  have hlog : (d.reported index status).log = d.log ++ [.exited index status] := rfl
  refine ⟨?_, fun i => ?_, fun i hn => ?_, fun i hmem => ?_, fun i status' hmem => ?_,
    fun i hexited => ?_, fun i status' hmem => ?_⟩
  · exact (List.length_modify ..).trans h.length
  · rw [hconn]
    split_ifs
    · exact h.bound i
    · exact h.bound i
  · rw [hconn, hlog, List.mem_append, or_iff_left (by simp)]
    split_ifs
    · exact h.fenced i hn
    · exact h.fenced i hn
  · have hmem : .fenced i ∈ d.log := by simpa [hlog] using hmem
    have hne : i ≠ index := fun heq => hnone (heq ▸ hmem)
    rw [hconn, if_neg hne]
    exact h.gone i hmem
  · rw [hlog, List.mem_append] at hmem
    rcases hmem with hmem | hmem
    · have hne : i ≠ index := fun heq => by
        subst heq
        rw [(h.told i status' hmem).2.1] at hlive
        cases hlive
      rw [hconn, if_neg hne]
      exact h.told i status' hmem
    · obtain ⟨rfl, rfl⟩ := Event.exited.inj (List.mem_singleton.mp hmem)
      rw [hconn, if_pos rfl]
      exact ⟨hi, rfl, rfl⟩
  · by_cases heq : i = index
    · subst heq
      exact .inr ⟨status, by simp [hlog]⟩
    · rw [hconn, if_neg heq] at hexited
      rcases h.reason i hexited with hmem | ⟨status', hmem⟩
      · exact .inl (List.mem_append_left _ hmem)
      · exact .inr ⟨status', List.mem_append_left _ hmem⟩
  · have hmem : .fenced i ∈ d.log := by simpa [hlog] using hmem
    have hne : i ≠ index := fun heq => hnone (heq ▸ hmem)
    rw [hlog, List.mem_append, not_or]
    exact ⟨h.apart i status' hmem, by simp [hne]⟩

/-! ## A fence -/

theorem fence_exited {conn : Conn} (h : conn.exited = true) : conn.fence = conn := by
  unfold Conn.fence
  rw [if_pos h]

theorem fence_running {conn : Conn} (h : conn.exited = false) : conn.fence =
    { conn with
      exited := true, exitCode := kFencedExitCode, session := false, transport := false } := by
  unfold Conn.fence
  rw [if_neg (by simp [h])]

@[simp] theorem fence_is_exited (conn : Conn) : conn.fence.exited = true := by
  cases h : conn.exited with
  | true => rw [fence_exited h, h]
  | false => rw [fence_running h]

theorem Stages.fence (h : Stages n d) (hle : index ≤ n) : Stages n (d.fenceBefore index) := by
  have hconn := conn_fenceBefore (d := d) (h.length.symm ▸ hle)
  have hlog : (d.fenceBefore index).log = d.log ++ d.fences index := rfl
  -- a stage that is over already is left as it is
  have hkept : ∀ i, (d.conn i).exited = true → (d.fenceBefore index).conn i = d.conn i := by
    intro i hexited
    rw [hconn]
    split_ifs
    · exact fence_exited hexited
    · rfl
  have hnew : ∀ i, .fenced i ∈ d.fences index ↔ i < index ∧ (d.conn i).exited = false := by
    intro i
    rw [mem_fences]
    constructor
    · rintro ⟨j, hlt, hrunning, heq⟩
      cases heq
      exact ⟨hlt, hrunning⟩
    · rintro ⟨hlt, hrunning⟩
      exact ⟨i, hlt, hrunning, rfl⟩
  have hnone : ∀ i status, .exited i status ∉ d.fences index := by
    intro i status hmem
    obtain ⟨j, -, -, heq⟩ := mem_fences.mp hmem
    cases heq
  have htold : ∀ i status, .exited i status ∈ (d.fenceBefore index).log ↔
      .exited i status ∈ d.log := by
    intro i status
    rw [hlog, List.mem_append, or_iff_left (hnone i status)]
  have hfenced : ∀ i, .fenced i ∈ (d.fenceBefore index).log ↔
      .fenced i ∈ d.log ∨ i < index ∧ (d.conn i).exited = false := by
    intro i
    rw [hlog, List.mem_append, hnew]
  refine ⟨?_, fun i => ?_, fun i hn => ?_, fun i hmem => ?_, fun i status hmem => ?_,
    fun i hexited => ?_, fun i status hmem => ?_⟩
  · exact List.length_mapIdx.trans h.length
  · cases hrunning : (d.conn i).exited with
    | true => rw [hkept i hrunning, h.bound i]
    | false =>
      rw [hconn]
      split_ifs
      · rw [fence_running hrunning]
      · exact h.bound i
  · rw [hfenced]
    cases hrunning : (d.conn i).exited with
    | true => simpa [hkept i hrunning] using h.fenced i hn
    | false =>
      rw [hconn]
      split_ifs with hlt
      · simp [fence_running hrunning, hlt]
      · simpa [hlt] using h.fenced i hn
  · rcases (hfenced i).mp hmem with hmem | ⟨hlt, hrunning⟩
    · obtain ⟨hn, hexited, hcode⟩ := h.gone i hmem
      rw [hkept i hexited]
      exact ⟨hn, hexited, hcode⟩
    · rw [hconn, if_pos hlt, fence_running hrunning]
      exact ⟨by omega, rfl, rfl⟩
  · obtain ⟨hn, hexited, hcode⟩ := h.told i status ((htold i status).mp hmem)
    rw [hkept i hexited]
    exact ⟨hn, hexited, hcode⟩
  · cases hrunning : (d.conn i).exited with
    | true =>
      rcases h.reason i hrunning with hmem | ⟨status, hmem⟩
      · exact .inl ((hfenced i).mpr (.inl hmem))
      · exact .inr ⟨status, (htold i status).mpr hmem⟩
    | false =>
      rw [hconn] at hexited
      split_ifs at hexited with hlt
      · exact .inl ((hfenced i).mpr (.inr ⟨hlt, hrunning⟩))
      · simp [hrunning] at hexited
  · rw [htold]
    rcases (hfenced i).mp hmem with hmem | ⟨hlt, hrunning⟩
    · exact h.apart i status hmem
    · intro hmem
      rw [(h.told i status hmem).2.1] at hrunning
      cases hrunning

/-! ## A chain that is going on -/

/-- The handlers that a runner was given, and whether its stdin is fed from outside. -/
structure Setup where
  onOutput : Bool
  onStderr : Bool
  onComplete : Bool
  externalStdin : Bool

/-- What was set up before the run. -/
def setup (d : DistributedRunner) : Setup :=
  ⟨d.onOutput, d.onStderr, d.onComplete, d.externalStdin⟩

variable {given : Setup}

/-- A runner that is not done, between two events. -/
structure Going (n : Nat) (given : Setup) (d : DistributedRunner) : Prop where
  running : d.done = false
  setup : d.setup = given
  silent : ∀ outcome, .complete outcome ∉ d.log
  stages : Stages n d
  down : Down d
  early : d.streamsOpen = false → ∀ i, (d.conn i).exited = false
  count : d.readyCount = d.conns.countP (·.ready)
  opened : d.streamsOpen = true → 0 < n ∧ d.conns.countP (·.ready) = n

theorem Quiet.countP (h : Quiet d d') :
    d'.conns.countP (·.ready) = d.conns.countP (·.ready) := by
  have hmap := congrArg (List.countP id) h.ready
  simpa only [List.countP_map, Function.id_comp] using hmap

theorem Calmly.done (h : Calmly d d') : d'.done = d.done := congrArg Prod.fst h.flags

theorem Calmly.setup (h : Calmly d d') : d'.setup = d.setup := by
  have hflags := h.flags
  simp only [Prod.mk.injEq] at hflags
  obtain ⟨-, h1, h2, h3, h4⟩ := hflags
  simp only [DistributedRunner.setup, h1, h2, h3, h4]

theorem Calmly.silent (h : Calmly d d') (hsilent : ∀ outcome, .complete outcome ∉ d.log)
    (outcome : Outcome) : .complete outcome ∉ d'.log := by
  obtain ⟨more, hlog, hcalm⟩ := h.log
  rw [hlog, mem_tell fun hmem => (hcalm (.complete outcome) hmem).plain]
  exact hsilent outcome

theorem Down.calmly (h : Down d) (hc : Calmly d d') : Down d' := by
  intro i k hlt hexited
  rw [hc.exited] at hexited ⊢
  exact h i k hlt hexited

theorem Going.quiet (h : Going n given d) (hq : Quiet d d') : Going n given d' where
  running := hq.calmly.done.trans h.running
  setup := hq.calmly.setup.trans h.setup
  silent := hq.calmly.silent h.silent
  stages := h.stages.calmly hq.calmly
  down := h.down.calmly hq.calmly
  early hopen i := by
    rw [hq.calmly.exited]
    exact h.early (hq.streamsOpen.symm.trans hopen) i
  count := by rw [hq.readyCount, hq.countP, h.count]
  opened hopen := by
    rw [hq.countP]
    exact h.opened (hq.streamsOpen.symm.trans hopen)

/-- A session is there while its stage has not been fenced. -/
theorem Stages.session (h : Stages n d) (hi : index < n) (hexited : (d.conn index).exited = false) :
    (d.conn index).session = true := by
  rw [h.bound]
  by_contra hgone
  have hmem := (h.fenced index hi).mp (by simpa using hgone)
  rw [(h.gone index hmem).2.1] at hexited
  cases hexited

/-- The streams are not open yet while a connection is not ready. -/
theorem Going.closed (h : Going n given d) (htransport : (d.conn index).transport = true)
    (hready : (d.conn index).ready = false) : d.streamsOpen = false := by
  have hlen := h.stages.length
  have hi : index < d.conns.length := lt_of_transport htransport
  have hcount := Counts.countP_modify (·.ready) (fun conn : Conn => { conn with ready := true })
    ({} : Conn) hi
  have hgetD : (d.conns.getD index {}).ready = false := hready
  simp only [hgetD, Bool.toNat_true, Bool.toNat_false] at hcount
  by_contra hopen
  have hall := (h.opened (by simpa using hopen)).2
  have hle := List.countP_le_length (p := fun conn : Conn => conn.ready)
    (l := d.conns.modify index fun conn => { conn with ready := true })
  rw [List.length_modify] at hle
  omega

theorem Going.ready (h : Going n given d) (opens : Nat → StreamId)
    (htransport : (d.conn index).transport = true) (hready : (d.conn index).ready = false) :
    Going n given (d.step opens (.ready index)) ∧ Calmly d (d.step opens (.ready index)) := by
  have hlen := h.stages.length
  have hi : index < d.conns.length := lt_of_transport htransport
  have hbefore := Counts.countP_modify (·.ready) (fun conn : Conn => { conn with ready := true })
    ({} : Conn) hi
  have hgetD : (d.conns.getD index {}).ready = false := hready
  simp only [hgetD, Bool.toNat_true, Bool.toNat_false] at hbefore
  have hclosed := h.closed htransport hready
  have hexited := h.early hclosed
  unfold step
  simp only [htransport, hready, Bool.false_eq_true, not_false_eq_true, and_self, if_true]
  unfold onConnReady
  have hrunning : (d.modify index fun conn => { conn with ready := true }).done = false := h.running
  rw [if_neg (by simp [hrunning])]
  extract_lets cleared counted opened
  have hcounted : Calmly d counted := by
    have hmarked : Calmly d (d.modify index fun conn => { conn with ready := true }) :=
      calmly_modify index ⟨rfl, rfl, rfl, rfl⟩
    have hcleared : Calmly d cleared := by
      refine hmarked.trans (calmly_modify index ⟨rfl, rfl, ?_, rfl⟩)
      rw [hmarked.exited, hexited]
    exact hcleared.trans (calmly_same rfl rfl rfl)
  have hcount : counted.conns.countP (·.ready) = d.conns.countP (·.ready) + 1 := by
    have hkept := Counts.countP_modify (·.ready) (fun conn : Conn => { conn with exited := false })
      ({} : Conn) (l := d.conns.modify index fun conn => { conn with ready := true })
      (by rw [List.length_modify]; exact hi)
    have hsame : counted.conns.countP (·.ready) =
        (d.conns.modify index fun conn => { conn with ready := true }).countP (·.ready) :=
      Nat.add_right_cancel hkept
    omega
  have hreadyCount : counted.readyCount = d.conns.countP (·.ready) + 1 :=
    congrArg (· + 1) h.count
  by_cases hwait : counted.readyCount ≠ counted.conns.length
  · rw [if_pos hwait]
    refine ⟨⟨hcounted.done.trans h.running, hcounted.setup.trans h.setup,
      hcounted.silent h.silent, h.stages.calmly hcounted, h.down.calmly hcounted,
      fun _ i => ?_, hreadyCount.trans hcount.symm, fun hopen => ?_⟩, hcounted⟩
    · rw [hcounted.exited]
      exact hexited i
    · rw [show counted.streamsOpen = d.streamsOpen from rfl, hclosed] at hopen
      cases hopen
  · rw [if_neg hwait]
    have hsession : ∀ i < n, (counted.conn i).session = true := by
      intro i hlt
      rw [hcounted.session]
      exact h.stages.session hlt (hexited i)
    have hcountedLen : counted.conns.length = n := hcounted.length.trans hlen
    have hopened : Quiet counted opened := by
      refine quiet_open opens _ fun i hmem => hsession i ?_
      rw [← hcountedLen]
      exact List.mem_range.mp hmem
    have hstarted : Calmly d { opened with streamsOpen := true } :=
      (hcounted.trans hopened.calmly).trans (calmly_same rfl rfl rfl)
    have hgoing : Going n given { opened with streamsOpen := true } := by
      refine ⟨hstarted.done.trans h.running, hstarted.setup.trans h.setup,
        hstarted.silent h.silent, h.stages.calmly hstarted, h.down.calmly hstarted,
        fun hnot => (by cases hnot), ?_, fun _ => ?_⟩
      · exact (hopened.readyCount.trans hreadyCount).trans (hcount.symm.trans hopened.countP.symm)
      · refine ⟨by omega, hopened.countP.trans (hcount.trans (hreadyCount.symm.trans ?_))⟩
        rw [← hcountedLen]
        exact not_not.mp hwait
    have hfirst : (conn { opened with streamsOpen := true } 0).session = true := by
      rw [hstarted.session, ← hcounted.session]
      exact hsession 0 (by omega)
    have hfed := quiet_feed hfirst
    exact ⟨hgoing.quiet hfed, hstarted.trans hfed.calmly⟩

/-! ## Data -/

/-- Events that end no stage. -/
theorem Going.tell (h : Going n given d) {more : List Event} (hmore : ∀ e ∈ more, e.Plain) :
    Going n given { d with log := d.log ++ more } :=
  ⟨h.running, h.setup, fun outcome => by
      rw [mem_tell fun hmem => hmore (.complete outcome) hmem]
      exact h.silent outcome,
    h.stages.same rfl (fun _ => rfl) (fun _ => rfl) (fun _ => rfl) (fun _ => rfl)
      ⟨more, rfl, fun e he => (hmore e he).ends⟩,
    h.down, h.early, h.count, h.opened⟩

theorem live_spec (h : d.live index = true) : (d.conn index).transport = true ∧
    d.streamsOpen = true ∧ (d.conn index).streamId ≠ 0 ∧ (d.conn index).exited = false := by
  simp only [live, Bool.and_eq_true, Bool.not_eq_true', decide_eq_true_eq] at h
  exact ⟨h.1.1.1, h.1.1.2, h.1.2, h.2⟩

/-- The stage after a live one has not exited either. -/
theorem Going.next (h : Going n given d) (hlive : (d.conn index).exited = false)
    (hi : index + 1 < n) :
    (d.conn (index + 1)).exited = false ∧ (d.conn (index + 1)).session = true := by
  have hexited : (d.conn (index + 1)).exited = false := by
    by_contra hover
    rw [h.down index (index + 1) (by omega) (by simpa using hover)] at hlive
    cases hlive
  exact ⟨hexited, h.stages.session hi hexited⟩

/-- Where a chunk of output goes. -/
def delivery (d : DistributedRunner) (index : Nat) (bytes : Bytes) (channel : Channel) :
    List Event :=
  if channel = .Stderr then if d.onStderr then [.stderr bytes] else []
  else if index + 1 < d.conns.length then
    [.sent (index + 1) (d.conn (index + 1)).streamId bytes false]
  else if d.onOutput then [.output bytes]
  else []

theorem Going.forward (h : Going n given d) (hexited : (d.conn index).exited = false)
    (bytes : Bytes) :
    d.forward index bytes = { d with log := d.log ++ d.delivery index bytes .Stdout } := by
  have hstdout : ¬ Channel.Stdout = .Stderr := by simp
  unfold DistributedRunner.forward delivery
  rw [if_neg (by simp [h.running]), if_neg hstdout]
  split_ifs with hnext
  · unfold sendData
    rw [use_live (h.next hexited (h.stages.length ▸ hnext)).2]
    rfl
  · rfl
  · simp

theorem Going.onData (h : Going n given d) (hlive : d.live index = true) (bytes : Bytes)
    (channel : Channel) : d.onData index bytes channel =
      { d with log := d.log ++ ([.got index bytes channel,
        .consumed index (d.conn index).streamId bytes.length] ++
          d.delivery index bytes channel) } := by
  obtain ⟨htransport, -, -, hexited⟩ := live_spec hlive
  have hsession : (d.conn index).session = true := (h.stages.bound index).trans htransport
  have htold : Going n given { d with log := d.log ++ [.got index bytes channel,
      .consumed index (d.conn index).streamId bytes.length] } :=
    h.tell fun e he => by simp at he; rcases he with rfl | rfl <;> trivial
  have hnotes : (d.note (.got index bytes channel)).note
      (.consumed index (d.conn index).streamId bytes.length) =
      { d with log := d.log ++ [.got index bytes channel,
        .consumed index (d.conn index).streamId bytes.length] } := by
    simp [note]
  unfold DistributedRunner.onData
  simp only [conn_note, hsession, if_true]
  rw [hnotes]
  cases channel with
  | Stderr =>
    unfold delivery
    cases hhandler : d.onStderr with
    | true => simp [note]
    | false => simp
  | Stdout =>
    have hstdout : ¬ Channel.Stdout = .Stderr := by simp
    rw [if_neg hstdout, htold.forward hexited]
    simp only [List.append_assoc]
    rfl

theorem delivery_plain (d : DistributedRunner) (index : Nat) (bytes : Bytes) (channel : Channel) :
    ∀ e ∈ d.delivery index bytes channel, e.Plain := by
  intro e he
  unfold delivery at he
  split_ifs at he <;> simp_all [Event.Plain]

/-! ## An exit -/

theorem ready_modify {f : Conn → Conn} (hf : ∀ conn, (f conn).ready = conn.ready) (index : Nat) :
    (d.modify index f).conns.map (·.ready) = d.conns.map (·.ready) := by
  apply List.ext_getElem
  · simp [modify]
  · intro i hlen hlen'
    simp only [modify, List.getElem_map, List.getElem_modify]
    split_ifs
    · exact hf _
    · rfl

theorem ready_fence (index : Nat) :
    (d.fenceBefore index).conns.map (·.ready) = d.conns.map (·.ready) := by
  apply List.ext_getElem
  · simp [fenceBefore]
  · intro i hlen hlen'
    simp only [fenceBefore, List.getElem_map, List.getElem_mapIdx]
    split_ifs
    · unfold Conn.fence
      split_ifs <;> rfl
    · rfl

/-- The runner after `onExit`, but for what the next stage is told. -/
def overtaken (d : DistributedRunner) (index : Nat) (status : ExitStatus) : DistributedRunner :=
  (d.reported index status).fenceBefore index

theorem conn_overtaken (hi : index < d.conns.length) (status : ExitStatus) (i : Nat) :
    (d.overtaken index status).conn i = if i < index then (d.conn i).fence
      else if i = index then (d.conn i).reported status else d.conn i := by
  have hlen : index ≤ (d.reported index status).conns.length := by
    simp only [reported, modify, List.length_modify]
    exact Nat.le_of_lt hi
  unfold overtaken
  rw [conn_fenceBefore hlen, conn_reported hi]
  by_cases hlt : i < index
  · rw [if_pos hlt, if_pos hlt, if_neg (by omega)]
  · rw [if_neg hlt, if_neg hlt]

theorem overtaken_log (hi : index < d.conns.length) (status : ExitStatus) :
    (d.overtaken index status).log = d.log ++ .exited index status :: d.fences index := by
  have hfences : (d.reported index status).fences index = d.fences index := by
    unfold fences
    congr 1
    refine List.filter_congr fun i hmem => ?_
    have hlt := List.mem_range.mp hmem
    rw [conn_reported hi, if_neg (by omega)]
  have hlog : (d.overtaken index status).log =
      (d.reported index status).log ++ (d.reported index status).fences index := rfl
  rw [hlog, hfences]
  simp [reported, modify, note]

theorem Going.overtaken (h : Going n given d) (hlive : d.live index = true) (status : ExitStatus) :
    Going n given (d.overtaken index status) := by
  obtain ⟨-, hopen, -, hexited⟩ := live_spec hlive
  have hi : index < d.conns.length := lt_of_live hlive
  have hin : index < n := h.stages.length ▸ hi
  have hconn := conn_overtaken hi status
  have hready : (d.overtaken index status).conns.map (·.ready) = d.conns.map (·.ready) :=
    (ready_fence index).trans
      (ready_modify (f := Conn.reported status) (d := d.note (.exited index status))
        (fun _ => rfl) index)
  have hcount : (d.overtaken index status).conns.countP (·.ready) = d.conns.countP (·.ready) := by
    have hmap := congrArg (List.countP id) hready
    simpa only [List.countP_map, Function.id_comp] using hmap
  refine ⟨h.running, h.setup, fun outcome => ?_,
    (h.stages.reported hin hexited status).fence (Nat.le_of_lt hin), ?_,
    fun hnot => ?_, h.count.trans hcount.symm,
      fun hopen => ⟨(h.opened hopen).1, hcount.trans (h.opened hopen).2⟩⟩
  · rw [overtaken_log hi, List.mem_append, List.mem_cons, not_or, not_or]
    refine ⟨h.silent outcome, by simp, fun hmem => ?_⟩
    obtain ⟨i, -, -, heq⟩ := mem_fences.mp hmem
    cases heq
  · intro i k hlt hover
    rw [hconn] at hover ⊢
    by_cases hik : i < index
    · rw [if_pos hik]
      exact fence_is_exited _
    · rw [if_neg (by omega), if_neg (by omega)] at hover
      -- a stage after the live one would have ended it
      rw [h.down index k (by omega) hover] at hexited
      cases hexited
  · rw [show (d.overtaken index status).streamsOpen = d.streamsOpen from rfl, hopen] at hnot
    cases hnot

theorem finish_running (h : d.done = false) (outcome : Outcome) : d.finish outcome =
    { d with
      done := true
      onComplete := false
      log := d.log ++ if d.onComplete then [.complete outcome] else [] } := by
  unfold finish
  rw [if_neg (by simp [h])]
  obtain ⟨onOutput, onStderr, onComplete⟩ := d
  cases onComplete with
  | true => rfl
  | false => simp

theorem Going.onExit (h : Going n given d) (hlive : d.live index = true) (status : ExitStatus) :
    d.onExit index status =
      if index + 1 < n then
        (d.overtaken index status).note
          (.sent (index + 1) (d.conn (index + 1)).streamId [] true)
      else (d.overtaken index status).finish (d.overtaken index status).outcome := by
  obtain ⟨-, -, -, hexited⟩ := live_spec hlive
  have hi : index < d.conns.length := lt_of_live hlive
  have hgoing := h.overtaken hlive status
  have hlen := hgoing.stages.length
  unfold DistributedRunner.onExit onStageExit
  rw [if_neg (by simp [show ((d.note (.exited index status)).modify index
    (Conn.reported status)).done = d.done from rfl, h.running])]
  change (if index + 1 < (d.overtaken index status).conns.length then
    (d.overtaken index status).sendData (index + 1) [] true else _) = _
  rw [hlen]
  by_cases hnext : index + 1 < n
  · have hsame : (d.overtaken index status).conn (index + 1) = d.conn (index + 1) := by
      rw [conn_overtaken hi, if_neg (by omega), if_neg (by omega)]
    rw [if_pos hnext, if_pos hnext]
    unfold sendData
    rw [use_live (by rw [hsame]; exact (h.next hexited hnext).2), hsame]
  · rw [if_neg hnext, if_neg hnext]
    rfl

/-! ## A cancel -/

/-- The runner after `cancel`, but for the outcome. -/
def abandoned (d : DistributedRunner) : DistributedRunner :=
  (d.note .cancelled).fenceBefore d.conns.length

theorem Going.cancel (h : Going n given d) : d.cancel = d.abandoned.finish d.abandoned.outcome := by
  unfold DistributedRunner.cancel
  rw [if_neg (by simp [h.running])]
  rfl

theorem abandoned_log (d : DistributedRunner) :
    d.abandoned.log = d.log ++ .cancelled :: d.fences d.conns.length := by
  have hlog : d.abandoned.log = (d.log ++ [.cancelled]) ++ d.fences d.conns.length := rfl
  rw [hlog, List.append_assoc]
  rfl

theorem conn_abandoned (d : DistributedRunner) {i : Nat} (hi : i < d.conns.length) :
    d.abandoned.conn i = (d.conn i).fence := by
  have hconn := conn_fenceBefore (d := d.note .cancelled) (Nat.le_refl d.conns.length) i
  rw [if_pos hi] at hconn
  exact hconn

end psx.pipeline.DistributedRunner
