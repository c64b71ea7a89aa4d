-- What every event keeps of a local chain: the children that have exited are counted, the
-- outcome is told when the chain is done, and a cancel ends it within the call.
import PipeShellX.Counts
import PipeShellX.Pipeline.LocalRunner

namespace psx.pipeline.LocalRunner

open psx.os (ExitStatus Interest Waits)

variable {r r' : LocalRunner}

/-- The count and the outcome are right. -/
structure Sound (r : LocalRunner) : Prop where
  counted : r.exitedCount = r.children.countP (·.exited)
  told : ∀ outcome, .complete outcome ∈ r.log → r.done = true

/-- What an event may do to a chain. -/
structure Follows (r r' : LocalRunner) : Prop where
  sound : r.Sound → r'.Sound
  done : r.done = true → r'.done = true

theorem Follows.refl (r : LocalRunner) : Follows r r := ⟨id, id⟩

theorem Follows.trans {a b c : LocalRunner} (h : Follows a b) (h' : Follows b c) : Follows a c :=
  ⟨fun hsound => h'.sound (h.sound hsound), fun hdone => h'.done (h.done hdone)⟩

/-- An event that leaves the children alone, and tells no outcome. -/
theorem follows_aside (hchildren : r'.children = r.children)
    (hcount : r'.exitedCount = r.exitedCount) (hdone : r'.done = r.done)
    (hlog : ∃ more, r'.log = r.log ++ more ∧ ∀ outcome, .complete outcome ∉ more) :
    Follows r r' := by
  obtain ⟨more, hlog, hmore⟩ := hlog
  refine ⟨fun h => ⟨?_, fun outcome hmem => ?_⟩, fun h => hdone.trans h⟩
  · rw [hcount, hchildren, h.counted]
  · rw [hlog, List.mem_append, or_iff_left (hmore outcome)] at hmem
    exact hdone.trans (h.told outcome hmem)

theorem follows_note {e : Event} (he : ∀ outcome, e ≠ .complete outcome) : Follows r (r.note e) :=
  follows_aside rfl rfl rfl ⟨[e], rfl,
    fun outcome hmem => he outcome (List.mem_singleton.mp hmem).symm⟩

/-! ## The end -/

theorem follows_finishIfDone : Follows r r.finishIfDone := by
  unfold finishIfDone
  split_ifs with hwait
  · exact .refl r
  · extract_lets ended
    split_ifs
    · exact ⟨fun h => ⟨h.counted, fun _ _ => rfl⟩, fun _ => rfl⟩
    · exact ⟨fun h => ⟨h.counted, fun _ _ => rfl⟩, fun _ => rfl⟩

theorem finishIfDone_done (hclosed : r.finalClosed = true)
    (hcount : r.exitedCount = r.children.length) :
    r.finishIfDone.done = true := by
  unfold finishIfDone
  split_ifs with hwait
  · simpa [hclosed, hcount] using hwait
  · extract_lets ended
    split_ifs
    · rfl
    · rfl

theorem follows_closeFinal : Follows r r.closeFinal := by
  unfold closeFinal
  have hclosed : Follows r { r with finalClosed := true, finalWatch := none } :=
    follows_aside rfl rfl rfl ⟨[], by simp, by simp⟩
  exact hclosed.trans follows_finishIfDone

theorem follows_onChildExit {index : Nat} (hi : index < r.children.length) (waits : Waits) :
    Follows r (r.onChildExit index waits) := by
  unfold onChildExit
  split_ifs with hexited
  · exact .refl r
  · have hcount := Counts.countP_modify (·.exited) (Child.reaped (waits.status {})) ({} : Child) hi
    have hrunning : (r.children.getD index {}).exited = false := by simpa [child] using hexited
    simp only [hrunning, Child.reaped, Bool.toNat_false, Bool.toNat_true] at hcount
    have hreaped : Follows r { r with
        children := r.children.modify index (Child.reaped (waits.status {}))
        exitedCount := r.exitedCount + 1 } :=
      ⟨fun h => ⟨by rw [h.counted]; exact hcount.symm, h.told⟩, id⟩
    exact hreaped.trans follows_finishIfDone

/-! ## A cancel -/

theorem killed_exited (wait : Result ExitStatus) (child : Child) :
    (Child.killed wait child).exited = true := by
  unfold Child.killed
  split_ifs with hexited
  · exact hexited
  · rfl

/-- Once the children are killed, all of them are counted. -/
theorem Sound.killed (h : r.Sound) (wait : Nat → Result ExitStatus) :
    (r.killAll wait).exitedCount = (r.killAll wait).children.length := by
  have hsplit :=
    List.length_eq_countP_add_countP (fun child : Child => child.exited) (l := r.children)
  have hcounted := h.counted
  have hlen : (r.killAll wait).children.length = r.children.length := List.length_mapIdx
  have hcount : (r.killAll wait).exitedCount =
      r.exitedCount + r.children.countP fun child => !child.exited := rfl
  simp only [Bool.not_eq_true, Bool.decide_eq_false] at hsplit
  omega

theorem Sound.killAll (h : r.Sound) (wait : Nat → Result ExitStatus) : (r.killAll wait).Sound := by
  refine ⟨?_, fun outcome hmem => ?_⟩
  · rw [h.killed wait, eq_comm, List.countP_eq_length]
    intro child hmem
    obtain ⟨i, hi, rfl⟩ := List.mem_mapIdx.mp hmem
    exact killed_exited (wait i) _
  · have hmem : .complete outcome ∈ r.log := by
      simpa [LocalRunner.killAll] using hmem
    exact h.told outcome hmem

theorem follows_dropStdin : Follows r r.dropStdin :=
  follows_aside rfl rfl rfl ⟨_, rfl, fun outcome => by split_ifs <;> simp⟩

theorem follows_cancel (wait : Nat → Result ExitStatus) : Follows r (r.cancel wait) := by
  unfold cancel
  split_ifs
  · exact .refl r
  · have hkilled : Follows r.dropStdin (r.dropStdin.killAll wait) :=
      ⟨fun h => h.killAll wait, id⟩
    exact (follows_dropStdin.trans hkilled).trans follows_closeFinal

theorem Sound.cancel (h : r.Sound) (wait : Nat → Result ExitStatus) :
    (r.cancel wait).done = true := by
  unfold LocalRunner.cancel
  split_ifs with hdone
  · exact hdone
  · exact finishIfDone_done rfl ((follows_dropStdin.sound h).killed wait)

/-! ## The output -/

theorem follows_rearm (disarmed rearmed : Bool) : Follows r (r.rearm disarmed rearmed) := by
  unfold rearm
  split_ifs
  · exact follows_aside rfl rfl rfl ⟨[], by simp, by simp⟩
  · exact follows_closeFinal
  · exact .refl r

theorem follows_deliver (bytes : Bytes) (cancelled : Option (Nat → Result ExitStatus)) :
    Follows r (r.deliver bytes cancelled) := by
  unfold deliver
  split_ifs
  · have hnoted : Follows r (r.note (.output bytes)) := follows_note (by simp)
    cases cancelled with
    | none => exact hnoted
    | some wait => exact hnoted.trans (follows_cancel wait)
  · exact .refl r

theorem follows_readFinal (disarmed rearmed : Bool) (reads : List Read) (bytesRead : Nat) :
    Follows r (readFinal disarmed rearmed reads bytesRead r) := by
  induction reads generalizing r bytesRead with
  | nil => exact follows_rearm disarmed rearmed
  | cons read reads ih =>
    unfold readFinal
    split
    · exact follows_closeFinal
    · have hdelivered := follows_deliver (r := r) ‹Bytes› read.cancelled
      extract_lets delivered
      split_ifs
      · exact hdelivered
      · exact hdelivered.trans (follows_rearm disarmed rearmed)
      · exact hdelivered.trans (ih _)
    · split_ifs
      · exact follows_rearm disarmed rearmed
      · exact follows_closeFinal

theorem follows_onFinalReadable (disarmed rearmed : Bool) (reads : List Read) :
    Follows r (r.onFinalReadable disarmed rearmed reads) := by
  unfold onFinalReadable
  split_ifs
  · exact .refl r
  · have hdisarmed : Follows r { r with finalWatch := some .None } :=
      follows_aside rfl rfl rfl ⟨[], by simp, by simp⟩
    exact hdisarmed.trans (follows_readFinal ..)
  · exact follows_readFinal ..

/-! ## The input -/

/-- Writing to the first stage tells the owner nothing. -/
def Event.Inward : Event → Prop
  | .wrote _ | .dropped _ | .closedStdin => True
  | _ => False

/-- Only the stdin changed. -/
structure Inwards (r r' : LocalRunner) : Prop where
  children : r'.children = r.children
  exitedCount : r'.exitedCount = r.exitedCount
  done : r'.done = r.done
  log : ∃ more, r'.log = r.log ++ more ∧ ∀ e ∈ more, e.Inward

theorem Inwards.refl (r : LocalRunner) : Inwards r r := ⟨rfl, rfl, rfl, [], by simp, by simp⟩

theorem Inwards.trans {a b c : LocalRunner} (h : Inwards a b) (h' : Inwards b c) : Inwards a c := by
  obtain ⟨first, hfirst, hin⟩ := h.log
  obtain ⟨second, hsecond, hin'⟩ := h'.log
  refine ⟨h'.children.trans h.children, h'.exitedCount.trans h.exitedCount, h'.done.trans h.done,
    first ++ second, by rw [hsecond, hfirst, List.append_assoc], fun e he => ?_⟩
  rcases List.mem_append.mp he with he | he
  · exact hin e he
  · exact hin' e he

theorem Inwards.follows (h : Inwards r r') : Follows r r' := by
  obtain ⟨more, hlog, hin⟩ := h.log
  exact follows_aside h.children h.exitedCount h.done
    ⟨more, hlog, fun outcome hmem => hin (.complete outcome) hmem⟩

theorem inwards_writeLoop (writes : List (Result Nat)) : Inwards r (writeLoop writes r) := by
  induction writes generalizing r with
  | nil => exact .refl r
  | cons write writes ih =>
    unfold writeLoop
    split_ifs
    · exact .refl r
    · split
      · exact .refl r
      · have hwrote : Inwards r (r.wrote ‹Nat›) := ⟨rfl, rfl, rfl, [_], rfl, by simp [Event.Inward]⟩
        exact hwrote.trans ih
      · split_ifs
        · exact .refl r
        · exact ⟨rfl, rfl, rfl, [_], rfl, by simp [Event.Inward]⟩

theorem inwards_drainStdin (writes : List (Result Nat)) : Inwards r (r.drainStdin writes) := by
  have hwritten := inwards_writeLoop (r := r) writes
  unfold drainStdin
  extract_lets written
  split_ifs
  · exact hwritten.trans ⟨rfl, rfl, rfl, [.closedStdin], rfl, by simp [Event.Inward]⟩
  · exact hwritten.trans ⟨rfl, rfl, rfl, [], (List.append_nil _).symm, by simp⟩
  · exact hwritten.trans ⟨rfl, rfl, rfl, [], (List.append_nil _).symm, by simp⟩
  · exact hwritten

theorem inwards_writeStdin (writes : List (Result Nat)) (bytes : Bytes) :
    Inwards r (r.writeStdin writes bytes) := by
  unfold writeStdin
  split_ifs
  · have hbuffered : Inwards r { r with stdinBuffer := r.stdinBuffer ++ bytes } :=
      ⟨rfl, rfl, rfl, [], by simp, by simp⟩
    exact hbuffered.trans (inwards_drainStdin writes)
  · exact .refl r

theorem inwards_closeStdin (writes : List (Result Nat)) : Inwards r (r.closeStdin writes) := by
  unfold closeStdin
  split_ifs
  · have hpending : Inwards r { r with stdinEndPending := true } :=
      ⟨rfl, rfl, rfl, [], by simp, by simp⟩
    exact hpending.trans (inwards_drainStdin writes)
  · exact .refl r

theorem follows_step (input : Input) : Follows r (r.step input) := by
  cases input with
  | finalReadable disarmed rearmed reads => exact follows_onFinalReadable disarmed rearmed reads
  | childExit index waits =>
    unfold step
    dsimp only
    split_ifs with hi
    · exact follows_onChildExit hi waits
    · exact .refl r
  | stdinWritable writes =>
    unfold step
    dsimp only
    split_ifs
    · exact (inwards_drainStdin writes).follows
    · exact .refl r
  | writeStdin bytes writes => exact (inwards_writeStdin writes bytes).follows
  | closeStdin writes => exact (inwards_closeStdin writes).follows
  | cancel wait => exact follows_cancel wait

/-! ## The start -/

/-- A chain that was not run yet, or whose start goes on: it told nothing. -/
structure Starting (r : LocalRunner) : Prop where
  counted : r.exitedCount = r.children.countP (·.exited)
  running : r.done = false
  open_ : r.finalClosed = false
  silent : ∀ e ∈ r.log, ∃ index argv, e = .spawned index argv

theorem Starting.sound (h : r.Starting) : r.Sound := by
  refine ⟨h.counted, fun outcome hmem => ?_⟩
  obtain ⟨index, argv, heq⟩ := h.silent _ hmem
  cases heq

theorem Starting.spawnAll (h : r.Starting) (spawn : Nat → Result Unit) (stages : List Stage) :
    (LocalRunner.spawnAll spawn stages r).1.Starting := by
  induction stages generalizing r with
  | nil => exact h
  | cons stage stages ih =>
    unfold LocalRunner.spawnAll
    split
    · exact h
    · refine ih ⟨?_, h.running, h.open_, fun e he => ?_⟩
      · simp [note, List.countP_append, h.counted]
      · rcases List.mem_append.mp he with he | he
        · exact h.silent e he
        · exact ⟨_, _, List.mem_singleton.mp he⟩

/-- A child that exits while the chain starts does not end it: the output is still open. -/
theorem Starting.onChildExit (h : r.Starting) {index : Nat} (hi : index < r.children.length)
    (waits : Waits) : (r.onChildExit index waits).Starting ∧
      (r.onChildExit index waits).children.length = r.children.length := by
  have hsound := (follows_onChildExit hi waits).sound h.sound
  have hfinish : ∀ next : LocalRunner, next.finalClosed = false → next.finishIfDone = next := by
    intro next hopen
    unfold finishIfDone
    rw [if_pos (.inr (.inl (by simp [hopen])))]
  revert hsound
  unfold LocalRunner.onChildExit
  split_ifs with hexited
  · exact fun _ => ⟨h, rfl⟩
  · have hsame := hfinish { r with
      children := r.children.modify index (Child.reaped (waits.status {}))
      exitedCount := r.exitedCount + 1 } h.open_
    rw [hsame]
    exact fun hsound => ⟨⟨hsound.counted, h.running, h.open_, h.silent⟩, List.length_modify ..⟩

theorem Starting.watchChildren (h : r.Starting) (launch : Launch) {indices : List Nat}
    (hindices : ∀ i ∈ indices, i < r.children.length) :
    (LocalRunner.watchChildren launch indices r).1.Starting := by
  induction indices generalizing r with
  | nil => exact h
  | cons i indices ih =>
    unfold LocalRunner.watchChildren
    split
    · exact ih h fun j hj => hindices j (by simp [hj])
    · split_ifs
      · obtain ⟨hnext, hlen⟩ := h.onChildExit (hindices i (by simp)) (launch.waits i)
        exact ih hnext fun j hj => hlen.symm ▸ hindices j (by simp [hj])
      · exact h

theorem Starting.run (h : r.Starting) (launch : Launch) (stages : List Stage)
    (onComplete externalStdin : Bool) :
    (LocalRunner.run launch r stages onComplete externalStdin).1.Starting := by
  unfold LocalRunner.run
  by_cases hstages : stages = []
  · rw [if_pos hstages]
    exact h
  · rw [if_neg hstages]
    extract_lets given
    have hgiven : given.Starting := ⟨h.counted, h.running, h.open_, h.silent⟩
    split
    · exact hgiven
    · have hspawned := hgiven.spawnAll launch.spawn stages
      split
      · rename_i heq
        rwa [heq] at hspawned
      · rename_i spawned heq
        rw [heq] at hspawned
        extract_lets fed
        have hfed : fed.Starting := by
          unfold fed
          split_ifs
          · exact ⟨hspawned.counted, hspawned.running, hspawned.open_, hspawned.silent⟩
          · exact hspawned
        split
        · exact hfed
        · refine Starting.watchChildren (r := { fed with finalWatch := some .Readable })
            ⟨hfed.counted, hfed.running, hfed.open_, hfed.silent⟩ launch fun i hi => ?_
          exact List.mem_range.mp hi

end psx.pipeline.LocalRunner
