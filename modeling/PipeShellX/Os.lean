-- What the operating system says of a process and of a watched handle.
import PipeShellX.Result

namespace psx.os

/-- How a process can end. -/
inductive ExitStatus.Kind
  | Exited
  | Signaled
  | Terminated
  deriving DecidableEq, Repr

/-- How a process ended. -/
structure ExitStatus where
  kind : ExitStatus.Kind := .Exited
  code : Int32 := 0
  deriving DecidableEq

/-- What a descriptor is watched for. -/
inductive Interest
  | None
  | Readable
  | Writable
  deriving DecidableEq

/-- What `tryWait` and, where it has no status, `wait` say of a child. -/
structure Waits where
  tryWait : Result (Option ExitStatus)
  wait : Result ExitStatus

/-- The status of a child whose exit was notified, or `status` when neither call has one. -/
def Waits.status (waits : Waits) (status : ExitStatus) : ExitStatus :=
  match waits.tryWait with
  | .ok (some status) => status
  | _ =>
    match waits.wait with
    | .ok status => status
    | .error _ => status

/-- What the two calls returned. -/
def Waits.answer (waits : Waits) : Option ExitStatus :=
  match waits.tryWait with
  | .ok (some status) => some status
  | _ =>
    match waits.wait with
    | .ok status => some status
    | .error _ => none

theorem Waits.status_eq (waits : Waits) (status : ExitStatus) :
    waits.status status = waits.answer.getD status := by
  unfold Waits.status Waits.answer
  split
  · rfl
  · split
    · rfl
    · rfl

/-- How `waitpid` says it: the word of an exit has no signal bits, and that of a stop has all. -/
def decode (status : UInt32) : ExitStatus :=
  if status &&& 0x7f = 0 then ⟨.Exited, (status >>> 8 &&& 0xff).toInt32⟩
  else if status &&& 0x7f ≠ 0x7f then ⟨.Signaled, (status &&& 0x7f).toInt32⟩
  else ⟨.Terminated, status.toInt32⟩

/-- A status that the calls can return: each decodes what it has from the system. -/
def ExitStatus.Decoded (status : ExitStatus) : Prop := ∃ word, status = decode word

/-- The status comes from the kernel. -/
def Waits.Decoded (waits : Waits) : Prop := ∀ status, waits.answer = some status → status.Decoded

/-- Only a process that exits has such a code. -/
theorem ExitStatus.Decoded.code_ne {status : ExitStatus} (h : status.Decoded)
    (hkind : status.kind ≠ .Exited) : status.code.toInt ≠ -128 := by
  have hword : ∀ word : UInt32, word.toInt32.toInt = -128 → word = 0xffffff80 := by
    intro word hcode
    have hcode : word.toInt32 = -128 := Int32.toInt_inj.mp hcode
    rw [← UInt32.toUInt32_toInt32 word, hcode]
    rfl
  obtain ⟨word, rfl⟩ := h
  intro hcode
  unfold decode at hkind hcode
  by_cases hexited : word &&& 0x7f = 0
  · rw [if_pos hexited] at hkind
    exact absurd rfl hkind
  · rw [if_neg hexited] at hcode
    by_cases hsignaled : word &&& 0x7f ≠ 0x7f
    · rw [if_pos hsignaled] at hcode
      have hlarge : (word &&& 0x7f).toNat = 0xffffff80 := congrArg UInt32.toNat (hword _ hcode)
      have hsmall : (word &&& 0x7f).toNat ≤ 0x7f := by
        rw [UInt32.toNat_and]
        exact Nat.and_le_right
      omega
    · rw [if_neg hsignaled] at hcode
      rw [hword word hcode] at hexited
      exact absurd rfl hexited

end psx.os
