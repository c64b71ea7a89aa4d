-- The result type of the lower layers: a value, or an error with its class,
-- its platform code and the name of the operation that failed.
import Mathlib.Data.List.Basic

namespace psx

/-- Portable failure classes. -/
inductive ErrorClass
  | Interrupted
  | WouldBlock
  | BrokenPipe
  | Closed
  | NotFound
  | PermissionDenied
  | TooManyHandles
  | InvalidArgument
  | NoSuchProcess
  | Timeout
  | Unsupported
  | Other
  deriving DecidableEq, Repr

def ErrorClass.toString : ErrorClass → String
  | .Interrupted => "interrupted"
  | .WouldBlock => "would block"
  | .BrokenPipe => "broken pipe"
  | .Closed => "closed"
  | .NotFound => "not found"
  | .PermissionDenied => "permission denied"
  | .TooManyHandles => "too many open handles"
  | .InvalidArgument => "invalid argument"
  | .NoSuchProcess => "no such process"
  | .Timeout => "timed out"
  | .Unsupported => "unsupported"
  | .Other => "error"

structure Error where
  cls : ErrorClass
  code : Int
  op : String
  deriving DecidableEq, Repr

/-- The text for logs and users. `platformText` is what the platform says about the code. -/
def Error.message (e : Error) (platformText : String) : String :=
  e.op ++ ": " ++ e.cls.toString ++
    if e.code = 0 then ""
    else
      " (" ++ (if platformText = "" then "" else platformText ++ ", ") ++ "code " ++
        toString e.code ++ ")"

abbrev Result (α : Type) := Except Error α

/-! ## Results that are values -/

section

variable {ε α β : Type}

theorem bind_ok {x : Except ε α} {f : α → Except ε β} {b : β} :
    (x >>= f) = .ok b ↔ ∃ a, x = .ok a ∧ f a = .ok b := by
  cases x <;> simp [bind, Except.bind]

theorem bind_error {x : Except ε α} {f : α → Except ε β} {e : ε} :
    (x >>= f) = .error e ↔ x = .error e ∨ ∃ a, x = .ok a ∧ f a = .error e := by
  cases x <;> simp [bind, Except.bind]

theorem unit_ok {x : Except ε Unit} {p : Unit → Prop} :
    (∃ a, x = .ok a ∧ p a) ↔ x = .ok () ∧ p () :=
  ⟨fun ⟨_, h⟩ => h, fun h => ⟨(), h⟩⟩

theorem pure_ok {a b : β} : (pure a : Except ε β) = .ok b ↔ a = b := by
  simp [pure, Except.pure]

theorem throw_ok {e : ε} {b : β} : ¬ (throw e : Except ε β) = .ok b := by
  simp [throw, throwThe, MonadExceptOf.throw]

/-- A loop that ends well took every item well. -/
theorem foldlM_step {f : β → α → Except ε β} {items : List α} {b b' : β}
    (h : items.foldlM f b = .ok b') : ∀ item ∈ items, ∃ c c', f c item = .ok c' := by
  induction items generalizing b with
  | nil => exact nofun
  | cons item items ih =>
    rw [List.foldlM_cons] at h
    obtain ⟨c, hc, hrest⟩ := bind_ok.mp h
    exact List.forall_mem_cons.mpr ⟨⟨b, c, hc⟩, ih hrest⟩

end

/-- The bytes of a `std::string`, or of a span of it. -/
abbrev Bytes := List UInt8

-- Under a name, so that every search in a list of byte strings rests on the same fact.
instance lawfulBEq_bytes : LawfulBEq Bytes := inferInstance

end psx
