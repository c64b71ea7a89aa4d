-- Codes without a code word that starts another one. What is written on a byte
-- channel with such a code can be cut back into its messages in one way only.
import Mathlib.Data.List.Basic

/-- An encoder whose words, for the messages that fit, never start one another. -/
structure PrefixCode (α β : Type*) where
  enc : α → List β
  fits : α → Prop
  enc_ne_nil : ∀ a, enc a ≠ []
  cancel : ∀ a b r r', fits a → fits b → enc a ++ r = enc b ++ r' → a = b ∧ r = r'

namespace PrefixCode

variable {α β : Type*} (code : PrefixCode α β)

/-- The words of a list of messages, one after the other. -/
def encAll (as : List α) : List β := as.flatMap code.enc

@[simp] theorem encAll_nil : code.encAll [] = [] := rfl

@[simp] theorem encAll_cons (a : α) (as : List α) :
    code.encAll (a :: as) = code.enc a ++ code.encAll as := rfl

@[simp] theorem encAll_append (as bs : List α) :
    code.encAll (as ++ bs) = code.encAll as ++ code.encAll bs := by
  simp [encAll]

/-- Messages that fill the start of a channel are the first messages written to it, and
the rest of the channel is the rest of the messages. -/
theorem encAll_cut {as bs : List α} {rest : List β} (ha : ∀ a ∈ as, code.fits a)
    (hb : ∀ b ∈ bs, code.fits b) (h : code.encAll as ++ rest = code.encAll bs) :
    ∃ cs, bs = as ++ cs ∧ rest = code.encAll cs := by
  induction as generalizing bs with
  | nil => exact ⟨bs, rfl, by simpa using h⟩
  | cons a as ih =>
    cases bs with
    | nil =>
      have hnil : code.enc a = [] := by
        have := congrArg List.length h
        simp only [encAll_cons, encAll_nil, List.length_append, List.length_nil] at this
        exact List.eq_nil_of_length_eq_zero (by omega)
      exact absurd hnil (code.enc_ne_nil a)
    | cons b bs =>
      rw [encAll_cons, encAll_cons, List.append_assoc] at h
      obtain ⟨rfl, hrest⟩ :=
        code.cancel a b _ _ (ha a (by simp)) (hb b (by simp)) h
      obtain ⟨cs, rfl, hcs⟩ :=
        ih (fun x hx => ha x (by simp [hx])) (fun x hx => hb x (by simp [hx])) hrest
      exact ⟨cs, rfl, hcs⟩

end PrefixCode
