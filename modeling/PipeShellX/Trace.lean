-- Traces under a monitor. A monitor says which event is allowed after which
-- history; a trace is lawful when the monitor allowed each of its events.
import Mathlib.Data.List.Basic
import Mathlib.Data.List.Induction
import Mathlib.Data.List.Nodup

namespace Trace

variable {ε : Type*} {allowed : List ε → ε → Prop}

/-- Every event of the trace was allowed after the events before it. -/
def Lawful (allowed : List ε → ε → Prop) (tr : List ε) : Prop :=
  ∀ pre e post, tr = pre ++ e :: post → allowed pre e

theorem Lawful.nil : Lawful allowed [] := by
  intro pre e post h
  simp at h

theorem Lawful.snoc {tr : List ε} {e : ε} (h : Lawful allowed tr) (he : allowed tr e) :
    Lawful allowed (tr ++ [e]) := by
  intro pre e' post heq
  rcases List.eq_nil_or_concat post with rfl | ⟨post, x, rfl⟩
  · obtain ⟨rfl, hx⟩ := List.append_inj' heq rfl
    cases hx
    exact he
  · have hcut : tr ++ [e] = (pre ++ e' :: post) ++ [x] := by simpa using heq
    obtain ⟨rfl, -⟩ := List.append_inj' hcut rfl
    exact h pre e' post rfl

/-- A few events more, each allowed after what came before it. -/
theorem Lawful.extend {a b : List ε} (h : Lawful allowed a)
    (hb : ∀ pre e post, b = pre ++ e :: post → allowed (a ++ pre) e) : Lawful allowed (a ++ b) := by
  induction b using List.reverseRecOn with
  | nil => simpa using h
  | append_singleton b e ih =>
    rw [← List.append_assoc]
    apply Lawful.snoc
    · exact ih fun pre e' post heq => hb pre e' (post ++ [e]) (by simp [heq])
    · exact hb b e [] rfl

theorem Lawful.of_append {a b : List ε} (h : Lawful allowed (a ++ b)) : Lawful allowed a := by
  intro pre e post heq
  exact h pre e (post ++ b) (by simp [heq])

theorem Lawful.last {tr : List ε} {e : ε} (h : Lawful allowed (tr ++ [e])) : allowed tr e :=
  h tr e [] rfl

/-- What holds of the empty trace and survives every allowed event holds of every
lawful trace. -/
theorem Lawful.induction {P : List ε → Prop} (nil : P [])
    (snoc : ∀ tr e, Lawful allowed tr → P tr → allowed tr e → P (tr ++ [e]))
    {tr : List ε} (h : Lawful allowed tr) : P tr := by
  induction tr using List.reverseRecOn with
  | nil => exact nil
  | append_singleton tr e ih => exact snoc tr e h.of_append (ih h.of_append) h.last

/-- A trace in which nothing comes twice. -/
theorem lawful_nodup {tr : List ε} : Lawful (fun pre e => e ∉ pre) tr ↔ tr.Nodup := by
  constructor
  · intro h
    induction tr using List.reverseRecOn with
    | nil => exact List.nodup_nil
    | append_singleton tr e ih =>
      have hlast := h.last
      rw [← List.concat_eq_append, List.nodup_concat]
      exact ⟨hlast, ih h.of_append⟩
  · rintro h pre e post rfl hin
    rw [List.nodup_append] at h
    exact h.2.2 e hin e (by simp) rfl

/-- What holds before a fold, and survives each of its steps in turn, holds after it. -/
theorem foldl_induction {σ : Type*} {P : σ → Prop} {f : σ → ε → σ} {s : σ} {tr : List ε} (h : P s)
    (step : ∀ pre e post, tr = pre ++ e :: post → P (pre.foldl f s) → P (f (pre.foldl f s) e)) :
    P (tr.foldl f s) := by
  induction tr using List.reverseRecOn with
  | nil => exact h
  | append_singleton tr e ih =>
    rw [List.foldl_append]
    refine step tr e [] rfl (ih fun pre e' post heq => ?_)
    exact step pre e' (post ++ [e]) (by simp [heq])

/-- What each step brings about for its own event, and every other step keeps, holds for all
events in the end. -/
theorem foldl_reaches {σ : Type*} {P : σ → Prop} {Q : ε → σ → Prop} {f : σ → ε → σ} {s : σ}
    {tr : List ε} (h : P s) (step : ∀ s, ∀ e ∈ tr, P s → P (f s e) ∧ Q e (f s e))
    (keep : ∀ s, ∀ e ∈ tr, P s → ∀ e', Q e' s → Q e' (f s e)) :
    P (tr.foldl f s) ∧ ∀ e ∈ tr, Q e (tr.foldl f s) := by
  induction tr using List.reverseRecOn with
  | nil => exact ⟨h, by simp⟩
  | append_singleton tr x ih =>
    obtain ⟨hP, hQ⟩ := ih (fun s e he => step s e (by simp [he])) fun s e he =>
      keep s e (by simp [he])
    rw [List.foldl_append]
    obtain ⟨hP', hx⟩ := step _ x (by simp) hP
    refine ⟨hP', fun e he => ?_⟩
    rcases List.mem_append.mp he with he | he
    · exact keep _ x (by simp) hP e (hQ e he)
    · rw [List.mem_singleton.mp he]
      exact hx

/-- What did not hold before a fold and holds after it was brought about by one of its steps. -/
theorem foldl_meets {σ : Type*} {P : σ → Prop} {f : σ → ε → σ} {s : σ} {tr : List ε} (h : ¬ P s)
    (hend : P (tr.foldl f s)) :
    ∃ pre e post, tr = pre ++ e :: post ∧ ¬ P (pre.foldl f s) ∧ P (f (pre.foldl f s) e) := by
  by_contra hnone
  refine absurd hend (foldl_induction (P := fun s => ¬ P s) h fun pre e post heq hpre hnext => ?_)
  exact hnone ⟨pre, e, post, heq, hpre, hnext⟩

/-! ## What stands -/

/-- Something that `starts` began, and nothing since then ended. -/
def Since (starts ends : ε → Prop) (tr : List ε) : Prop :=
  ∃ a e b, tr = a ++ e :: b ∧ starts e ∧ ∀ x ∈ b, ¬ ends x

section

variable {starts ends : ε → Prop} {tr : List ε} {e : ε}

theorem Since.start (tr : List ε) (he : starts e) : Since starts ends (tr ++ [e]) :=
  ⟨tr, e, [], rfl, he, by simp⟩

theorem Since.keep (h : Since starts ends tr) (he : ¬ ends e) : Since starts ends (tr ++ [e]) := by
  obtain ⟨a, s, b, rfl, hs, hb⟩ := h
  refine ⟨a, s, b ++ [e], by simp, hs, ?_⟩
  intro x hx
  rcases List.mem_append.mp hx with hx | hx
  · exact hb x hx
  · rw [List.mem_singleton.mp hx]
    exact he

/-- What stands after an event stood before it, or starts with it. -/
theorem Since.of_snoc (h : Since starts ends (tr ++ [e])) :
    Since starts ends tr ∧ ¬ ends e ∨ starts e := by
  obtain ⟨a, s, b, heq, hs, hb⟩ := h
  rcases List.eq_nil_or_concat b with rfl | ⟨b, x, rfl⟩
  · obtain ⟨-, hse⟩ := List.append_inj' heq rfl
    rw [List.singleton_inj] at hse
    exact .inr (hse ▸ hs)
  · have hcut : tr ++ [e] = (a ++ s :: b) ++ [x] := by simpa using heq
    obtain ⟨rfl, hx⟩ := List.append_inj' hcut rfl
    rw [List.singleton_inj] at hx
    subst hx
    exact .inl ⟨⟨a, s, b, rfl, hs, fun y hy => hb y (by simp [hy])⟩, hb e (by simp)⟩

/-- An event that starts nothing leaves what stood, unless it is the end of it. -/
theorem since_snoc (he : ¬ starts e) :
    Since starts ends (tr ++ [e]) ↔ Since starts ends tr ∧ ¬ ends e := by
  constructor
  · intro h
    exact h.of_snoc.resolve_right he
  · rintro ⟨h, hend⟩
    exact h.keep hend

end

/-! ## Projections -/

variable {φ : Type*}

/-- A prefix of a projection ends where one event of the trace projects. -/
theorem split_of_filterMap (f : ε → Option φ) {tr : List ε} {xs ys : List φ} {x : φ}
    (h : tr.filterMap f = xs ++ x :: ys) :
    ∃ pre e post, tr = pre ++ e :: post ∧ f e = some x ∧ pre.filterMap f = xs ∧
      post.filterMap f = ys := by
  induction tr generalizing xs with
  | nil => simp at h
  | cons a tr ih =>
    cases ha : f a with
    | none =>
      rw [List.filterMap_cons_none ha] at h
      obtain ⟨pre, e, post, rfl, he, hpre, hpost⟩ := ih h
      exact ⟨a :: pre, e, post, rfl, he, by rw [List.filterMap_cons_none ha, hpre], hpost⟩
    | some y =>
      rw [List.filterMap_cons_some ha] at h
      cases xs with
      | nil =>
        obtain ⟨rfl, rfl⟩ : y = x ∧ tr.filterMap f = ys := by simpa using h
        exact ⟨[], a, tr, rfl, ha, rfl, rfl⟩
      | cons z xs =>
        obtain ⟨rfl, hrest⟩ : y = z ∧ tr.filterMap f = xs ++ x :: ys := by simpa using h
        obtain ⟨pre, e, post, rfl, he, hpre, hpost⟩ := ih hrest
        exact ⟨a :: pre, e, post, rfl, he, by rw [List.filterMap_cons_some ha, hpre], hpost⟩

end Trace
