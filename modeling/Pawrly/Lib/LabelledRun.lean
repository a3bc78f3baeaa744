import Mathlib.Tactic.Common
import Mathlib.Data.List.Basic

/-!
# Runs of labelled steps

A system is a partial step function: a label says which step is tried and `none` that it is not
enabled.  `Along ok` is a run in which every step is taken in a state that meets a condition; an
invariant that such steps keep holds at the end of the run (`Along.invariant`), and what it gives
for a single step holds of every step of the run (`Along.every`).
-/

namespace LabelledRun

variable {σ α : Type*}

/-- The state after the steps of a list. -/
def exec (step : σ → α → Option σ) : σ → List α → Option σ
  | s, [] => some s
  | s, a :: as => (step s a).bind fun s' => exec step s' as

/-- A run whose steps are taken in states that meet a condition. -/
inductive Along (step : σ → α → Option σ) (ok : σ → α → Prop) : σ → List α → σ → Prop
  | nil (s : σ) : Along step ok s [] s
  | cons {s s' s'' : σ} {a : α} {as : List α} (meets : ok s a) (taken : step s a = some s')
      (rest : Along step ok s' as s'') : Along step ok s (a :: as) s''

/-- What holds of every step of a run. -/
def Every (step : σ → α → Option σ) (P : σ → α → σ → Prop) : σ → List α → Prop
  | _, [] => True
  | s, a :: as => ∀ s', step s a = some s' → P s a s' ∧ Every step P s' as

variable {step : σ → α → Option σ} {ok : σ → α → Prop}

lemma Along.exec {s s' : σ} {as : List α} (h : Along step ok s as s') :
    exec step s as = some s' := by
  induction h with
  | nil s => rfl
  | cons _ taken _ ih =>
      unfold LabelledRun.exec
      rw [taken, Option.bind_some, ih]

/-- One run after the other. -/
lemma exec_append {s s' s'' : σ} {as as' : List α} (h : exec step s as = some s')
    (h' : exec step s' as' = some s'') : exec step s (as ++ as') = some s'' := by
  induction as generalizing s with
  | nil =>
      cases h
      exact h'
  | cons a as ih =>
      obtain ⟨t, ht, h⟩ := Option.bind_eq_some_iff.mp h
      simp only [List.cons_append, exec, ht, Option.bind_some]
      exact ih h

/-- A run in which nothing is asked of the steps. -/
lemma along_of_exec {s s' : σ} {as : List α} (h : exec step s as = some s') :
    Along step (fun _ _ => True) s as s' := by
  induction as generalizing s with
  | nil =>
      cases h
      exact .nil _
  | cons a as ih =>
      obtain ⟨t, ht, h⟩ := Option.bind_eq_some_iff.mp h
      exact .cons trivial ht (ih h)

/-- The induction rule of runs. -/
theorem Along.invariant {I : σ → Prop}
    (hstep : ∀ s a s', I s → ok s a → step s a = some s' → I s') {s s' : σ} {as : List α}
    (h : Along step ok s as s') (hs : I s) : I s' := by
  induction h with
  | nil s => exact hs
  | cons meets taken _ ih => exact ih (hstep _ _ _ hs meets taken)

/-- What an invariant gives for one step holds of every step of a run. -/
theorem Every.of_invariant {I : σ → Prop} {P : σ → α → σ → Prop}
    (hstep : ∀ s a s', I s → step s a = some s' → P s a s' ∧ I s') {s : σ} (hs : I s)
    (as : List α) : Every step P s as := by
  induction as generalizing s with
  | nil => trivial
  | cons a as ih =>
      intro s' taken
      obtain ⟨hP, hI⟩ := hstep s a s' hs taken
      exact ⟨hP, ih hI⟩

/-- The same, of a run whose steps are known to meet a condition. -/
theorem Every.mono_of_invariant {I : σ → Prop} {P Q : σ → α → σ → Prop}
    (hstep : ∀ s a s', I s → P s a s' → step s a = some s' → Q s a s' ∧ I s') {s : σ} (hs : I s)
    (as : List α) (h : Every step P s as) : Every step Q s as := by
  induction as generalizing s with
  | nil => trivial
  | cons a as ih =>
      intro s' taken
      obtain ⟨hP, hrest⟩ := h s' taken
      obtain ⟨hQ, hI⟩ := hstep s a s' hs hP taken
      exact ⟨hQ, ih hI hrest⟩

end LabelledRun
