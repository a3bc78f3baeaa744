import Mathlib.Tactic.Common
import Mathlib.Data.List.Basic

/-!
# Loops over fallible steps whose effects stay

A step changes a state and may fail; what it changed before it failed stays.  `runAll` takes the
steps of a list in order and stops at the first one that fails.  A run that ends well visits the
whole list (`runAll_ok_induction`), a failed one is a run that ended well followed by one failed
step (`exists_of_runAll_error`), and two loops whose steps agree end alike (`runAll_simulation`).
-/

namespace EffectfulLoop

variable {σ τ α ε : Type*}

/-- Take the steps of a list until one fails. -/
def runAll (step : σ → α → σ × Except ε Unit) : σ → List α → σ × Except ε Unit
  | s, [] => (s, .ok ())
  | s, a :: as =>
      match step s a with
      | (s', .ok ()) => runAll step s' as
      | (s', .error e) => (s', .error e)

variable {step : σ → α → σ × Except ε Unit}

@[simp] lemma runAll_nil (s : σ) : runAll step s [] = (s, .ok ()) := rfl

lemma runAll_cons_ok {s s' : σ} {a : α} (h : step s a = (s', .ok ())) (as : List α) :
    runAll step s (a :: as) = runAll step s' as := by
  rw [runAll, h]

lemma runAll_cons_error {s s' : σ} {a : α} {e : ε} (h : step s a = (s', .error e)) (as : List α) :
    runAll step s (a :: as) = (s', .error e) := by
  rw [runAll, h]

/-- A step of a loop that ends well does so too. -/
lemma runAll_cons_eq_ok {s t : σ} {a : α} {as : List α}
    (h : runAll step s (a :: as) = (t, .ok ())) :
    ∃ s', step s a = (s', .ok ()) ∧ runAll step s' as = (t, .ok ()) := by
  rcases hstep : step s a with ⟨s', _ | _⟩
  · rw [runAll_cons_error hstep] at h
    cases h
  · rw [runAll_cons_ok hstep] at h
    exact ⟨s', rfl, h⟩

/-- A loop over two lists takes the second one when it is through the first. -/
lemma runAll_append (s : σ) (l l' : List α) :
    runAll step s (l ++ l') =
      match runAll step s l with
      | (s', .error e) => (s', .error e)
      | (s', .ok ()) => runAll step s' l' := by
  induction l generalizing s with
  | nil => rfl
  | cons a as ih =>
      rcases h : step s a with ⟨s', e | _⟩
      · rw [List.cons_append, runAll_cons_error h, runAll_cons_error h]
      · rw [List.cons_append, runAll_cons_ok h, runAll_cons_ok h]
        exact ih s'

/-- A loop that ends well is through each of its beginnings. -/
lemma ok_of_runAll_append {s t : σ} {l l' : List α} (h : runAll step s (l ++ l') = (t, .ok ())) :
    ∃ s', runAll step s l = (s', .ok ()) := by
  rw [runAll_append] at h
  rcases hl : runAll step s l with ⟨s', e | _⟩
  · rw [hl] at h
    cases h
  · exact ⟨s', rfl⟩

/-- Loops whose steps are the same where the invariant holds. -/
lemma runAll_map {β : Type*} {step' : σ → β → σ × Except ε Unit} {g : α → β} {I : σ → Prop}
    (hstep : ∀ s a, I s → step s a = step' s (g a) ∧ I (step' s (g a)).1) {s : σ} (hs : I s)
    (l : List α) : runAll step s l = runAll step' s (l.map g) := by
  induction l generalizing s with
  | nil => rfl
  | cons a as ih =>
      obtain ⟨heq, hI⟩ := hstep s a hs
      rw [List.map_cons]
      rcases h : step' s (g a) with ⟨s', e | _⟩
      · rw [runAll_cons_error h, runAll_cons_error (heq.trans h)]
      · rw [runAll_cons_ok h, runAll_cons_ok (heq.trans h)]
        rw [h] at hI
        exact ih hI

/-! ## Invariants -/

/-- What every step keeps, the loop keeps, however it ends. -/
theorem runAll_invariant {I : σ → Prop} (hstep : ∀ s a, I s → I (step s a).1) {s : σ}
    (hs : I s) (l : List α) : I (runAll step s l).1 := by
  induction l generalizing s with
  | nil => exact hs
  | cons a as ih =>
      have hI := hstep s a hs
      rcases h : step s a with ⟨s', _ | _⟩
      · rw [runAll_cons_error h]
        rwa [h] at hI
      · rw [runAll_cons_ok h]
        rw [h] at hI
        exact ih hI

/-- The invariant may depend on the elements that are done. -/
theorem runAll_ok_induction {I : List α → σ → Prop} {l : List α}
    (hstep : ∀ done a rest s s', l = done ++ a :: rest → I done s → step s a = (s', .ok ()) →
      I (done ++ [a]) s') {s t : σ} (hs : I [] s) (h : runAll step s l = (t, .ok ())) : I l t := by
  suffices hgen : ∀ (rest done : List α) (s : σ), l = done ++ rest → I done s →
      runAll step s rest = (t, .ok ()) → I l t from hgen l [] s rfl hs h
  intro rest
  induction rest with
  | nil =>
      intro done s hl hI hrun
      cases hrun
      rwa [hl, List.append_nil]
  | cons a as ih =>
      intro done s hl hI hrun
      obtain ⟨s', ha, hrest⟩ := runAll_cons_eq_ok hrun
      exact ih (done ++ [a]) s' (by rw [hl, List.append_cons]) (hstep done a as s s' hl hI ha) hrest

/-- A loop ends well when the invariant lets every step do so. -/
theorem exists_runAll_ok {I : List α → σ → Prop} {l : List α}
    (hstep : ∀ done a rest, l = done ++ a :: rest → ∀ s, I done s →
      ∃ s', step s a = (s', .ok ()) ∧ I (done ++ [a]) s') {s : σ} (hs : I [] s) :
    ∃ t, runAll step s l = (t, .ok ()) ∧ I l t := by
  suffices hgen : ∀ (rest done : List α) (s : σ), l = done ++ rest → I done s →
      ∃ t, runAll step s rest = (t, .ok ()) ∧ I l t from hgen l [] s rfl hs
  intro rest
  induction rest with
  | nil =>
      intro done s hl hI
      rw [hl, List.append_nil]
      exact ⟨s, rfl, hI⟩
  | cons a as ih =>
      intro done s hl hI
      obtain ⟨s', ha, hI'⟩ := hstep done a as hl s hI
      obtain ⟨t, hrun, ht⟩ := ih (done ++ [a]) s' (by rw [hl, List.append_cons]) hI'
      exact ⟨t, by rw [runAll_cons_ok ha, hrun], ht⟩

/-! ## Failure -/

/-- A failed loop took some steps and then the one that failed. -/
theorem exists_of_runAll_error {s t : σ} {l : List α} {e : ε}
    (h : runAll step s l = (t, .error e)) :
    ∃ done a rest u, l = done ++ a :: rest ∧ runAll step s done = (u, .ok ()) ∧
      step u a = (t, .error e) := by
  induction l generalizing s with
  | nil => cases h
  | cons a as ih =>
      rcases hstep : step s a with ⟨s', _ | _⟩
      · rw [runAll_cons_error hstep] at h
        exact ⟨[], a, as, s, rfl, rfl, hstep.trans h⟩
      · rw [runAll_cons_ok hstep] at h
        obtain ⟨done, b, rest, u, hl, hdone, hb⟩ := ih h
        exact ⟨a :: done, b, rest, u, by rw [hl, List.cons_append], by rw [runAll_cons_ok hstep, hdone],
          hb⟩

/-- A loop whose steps end alike in every state ends well when all of them do. -/
theorem runAll_ok_iff {outcome : α → Except ε Unit} {l : List α}
    (hstep : ∀ s, ∀ a ∈ l, (step s a).2 = outcome a) (s : σ) :
    (runAll step s l).2 = .ok () ↔ ∀ a ∈ l, outcome a = .ok () := by
  induction l generalizing s with
  | nil => simp
  | cons a as ih =>
      have ha := hstep s a List.mem_cons_self
      have has := fun s b hb => hstep s b (List.mem_cons_of_mem a hb)
      rw [List.forall_mem_cons, ← ha]
      rcases h : step s a with ⟨s', e | _⟩
      · rw [runAll_cons_error h]
        simp
      · rw [runAll_cons_ok h, ih has s']
        simp

/-- A loop whose steps write to a log has written what a part of the list from its start writes, the
whole list when it ends well. -/
theorem runAll_log {β : Type*} {log : σ → List β} {emit : α → List β}
    (hstep : ∀ s a, log (step s a).1 = log s ++ emit a) (s : σ) (l : List α) :
    ∃ done rest, l = done ++ rest ∧ log (runAll step s l).1 = log s ++ done.flatMap emit ∧
      ((runAll step s l).2 = .ok () → rest = []) := by
  induction l generalizing s with
  | nil => exact ⟨[], [], rfl, by simp, fun _ => rfl⟩
  | cons a as ih =>
      have ha := hstep s a
      rcases h : step s a with ⟨s', e | _⟩
      · rw [h] at ha
        rw [runAll_cons_error h]
        exact ⟨[a], as, rfl, by simpa using ha, fun herr => by cases herr⟩
      · rw [h] at ha
        rw [runAll_cons_ok h]
        obtain ⟨done, rest, rfl, hlog, hok⟩ := ih s'
        refine ⟨a :: done, rest, rfl, ?_, hok⟩
        rw [hlog, ha, List.flatMap_cons, List.append_assoc]

/-! ## Two loops -/

/-- Two loops whose steps keep a relation and end alike, end alike in related states. -/
theorem runAll_simulation {step' : τ → α → τ × Except ε Unit} {R : σ → τ → Prop}
    (hstep : ∀ s s' a, R s s' → R (step s a).1 (step' s' a).1 ∧ (step s a).2 = (step' s' a).2)
    {s : σ} {s' : τ} (hs : R s s') (l : List α) :
    R (runAll step s l).1 (runAll step' s' l).1 ∧
      (runAll step s l).2 = (runAll step' s' l).2 := by
  induction l generalizing s s' with
  | nil => exact ⟨hs, rfl⟩
  | cons a as ih =>
      obtain ⟨hR, hres⟩ := hstep s s' a hs
      rcases h : step s a with ⟨t, _ | _⟩ <;> rcases h' : step' s' a with ⟨t', _ | _⟩ <;>
        rw [h, h'] at hR hres
      · rw [runAll_cons_error h, runAll_cons_error h']
        exact ⟨hR, hres⟩
      · cases hres
      · cases hres
      · rw [runAll_cons_ok h, runAll_cons_ok h']
        exact ih hR

/-! ## Elements that are left out -/

/-- A loop that leaves the other elements as they are is the loop over the ones that it takes. -/
lemma runAll_filter {step' : σ → α → σ × Except ε Unit} {p : α → Bool}
    (htake : ∀ s a, p a = true → step s a = step' s a)
    (hleave : ∀ s a, p a = false → step s a = (s, .ok ())) (s : σ) (l : List α) :
    runAll step s l = runAll step' s (l.filter p) := by
  induction l generalizing s with
  | nil => rfl
  | cons a as ih =>
      cases hp : p a with
      | false =>
          rw [List.filter_cons_of_neg (by simp [hp]), runAll_cons_ok (hleave s a hp)]
          exact ih s
      | true =>
          rw [List.filter_cons_of_pos hp]
          rcases h : step' s a with ⟨s', e | _⟩
          · rw [runAll_cons_error h, runAll_cons_error ((htake s a hp).trans h)]
          · rw [runAll_cons_ok h, runAll_cons_ok ((htake s a hp).trans h)]
            exact ih s'

end EffectfulLoop
