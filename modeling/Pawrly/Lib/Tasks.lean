import Pawrly.Lib.LabelledRun
import Mathlib.Algebra.BigOperators.Group.List.Basic

/-!
# Tasks over a shared state

Tasks are started one after the other and take their steps in any order; a step reads and writes the
shared state and the task that takes it.  Two rules carry what is known of one step to a whole run:
`Kept.holds_of_run`, for what a task knows of the shared state while the others take their steps, and
`framed_of_run`, for what the tasks own together, where a step only has to be checked against an
arbitrary rest.
-/

namespace Tasks

variable {σ τ γ κ : Type*}

/-- The shared state and the tasks, in the order of their start. -/
structure System (σ τ : Type*) where
  shared : σ
  tasks : List τ

/-- What can happen next: a call starts a task, or the task of a number takes a step. -/
inductive Action (γ κ : Type*)
  | start (call : γ)
  | advance (n : ℕ) (choice : κ)

/-- The step of a system whose calls start tasks and whose tasks advance. -/
def step (task : γ → τ) (advance : σ → κ → τ → Option (σ × τ)) (s : System σ τ) :
    Action γ κ → Option (System σ τ)
  | .start call => some { s with tasks := s.tasks ++ [task call] }
  | .advance n choice =>
      (s.tasks[n]?).bind fun t =>
        (advance s.shared choice t).map fun r => ⟨r.1, s.tasks.set n r.2⟩

variable {task : γ → τ} {advance : σ → κ → τ → Option (σ × τ)}

lemma step_advance {s s' : System σ τ} {n : ℕ} {choice : κ}
    (h : step task advance s (.advance n choice) = some s') :
    ∃ t shared t', s.tasks[n]? = some t ∧ advance s.shared choice t = some (shared, t') ∧
      s' = ⟨shared, s.tasks.set n t'⟩ := by
  obtain ⟨t, ht, h⟩ := Option.bind_eq_some_iff.mp h
  obtain ⟨⟨shared, t'⟩, hadvance, rfl⟩ := Option.map_eq_some_iff.mp h
  exact ⟨t, shared, t', ht, hadvance, rfl⟩

/-! ## What the tasks know -/

/-- The shared state has a property and so has each task, under its number. -/
def Holds (I : σ → Prop) (L : ℕ → σ → τ → Prop) (s : System σ τ) : Prop :=
  I s.shared ∧ ∀ n t, s.tasks[n]? = some t → L n s.shared t

/-- A step keeps what is known of the shared state, of the task and of the others, and so does the start
of a task under a number from `k` on. -/
structure Kept (task : γ → τ) (advance : σ → κ → τ → Option (σ × τ)) (k : ℕ) (I : σ → Prop)
    (L : ℕ → σ → τ → Prop) : Prop where
  start : ∀ n s call, k ≤ n → I s → L n s (task call)
  shared : ∀ n s choice t s' t', I s → L n s t → advance s choice t = some (s', t') → I s'
  own : ∀ n s choice t s' t', I s → L n s t → advance s choice t = some (s', t') → L n s' t'
  others : ∀ n s choice t s' t' m u, I s → L n s t → advance s choice t = some (s', t') →
    m ≠ n → L m s u → L m s' u

variable {k : ℕ} {I : σ → Prop} {L : ℕ → σ → τ → Prop}

/-- No task goes away. -/
lemma length_le_step {s s' : System σ τ} {a : Action γ κ} (hstep : step task advance s a = some s') :
    s.tasks.length ≤ s'.tasks.length := by
  cases a with
  | start call =>
      obtain rfl := Option.some.inj hstep
      simp
  | advance n choice =>
      obtain ⟨t, shared, t', ht, hadvance, rfl⟩ := step_advance hstep
      simp

lemma length_le_run {s s' : System σ τ} {as : List (Action γ κ)}
    (hrun : LabelledRun.exec (step task advance) s as = some s') :
    s.tasks.length ≤ s'.tasks.length :=
  (LabelledRun.along_of_exec hrun).invariant (I := fun s' => s.tasks.length ≤ s'.tasks.length)
    (fun _ _ _ hle _ htaken => Nat.le_trans hle (length_le_step htaken)) (Nat.le_refl _)

theorem Kept.holds_of_step (h : Kept task advance k I L) {s s' : System σ τ} {a : Action γ κ}
    (hk : k ≤ s.tasks.length) (hs : Holds I L s) (hstep : step task advance s a = some s') :
    Holds I L s' := by
  obtain ⟨hI, hL⟩ := hs
  cases a with
  | start call =>
      obtain rfl := Option.some.inj hstep
      refine ⟨hI, fun n t ht => ?_⟩
      rw [List.getElem?_append] at ht
      split_ifs at ht with hn
      · exact hL n t ht
      · have hmem := List.mem_of_getElem? ht
        rw [List.mem_singleton.mp hmem]
        exact h.start n _ call (Nat.le_trans hk (Nat.le_of_not_lt hn)) hI
  | advance n choice =>
      obtain ⟨t, shared, t', ht, hadvance, rfl⟩ := step_advance hstep
      have hown := hL n t ht
      refine ⟨h.shared n _ choice t _ t' hI hown hadvance, fun m u hu => ?_⟩
      by_cases hm : m = n
      · subst hm
        have hlt := (List.getElem?_eq_some_iff.mp ht).1
        obtain rfl : t' = u := by simpa [List.getElem?_set, hlt] using hu
        exact h.own m _ choice t _ t' hI hown hadvance
      · have hsame : s.tasks[m]? = some u := by simpa [List.getElem?_set, Ne.symm hm] using hu
        exact h.others n _ choice t _ t' m u hI hown hadvance hm (hL m u hsame)

/-- What every step keeps holds after every run. -/
theorem Kept.holds_of_run (h : Kept task advance k I L) {s s' : System σ τ}
    {as : List (Action γ κ)} (hk : k ≤ s.tasks.length) (hs : Holds I L s)
    (hrun : LabelledRun.exec (step task advance) s as = some s') : Holds I L s' := by
  have hinvariant := (LabelledRun.along_of_exec hrun).invariant
    (I := fun s => k ≤ s.tasks.length ∧ Holds I L s)
    (fun s a s' hI _ htaken => ⟨Nat.le_trans hI.1 (length_le_step htaken),
      h.holds_of_step hI.1 hI.2 htaken⟩) ⟨hk, hs⟩
  exact hinvariant.2

/-! ## What the tasks own -/

section

variable {M : Type*} [AddCommMonoid M] {P : σ → M → Prop}

/-- What all tasks own. -/
def owned (own : τ → M) (tasks : List τ) : M := (tasks.map own).sum

lemma exists_rest (own : τ → M) {tasks : List τ} {n : ℕ} {t : τ} (h : tasks[n]? = some t) :
    ∃ rest, owned own tasks = own t + rest ∧
      ∀ t', owned own (tasks.set n t') = own t' + rest := by
  obtain ⟨hn, rfl⟩ := List.getElem?_eq_some_iff.mp h
  refine ⟨owned own (tasks.take n) + owned own (tasks.drop (n + 1)), ?_, fun t' => ?_⟩
  · have hsplit : tasks = tasks.take n ++ tasks[n] :: tasks.drop (n + 1) := by simp
    conv_lhs => rw [hsplit]
    simp only [owned, List.map_append, List.map_cons, List.sum_append, List.sum_cons]
    exact add_left_comm _ _ _
  · rw [List.set_eq_take_append_cons_drop, if_pos hn]
    simp only [owned, List.map_append, List.map_cons, List.sum_append, List.sum_cons]
    exact add_left_comm _ _ _

/-- Two tasks own their parts beside each other; `t₀` owns nothing. -/
lemma exists_rest_pair (own : τ → M) (t₀ : τ) (h₀ : own t₀ = 0) {tasks : List τ} {n m : ℕ} {t u : τ}
    (hne : n ≠ m) (hn : tasks[n]? = some t) (hm : tasks[m]? = some u) :
    ∃ rest, owned own tasks = own t + (own u + rest) := by
  obtain ⟨rest, hrest, hset⟩ := exists_rest own hn
  have hm' : (tasks.set n t₀)[m]? = some u := by rw [List.getElem?_set_ne hne, hm]
  obtain ⟨rest', hrest', -⟩ := exists_rest own hm'
  refine ⟨rest', ?_⟩
  rw [hrest, ← hrest', hset, h₀, zero_add]

/-- A property of the shared state and of what the tasks own together, which holds after a step
whatever the other tasks own, holds after every run. -/
theorem framed_of_run (own : τ → M) (hstart : ∀ call, own (task call) = 0)
    (hstep : ∀ s choice t s' t' rest, P s (own t + rest) →
      advance s choice t = some (s', t') → P s' (own t' + rest))
    {s s' : System σ τ} {as : List (Action γ κ)} (hs : P s.shared (owned own s.tasks))
    (hrun : LabelledRun.exec (step task advance) s as = some s') :
    P s'.shared (owned own s'.tasks) := by
  refine (LabelledRun.along_of_exec hrun).invariant
    (I := fun s => P s.shared (owned own s.tasks)) (fun s a s' hP _ htaken => ?_) hs
  cases a with
  | start call =>
      obtain rfl := Option.some.inj htaken
      have hnone : owned own (s.tasks ++ [task call]) = owned own s.tasks := by
        simp [owned, hstart]
      rwa [hnone]
  | advance n choice =>
      obtain ⟨t, shared, t', ht, hadvance, rfl⟩ := step_advance htaken
      obtain ⟨rest, hrest, hset⟩ := exists_rest own ht
      rw [hrest] at hP
      rw [hset]
      exact hstep _ choice t _ t' rest hP hadvance

end

end Tasks
