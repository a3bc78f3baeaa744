import Mathlib.Tactic.Common

/-!
# Logged computations

A fallible computation together with the list of events that it caused.  Events stay in the log when
a later step fails; `All` is the invariant rule for what every event satisfies.
-/

universe u v w

/-- The events of a computation and its result. -/
structure Logged (ω : Type u) (ε : Type v) (α : Type w) where
  log : List ω
  result : Except ε α

namespace Logged

variable {ω : Type u} {ε : Type v} {α β : Type w}

/-- A result without events. -/
def lift (x : Except ε α) : Logged ω ε α := ⟨[], x⟩

/-- The second computation runs on the result of the first one. -/
def bind (x : Logged ω ε α) (f : α → Logged ω ε β) : Logged ω ε β :=
  match x.result with
  | .ok a => ⟨x.log ++ (f a).log, (f a).result⟩
  | .error e => ⟨x.log, .error e⟩

/-- The events of a list of computations up to the first failure, with the results. -/
def collect : List (Logged ω ε α) → Logged ω ε (List α)
  | [] => lift (.ok [])
  | x :: xs => x.bind fun a => (collect xs).bind fun as => lift (.ok (a :: as))

/-- Every event satisfies the predicate. -/
def All (P : ω → Prop) (x : Logged ω ε α) : Prop := ∀ e ∈ x.log, P e

variable {P : ω → Prop}

lemma all_lift (x : Except ε α) : All P (lift x) := fun _ h => absurd h List.not_mem_nil

lemma all_bind {x : Logged ω ε α} {f : α → Logged ω ε β} (hx : All P x)
    (hf : ∀ a, x.result = .ok a → All P (f a)) : All P (x.bind f) := by
  unfold bind
  cases hres : x.result with
  | error e => exact hx
  | ok a =>
      intro e he
      rcases List.mem_append.mp he with he | he
      · exact hx e he
      · exact hf a hres e he

lemma all_collect {xs : List (Logged ω ε α)} (h : ∀ x ∈ xs, All P x) : All P (collect xs) := by
  induction xs with
  | nil => exact all_lift _
  | cons x xs ih =>
      refine all_bind (h x List.mem_cons_self) fun a _ => ?_
      refine all_bind (ih fun y hy => h y (List.mem_cons_of_mem _ hy)) fun as _ => ?_
      exact all_lift _

lemma result_bind (x : Logged ω ε α) (f : α → Logged ω ε β) :
    (x.bind f).result = x.result.bind fun a => (f a).result := by
  unfold bind
  cases x.result <;> rfl

/-- The results of a list of computations are collected as without events. -/
lemma result_collect (xs : List (Logged ω ε α)) : (collect xs).result = xs.mapM Logged.result := by
  induction xs with
  | nil => rfl
  | cons x xs ih =>
      rw [collect, result_bind, List.mapM_cons]
      simp only [result_bind, ih]
      rfl

end Logged
