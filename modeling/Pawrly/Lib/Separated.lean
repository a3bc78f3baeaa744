import Mathlib.Data.List.Basic

/-!
# Lists written with separators

Lists are written as one, with a separator between them.  Where it is a single letter, the lists are cut
out again without it (`notMem_of_mem_splitOn`).  Where two lists have a doubled letter between them,
neither need be free of the letter, so the text may be read in several ways: `joined_eq_iff` says which
pairs have one text.
-/

namespace Separated

variable {α : Type*} {u : α} {a b c d : List α}

/-! ## Any number of lists -/

/-- What is no part of the separator is in one of the lists. -/
lemma mem_intercalate {x : α} {sep : List α} (hsep : x ∉ sep) {ls : List (List α)} :
    x ∈ sep.intercalate ls ↔ ∃ l ∈ ls, x ∈ l := by
  induction ls with
  | nil => simp [List.intercalate_nil]
  | cons l ls ih =>
      cases ls with
      | nil => simp [List.intercalate_singleton]
      | cons l' ls =>
          rw [List.intercalate_cons_cons, List.mem_append, List.mem_append, ih,
            List.exists_mem_cons_iff]
          simp [hsep]

/-- The separator is in none of the lists that a list is cut into. -/
lemma notMem_of_mem_splitOn [DecidableEq α] {sep : α} {l part : List α} (h : part ∈ l.splitOn sep) :
    sep ∉ part := by
  induction l generalizing part with
  | nil =>
      rw [List.splitOn_nil, List.mem_singleton] at h
      rw [h]
      exact List.not_mem_nil
  | cons a l ih =>
      obtain ⟨first, rest, hsplit⟩ := List.exists_cons_of_ne_nil (List.splitOn_ne_nil sep l)
      rw [List.splitOn_cons_eq_if_modifyHead] at h
      split_ifs at h with ha
      · rcases List.mem_cons.mp h with rfl | h
        · exact List.not_mem_nil
        · exact ih h
      · rw [hsplit, List.modifyHead_cons, List.mem_cons] at h
        rcases h with rfl | h
        · have hfirst : sep ∉ first := ih (hsplit ▸ List.mem_cons_self)
          intro hmem
          rcases List.mem_cons.mp hmem with rfl | hmem
          · exact ha (beq_self_eq_true _)
          · exact hfirst hmem
        · exact ih (hsplit ▸ List.mem_cons_of_mem _ h)

/-- Lists without the separator are cut out again of what they are written as with one behind each. -/
lemma splitOn_flatMap [DecidableEq α] {sep : α} {ls : List (List α)} (h : ∀ l ∈ ls, sep ∉ l) :
    (ls.flatMap fun l => l ++ [sep]).splitOn sep = ls ++ [[]] := by
  induction ls with
  | nil => rfl
  | cons l ls ih =>
      obtain ⟨hl, hls⟩ := List.forall_mem_cons.mp h
      rw [List.flatMap_cons, List.append_assoc, List.singleton_append,
        List.splitOn_append_cons_self, ih hls, List.splitOn_eq_singleton hl]
      rfl

/-- A beginning of what lists are written as with a separator behind each begins with the first of
them. -/
lemma le_of_flatMap_le {sep : α} {ls ls' : List (List α)} {last : List α} (h : ∀ l ∈ ls, sep ∉ l)
    (h' : ∀ l ∈ ls', sep ∉ l)
    (hle : (ls.flatMap fun l => l ++ [sep]) ++ last <+: ls'.flatMap fun l => l ++ [sep]) :
    ls <+: ls' := by
  induction ls generalizing ls' with
  | nil => exact List.nil_prefix
  | cons l ls ih =>
      obtain ⟨hl, hls⟩ := List.forall_mem_cons.mp h
      obtain ⟨rest, hrest⟩ := hle
      cases ls' with
      | nil => simp at hrest
      | cons l' ls' =>
          obtain ⟨hl', hls'⟩ := List.forall_mem_cons.mp h'
          simp only [List.flatMap_cons, List.append_assoc, List.cons_append] at hrest
          have hsame : l = l' ∧ (ls.flatMap fun l => l ++ [sep]) ++ (last ++ rest) =
              ls'.flatMap fun l => l ++ [sep] := by
            rcases List.append_eq_append_iff.mp hrest with ⟨mid, rfl, hmid⟩ | ⟨mid, rfl, hmid⟩
            · cases mid with
              | nil => simpa using hmid
              | cons x mid =>
                  obtain ⟨rfl, -⟩ := List.cons.inj hmid
                  simp at hl'
            · cases mid with
              | nil => simpa using hmid.symm
              | cons x mid =>
                  obtain ⟨rfl, -⟩ := List.cons.inj hmid
                  simp at hl
          rw [hsame.1, List.prefix_cons_inj]
          exact ih hls hls' ⟨rest, by rw [List.append_assoc]; exact hsame.2⟩

/-- Lists without the separator can be told from what they are written as. -/
lemma intercalate_inj [DecidableEq α] {sep : α} {ls ls' : List (List α)} (hne : ls ≠ [])
    (hne' : ls' ≠ []) (h : ∀ l ∈ ls, sep ∉ l) (h' : ∀ l ∈ ls', sep ∉ l) :
    [sep].intercalate ls = [sep].intercalate ls' ↔ ls = ls' := by
  constructor
  · intro heq
    rw [← List.splitOn_intercalate sep h hne, heq, List.splitOn_intercalate sep h' hne']
  · exact fun heq => by rw [heq]

/-! ## Pairs with a doubled letter -/

/-- The pair, with the letter doubled between its parts. -/
def joined (u : α) (a b : List α) : List α := a ++ u :: u :: b

/-- The second pair has the text of the first, read with a later separator: one letter later, or at
another doubled letter. -/
inductive Shifted (u : α) : List α → List α → List α → List α → Prop
  | one (a d : List α) : Shifted u a (u :: d) (a ++ [u]) d
  | more (a x d : List α) : Shifted u a (x ++ u :: u :: d) (a ++ u :: u :: x) d

lemma Shifted.joined_eq (h : Shifted u a b c d) : joined u a b = joined u c d := by
  cases h <;> simp [joined]

lemma Shifted.length_lt (h : Shifted u a b c d) : a.length < c.length := by
  cases h <;> simp

lemma joined_prefix {x : List α} (h : u :: u :: b = x ++ u :: u :: d) :
    (x = [] ∧ b = d) ∨ Shifted u a b (a ++ x) d := by
  match x with
  | [] =>
      refine .inl ⟨rfl, ?_⟩
      simpa using h
  | [v] =>
      simp only [List.singleton_append, List.cons.injEq, true_and] at h
      obtain ⟨rfl, rfl⟩ := h
      exact .inr (.one a d)
  | v :: w :: x =>
      simp only [List.cons_append, List.cons.injEq] at h
      obtain ⟨rfl, rfl, rfl⟩ := h
      exact .inr (.more a x d)

/-- Two pairs have one text only as readings of each other. -/
lemma joined_eq_iff :
    joined u a b = joined u c d ↔
      (a = c ∧ b = d) ∨ Shifted u a b c d ∨ Shifted u c d a b := by
  constructor
  · intro h
    rcases List.append_eq_append_iff.mp h with ⟨x, rfl, hx⟩ | ⟨x, rfl, hx⟩
    · rcases joined_prefix hx with ⟨rfl, rfl⟩ | hshifted
      · exact .inl ⟨(List.append_nil a).symm, rfl⟩
      · exact .inr (.inl hshifted)
    · rcases joined_prefix hx with ⟨rfl, rfl⟩ | hshifted
      · exact .inl ⟨List.append_nil c, rfl⟩
      · exact .inr (.inr hshifted)
  · rintro (⟨rfl, rfl⟩ | h | h)
    · rfl
    · exact h.joined_eq
    · exact h.joined_eq.symm

/-- A first part without the doubled letter can only be one letter longer. -/
lemma Shifted.of_free (h : Shifted u a b c d) (hfree : ¬ [u, u] <:+: c) : c = a ++ [u] ∧ b = u :: d := by
  cases h with
  | one => exact ⟨rfl, rfl⟩
  | more x => exact absurd ⟨a, x, by simp⟩ hfree

end Separated
