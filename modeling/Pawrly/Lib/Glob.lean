import Mathlib.Tactic.Common
import Mathlib.Data.List.Infix

/-!
# Glob patterns

Patterns over an alphabet one letter of which, the star, stands for any text.  The stars cut a pattern
into segments, and a text is one that the pattern stands for when the segments occur in it one after
the other, the first one at its start and the last one at its end (`expands_iff`).  An inner segment
may be taken at its first occurrence (`after_first`).
-/

namespace Glob

variable {α : Type*}

/-- The text is the pattern with some text in place of each star. -/
inductive Expands (star : α) : List α → List α → Prop
  | nil : Expands star [] []
  | lit {a : α} {p t : List α} (ha : a ≠ star) (h : Expands star p t) :
      Expands star (a :: p) (a :: t)
  | star {p t : List α} (u : List α) (h : Expands star p t) : Expands star (star :: p) (u ++ t)

/-- The segments behind a star occur in order, the last one at the end. -/
def After : List (List α) → List α → Prop
  | [], _ => False
  | [last], t => last <:+ t
  | seg :: next :: rest, t => ∃ u v, t = u ++ (seg ++ v) ∧ After (next :: rest) v

/-- The segments of a pattern occur in order, the first one at the start and the last one at the
end. -/
def Fits : List (List α) → List α → Prop
  | [], _ => False
  | [only], t => t = only
  | first :: next :: rest, t => ∃ v, t = first ++ v ∧ After (next :: rest) v

/-! ## Segments behind a star -/

lemma After.append {segs : List (List α)} {t : List α} (h : After segs t) (u : List α) :
    After segs (u ++ t) := by
  match segs, h with
  | [_], h => exact h.trans (List.suffix_append u t)
  | _ :: _ :: _, ⟨u', v, ht, hv⟩ => exact ⟨u ++ u', v, by rw [ht, List.append_assoc], hv⟩

/-- The first occurrence of a segment leaves most of the text for the others. -/
lemma after_first {seg next u v : List α} {rest : List (List α)}
    (hfirst : ∀ u' v', u ++ (seg ++ v) = u' ++ (seg ++ v') → u.length ≤ u'.length) :
    After (seg :: next :: rest) (u ++ (seg ++ v)) ↔ After (next :: rest) v := by
  constructor
  · rintro ⟨u', v', ht, hv'⟩
    have hle := hfirst u' v' ht
    have hsuffix : v' <:+ v := by
      have hlen := congrArg List.length ht
      simp only [List.length_append] at hlen
      have hwhole : v <:+ u ++ (seg ++ v) := ⟨u ++ seg, by rw [List.append_assoc]⟩
      refine List.suffix_of_suffix_length_le ?_ hwhole ?_
      · exact ⟨u' ++ seg, by rw [ht, List.append_assoc]⟩
      · omega
    obtain ⟨w, rfl⟩ := hsuffix
    exact hv'.append w
  · exact fun h => ⟨u, v, rfl, h⟩

/-- An empty segment says nothing. -/
lemma after_nil_cons {next : List α} {rest : List (List α)} {t : List α} :
    After ([] :: next :: rest) t ↔ After (next :: rest) t := by
  constructor
  · rintro ⟨u, v, rfl, hv⟩
    exact (hv.append []).append u
  · exact fun h => ⟨[], t, rfl, h⟩

lemma after_iff_fits {segs : List (List α)} {t : List α} :
    After segs t ↔ ∃ u v, t = u ++ v ∧ Fits segs v := by
  match segs with
  | [] => simp [After, Fits]
  | [last] =>
      constructor
      · rintro ⟨u, rfl⟩
        exact ⟨u, last, rfl, rfl⟩
      · rintro ⟨u, v, rfl, rfl⟩
        exact ⟨u, rfl⟩
  | seg :: next :: rest =>
      constructor
      · rintro ⟨u, v, rfl, hv⟩
        exact ⟨u, seg ++ v, rfl, v, rfl, hv⟩
      · rintro ⟨u, _, rfl, v, rfl, hv⟩
        exact ⟨u, v, rfl, hv⟩

/-! ## The segments of a pattern -/

lemma fits_modifyHead {a : α} {segs : List (List α)} {t : List α} :
    Fits (segs.modifyHead (List.cons a)) t ↔ ∃ t', t = a :: t' ∧ Fits segs t' := by
  match segs with
  | [] => simp [Fits]
  | [only] => simp [Fits]
  | first :: next :: rest =>
      constructor
      · rintro ⟨v, rfl, hv⟩
        exact ⟨first ++ v, rfl, v, rfl, hv⟩
      · rintro ⟨_, rfl, v, rfl, hv⟩
        exact ⟨v, rfl, hv⟩

/-- A star makes two segments at least. -/
lemma splitOn_of_mem [DecidableEq α] {star : α} {p : List α} (h : star ∈ p) :
    ∃ first next rest, p.splitOn star = first :: next :: rest := by
  obtain ⟨first, p', rfl, hfirst⟩ := List.eq_append_cons_of_mem h
  obtain ⟨next, rest, hnext⟩ := List.exists_cons_of_ne_nil (List.splitOn_ne_nil star p')
  exact ⟨first, next, rest, by rw [List.splitOn_append_cons_self_of_not_mem hfirst, hnext]⟩

/-- A text is one that the pattern stands for when the segments between the stars fit it. -/
theorem expands_iff [DecidableEq α] {star : α} {p t : List α} :
    Expands star p t ↔ Fits (p.splitOn star) t := by
  induction p generalizing t with
  | nil =>
      constructor
      · intro h
        cases h
        rfl
      · intro h
        obtain rfl : t = [] := h
        exact .nil
  | cons a p ih =>
      rw [List.splitOn_cons_eq_if_modifyHead]
      by_cases ha : a = star
      · subst ha
        simp only [beq_self_eq_true, if_true]
        have hafter : Fits ([] :: p.splitOn a) t ↔ After (p.splitOn a) t := by
          obtain ⟨next, rest, hsegs⟩ := List.exists_cons_of_ne_nil (List.splitOn_ne_nil a p)
          rw [hsegs]
          exact ⟨fun ⟨v, ht, hv⟩ => by rwa [ht], fun h => ⟨t, rfl, h⟩⟩
        rw [hafter, after_iff_fits]
        constructor
        · intro h
          cases h with
          | lit ha _ => exact absurd rfl ha
          | @star _ v u hv => exact ⟨u, v, rfl, ih.mp hv⟩
        · rintro ⟨u, v, rfl, hv⟩
          exact .star u (ih.mpr hv)
      · simp only [beq_iff_eq, ha, if_false]
        rw [fits_modifyHead]
        constructor
        · intro h
          cases h with
          | @lit _ _ v _ hv => exact ⟨v, rfl, ih.mp hv⟩
          | star u hv => exact absurd rfl ha
        · rintro ⟨v, rfl, hv⟩
          exact .lit ha (ih.mpr hv)

end Glob
