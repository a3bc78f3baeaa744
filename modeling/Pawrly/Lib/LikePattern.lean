import Mathlib.Tactic.Common
import Mathlib.Data.List.Infix

/-!
# `LIKE` patterns

Patterns over an alphabet with a wildcard for any text, one for any letter, and a letter that
escapes the next one.  A pattern is read into marks, and the marks are matched against a text.

A text that is put into a pattern stands for itself when none of its letters is special
(`marks_append_of_plain`).  Conversely the shortest text that the pattern matches is the text itself
only when it is plain (`plain_of_shortest`), so the patterns for occurrence, prefix and suffix are
right precisely for plain texts (`occurs_iff`, `prefix_iff`, `suffix_iff`).
-/

namespace LikePattern

variable {α : Type*} [DecidableEq α]

/-- The special letters of patterns. -/
structure Wildcards (α : Type*) where
  many : α
  one : α
  escape : α
  many_ne_one : many ≠ one
  escape_ne_many : escape ≠ many
  escape_ne_one : escape ≠ one

/-- A position of a pattern. -/
inductive Mark (α : Type*)
  | lit (a : α)
  | one
  | many

variable (w : Wildcards α)

/-- A letter that is not escaped. -/
def Wildcards.mark (a : α) : Mark α :=
  if a = w.many then .many else if a = w.one then .one else .lit a

/-- Read a pattern; an escape at its end stands for itself. -/
def Wildcards.marks : List α → List (Mark α)
  | [] => []
  | [a] => [w.mark a]
  | a :: b :: as => if a = w.escape then .lit b :: marks as else w.mark a :: marks (b :: as)

/-- Some suffix of the text meets the test. -/
def anySuffix (p : List α → Bool) : List α → Bool
  | [] => p []
  | a :: as => p (a :: as) || anySuffix p as

/-- The text is one that the marks stand for. -/
def matchMarks : List (Mark α) → List α → Bool
  | [], s => s.isEmpty
  | .lit a :: ms, s =>
      match s with
      | [] => false
      | b :: s => decide (a = b) && matchMarks ms s
  | .one :: ms, s =>
      match s with
      | [] => false
      | _ :: s => matchMarks ms s
  | .many :: ms, s => anySuffix (matchMarks ms) s

/-- `s LIKE pattern`. -/
def Wildcards.like (pattern s : List α) : Bool := matchMarks (w.marks pattern) s

/-! ## Matching -/

omit [DecidableEq α] in
lemma anySuffix_iff {p : List α → Bool} {s : List α} :
    anySuffix p s = true ↔ ∃ u v, s = u ++ v ∧ p v = true := by
  induction s with
  | nil => simp [anySuffix]
  | cons a s ih =>
      rw [anySuffix, Bool.or_eq_true, ih]
      constructor
      · rintro (h | ⟨u, v, rfl, h⟩)
        · exact ⟨[], a :: s, rfl, h⟩
        · exact ⟨a :: u, v, rfl, h⟩
      · rintro ⟨u, v, hs, h⟩
        cases u with
        | nil =>
            rw [List.nil_append] at hs
            exact .inl (hs ▸ h)
        | cons b u =>
            obtain ⟨rfl, rfl⟩ := List.cons.inj hs
            exact .inr ⟨u, v, rfl, h⟩

lemma matchMarks_many {ms : List (Mark α)} {s : List α} :
    matchMarks (.many :: ms) s = true ↔ ∃ u v, s = u ++ v ∧ matchMarks ms v = true := by
  rw [matchMarks, anySuffix_iff]

/-- Letters before further marks. -/
lemma matchMarks_lits (v : List α) {ms : List (Mark α)} {s : List α} :
    matchMarks (v.map .lit ++ ms) s = true ↔ ∃ t, s = v ++ t ∧ matchMarks ms t = true := by
  induction v generalizing s with
  | nil => simp
  | cons a v ih =>
      cases s with
      | nil => simp [matchMarks]
      | cons b s =>
          rw [List.map_cons, List.cons_append, matchMarks, Bool.and_eq_true, decide_eq_true_iff, ih]
          constructor
          · rintro ⟨rfl, t, rfl, ht⟩
            exact ⟨t, rfl, ht⟩
          · rintro ⟨t, hs, ht⟩
            obtain ⟨rfl, rfl⟩ := List.cons.inj hs
            exact ⟨rfl, t, rfl, ht⟩

lemma matchMarks_nil {s : List α} : matchMarks ([] : List (Mark α)) s = true ↔ s = [] := by
  rw [matchMarks, List.isEmpty_iff]

lemma matchMarks_any (s : List α) : matchMarks ([.many] : List (Mark α)) s = true :=
  matchMarks_many.mpr ⟨s, [], (List.append_nil s).symm, rfl⟩

/-! ## Shortest texts -/

/-- The shortest text that the marks stand for, with a given letter where any one will do. -/
def shortest (filler : α) : List (Mark α) → List α
  | [] => []
  | .lit a :: ms => a :: shortest filler ms
  | .one :: ms => filler :: shortest filler ms
  | .many :: ms => shortest filler ms

lemma matchMarks_shortest (filler : α) (ms : List (Mark α)) :
    matchMarks ms (shortest filler ms) = true := by
  induction ms with
  | nil => rfl
  | cons m ms ih =>
      cases m with
      | lit a => simpa [matchMarks, shortest] using ih
      | one => simpa [matchMarks, shortest] using ih
      | many => exact matchMarks_many.mpr ⟨[], _, rfl, ih⟩

/-! ## Plain texts -/

/-- The letter stands for itself wherever it is. -/
def Wildcards.Plain (a : α) : Prop := a ≠ w.many ∧ a ≠ w.one ∧ a ≠ w.escape

instance (a : α) : Decidable (w.Plain a) := inferInstanceAs (Decidable (_ ∧ _ ∧ _))

/-- The text stands for itself at the end of a pattern: an escape may be its last letter. -/
def Wildcards.PlainEnd : List α → Prop
  | [] => True
  | [a] => a ≠ w.many ∧ a ≠ w.one
  | a :: b :: as => w.Plain a ∧ PlainEnd (b :: as)

variable {w}

lemma Wildcards.mark_plain {a : α} (hmany : a ≠ w.many) (hone : a ≠ w.one) :
    w.mark a = .lit a := by
  rw [mark, if_neg hmany, if_neg hone]

lemma Wildcards.marks_cons {a : α} (h : a ≠ w.escape) (as : List α) :
    w.marks (a :: as) = w.mark a :: w.marks as := by
  cases as with
  | nil => rfl
  | cons b as => rw [marks, if_neg h]

/-- A plain text stands for itself, whatever follows. -/
lemma marks_append_of_plain {v : List α} (h : ∀ a ∈ v, w.Plain a) (t : List α) :
    w.marks (v ++ t) = v.map .lit ++ w.marks t := by
  induction v with
  | nil => rfl
  | cons a v ih =>
      obtain ⟨hmany, hone, hescape⟩ := h a List.mem_cons_self
      rw [List.cons_append, w.marks_cons hescape, Wildcards.mark_plain hmany hone,
        ih fun b hb => h b (List.mem_cons_of_mem _ hb)]
      rfl

lemma marks_of_plainEnd {v : List α} (h : w.PlainEnd v) : w.marks v = v.map .lit := by
  induction v with
  | nil => rfl
  | cons a v ih =>
      cases v with
      | nil => exact congrArg (fun m => [m]) (Wildcards.mark_plain h.1 h.2)
      | cons b v =>
          obtain ⟨⟨hmany, hone, hescape⟩, hrest⟩ := h
          rw [w.marks_cons hescape, Wildcards.mark_plain hmany hone, ih hrest]
          rfl

/-- What is put into a pattern before `t` is no shorter than what it stands for, and is that only
when it is plain: `Q` says so of single letters, and lets plain letters be put before. -/
lemma plain_of_shortest {t : List α} {Q : List α → Prop}
    (hempty : shortest w.many (w.marks t) = []) (hnil : Q [])
    (hone : ∀ a, (shortest w.many (w.marks (a :: t))).length ≤ 1 ∧
      (shortest w.many (w.marks (a :: t)) = [a] → Q [a]))
    (hcons : ∀ a b v, w.Plain a → Q (b :: v) → Q (a :: b :: v)) :
    ∀ v : List α, (shortest w.many (w.marks (v ++ t))).length ≤ v.length ∧
      (shortest w.many (w.marks (v ++ t)) = v → Q v)
  | [] => by
      rw [List.nil_append, hempty]
      exact ⟨le_refl _, fun _ => hnil⟩
  | [a] => hone a
  | a :: b :: v => by
      by_cases hescape : a = w.escape
      · -- the escape is lost
        obtain ⟨hle, -⟩ := plain_of_shortest hempty hnil hone hcons v
        have hmarks : w.marks (a :: b :: v ++ t) = .lit b :: w.marks (v ++ t) := by
          rw [List.cons_append, List.cons_append, Wildcards.marks, if_pos hescape]
        rw [hmarks, shortest]
        have hlt : (b :: shortest w.many (w.marks (v ++ t))).length < (a :: b :: v).length := by
          simp only [List.length_cons]
          omega
        exact ⟨hlt.le, fun heq => absurd (congrArg List.length heq) hlt.ne⟩
      · obtain ⟨hle, hQ⟩ := plain_of_shortest hempty hnil hone hcons (b :: v)
        rw [List.cons_append, w.marks_cons hescape]
        by_cases hmany : a = w.many
        · rw [Wildcards.mark, if_pos hmany, shortest]
          have hlt : (shortest w.many (w.marks (b :: v ++ t))).length < (a :: b :: v).length := by
            simp only [List.length_cons] at hle ⊢
            omega
          exact ⟨hlt.le, fun heq => absurd (congrArg List.length heq) hlt.ne⟩
        · by_cases hany : a = w.one
          · rw [Wildcards.mark, if_neg hmany, if_pos hany, shortest]
            refine ⟨Nat.succ_le_succ hle, fun heq => ?_⟩
            exact absurd (List.cons.inj heq).1 (Ne.symm hmany)
          · rw [Wildcards.mark_plain hmany hany, shortest]
            refine ⟨Nat.succ_le_succ hle, fun heq => ?_⟩
            exact hcons a b v ⟨hmany, hany, hescape⟩ (hQ (List.cons.inj heq).2)

lemma shortest_mark {a : α} :
    (shortest w.many [w.mark a]).length ≤ 1 ∧
      (shortest w.many [w.mark a] = [a] → a ≠ w.many ∧ a ≠ w.one) := by
  by_cases hmany : a = w.many
  · rw [Wildcards.mark, if_pos hmany]
    simp [shortest]
  · by_cases hany : a = w.one
    · rw [Wildcards.mark, if_neg hmany, if_pos hany]
      simp [shortest, Ne.symm hmany]
    · rw [Wildcards.mark_plain hmany hany]
      simp [shortest, hmany, hany]

lemma marks_many : w.marks [w.many] = [.many] := by
  rw [Wildcards.marks, Wildcards.mark, if_pos rfl]

lemma plain_of_shortest_many (v : List α) :
    (shortest w.many (w.marks (v ++ [w.many]))).length ≤ v.length ∧
      (shortest w.many (w.marks (v ++ [w.many])) = v → ∀ a ∈ v, w.Plain a) := by
  refine plain_of_shortest (Q := fun v => ∀ a ∈ v, w.Plain a) (by rw [marks_many]; rfl)
    (fun _ ha => by cases ha) (fun a => ?_) (fun a b v ha hv c hc => ?_) v
  · by_cases hescape : a = w.escape
    · rw [Wildcards.marks, if_pos hescape]
      refine ⟨le_refl _, fun heq => ?_⟩
      have hsame : w.many = a := (List.cons.inj heq).1
      exact absurd (hescape.symm.trans hsame.symm) w.escape_ne_many
    · rw [w.marks_cons hescape, marks_many]
      have hdrop : shortest w.many [w.mark a, .many] = shortest w.many [w.mark a] := by
        cases w.mark a <;> rfl
      rw [hdrop]
      refine ⟨shortest_mark.1, fun heq c hc => ?_⟩
      obtain ⟨hmany, hany⟩ := shortest_mark.2 heq
      rw [List.mem_singleton.mp hc]
      exact ⟨hmany, hany, hescape⟩
  · rcases List.mem_cons.mp hc with rfl | hc
    · exact ha
    · exact hv c hc

lemma plainEnd_of_shortest (v : List α) :
    (shortest w.many (w.marks v)).length ≤ v.length ∧
      (shortest w.many (w.marks v) = v → w.PlainEnd v) := by
  have h := plain_of_shortest (w := w) (t := []) (Q := w.PlainEnd) rfl trivial
    (fun a => shortest_mark) (fun a b v ha hv => ⟨ha, hv⟩) v
  rwa [List.append_nil] at h

/-! ## Occurrence, prefix and suffix -/

/-- **The pattern for an occurrence** is right exactly for a plain text. -/
theorem occurs_iff (w : Wildcards α) (v : List α) :
    (∀ s, w.like (w.many :: (v ++ [w.many])) s = true ↔ v <:+: s) ↔ ∀ a ∈ v, w.Plain a := by
  have hmarks : w.marks (w.many :: (v ++ [w.many])) = .many :: w.marks (v ++ [w.many]) := by
    rw [w.marks_cons w.escape_ne_many.symm, Wildcards.mark, if_pos rfl]
  unfold Wildcards.like
  rw [hmarks]
  constructor
  · intro h
    obtain ⟨hle, hplain⟩ := plain_of_shortest_many (w := w) v
    have hin : v <:+: shortest w.many (w.marks (v ++ [w.many])) :=
      (h _).mp (matchMarks_many.mpr ⟨[], _, rfl, matchMarks_shortest _ _⟩)
    exact hplain (hin.eq_of_length_le hle).symm
  · intro h s
    rw [marks_append_of_plain h, marks_many, matchMarks_many]
    constructor
    · rintro ⟨u, t, rfl, ht⟩
      obtain ⟨t', rfl, -⟩ := (matchMarks_lits v).mp ht
      exact ⟨u, t', List.append_assoc _ _ _⟩
    · rintro ⟨u, t, rfl⟩
      exact ⟨u, v ++ t, List.append_assoc _ _ _, (matchMarks_lits v).mpr ⟨t, rfl, matchMarks_any t⟩⟩

/-- **The pattern for a prefix** is right exactly for a plain text. -/
theorem prefix_iff (w : Wildcards α) (v : List α) :
    (∀ s, w.like (v ++ [w.many]) s = true ↔ v <+: s) ↔ ∀ a ∈ v, w.Plain a := by
  unfold Wildcards.like
  constructor
  · intro h
    obtain ⟨hle, hplain⟩ := plain_of_shortest_many (w := w) v
    have hin : v <+: shortest w.many (w.marks (v ++ [w.many])) :=
      (h _).mp (matchMarks_shortest _ _)
    exact hplain (hin.eq_of_length_le hle).symm
  · intro h s
    rw [marks_append_of_plain h, marks_many, matchMarks_lits]
    constructor
    · rintro ⟨t, rfl, -⟩
      exact List.prefix_append v t
    · rintro ⟨t, rfl⟩
      exact ⟨t, rfl, matchMarks_any t⟩

/-- **The pattern for a suffix** is right exactly for a text that is plain at the end of a
pattern. -/
theorem suffix_iff (w : Wildcards α) (v : List α) :
    (∀ s, w.like (w.many :: v) s = true ↔ v <:+ s) ↔ w.PlainEnd v := by
  have hmarks : w.marks (w.many :: v) = .many :: w.marks v := by
    rw [w.marks_cons w.escape_ne_many.symm, Wildcards.mark, if_pos rfl]
  unfold Wildcards.like
  rw [hmarks]
  constructor
  · intro h
    obtain ⟨hle, hplain⟩ := plainEnd_of_shortest (w := w) v
    have hin : v <:+ shortest w.many (w.marks v) :=
      (h _).mp (matchMarks_many.mpr ⟨[], _, rfl, matchMarks_shortest _ _⟩)
    exact hplain (hin.eq_of_length_le hle).symm
  · intro h s
    rw [marks_of_plainEnd h, matchMarks_many]
    have hlits : ∀ t, matchMarks (v.map .lit) t = true ↔ t = v := by
      intro t
      have hall : matchMarks (v.map .lit ++ []) t = true ↔
          ∃ u, t = v ++ u ∧ matchMarks [] u = true := matchMarks_lits v
      rw [List.append_nil] at hall
      rw [hall]
      simp [matchMarks_nil]
    constructor
    · rintro ⟨u, t, rfl, ht⟩
      rw [(hlits t).mp ht]
      exact List.suffix_append u v
    · rintro ⟨u, rfl⟩
      exact ⟨u, v, rfl, (hlits v).mpr rfl⟩

end LikePattern
