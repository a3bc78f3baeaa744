import Mathlib.Tactic.Common
import Mathlib.Data.List.Perm.Basic
import Mathlib.Data.List.Flatten

/-!
# Inner joins of lists

The nested-loop inner join, up to the order of its rows.  The sides can be swapped
(`innerJoin_swap`), and a side may be reduced to the rows whose keys the join can use
(`innerJoin_reduced`): joining with the matching rows of some keys is joining the rows of the other
side that have one of these keys.
-/

namespace InnerJoin

variable {α β γ κ : Type*}

/-- The inner join: every pair that matches, combined. -/
def innerJoin (on : α → β → Bool) (out : α → β → γ) (left : List α) (right : List β) : List γ :=
  left.flatMap fun a => (right.filter (on a)).map (out a)

variable {on : α → β → Bool} {out : α → β → γ}

lemma innerJoin_nil_right (left : List α) : innerJoin on out left [] = [] := by
  unfold innerJoin
  simp

/-- The rows that one row of the right side is in. -/
lemma flatMap_singletons (f : β → γ) (p : β → Bool) (right : List β) :
    right.flatMap (fun b => if p b then [f b] else []) = (right.filter p).map f := by
  induction right with
  | nil => rfl
  | cons b right ih =>
      rw [List.flatMap_cons, List.filter_cons, ih]
      cases p b with
      | true => rfl
      | false => rfl

/-- The sides swap, by induction on the left one: its first row adds one column of pairs. -/
theorem innerJoin_swap (left : List α) (right : List β) :
    (innerJoin on out left right).Perm
      (innerJoin (fun b a => on a b) (fun b a => out a b) right left) := by
  unfold innerJoin
  induction left with
  | nil => simp
  | cons a left ih =>
      have hhead : right.flatMap (fun b => ((a :: left).filter fun a => on a b).map
          fun a => out a b) = right.flatMap fun b => (if on a b then [out a b] else []) ++
            (left.filter fun a => on a b).map fun a => out a b := by
        congr 1
        funext b
        rw [List.filter_cons]
        cases on a b with
        | true => rfl
        | false => rfl
      rw [List.flatMap_cons, hhead]
      have hsplit := List.flatMap_append_perm right
        (fun b => if on a b then [out a b] else [])
        (fun b => (left.filter fun a => on a b).map fun a => out a b)
      rw [flatMap_singletons] at hsplit
      exact (ih.append_left _).trans hsplit

lemma innerJoin_perm_right {right right' : List β} (h : right.Perm right') (left : List α) :
    (innerJoin on out left right).Perm (innerJoin on out left right') :=
  List.Perm.flatMap_left left fun a _ => (h.filter (on a)).map (out a)

lemma innerJoin_sublist {left left' : List α} (h : left.Sublist left') (right : List β) :
    (innerJoin on out left right).Sublist (innerJoin on out left' right) :=
  h.flatMap _

/-! ## Rows of some keys -/

/-- Two tests that exclude each other split what one of them accepts. -/
lemma filter_or_perm {p q : α → Bool} (h : ∀ a, p a = true → q a = false) (l : List α) :
    (l.filter fun a => p a || q a).Perm (l.filter p ++ l.filter q) := by
  induction l with
  | nil => exact .nil
  | cons a l ih =>
      rw [List.filter_cons, List.filter_cons, List.filter_cons]
      cases hp : p a with
      | true =>
          rw [h a hp]
          exact ih.cons a
      | false =>
          cases q a with
          | true => exact (ih.cons a).trans List.perm_middle.symm
          | false => exact ih

variable [DecidableEq κ]

/-- The row has one of the keys. -/
def hasKey (key : α → Option κ) (ks : List κ) (a : α) : Bool := (key a).any (· ∈ ks)

lemma hasKey_iff {key : α → Option κ} {ks : List κ} {a : α} :
    hasKey key ks a = true ↔ ∃ k ∈ ks, key a = some k := by
  unfold hasKey
  cases key a with
  | none => simp
  | some k => simp

lemma nodup_eraseDups (ks : List κ) : ks.eraseDups.Nodup := by
  match ks with
  | [] => exact List.nodup_nil
  | k :: ks =>
      rw [List.eraseDups_cons, List.nodup_cons, List.mem_eraseDups]
      exact ⟨by simp, nodup_eraseDups _⟩
termination_by ks.length
decreasing_by
  have hle := List.length_filter_le (fun b => !b == k) ks
  rw [List.length_cons]
  omega

/-- Collecting the rows of every key collects the rows of all keys. -/
lemma flatMap_hasKey (key : α → Option κ) {ks : List κ} (hks : ks.Nodup) (rows : List α) :
    (ks.flatMap fun k => rows.filter (hasKey key [k])).Perm (rows.filter (hasKey key ks)) := by
  induction ks with
  | nil =>
      have hnone : rows.filter (hasKey key []) = [] := by
        rw [List.filter_eq_nil_iff]
        intro a _ ha
        obtain ⟨k, hk, -⟩ := hasKey_iff.mp ha
        cases hk
      rw [hnone]
      exact .nil
  | cons k ks ih =>
      obtain ⟨hk, hks⟩ := List.nodup_cons.mp hks
      have hsplit : hasKey key (k :: ks) = fun a => hasKey key [k] a || hasKey key ks a := by
        funext a
        unfold hasKey
        cases key a with
        | none => rfl
        | some k' => simp
      have hexclude : ∀ a, hasKey key [k] a = true → hasKey key ks a = false := by
        intro a ha
        rw [Bool.eq_false_iff]
        intro ha'
        obtain ⟨k₁, hk₁, hkey⟩ := hasKey_iff.mp ha
        obtain ⟨k₂, hk₂, hkey'⟩ := hasKey_iff.mp ha'
        rw [hkey] at hkey'
        cases hkey'
        rw [List.mem_singleton.mp hk₁] at hk₂
        exact hk hk₂
      rw [List.flatMap_cons, hsplit]
      exact ((ih hks).append_left _).trans (filter_or_perm hexclude rows).symm

/-- **Reduced sides.**  The rows of the right side with one of the keys give the join of the left
rows with one of the keys, if rows that match agree on having one. -/
theorem innerJoin_reduced {leftKey : α → Option κ} {rightKey : β → Option κ} {ks : List κ}
    (hon : ∀ a b, on a b = true → hasKey leftKey ks a = hasKey rightKey ks b)
    (left : List α) (right : List β) :
    innerJoin on out left (right.filter (hasKey rightKey ks)) =
      innerJoin on out (left.filter (hasKey leftKey ks)) right := by
  unfold innerJoin
  induction left with
  | nil => rfl
  | cons a left ih =>
      rw [List.flatMap_cons, ih, List.filter_cons, List.filter_filter]
      cases ha : hasKey leftKey ks a with
      | true =>
          have hall : (right.filter fun b => on a b && hasKey rightKey ks b) =
              right.filter (on a) := by
            congr 1
            funext b
            cases hb : on a b with
            | true => rw [← hon a b hb, ha, Bool.and_true]
            | false => rfl
          rw [if_pos rfl, List.flatMap_cons, hall]
      | false =>
          have hnone : (right.filter fun b => on a b && hasKey rightKey ks b) = [] := by
            rw [List.filter_eq_nil_iff]
            intro b _ hb
            obtain ⟨hmatch, hkey⟩ := Bool.and_eq_true_iff.mp hb
            rw [← hon a b hmatch, ha] at hkey
            cases hkey
          rw [if_neg Bool.false_ne_true, hnone, List.map_nil, List.nil_append]

/-- Dropping left rows loses nothing exactly when they match nothing. -/
lemma innerJoin_filter_length_iff {keep : α → Bool} (left : List α) (right : List β) :
    (innerJoin on out left right).length ≤ (innerJoin on out (left.filter keep) right).length ↔
      ∀ a ∈ left, keep a = false → ∀ b ∈ right, on a b = false := by
  unfold innerJoin
  induction left with
  | nil => simp
  | cons a left ih =>
      have hle : ((left.filter keep).flatMap fun a => (right.filter (on a)).map (out a)).length ≤
          (left.flatMap fun a => (right.filter (on a)).map (out a)).length :=
        (List.filter_sublist.flatMap _).length_le
      rw [List.forall_mem_cons, ← ih, List.flatMap_cons, List.length_append, List.length_map,
        List.filter_cons]
      cases ha : keep a with
      | true =>
          rw [if_pos rfl, List.flatMap_cons, List.length_append, List.length_map]
          constructor
          · intro h
            exact ⟨fun hfalse => absurd hfalse (by simp), by omega⟩
          · rintro ⟨-, h⟩
            omega
      | false =>
          rw [if_neg Bool.false_ne_true]
          constructor
          · intro h
            have hzero : (right.filter (on a)).length = 0 := by omega
            rw [List.length_eq_zero_iff, List.filter_eq_nil_iff] at hzero
            refine ⟨fun _ b hb => ?_, by omega⟩
            simpa using hzero b hb
          · rintro ⟨hnone, h⟩
            have hzero : (right.filter (on a)).length = 0 := by
              rw [List.length_eq_zero_iff, List.filter_eq_nil_iff]
              intro b hb hmatch
              rw [hnone rfl b hb] at hmatch
              cases hmatch
            omega

end InnerJoin
