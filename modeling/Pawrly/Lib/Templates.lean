import Mathlib.Tactic.Common
import Mathlib.Data.List.Infix

/-!
# Texts with holes

A text whose holes are written as needles, one for each key.  Replacing the needle of a key
everywhere in a text fills exactly the holes of that key when every occurrence of the needle is one
of them (`Genuine`); replacing the needles one key after the other then fills all holes at once, in
whatever order the keys come.
-/

universe u v

namespace Templates

variable {α : Type u} {κ : Type v}

/-! ## Replacing -/

section

variable [DecidableEq α]

/-- Every occurrence of a pattern replaced, from left to right; `skip` symbols of an occurrence just
replaced are still to be dropped. -/
def replaceScan (pat rep : List α) : ℕ → List α → List α
  | _, [] => []
  | skip + 1, _ :: as => replaceScan pat rep skip as
  | 0, a :: as =>
      if pat.isPrefixOf (a :: as) then rep ++ replaceScan pat rep (pat.length - 1) as
      else a :: replaceScan pat rep 0 as

lemma replaceScan_drop (pat rep : List α) (n : ℕ) (l : List α) :
    replaceScan pat rep n l = replaceScan pat rep 0 (l.drop n) := by
  induction n generalizing l with
  | zero => rfl
  | succ n ih =>
      cases l with
      | nil => rfl
      | cons a l => exact ih l

lemma replaceScan_self_append {pat : List α} (hpat : pat ≠ []) (rep l : List α) :
    replaceScan pat rep 0 (pat ++ l) = rep ++ replaceScan pat rep 0 l := by
  cases pat with
  | nil => exact absurd rfl hpat
  | cons a pat =>
      have hprefix : (a :: pat).isPrefixOf (a :: (pat ++ l)) = true :=
        List.isPrefixOf_iff_prefix.mpr ⟨l, rfl⟩
      show replaceScan (a :: pat) rep 0 (a :: (pat ++ l)) = _
      rw [replaceScan, if_pos hprefix, replaceScan_drop]
      simp

/-- A stretch at none of whose places an occurrence starts is kept. -/
lemma replaceScan_append {pat rep x l : List α}
    (h : ∀ x₁ x₂, x = x₁ ++ x₂ → x₂ ≠ [] → ¬ pat <+: x₂ ++ l) :
    replaceScan pat rep 0 (x ++ l) = x ++ replaceScan pat rep 0 l := by
  induction x with
  | nil => rfl
  | cons a x ih =>
      have hhead : ¬ pat.isPrefixOf (a :: (x ++ l)) = true := by
        rw [List.isPrefixOf_iff_prefix]
        exact h [] (a :: x) rfl (List.cons_ne_nil a x)
      show replaceScan pat rep 0 (a :: (x ++ l)) = _
      rw [replaceScan, if_neg hhead, ih]
      · rfl
      · intro x₁ x₂ hx hne
        exact h (a :: x₁) x₂ (by rw [hx]; rfl) hne

/-- A text without the pattern is kept. -/
lemma replaceScan_of_not_infix {pat rep l : List α} (h : ¬ pat <:+: l) :
    replaceScan pat rep 0 l = l := by
  have hkeep : replaceScan pat rep 0 (l ++ []) = l ++ replaceScan pat rep 0 [] := by
    refine replaceScan_append fun x₁ x₂ hx _ hprefix => h ?_
    rw [List.append_nil] at hprefix
    obtain ⟨y, hy⟩ := hprefix
    exact ⟨x₁, y, by rw [hx, ← hy, List.append_assoc]⟩
  simpa [replaceScan] using hkeep

end

/-! ## Pieces -/

inductive Piece (α : Type u) (κ : Type v)
  | char (a : α)
  | hole (k : κ)

section

variable [DecidableEq κ] (needle value : κ → List α)

/-- A piece, with the holes of some keys filled. -/
def Piece.text (filled : List κ) : Piece α κ → List α
  | char a => [a]
  | hole k => if k ∈ filled then value k else needle k

/-- A text, with the holes of some keys filled. -/
def fill (filled : List κ) (ps : List (Piece α κ)) : List α :=
  ps.flatMap (Piece.text needle value filled)

/-- Every occurrence of the needle in the text is a hole of the key. -/
def Genuine (filled : List κ) (k : κ) (ps : List (Piece α κ)) : Prop :=
  ∀ x y, fill needle value filled ps = x ++ needle k ++ y →
    ∃ ps₁ ps₂, ps = ps₁ ++ .hole k :: ps₂ ∧ x = fill needle value filled ps₁

/-- The needles of the keys replaced by their values, one key after the other. -/
def replaceKeys [DecidableEq α] (order : List κ) (l : List α) : List α :=
  order.foldl (fun l k => replaceScan (needle k) (value k) 0 l) l

/-- The pieces of a text, from left to right; `skip` symbols of a hole are still to be dropped. -/
def pieces [DecidableEq α] (keys : List κ) : ℕ → List α → List (Piece α κ)
  | _, [] => []
  | skip + 1, _ :: as => pieces keys skip as
  | 0, a :: as =>
      match keys.find? fun k => (needle k).isPrefixOf (a :: as) with
      | some k => .hole k :: pieces keys ((needle k).length - 1) as
      | none => .char a :: pieces keys 0 as

end

variable [DecidableEq κ] {needle value : κ → List α}

lemma fill_cons (filled : List κ) (p : Piece α κ) (ps : List (Piece α κ)) :
    fill needle value filled (p :: ps) = p.text needle value filled ++ fill needle value filled ps :=
  List.flatMap_cons

lemma fill_append (filled : List κ) (ps ps' : List (Piece α κ)) :
    fill needle value filled (ps ++ ps') =
      fill needle value filled ps ++ fill needle value filled ps' :=
  List.flatMap_append

lemma fill_congr {filled filled' : List κ} (h : ∀ k, k ∈ filled ↔ k ∈ filled')
    (ps : List (Piece α κ)) : fill needle value filled ps = fill needle value filled' ps := by
  refine List.flatMap_congr fun p _ => ?_
  cases p with
  | char a => rfl
  | hole k => simp only [Piece.text, h]

/-! ## One key -/

lemma Genuine.tail {filled : List κ} {k : κ} {p : Piece α κ} {ps : List (Piece α κ)}
    (hne : ∀ k, needle k ≠ []) (hk : k ∉ filled) (h : Genuine needle value filled k (p :: ps)) :
    Genuine needle value filled k ps := by
  intro x y hxy
  obtain ⟨ps₁, ps₂, hps, hx⟩ := h (p.text needle value filled ++ x) y (by
    rw [fill_cons, hxy]
    simp)
  cases ps₁ with
  | nil =>
      cases hps
      have hempty : (needle k ++ x : List α) = [] := by simpa [Piece.text, hk, fill] using hx
      exact absurd (List.append_eq_nil_iff.mp hempty).1 (hne k)
  | cons q ps₁ =>
      obtain ⟨rfl, rfl⟩ := List.cons.inj hps
      rw [fill_cons] at hx
      exact ⟨ps₁, ps₂, rfl, List.append_cancel_left hx⟩

/-- Replacing the needle of a key fills its holes. -/
lemma replaceScan_fill [DecidableEq α] {filled : List κ} {k : κ} {ps : List (Piece α κ)}
    (hne : ∀ k, needle k ≠ []) (hk : k ∉ filled) (h : Genuine needle value filled k ps) :
    replaceScan (needle k) (value k) 0 (fill needle value filled ps) =
      fill needle value (k :: filled) ps := by
  induction ps with
  | nil => rfl
  | cons p ps ih =>
      have hrest := ih (h.tail hne hk)
      rw [fill_cons, fill_cons]
      by_cases hp : p = .hole k
      · have htext : p.text needle value filled = needle k := by
          rw [hp]
          exact if_neg hk
        have hfilled : p.text needle value (k :: filled) = value k := by
          rw [hp]
          exact if_pos List.mem_cons_self
        rw [htext, hfilled, replaceScan_self_append (hne k), hrest]
      · have hsame : p.text needle value (k :: filled) = p.text needle value filled := by
          cases p with
          | char a => rfl
          | hole j =>
              have hj : j ≠ k := fun hjk => hp (by rw [hjk])
              simp [Piece.text, hj]
        rw [hsame, replaceScan_append, hrest]
        -- an occurrence that starts within the piece would be a hole that starts there
        rintro x₁ x₂ hx hx₂ ⟨y, hy⟩
        obtain ⟨ps₁, ps₂, hps, hx₁⟩ := h x₁ y (by
          rw [fill_cons, hx, List.append_assoc, ← hy, List.append_assoc])
        cases ps₁ with
        | nil => exact hp (List.cons.inj hps).1
        | cons q ps₁ =>
            obtain ⟨rfl, -⟩ := List.cons.inj hps
            rw [fill_cons, hx] at hx₁
            have hlen := congrArg List.length hx₁
            simp only [List.length_append] at hlen
            have hpos : 0 < x₂.length := List.length_pos_iff.mpr hx₂
            omega

lemma Genuine.prefix_ {filled : List κ} {k : κ} {ps ps' : List (Piece α κ)}
    (hne : needle k ≠ []) (h : Genuine needle value filled k (ps ++ ps')) :
    Genuine needle value filled k ps := by
  intro x y hxy
  obtain ⟨qs, qs', hps, hx⟩ := h x (y ++ fill needle value filled ps') (by
    rw [fill_append, hxy]
    simp)
  rcases List.append_eq_append_iff.mp hps with ⟨as, hqs, -⟩ | ⟨as, hps', has⟩
  · -- the hole would start behind the text
    have hlen := congrArg List.length hxy
    rw [hqs, fill_append] at hx
    have hxlen := congrArg List.length hx
    have hpos : 0 < (needle k).length := List.length_pos_iff.mpr hne
    simp only [List.length_append] at hlen hxlen
    omega
  · cases as with
    | nil =>
        have hlen := congrArg List.length hxy
        rw [hx, hps', List.append_nil] at hlen
        have hpos : 0 < (needle k).length := List.length_pos_iff.mpr hne
        simp only [List.length_append] at hlen
        omega
    | cons p as =>
        obtain ⟨rfl, -⟩ := List.cons.inj has
        exact ⟨qs, as, hps', hx⟩

def Piece.isHole (k : κ) : Piece α κ → Bool
  | char _ => false
  | hole j => j = k

/-- At each position where the needle occurs a hole of the key starts. -/
def holesAt [DecidableEq α] (needle value : κ → List α) (filled : List κ) (k : κ)
    (ps : List (Piece α κ)) : Bool :=
  (List.range (fill needle value filled ps).length).all fun i =>
    !(needle k).isPrefixOf ((fill needle value filled ps).drop i) ||
      (List.range ps.length).any fun j =>
        (fill needle value filled (ps.take j)).length = i && (ps.drop j).head?.any (Piece.isHole k)

/-- Whether every occurrence is a hole is decided position by position. -/
lemma genuine_of_holesAt [DecidableEq α] {filled : List κ} {k : κ} {ps : List (Piece α κ)}
    (hne : needle k ≠ []) (h : holesAt needle value filled k ps = true) :
    Genuine needle value filled k ps := by
  intro x y hxy
  have hpos : 0 < (needle k).length := List.length_pos_iff.mpr hne
  have hlt : x.length < (fill needle value filled ps).length := by
    rw [hxy, List.length_append, List.length_append]
    omega
  have hdrop : (fill needle value filled ps).drop x.length = needle k ++ y := by
    rw [hxy, List.append_assoc, List.drop_left]
  have hat := List.all_eq_true.mp h x.length (List.mem_range.mpr hlt)
  rw [hdrop, List.isPrefixOf_iff_prefix.mpr (List.prefix_append _ _), Bool.not_true,
    Bool.false_or, List.any_eq_true] at hat
  obtain ⟨j, -, hj⟩ := hat
  rw [Bool.and_eq_true, decide_eq_true_eq] at hj
  obtain ⟨hlen, hhead⟩ := hj
  have hfill : fill needle value filled ps =
      fill needle value filled (ps.take j) ++ fill needle value filled (ps.drop j) := by
    rw [← fill_append, List.take_append_drop]
  have hx : x = fill needle value filled (ps.take j) := by
    rw [hxy, List.append_assoc] at hfill
    exact (List.append_inj hfill hlen.symm).1
  cases hrest : ps.drop j with
  | nil =>
      rw [hrest] at hhead
      cases hhead
  | cons p rest =>
      rw [hrest] at hhead
      cases p with
      | char a => cases hhead
      | hole i =>
          obtain rfl : i = k := by simpa [Piece.isHole] using hhead
          exact ⟨ps.take j, rest, by rw [← hrest, List.take_append_drop], hx⟩

/-! ## All keys -/

section

variable [DecidableEq α]

/-- The keys replaced one after the other fill the holes of all of them, when each step finds only
the holes of its key. -/
lemma replaceKeys_fill {order done : List κ} {ps : List (Piece α κ)} (hne : ∀ k, needle k ≠ [])
    (hnodup : (done ++ order).Nodup)
    (h : ∀ as k bs, order = as ++ k :: bs → Genuine needle value (done ++ as) k ps) :
    replaceKeys needle value order (fill needle value done ps) =
      fill needle value (done ++ order) ps := by
  induction order generalizing done with
  | nil => simp [replaceKeys]
  | cons k order ih =>
      have hk : k ∉ done := fun hk =>
        (List.nodup_append.mp hnodup).2.2 k hk k List.mem_cons_self rfl
      have hstep : replaceScan (needle k) (value k) 0 (fill needle value done ps) =
          fill needle value (done ++ [k]) ps := by
        rw [replaceScan_fill hne hk (by simpa using h [] k order rfl)]
        exact fill_congr (fun j => by simp [or_comm]) ps
      show replaceKeys needle value order (replaceScan (needle k) (value k) 0 _) = _
      rw [hstep, ih]
      · rw [List.append_assoc]
        rfl
      · rwa [List.append_assoc]
      · intro as j bs hbs
        rw [List.append_assoc]
        exact h (k :: as) j bs (by rw [hbs]; rfl)

/-! ## The pieces of a text -/

omit [DecidableEq κ] in
lemma pieces_drop (keys : List κ) (n : ℕ) (l : List α) :
    pieces needle keys n l = pieces needle keys 0 (l.drop n) := by
  induction n generalizing l with
  | zero => rfl
  | succ n ih =>
      cases l with
      | nil => rfl
      | cons a l => exact ih l

omit [DecidableEq κ] in
/-- The text starts with a hole, or with a symbol at which no needle of the keys stands. -/
lemma pieces_cons (hne : ∀ k, needle k ≠ []) (keys : List κ) (a : α) (l : List α) :
    (∃ k ∈ keys, ∃ rest, a :: l = needle k ++ rest ∧
        pieces needle keys 0 (a :: l) = .hole k :: pieces needle keys 0 rest) ∨
      (∀ k ∈ keys, ¬ needle k <+: a :: l) ∧
        pieces needle keys 0 (a :: l) = .char a :: pieces needle keys 0 l := by
  cases hfind : keys.find? fun k => (needle k).isPrefixOf (a :: l) with
  | none =>
      refine Or.inr ⟨fun k hk hprefix => ?_, by rw [pieces, hfind]⟩
      exact List.find?_eq_none.mp hfind k hk (List.isPrefixOf_iff_prefix.mpr hprefix)
  | some k =>
      have hprefix : (needle k).isPrefixOf (a :: l) = true :=
        List.find?_some (p := fun k => (needle k).isPrefixOf (a :: l)) hfind
      obtain ⟨rest, hrest⟩ := List.isPrefixOf_iff_prefix.mp hprefix
      refine Or.inl ⟨k, List.mem_of_find?_eq_some hfind, rest, hrest.symm, ?_⟩
      rw [pieces, hfind]
      dsimp only
      rw [pieces_drop]
      cases hneedle : needle k with
      | nil => exact absurd hneedle (hne k)
      | cons b t =>
          rw [hneedle] at hrest
          obtain ⟨-, rfl⟩ := List.cons.inj hrest
          simp

omit [DecidableEq κ] in
/-- Cutting a text into pieces, by induction on its length. -/
lemma pieces_induction {P : List α → Prop} (hne : ∀ k, needle k ≠ []) (keys : List κ)
    (nil : P [])
    (hole : ∀ k ∈ keys, ∀ rest,
      pieces needle keys 0 (needle k ++ rest) = .hole k :: pieces needle keys 0 rest → P rest →
        P (needle k ++ rest))
    (char : ∀ a l, (∀ k ∈ keys, ¬ needle k <+: a :: l) →
      pieces needle keys 0 (a :: l) = .char a :: pieces needle keys 0 l → P l → P (a :: l))
    (l : List α) : P l := by
  induction hn : l.length using Nat.strong_induction_on generalizing l with
  | _ n ih =>
      cases l with
      | nil => exact nil
      | cons a l =>
          rcases pieces_cons hne keys a l with ⟨k, hk, rest, hrest, hpieces⟩ | ⟨hnone, hpieces⟩
          · rw [hrest] at hpieces hn ⊢
            have hpos : 0 < (needle k).length := List.length_pos_iff.mpr (hne k)
            rw [List.length_append] at hn
            exact hole k hk rest hpieces (ih rest.length (by omega) rest rfl)
          · rw [List.length_cons] at hn
            exact char a l hnone hpieces (ih l.length (by omega) l rfl)

lemma fill_pieces (hne : ∀ k, needle k ≠ []) (keys : List κ) (l : List α) :
    fill needle value [] (pieces needle keys 0 l) = l := by
  induction l using pieces_induction hne keys with
  | nil => rfl
  | hole k hk rest hpieces ih =>
      rw [hpieces, fill_cons, ih]
      simp [Piece.text]
  | char a l hnone hpieces ih =>
      rw [hpieces, fill_cons, ih]
      rfl

/-- Needles that cannot overlap: none is the start of another one, and none starts within one. -/
structure PrefixFree (needle : κ → List α) (keys : List κ) : Prop where
  unique : ∀ j ∈ keys, ∀ k ∈ keys, ∀ l, needle j <+: l → needle k <+: l → j = k
  apart : ∀ j ∈ keys, ∀ k ∈ keys, ∀ u w l, needle j = u ++ w → u ≠ [] → w ≠ [] →
    ¬ needle k <+: w ++ l

/-- With such needles the holes of a text are all the occurrences. -/
lemma genuine_pieces {keys : List κ} (hfree : PrefixFree needle keys) (hne : ∀ k, needle k ≠ [])
    {k : κ} (hk : k ∈ keys) (l : List α) : Genuine needle value [] k (pieces needle keys 0 l) := by
  intro x y hxy
  rw [fill_pieces hne] at hxy
  suffices h : ∃ ps₁ ps₂, pieces needle keys 0 l = ps₁ ++ .hole k :: ps₂ ∧
      x = fill needle value [] ps₁ from h
  induction l using pieces_induction hne keys generalizing x with
  | nil => exact absurd (List.append_eq_nil_iff.mp (List.append_eq_nil_iff.mp hxy.symm).1).2 (hne k)
  | hole j hj rest hpieces ih =>
      have hlater : ∀ x', rest = x' ++ needle k ++ y → x = needle j ++ x' →
          ∃ ps₁ ps₂, pieces needle keys 0 (needle j ++ rest) = ps₁ ++ .hole k :: ps₂ ∧
            x = fill needle value [] ps₁ := by
        intro x' hrest hx
        obtain ⟨ps₁, ps₂, hps, hx'⟩ := ih x' hrest
        refine ⟨.hole j :: ps₁, ps₂, by rw [hpieces, hps]; rfl, ?_⟩
        rw [fill_cons, ← hx', hx]
        simp [Piece.text]
      rw [List.append_assoc] at hxy
      rcases List.append_eq_append_iff.mp hxy with ⟨x', hx, hrest⟩ | ⟨w, hj', hw⟩
      · exact hlater x' (by rw [hrest, List.append_assoc]) hx
      · by_cases hwnil : w = []
        · rw [hwnil, List.append_nil] at hj'
          rw [hwnil, List.nil_append] at hw
          exact hlater [] (by rw [← hw]; rfl) (by rw [hj', List.append_nil])
        · by_cases hxnil : x = []
          · have hjk : j = k := by
              refine hfree.unique j hj k hk (needle j ++ rest) (List.prefix_append _ _) ⟨y, ?_⟩
              rw [hxy, hxnil]
              rfl
            exact ⟨[], pieces needle keys 0 rest, by rw [hpieces, hjk]; rfl, hxnil⟩
          · exact absurd ⟨y, hw⟩ (hfree.apart j hj k hk x w rest hj' hxnil hwnil)
  | char a l hnone hpieces ih =>
      cases x with
      | nil => exact absurd ⟨y, hxy.symm⟩ (hnone k hk)
      | cons b x =>
          obtain ⟨rfl, hl⟩ := List.cons.inj hxy
          obtain ⟨ps₁, ps₂, hps, hx⟩ := ih x hl
          refine ⟨.char a :: ps₁, ps₂, by rw [hpieces, hps]; rfl, ?_⟩
          rw [fill_cons, ← hx]
          rfl

/-! ## What the steps find -/

lemma replaceKeys_all {order : List κ} {ps : List (Piece α κ)} (hne : ∀ k, needle k ≠ [])
    (hnodup : order.Nodup) (h : ∀ as k bs, order = as ++ k :: bs → Genuine needle value as k ps) :
    replaceKeys needle value order (fill needle value [] ps) = fill needle value order ps :=
  replaceKeys_fill hne hnodup h

/-- A run of replacements on the start of a text. -/
lemma replaceKeys_prefix {order : List κ} {ps ps' : List (Piece α κ)} (hne : ∀ k, needle k ≠ [])
    (hnodup : order.Nodup)
    (h : ∀ as k bs, order = as ++ k :: bs → Genuine needle value as k (ps ++ ps')) :
    replaceKeys needle value order (fill needle value [] ps) = fill needle value order ps :=
  replaceKeys_all hne hnodup fun as k bs hbs => (h as k bs hbs).prefix_ (hne k)

/-- Every needle that the step of a key finds in its turn is an occurrence in the original text. -/
def FindsOriginal (needle value : κ → List α) (l : List α) (done : List κ) (k : κ) : Prop :=
  ∀ x y, replaceKeys needle value done l = x ++ needle k ++ y →
    ∃ l₁ l₂, l = l₁ ++ needle k ++ l₂ ∧ x = replaceKeys needle value done l₁

lemma findsOriginal_of_genuine {l : List α} {ps : List (Piece α κ)} {done : List κ} {k : κ}
    (hne : ∀ k, needle k ≠ []) (hl : fill needle value [] ps = l) (hnodup : (done ++ [k]).Nodup)
    (h : ∀ as j bs, done ++ [k] = as ++ j :: bs → Genuine needle value as j ps) :
    FindsOriginal needle value l done k := by
  have hprefix : ∀ as j bs, done = as ++ j :: bs → Genuine needle value as j ps :=
    fun as j bs hbs => h as j (bs ++ [k]) (by rw [hbs]; simp)
  have hdone := (List.nodup_append.mp hnodup).1
  intro x y hxy
  rw [← hl, replaceKeys_all hne hdone hprefix] at hxy
  obtain ⟨ps₁, ps₂, hps, hx⟩ := h done k [] rfl x y hxy
  refine ⟨fill needle value [] ps₁, fill needle value [] ps₂, ?_, ?_⟩
  · rw [← hl, hps, fill_append, fill_cons]
    simp [Piece.text]
  · rw [hps] at hprefix
    rw [hx, replaceKeys_prefix hne hdone hprefix]

/-- With needles that cannot overlap, by induction on the number of steps: as long as every step
finds only what the original text has, each one fills the holes of its key. -/
lemma genuine_of_findsOriginal {keys : List κ} (hfree : PrefixFree needle keys)
    (hne : ∀ k, needle k ≠ []) {l : List α}
    (h : ∀ done k, (done ++ [k]).Nodup → (∀ j ∈ done ++ [k], j ∈ keys) →
      FindsOriginal needle value l done k)
    {done : List κ} {k : κ} (hnodup : (done ++ [k]).Nodup) (hkeys : ∀ j ∈ done ++ [k], j ∈ keys) :
    Genuine needle value done k (pieces needle keys 0 l) := by
  induction hn : done.length using Nat.strong_induction_on generalizing done k with
  | _ n ih =>
      have hsteps : ∀ as j bs, done = as ++ j :: bs →
          Genuine needle value as j (pieces needle keys 0 l) := by
        rintro as j bs rfl
        have hsub : (as ++ [j]).Sublist (as ++ j :: bs ++ [k]) := by simp
        refine ih as.length ?_ (hnodup.sublist hsub) (fun i hi => hkeys i (hsub.mem hi)) rfl
        rw [← hn, List.length_append, List.length_cons]
        omega
      have hdone := (List.nodup_append.mp hnodup).1
      intro x y hxy
      have hfill : fill needle value [] (pieces needle keys 0 l) = l := fill_pieces hne keys l
      have hrun := replaceKeys_all hne hdone hsteps
      rw [hfill] at hrun
      obtain ⟨l₁, l₂, hl, hx⟩ := h done k hnodup hkeys x y (by rw [hrun, hxy])
      have hk : k ∈ keys := hkeys k (by simp)
      have hbase : Genuine needle value [] k (pieces needle keys 0 l) :=
        genuine_pieces hfree hne hk l
      obtain ⟨ps₁, ps₂, hps, hl₁⟩ := hbase l₁ l₂ (by rw [hfill, hl])
      refine ⟨ps₁, ps₂, hps, ?_⟩
      rw [hps] at hsteps
      rw [hx, hl₁, replaceKeys_prefix hne hdone hsteps]

end

end Templates
