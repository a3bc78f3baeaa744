import Mathlib.Order.Basic
import Mathlib.Data.List.OfFn
import Mathlib.Data.Fin.VecNotation
import Mathlib.Tactic.Common

/-!
# Operator grammars

Expressions with levels of precedence: a production stands at a level, and each of its operands is
an expression of a given level or a tighter one.  Parentheses make an expression of the loosest
level one of the tightest.

A tree may have holes, which stand where an expression of the tightest level does.  Putting a tree
into every hole of another one puts its text there (`fill_yield_subst`), and the result is a tree of
the grammar when what is put in is grouped (`fits_subst`).  `strip` forgets the parentheses.
-/

namespace Pawrly
namespace OperatorGrammar

/-! ## Trees -/

/-- Expression trees over productions `P` with holes named in `ι`. -/
inductive Tree (P ι : Type*)
  | hole (i : ι)
  | group (t : Tree P ι)
  | node (p : P) (n : ℕ) (operands : Fin n → Tree P ι)

namespace Tree

variable {P ι κ μ : Type*}

/-- Put a tree into every hole. -/
def subst (σ : ι → Tree P κ) : Tree P ι → Tree P κ
  | hole i => σ i
  | group t => group (t.subst σ)
  | node p n ts => node p n fun i => (ts i).subst σ

/-- The tree without its parentheses. -/
def strip : Tree P ι → Tree P ι
  | hole i => hole i
  | group t => t.strip
  | node p n ts => node p n fun i => (ts i).strip

lemma strip_subst (t : Tree P ι) (σ : ι → Tree P κ) :
    (t.subst σ).strip = t.strip.subst fun i => (σ i).strip := by
  induction t with
  | hole i => rfl
  | group t ih => exact ih
  | node p n ts ih => simp only [subst, strip, ih]

lemma subst_subst (t : Tree P ι) (σ : ι → Tree P κ) (τ : κ → Tree P μ) :
    (t.subst σ).subst τ = t.subst fun i => (σ i).subst τ := by
  induction t with
  | hole i => rfl
  | group t ih => simp only [subst, ih]
  | node p n ts ih => simp only [subst, ih]

/-- The holes of a tree. -/
def holes : Tree P ι → Set ι
  | hole i => {i}
  | group t => t.holes
  | node _ _ ts => {i | ∃ k, i ∈ (ts k).holes}

lemma subst_congr {t : Tree P ι} {σ τ : ι → Tree P κ} (h : ∀ i ∈ t.holes, σ i = τ i) :
    t.subst σ = t.subst τ := by
  induction t with
  | hole i => exact h i rfl
  | group t ih =>
      simp only [subst]
      rw [ih h]
  | node p n ts ih =>
      simp only [subst]
      congr 1
      funext k
      exact ih k fun i hi => h i ⟨k, hi⟩

lemma holes_strip (t : Tree P ι) : t.strip.holes = t.holes := by
  induction t with
  | hole i => rfl
  | group t ih => exact ih
  | node p n ts ih => simp only [strip, holes, ih]

/-- The tree of a production without operands. -/
def leaf (p : P) : Tree P ι := .node p 0 Fin.elim0

/-- The tree of a production with one operand. -/
def one (p : P) (t : Tree P ι) : Tree P ι := .node p 1 fun _ => t

/-- The tree of a production with two operands. -/
def two (p : P) (t t' : Tree P ι) : Tree P ι := .node p 2 ![t, t']

@[simp] lemma strip_leaf (p : P) : (leaf p : Tree P ι).strip = leaf p := by
  simp only [leaf, Tree.strip]
  congr 1
  exact Subsingleton.elim _ _

@[simp] lemma strip_one (p : P) (t : Tree P ι) : (one p t).strip = one p t.strip := rfl

@[simp] lemma subst_one (p : P) (t : Tree P ι) (σ : ι → Tree P κ) :
    (one p t).subst σ = one p (t.subst σ) := rfl

@[simp] lemma strip_two (p : P) (t t' : Tree P ι) : (two p t t').strip = two p t.strip t'.strip := by
  unfold two
  simp only [Tree.strip]
  congr 1
  funext i
  match i with
  | 0 => rfl
  | 1 => rfl

@[simp] lemma subst_two (p : P) (t t' : Tree P ι) (σ : ι → Tree P κ) :
    (two p t t').subst σ = two p (t.subst σ) (t'.subst σ) := by
  unfold two
  simp only [Tree.subst]
  congr 1
  funext i
  match i with
  | 0 => rfl
  | 1 => rfl

lemma holes_subst (t : Tree P ι) (σ : ι → Tree P κ) :
    (t.subst σ).holes = {j | ∃ i ∈ t.holes, j ∈ (σ i).holes} := by
  induction t with
  | hole i => simp [subst, holes]
  | group t ih => exact ih
  | node p n ts ih =>
      ext j
      simp only [subst, holes, ih, Set.mem_ofPred_eq]
      constructor
      · rintro ⟨k, i, hi, hj⟩
        exact ⟨i, ⟨k, hi⟩, hj⟩
      · rintro ⟨i, ⟨k, hi⟩, hj⟩
        exact ⟨k, i, hi, hj⟩

lemma mem_holes_group {t : Tree P ι} {i : ι} : i ∈ (group t).holes ↔ i ∈ t.holes := Iff.rfl

@[simp] lemma mem_holes_one {p : P} {t : Tree P ι} {i : ι} : i ∈ (one p t).holes ↔ i ∈ t.holes :=
  ⟨fun ⟨_, h⟩ => h, fun h => ⟨0, h⟩⟩

@[simp] lemma mem_holes_two {p : P} {t t' : Tree P ι} {i : ι} :
    i ∈ (two p t t').holes ↔ i ∈ t.holes ∨ i ∈ t'.holes := by
  constructor
  · rintro ⟨k, h⟩
    match k, h with
    | 0, h => exact .inl h
    | 1, h => exact .inr h
  · rintro (h | h)
    · exact ⟨0, h⟩
    · exact ⟨1, h⟩

end Tree

/-! ## Grammars -/

/-- An operator grammar over the tokens `T`, the levels `L` and the productions `P`: the tokens in
front of the first operand, and each operand with its level and the tokens behind it. -/
structure Grammar (T L P : Type*) where
  level : P → L
  head : P → List T
  operands : P → List (L × List T)
  opening : T
  closing : T
  /-- The tightest level. -/
  atom : L
  /-- The loosest level. -/
  top : L

/-- Tokens in place of the holes. -/
def fill {T ι : Type*} (f : ι → List T) (ts : List (T ⊕ ι)) : List T :=
  ts.flatMap (Sum.elim (fun t => [t]) f)

section

variable {T ι : Type*}

lemma fill_append (f : ι → List T) (ts ts' : List (T ⊕ ι)) :
    fill f (ts ++ ts') = fill f ts ++ fill f ts' := List.flatMap_append

@[simp] lemma fill_tokens (f : ι → List T) (ts : List T) : fill f (ts.map .inl) = ts := by
  induction ts with
  | nil => rfl
  | cons t ts ih =>
      rw [List.map_cons, fill, List.flatMap_cons, ← fill, ih]
      rfl

@[simp] lemma fill_hole (f : ι → List T) (i : ι) (ts : List (T ⊕ ι)) :
    fill f (.inr i :: ts) = f i ++ fill f ts := rfl

@[simp] lemma fill_token (f : ι → List T) (t : T) (ts : List (T ⊕ ι)) :
    fill f (.inl t :: ts) = t :: fill f ts := rfl

@[simp] lemma fill_nil (f : ι → List T) : fill f [] = [] := rfl

lemma fill_flatten (f : ι → List T) (tss : List (List (T ⊕ ι))) :
    fill f tss.flatten = (tss.map (fill f)).flatten := by
  induction tss with
  | nil => rfl
  | cons ts tss ih => simp only [List.flatten_cons, fill_append, ih, List.map_cons]

end

namespace Grammar

variable {T L P ι κ : Type*} (G : Grammar T L P)

/-- What stands behind the `i`-th operand. -/
def behind (p : P) (i : ℕ) : List T := ((G.operands p)[i]?).elim [] Prod.snd

/-- The text of a tree. -/
def yield : Tree P ι → List (T ⊕ ι)
  | .hole i => [.inr i]
  | .group t => .inl G.opening :: (yield t ++ [.inl G.closing])
  | .node p n ts =>
      (G.head p).map .inl ++
        (List.ofFn fun i : Fin n => yield (ts i) ++ (G.behind p i).map .inl).flatten

/-- The text of a tree without holes. -/
def words (t : Tree P Empty) : List T := fill Empty.elim (G.yield t)

/-- Putting trees into the holes of a tree puts their text there. -/
lemma fill_yield_subst (t : Tree P ι) (σ : ι → Tree P κ) (f : κ → List T) :
    fill f (G.yield (t.subst σ)) = fill (fun i => fill f (G.yield (σ i))) (G.yield t) := by
  induction t with
  | hole i => simp [Tree.subst, yield]
  | group t ih => simp only [Tree.subst, yield, fill_token, fill_append, fill_nil, ih]
  | node p n ts ih =>
      simp only [Tree.subst, yield, fill_append, fill_tokens, fill_flatten, List.map_ofFn,
        Function.comp_def, ih]

lemma words_node (p : P) (n : ℕ) (ts : Fin n → Tree P Empty) :
    G.words (.node p n ts) =
      G.head p ++ (List.ofFn fun i => G.words (ts i) ++ G.behind p i).flatten := by
  simp only [words, yield, fill_append, fill_tokens, fill_flatten, List.map_ofFn,
    Function.comp_def]

lemma mem_words_head {p : P} {n : ℕ} {ts : Fin n → Tree P Empty} {a : T} (h : a ∈ G.head p) :
    a ∈ G.words (.node p n ts) := by
  rw [words_node]
  exact List.mem_append_left _ h

lemma mem_words_behind {p : P} {n : ℕ} {ts : Fin n → Tree P Empty} {i : ℕ} (hi : i < n) {a : T}
    (h : a ∈ G.behind p i) : a ∈ G.words (.node p n ts) := by
  rw [words_node]
  refine List.mem_append_right _ (List.mem_flatten.mpr ⟨_, List.mem_ofFn.mpr ⟨⟨i, hi⟩, rfl⟩, ?_⟩)
  exact List.mem_append_right _ h

lemma words_subst (t : Tree P ι) (σ : ι → Tree P Empty) :
    G.words (t.subst σ) = fill (fun i => G.words (σ i)) (G.yield t) :=
  G.fill_yield_subst t σ Empty.elim

lemma mem_yield_of_mem_holes {t : Tree P ι} {i : ι} (h : i ∈ t.holes) : .inr i ∈ G.yield t := by
  induction t with
  | hole j =>
      obtain rfl : i = j := h
      exact List.mem_singleton_self _
  | group t ih => exact List.mem_cons_of_mem _ (List.mem_append_left _ (ih h))
  | node p n ts ih =>
      obtain ⟨k, hk⟩ := h
      refine List.mem_append_right _ (List.mem_flatten.mpr ⟨_, List.mem_ofFn.mpr ⟨k, rfl⟩, ?_⟩)
      exact List.mem_append_left _ (ih k hk)

section Levels

variable [Preorder L]

/-- The tree stands at a level: every operand is an expression of its place. -/
def fits : Tree P ι → L → Prop
  | .hole _, l => G.atom ≤ l
  | .group t, l => G.atom ≤ l ∧ fits t G.top
  | .node p n ts, l => G.level p ≤ l ∧ n = (G.operands p).length ∧
      ∀ (i : Fin n) a, (G.operands p)[i.1]? = some a → fits (ts i) a.1

lemma fits_mono {t : Tree P ι} {l l' : L} (h : G.fits t l) (hle : l ≤ l') : G.fits t l' := by
  cases t with
  | hole i => exact le_trans h hle
  | group t => exact ⟨le_trans h.1 hle, h.2⟩
  | node p n ts => exact ⟨le_trans h.1 hle, h.2⟩

lemma fits_group {t : Tree P ι} (h : G.fits t G.top) : G.fits (.group t) G.atom := ⟨le_rfl, h⟩

/-- What stands at the tightest level may stand in a hole. -/
lemma fits_subst {t : Tree P ι} {σ : ι → Tree P κ} (hσ : ∀ i ∈ t.holes, G.fits (σ i) G.atom)
    {l : L} (h : G.fits t l) : G.fits (t.subst σ) l := by
  induction t generalizing l with
  | hole i => exact G.fits_mono (hσ i rfl) h
  | group t ih => exact ⟨h.1, ih hσ h.2⟩
  | node p n ts ih =>
      refine ⟨h.1, h.2.1, fun k a ha => ?_⟩
      exact ih k (fun i hi => hσ i ⟨k, hi⟩) (h.2.2 k a ha)

/-- The tokens, with their holes, are those of an expression with this tree. -/
def Parses (ts : List (T ⊕ ι)) (t : Tree P ι) : Prop := G.fits t G.top ∧ G.yield t = ts

/-- No text has two trees. -/
def Unambiguous : Prop :=
  ∀ t t' : Tree P Empty, G.fits t G.top → G.fits t' G.top → G.words t = G.words t' → t = t'

/-- A text is an expression with this tree, and with no other where the grammar is unambiguous. -/
structure HasTree (ts : List T) (t : Tree P Empty) : Prop where
  fits : G.fits t G.top
  words : G.words t = ts
  only : G.Unambiguous → ∀ t', G.fits t' G.top → G.words t' = ts → t' = t

lemma HasTree.of_fits {G : Grammar T L P} {t : Tree P Empty} (h : G.fits t G.top) :
    G.HasTree (G.words t) t where
  fits := h
  words := rfl
  only := fun hone t' ht' hwords => hone t' t ht' h hwords

end Levels

/-! ## Forms -/

section Forms

variable {G} {p : P}

lemma words_group (t : Tree P Empty) :
    G.words (.group t) = G.opening :: (G.words t ++ [G.closing]) := by
  simp [words, yield, fill_append]

variable [Preorder L]

/-- A production without operands at the tightest level. -/
structure Leaf (G : Grammar T L P) (p : P) (ts : List T) : Prop where
  level : G.level p ≤ G.atom
  head : G.head p = ts
  operands : G.operands p = []

/-- A production at the tightest level around one operand of any level. -/
structure Around (G : Grammar T L P) (p : P) (before behind : List T) : Prop where
  level : G.level p ≤ G.atom
  head : G.head p = before
  operands : G.operands p = [(G.top, behind)]

/-- A production at the tightest level behind one operand of some level. -/
structure Postfix (G : Grammar T L P) (p : P) (operand : L) (behind : List T) : Prop where
  level : G.level p ≤ G.atom
  head : G.head p = []
  operands : G.operands p = [(operand, behind)]

/-- A token between two operands, which may be of the tightest level. -/
structure Infix (G : Grammar T L P) (p : P) (t : T) : Prop where
  level : G.level p ≤ G.top
  head : G.head p = []
  operands : ∃ l l', G.operands p = [(l, [t]), (l', [])] ∧ G.atom ≤ l ∧ G.atom ≤ l'

lemma Leaf.fits {ts : List T} (h : G.Leaf p ts) : G.fits (.leaf p : Tree P ι) G.atom :=
  ⟨h.level, by rw [h.operands]; rfl, fun i => i.elim0⟩

lemma Leaf.words {ts : List T} (h : G.Leaf p ts) : G.words (.leaf p) = ts := by
  simp [Grammar.words, Tree.leaf, yield, h.head]

lemma Around.fits {before behind : List T} (h : G.Around p before behind) {t : Tree P ι}
    (ht : G.fits t G.top) : G.fits (.one p t) G.atom := by
  refine ⟨h.level, by rw [h.operands]; rfl, fun i a ha => ?_⟩
  obtain rfl : i = 0 := Subsingleton.elim _ _
  rw [h.operands] at ha
  cases ha
  exact ht

lemma Around.words {before behind : List T} (h : G.Around p before behind) (t : Tree P Empty) :
    G.words (.one p t) = before ++ G.words t ++ behind := by
  simp [Grammar.words, Tree.one, yield, Grammar.behind, h.head, h.operands, fill_append]

lemma Postfix.fits_iff {l : L} {behind : List T} (h : G.Postfix p l behind) {t : Tree P ι} :
    G.fits (.one p t) G.atom ↔ G.fits t l := by
  constructor
  · rintro ⟨-, -, hfits⟩
    exact hfits 0 (l, behind) (by rw [h.operands]; rfl)
  · intro ht
    refine ⟨h.level, by rw [h.operands]; rfl, fun i a ha => ?_⟩
    obtain rfl : i = 0 := Subsingleton.elim _ _
    rw [h.operands] at ha
    cases ha
    exact ht

lemma Postfix.words {l : L} {behind : List T} (h : G.Postfix p l behind) (t : Tree P Empty) :
    G.words (.one p t) = G.words t ++ behind := by
  simp [Grammar.words, Tree.one, yield, Grammar.behind, h.head, h.operands, fill_append]

lemma Infix.fits {a : T} (h : G.Infix p a) {t t' : Tree P ι} (ht : G.fits t G.atom)
    (ht' : G.fits t' G.atom) : G.fits (.two p t t') G.top := by
  obtain ⟨l, l', hargs, hl, hl'⟩ := h.operands
  refine ⟨h.level, by rw [hargs]; rfl, fun i b hb => ?_⟩
  rw [hargs] at hb
  match i, hb with
  | 0, hb =>
      cases hb
      exact G.fits_mono ht hl
  | 1, hb =>
      cases hb
      exact G.fits_mono ht' hl'

lemma Infix.words {a : T} (h : G.Infix p a) (t t' : Tree P Empty) :
    G.words (.two p t t') = G.words t ++ a :: G.words t' := by
  obtain ⟨l, l', hargs, -, -⟩ := h.operands
  simp [Grammar.words, Tree.two, yield, Grammar.behind, h.head, hargs, fill_append]

end Forms

end Grammar

end OperatorGrammar
end Pawrly
