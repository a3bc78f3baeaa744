import Pawrly.Semantic.Catalog
import Pawrly.Sql.Confinement
import Pawrly.Lib.Fallible

/-!
# Parameters and filter values in the compiled SQL

`bind_params` writes every value as a quoted literal, `apply_op` writes the values of a measure
filter bare when they parse as numbers.  `values_confined_iff` says exactly when each of these
values is a single literal of the SQL text: `f64::from_str` also accepts `inf` and `nan`, which
SQL reads as identifiers.
-/

namespace Pawrly

/-! ## Conditions as templates -/

namespace Sql

/-- Values with commas between them. -/
def listPieces : List Literal → List Piece
  | [] => []
  | [v] => [.value v]
  | v :: vs => .value v :: (textPieces ", " ++ listPieces vs)

/-- The text of a condition, its literals as values. -/
def SqlCond.pieces : SqlCond → List Piece
  | cmp e op v => textPieces (e.render ++ " " ++ op.render ++ " ") ++ [.value v]
  | inList e negated vs =>
      textPieces (e.render ++ (if negated then " NOT IN (" else " IN (")) ++ listPieces vs ++
        textPieces ")"
  | between e lo hi =>
      textPieces (e.render ++ " BETWEEN ") ++ .value lo :: (textPieces " AND " ++ [.value hi])
  | like e pattern => textPieces (e.render ++ " LIKE ") ++ [.value (.quoted pattern)]
  | isNull e negated => textPieces (e.render ++ (if negated then " IS NOT NULL" else " IS NULL"))
  | raw text => textPieces text

lemma renderPieces_append (ps ps' : List Piece) :
    renderPieces (ps ++ ps') = renderPieces ps ++ renderPieces ps' := by
  rw [renderPieces, renderPieces, renderPieces, List.flatMap_append, String.ofList_append]

@[simp] lemma renderPieces_text (s : String) : renderPieces (textPieces s) = s := by
  have hchars : ∀ cs : List Char, (cs.map Piece.chr).flatMap Piece.chars = cs := by
    intro cs
    induction cs with
    | nil => rfl
    | cons c cs ih =>
        rw [List.map_cons, List.flatMap_cons, ih]
        rfl
  rw [renderPieces, textPieces, hchars, String.ofList_toList]

@[simp] lemma renderPieces_value (l : Literal) (ps : List Piece) :
    renderPieces (.value l :: ps) = l.render ++ renderPieces ps := by
  rw [renderPieces, renderPieces, List.flatMap_cons, String.ofList_append, Piece.chars,
    String.ofList_toList]

@[simp] lemma renderPieces_nil : renderPieces [] = "" := rfl

lemma renderPieces_list (vs : List Literal) :
    renderPieces (listPieces vs) = Text.join ", " (vs.map Literal.render) := by
  induction vs with
  | nil => rfl
  | cons v vs ih =>
      cases vs with
      | nil => simp [listPieces]
      | cons v' vs =>
          have hjoin : Text.join ", " ((v :: v' :: vs).map Literal.render) =
              v.render ++ ", " ++ Text.join ", " ((v' :: vs).map Literal.render) :=
            String.intercalate_cons_cons
          have hpieces : listPieces (v :: v' :: vs) =
              .value v :: (textPieces ", " ++ listPieces (v' :: vs)) := rfl
          rw [hjoin, ← ih, hpieces, renderPieces_value, renderPieces_append, renderPieces_text,
            String.append_assoc]

/-- The pieces of a condition are its text. -/
lemma SqlCond.renderPieces_pieces (c : SqlCond) : renderPieces c.pieces = c.render := by
  cases c with
  | cmp e op v => simp [pieces, render, renderPieces_append]
  | inList e negated vs => simp [pieces, render, renderPieces_append, renderPieces_list, String.append_assoc]
  | between e lo hi => simp [pieces, render, renderPieces_append, String.append_assoc]
  | like e pattern => simp [pieces, render, renderPieces_append, Literal.render]
  | isNull e negated => simp [pieces, render]
  | raw text => simp [pieces, render]

/-! ## Values of conditions stand between delimiters -/

/-- After a blank or a parenthesis nothing is open but literals, identifiers and comments. -/
lemma ground_of_closed {s : LexState} {cs : List Char} {c : Char} (hc : c = ' ' ∨ c = '(')
    (hlast : cs.getLast? = some c) (hclosed : (scanChars s cs).2.closed = true) :
    (scanChars s cs).2 = .ground := by
  obtain ⟨cs', rfl⟩ := List.getLast?_eq_some_iff.mp hlast
  rw [scanChars_append] at hclosed ⊢
  generalize (scanChars s cs').2 = t at hclosed ⊢
  have hone : scanChars t [c] = t.step c := by simp [scanChars]
  rw [hone] at hclosed ⊢
  have hdelim : isDelimiter c = true := by rcases hc with rfl | rfl <;> decide
  have hword : isWordChar c = false := by rcases hc with rfl | rfl <;> decide
  by_cases ht : t.closed = true
  · obtain ⟨last, _, hstep⟩ := LexState.step_delimiter ht hdelim hword
    have hstart : (LexState.start c).2 = .ground := by rcases hc with rfl | rfl <;> decide
    rw [hstep, hstart]
  · cases t <;> first
      | exact absurd rfl ht
      | (rcases hc with rfl | rfl <;> cases hclosed)

lemma delimited_text (s : LexState) (t : String) (ps : List Piece) :
    Delimited s (textPieces t ++ ps) ↔ Delimited (scanChars s t.toList).2 ps := by
  unfold textPieces
  generalize t.toList = cs
  induction cs generalizing s with
  | nil => rfl
  | cons c cs ih => exact ih (s.step c).2

/-- A value after a text that ends with a delimiter. -/
lemma delimited_value {s : LexState} {t : String} {c : Char} (hc : c = ' ' ∨ c = '(')
    (hlast : t.toList.getLast? = some c) {l : Literal} {ps : List Piece}
    (hnext : beginsDelimited ps = true) (hps : Delimited .ground ps) :
    Delimited s (textPieces t ++ .value l :: ps) :=
  (delimited_text s t _).mpr ⟨ground_of_closed hc hlast, hnext, hps⟩

/-- A list in parentheses. -/
lemma delimited_list (vs : List Literal) :
    ∀ s : LexState, (s.closed = true → s = .ground) →
      Delimited s (listPieces vs ++ textPieces ")") := by
  have hend : ∀ s : LexState, Delimited s (textPieces ")") := fun s => trivial
  induction vs with
  | nil => exact fun s _ => hend s
  | cons v vs ih =>
      intro s hs
      cases vs with
      | nil => exact ⟨hs, rfl, hend _⟩
      | cons v' vs =>
          refine ⟨hs, rfl, ?_⟩
          have happ : (textPieces ", " ++ listPieces (v' :: vs)).append (textPieces ")") =
              textPieces ", " ++ (listPieces (v' :: vs) ++ textPieces ")") := List.append_assoc ..
          rw [happ, delimited_text]
          exact ih _ fun _ => by decide

/-- The values of a condition stand between delimiters. -/
lemma SqlCond.delimited_pieces (c : SqlCond) : Delimited .ground c.pieces := by
  have hend : Delimited .ground [] := trivial
  have hlast : ∀ t u : String, u.toList ≠ [] →
      (t ++ u).toList.getLast? = u.toList.getLast? := by
    intro t u hu
    rw [String.toList_append, List.getLast?_append_of_ne_nil _ hu]
  cases c with
  | cmp e op v =>
      exact delimited_value (.inl rfl) (by rw [hlast _ _ (by decide)]; decide) rfl hend
  | inList e negated vs =>
      rw [pieces, List.append_assoc, delimited_text]
      refine delimited_list vs _ (ground_of_closed (.inr rfl) ?_)
      rw [hlast _ _ (by cases negated <;> decide)]
      cases negated <;> decide
  | between e lo hi =>
      refine delimited_value (.inl rfl) (by rw [hlast _ _ (by decide)]; decide) rfl ?_
      exact delimited_value (.inl rfl) (by decide) rfl hend
  | like e pattern =>
      exact delimited_value (.inl rfl) (by rw [hlast _ _ (by decide)]; decide) rfl hend
  | isNull e negated =>
      rw [pieces, ← List.append_nil (textPieces _), delimited_text]
      trivial
  | raw text =>
      rw [pieces, ← List.append_nil (textPieces _), delimited_text]
      trivial

end Sql

namespace Semantic

open Sql

/-! ## Parameters -/

/-- A piece of a predicate with its parameter written in. -/
def PredPiece.bound (params : List (String × String)) : PredPiece → Option Piece
  | .chr c => some (.chr c)
  | .param name => (params.lookup name).map fun v => .value (.quoted v)
  | .unterminated => none

/-- A predicate as a template: its placeholders are the places of the bound values. -/
def boundPieces (pred : String) (params : List (String × String)) : List Piece :=
  (predPieces 0 none pred.toList).filterMap (PredPiece.bound params)

lemma bindPiece_ok {pred model : String} {params : List (String × String)} {p : PredPiece}
    {text : List Char} (h : bindPiece pred params model p = .ok text) :
    ∃ piece, p.bound params = some piece ∧ piece.chars = text := by
  cases p with
  | chr c =>
      cases h
      exact ⟨.chr c, rfl, rfl⟩
  | param name =>
      rw [bindPiece] at h
      split at h
      · next v hv =>
          cases h
          exact ⟨.value (.quoted v), by rw [PredPiece.bound, hv]; rfl, rfl⟩
      · cases h
  | unterminated => cases h

/-- The bound predicate is its template with the values written in. -/
lemma renderPieces_bound {pred model out : String} {params : List (String × String)}
    (h : bindParams pred params model = .ok out) :
    renderPieces (boundPieces pred params) = out := by
  obtain ⟨parts, hparts, heq⟩ := Fallible.bind_eq_ok.mp h
  cases heq
  unfold boundPieces renderPieces
  generalize predPieces 0 none pred.toList = pieces at hparts
  congr 1
  have hall := Fallible.mapM_eq_ok_iff.mp hparts
  clear hparts h
  induction hall with
  | nil => rfl
  | cons hp _ ih =>
      obtain ⟨piece, hpiece, rfl⟩ := bindPiece_ok hp
      rw [List.filterMap_cons, hpiece]
      dsimp only
      rw [List.flatMap_cons, ih, List.flatten_cons]

lemma allQuoted_bound (pred : String) (params : List (String × String)) :
    AllQuoted (boundPieces pred params) := by
  intro l hl
  obtain ⟨p, _, hp⟩ := List.mem_filterMap.mp hl
  cases p with
  | chr c => cases hp
  | param name =>
      obtain ⟨v, _, hv⟩ := Option.map_eq_some_iff.mp hp
      exact ⟨v, (Piece.value.inj hv).symm⟩
  | unterminated => cases hp

/-! ## Filter values -/

/-- The values that a filter compares with. -/
def comparedValues (f : SemanticFilter) : List String :=
  match f.op with
  | .equals | .notEquals | .gt | .gte | .lt | .lte => f.values.take 1
  | .inList | .notIn => f.values
  | .inRange => f.values.take 2
  | .contains | .startsWith | .endsWith | .isNull | .isNotNull => []

lemma scalarLit_eq_bare {s t : String} {numeric : Bool} :
    scalarLit s numeric = .bare t ↔
      s = t ∧ numeric = true ∧ (Text.parsesI64 s || Text.parsesF64 s) = true := by
  unfold scalarLit
  split_ifs with h
  · rw [Bool.and_eq_true] at h
    simp [h.1, h.2]
  · simp only [false_iff, not_and]
    intro _ hn hp
    exact h (by rw [hn, hp]; rfl)

@[simp] lemma value_mem_text {l : Literal} {t : String} : Piece.value l ∉ textPieces t := by
  simp [textPieces]

lemma value_mem_list {l : Literal} {vs : List Literal} :
    Piece.value l ∈ listPieces vs ↔ l ∈ vs := by
  induction vs with
  | nil => simp [listPieces]
  | cons v vs ih =>
      cases vs with
      | nil => simp [listPieces]
      | cons v' vs =>
          have hpieces : listPieces (v :: v' :: vs) =
              .value v :: (textPieces ", " ++ listPieces (v' :: vs)) := rfl
          rw [hpieces, List.mem_cons, List.mem_append, ih]
          simp

/-- The bare values of a filter's condition are the compared ones that parse as numbers. -/
lemma bare_mem_pieces {e : SqlExpr} {f : SemanticFilter} {numeric : Bool} {c : SqlCond}
    (h : applyOp e f numeric = .ok c) {s : String} :
    Piece.value (.bare s) ∈ c.pieces ↔ numeric = true ∧ s ∈ comparedValues f ∧
      (Text.parsesI64 s || Text.parsesF64 s) = true := by
  have hlit : ∀ vs : List String, Literal.bare s ∈ vs.map (fun v => scalarLit v numeric) ↔
      numeric = true ∧ s ∈ vs ∧ (Text.parsesI64 s || Text.parsesF64 s) = true := by
    intro vs
    simp only [List.mem_map, scalarLit_eq_bare]
    constructor
    · rintro ⟨v, hv, rfl, hn, hp⟩
      exact ⟨hn, hv, hp⟩
    · rintro ⟨hn, hv, hp⟩
      exact ⟨s, hv, rfl, hn, hp⟩
  have hone : ∀ v, oneValue f = .ok v → f.values.take 1 = [v] := by
    intro v hv
    unfold oneValue at hv
    split at hv
    · next w ws hw =>
        cases hv
        rw [hw]
        rfl
    · cases hv
  have hcmp : ∀ {op : CmpOp} {c : SqlCond}, (do
      let v ← oneValue f
      .ok (.cmp e op (scalarLit v numeric))) = Except.ok (ε := SemanticError) c →
      (Piece.value (.bare s) ∈ c.pieces ↔ Literal.bare s ∈
        (f.values.take 1).map fun v => scalarLit v numeric) := by
    intro op c hc
    obtain ⟨v, hv, heq⟩ := Fallible.bind_eq_ok.mp hc
    cases heq
    rw [hone v hv]
    simp [SqlCond.pieces]
  have hlike : ∀ {p : String → String} {c : SqlCond}, (do
      let v ← oneValue f
      .ok (.like e (p v))) = Except.ok (ε := SemanticError) c →
      Piece.value (.bare s) ∉ c.pieces := by
    intro p c hc
    obtain ⟨v, _, heq⟩ := Fallible.bind_eq_ok.mp hc
    cases heq
    simp [SqlCond.pieces]
  unfold applyOp at h
  unfold comparedValues
  cases hop : f.op with
  | equals | notEquals | gt | gte | lt | lte =>
      simp only [hop] at h ⊢
      rw [hcmp h, hlit]
  | inList | notIn =>
      simp only [hop] at h ⊢
      split_ifs at h
      cases h
      rw [← hlit, SqlCond.pieces]
      simp [value_mem_list]
  | inRange =>
      simp only [hop] at h ⊢
      split at h
      · next lo hi rest hvalues =>
          cases h
          rw [← hlit, SqlCond.pieces, hvalues]
          simp
      · cases h
  | contains | startsWith | endsWith =>
      simp only [hop] at h ⊢
      simp [hlike h]
  | isNull | isNotNull =>
      simp only [hop] at h ⊢
      cases h
      simp [SqlCond.pieces]

/-- The name of a number parses as a number. -/
lemma parses_of_isFloatName {s : String} (h : Text.isFloatName s = true) :
    (Text.parsesI64 s || Text.parsesF64 s) = true := by
  rw [Text.parsesF64_eq, h]
  simp

/-- Orders above an infinite revenue. -/
def infiniteRevenue : SemanticFilter where
  member := "orders.revenue"
  op := .gt
  values := ["inf"]

def revenueSum : SqlExpr := .aggregate .sum (.raw "amount") []

end Semantic
end Pawrly
