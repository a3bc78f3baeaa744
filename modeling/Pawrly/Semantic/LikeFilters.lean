import Pawrly.Semantic.Catalog
import Pawrly.Sql.Aggregate
import Pawrly.Sql.Confinement
import Pawrly.Lib.LikePattern

/-!
# What the `LIKE` filters match

`apply_op` puts the value of a `contains`, `starts_with` or `ends_with` filter between `%` signs and
quotes it.  Quoting is exact, so the pattern that the engine gets is the one meant
(`patternOf_render`); but the special characters of patterns are not escaped, so the condition
matches the value as it is written exactly when it has none (`likesLiterally_iff`).
-/

namespace Pawrly
namespace Semantic

open Sql LikePattern

/-! ## `LIKE` in the engine -/

/-- The wildcards of SQL, with the escape that holds when a `LIKE` names no other. -/
def sqlWildcards : Wildcards Char where
  many := '%'
  one := '_'
  escape := '\\'
  many_ne_one := by decide
  escape_ne_many := by decide
  escape_ne_one := by decide

/-- The engine evaluates `LIKE` as SQL does; it is not true of `NULL`. -/
structure LikesAsSql (F : Functions) : Prop where
  text : ∀ s pattern : String,
    F.like (some (.text s)) pattern = sqlWildcards.like pattern.toList s.toList
  null : ∀ pattern, F.like none pattern = false

/-- The pattern of the text `expr LIKE …`, as SQL reads its literal. -/
def patternOf (expr : SqlExpr) (text : String) : Option String :=
  (Text.stripPrefix (expr.render ++ " LIKE ") text).bind fun literal =>
    match lex literal with
    | some [.str pattern] => some (String.ofList pattern)
    | _ => none

/-- The condition that the text is holds of a row in which the expression has the value. -/
def likeHolds (F : Functions) (expr : SqlExpr) (text : String) (cell : Value) : Bool :=
  match patternOf expr text with
  | some pattern => F.like cell pattern
  | none => false

/-! ## Quoting -/

lemma lex_lit (v : String) : lex (lit v) = some [.str v.toList] := by
  have hopen : LexState.step .ground '\'' = ([], .str []) := by decide
  have hlit := lexFrom_lit .ground v [] hopen
  rw [List.append_nil, List.append_nil, lexFrom_strQuote _ (by simp), List.reverse_reverse] at hlit
  exact hlit

lemma stripPrefix_append (s t : String) : Text.stripPrefix s (s ++ t) = some t := by
  unfold Text.stripPrefix
  rw [String.toList_append, if_pos (by simp), List.drop_left, String.ofList_toList]

/-- The quoted pattern is read as it is. -/
lemma patternOf_render (expr : SqlExpr) (pattern : String) :
    patternOf expr (SqlCond.like expr pattern).render = some pattern := by
  rw [SqlCond.render, patternOf, stripPrefix_append, Option.bind_some, lex_lit]
  dsimp only
  rw [String.ofList_toList]

/-! ## The filters -/

/-- The operators that are written as `LIKE`. -/
def FilterOp.isLike : FilterOp → Bool
  | .contains | .startsWith | .endsWith => true
  | _ => false

/-- What the operator says of a text, literally. -/
def FilterOp.Matches (v s : List Char) : FilterOp → Prop
  | .contains => v <:+: s
  | .startsWith => v <+: s
  | .endsWith => v <:+ s
  | _ => False

/-- The condition of the filter holds of a text exactly when the operator does, and not of
`NULL`. -/
def LikesLiterally (F : Functions) (expr : SqlExpr) (f : SemanticFilter) (numeric : Bool)
    (v : String) : Prop :=
  ∃ cond, applyOp expr f numeric = .ok cond ∧
    (∀ s : String, likeHolds F expr cond.render (some (.text s)) = true ↔
      f.op.Matches v.toList s.toList) ∧
    likeHolds F expr cond.render none = false

/-- The value has no `%`, no `_` and no backslash; a backslash may end the value of an
`ends_with`. -/
def PlainFor (v : List Char) : FilterOp → Prop
  | .contains | .startsWith => ∀ c ∈ v, sqlWildcards.Plain c
  | .endsWith => sqlWildcards.PlainEnd v
  | _ => True

lemma likesLiterally_of_pattern {F : Functions} (hF : LikesAsSql F) {expr : SqlExpr}
    {f : SemanticFilter} {numeric : Bool} {v pattern : String}
    (h : applyOp expr f numeric = .ok (.like expr pattern)) :
    LikesLiterally F expr f numeric v ↔ ∀ s : List Char,
      sqlWildcards.like pattern.toList s = true ↔ f.op.Matches v.toList s := by
  have hholds : ∀ cell, likeHolds F expr (SqlCond.like expr pattern).render cell =
      F.like cell pattern := by
    intro cell
    rw [likeHolds, patternOf_render]
  unfold LikesLiterally
  rw [h]
  constructor
  · rintro ⟨cond, hcond, htext, -⟩ s
    obtain rfl := Except.ok.inj hcond
    have hs := htext (String.ofList s)
    rwa [hholds, hF.text, String.toList_ofList] at hs
  · intro hall
    refine ⟨_, rfl, fun s => ?_, ?_⟩
    · rw [hholds, hF.text]
      exact hall s.toList
    · rw [hholds, hF.null]

/-- **A `LIKE` filter matches its value literally** exactly when the value has no special
characters. -/
theorem likesLiterally_iff {F : Functions} (hF : LikesAsSql F) (expr : SqlExpr)
    {f : SemanticFilter} (hop : f.op.isLike = true) {v : String} {rest : List String}
    (hv : f.values = v :: rest) (numeric : Bool) :
    LikesLiterally F expr f numeric v ↔ PlainFor v.toList f.op := by
  have hone : oneValue f = .ok v := by rw [oneValue, hv]
  cases hf : f.op with
  | contains =>
      have happly : applyOp expr f numeric = .ok (.like expr ("%" ++ v ++ "%")) := by
        simp only [applyOp, hf, hone]
        rfl
      rw [likesLiterally_of_pattern hF happly, hf, String.toList_append, String.toList_append]
      exact occurs_iff sqlWildcards v.toList
  | startsWith =>
      have happly : applyOp expr f numeric = .ok (.like expr (v ++ "%")) := by
        simp only [applyOp, hf, hone]
        rfl
      rw [likesLiterally_of_pattern hF happly, hf, String.toList_append]
      exact prefix_iff sqlWildcards v.toList
  | endsWith =>
      have happly : applyOp expr f numeric = .ok (.like expr ("%" ++ v)) := by
        simp only [applyOp, hf, hone]
        rfl
      rw [likesLiterally_of_pattern hF happly, hf, String.toList_append]
      exact suffix_iff sqlWildcards v.toList
  | _ =>
      rw [hf] at hop
      cases hop

/-! ## A name with a quote, and a percentage -/

/-- An engine whose texts are compared as SQL does. -/
def textFunctions : Functions where
  trunc := fun _ v => v
  atTimeZone := fun _ v => v
  cmp := fun _ _ _ => false
  like := fun v pattern =>
    match v with
    | some (.text s) => sqlWildcards.like pattern.toList s.toList
    | _ => false
  trunc_trunc := fun _ _ _ _ => rfl

lemma textFunctions_likesAsSql : LikesAsSql textFunctions := ⟨fun _ _ => rfl, fun _ => rfl⟩

def labelContains (v : String) : SemanticFilter where
  member := "offers.label"
  op := .contains
  values := [v]

theorem quoted_name_likesLiterally :
    LikesLiterally textFunctions (.raw "label") (labelContains "O'Brien") false "O'Brien" := by
  apply (likesLiterally_iff textFunctions_likesAsSql _ rfl rfl false).mpr
  show ∀ c ∈ "O'Brien".toList, sqlWildcards.Plain c
  simp [Wildcards.Plain, sqlWildcards]

/-- A filter for `50%` also takes `500`. -/
theorem percentage_not_likesLiterally :
    ¬ ∀ (F : Functions), LikesAsSql F → ∀ (expr : SqlExpr) (f : SemanticFilter) (v : String)
      (rest : List String) (numeric : Bool), f.op.isLike = true → f.values = v :: rest →
        LikesLiterally F expr f numeric v := by
  intro hall
  obtain ⟨cond, hcond, htext, -⟩ := hall textFunctions textFunctions_likesAsSql (.raw "label")
    (labelContains "50%") "50%" [] false rfl rfl
  obtain rfl : SqlCond.like (.raw "label") "%50%%" = cond := Except.ok.inj hcond
  have hholds : likeHolds textFunctions (.raw "label")
      (SqlCond.like (.raw "label") "%50%%").render (some (.text "500")) = true := by decide
  have hin : "50%".toList <:+: "500".toList := (htext "500").mp hholds
  exact absurd hin (by decide)

end Semantic
end Pawrly
