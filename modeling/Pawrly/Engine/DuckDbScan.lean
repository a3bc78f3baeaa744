import Pawrly.Lib.Separated
import Pawrly.Sql.SelectText
import Pawrly.Engine.CallRoundTrip

/-!
# Scans of DuckDB relations

`build_sql` (`pawrly-engine/src/duckdb_source.rs`) puts a projection, the filters of the form
`column = literal` and a limit into the text of one `SELECT`.  Strings are escaped, names are not, and
an infinite float is printed as a word: the statement means the scan exactly when no name has a quote
and every float is a number (`buildSql_iff`).
-/

namespace Pawrly
namespace Engine
namespace DuckDb

open Sql
open FunctionCall (Floats ScalarValue numberOf)

variable {D : Floats}

/-! ## Filters -/

inductive Operator
  | eq
  | other (name : String)

/-- A filter of a scan (`Expr`). -/
inductive Expr (D : Floats)
  | column (relation : Option String) (name : String)
  | literal (v : ScalarValue D)
  | binary (left : Expr D) (op : Operator) (right : Expr D)
  | other (text : String)

/-- The literal of a scalar, for the types that there is one for. -/
def scalarText : ScalarValue D → Option String
  | .utf8 v | .largeUtf8 v => v.map lit
  | .int bits v => if bits = 32 ∨ bits = 64 then v.map toString else none
  | .float64 v => v.map D.display64
  | .boolean v => v.map fun b => if b then "true" else "false"
  | _ => none

/-- The column and the scalar that are compared, in either order. -/
def comparison : Expr D → Option (String × ScalarValue D)
  | .binary (.column _ c) .eq (.literal v) => some (c, v)
  | .binary (.literal v) .eq (.column _ c) => some (c, v)
  | _ => none

def extractEqLiteral (e : Expr D) : Option (String × String) :=
  (comparison e).bind fun cv => (scalarText cv.2).map fun text => (cv.1, text)

inductive FilterPushDown
  | exact
  | unsupported
  deriving DecidableEq

def supportsFilter (e : Expr D) : FilterPushDown :=
  if (extractEqLiteral e).isSome then .exact else .unsupported

def supportsFiltersPushdown (filters : List (Expr D)) : List FilterPushDown :=
  filters.map supportsFilter

/-! ## The statement -/

/-- What stands behind `FROM`: a text whose tokens are one relation and nothing behind it. -/
structure Relation where
  text : String
  tokens : List Token
  spells : Spells text tokens
  /-- Keywords stand in parentheses only, and these are closed. -/
  whole : ∀ p ∈ [Token.isWord "WHERE", Token.isWord "LIMIT"], ∀ ts,
    cutAt p 0 (tokens ++ ts) = (tokens ++ (cutAt p 0 ts).1, (cutAt p 0 ts).2)
  plain : '\x00' ∉ text.toList ∧ semicolon ∉ tokens ∧ .ident [] ∉ tokens

/-- `DuckDbTableProvider`. -/
structure Provider where
  relation : Relation
  schema : List String

namespace Provider

variable (self : Provider)

abbrev Projection := Option (List (Fin self.schema.length))

def columnsText : self.Projection → String
  | some [] => "1"
  | some p => Text.join ", " (p.map fun i => "\"" ++ self.schema.get i ++ "\"")
  | none => "*"

def clauseText (clause : String × String) : String := "\"" ++ clause.1 ++ "\" = " ++ clause.2

def whereText (filters : List (Expr D)) : String :=
  let clauses := (filters.filterMap extractEqLiteral).map clauseText
  if clauses.isEmpty then "" else " WHERE " ++ Text.join " AND " clauses

def limitText : Option ℕ → String
  | some n => " LIMIT " ++ toString n
  | none => ""

def buildSql (projection : self.Projection) (filters : List (Expr D)) (limit : Option ℕ) : String :=
  "SELECT " ++ self.columnsText projection ++ " FROM " ++ self.relation.text ++ whereText filters ++
    limitText limit

/-- The names of the projected schema. -/
def projected : self.Projection → List String
  | some p => p.map self.schema.get
  | none => self.schema

end Provider

/-! ## What the statement means -/

/-- The parts of a text that is one statement.  It is passed on as a C string, and a name is not
empty. -/
def readStatement (sql : String) : Option SelectText :=
  if '\x00' ∈ sql.toList then none
  else (lex sql).bind fun ts => if .ident [] ∈ ts then none else readSelect ts

/-- The numeral, with its sign. -/
def numeral : List Token → Option String
  | [.number digits] => some (String.ofList digits)
  | [.symbol '-', .number digits] => some (String.ofList ('-' :: digits))
  | _ => none

/-- Digits with at most one point, and a minus sign at most. -/
def IsNumeral (s : String) : Prop :=
  Text.isMantissa (Text.dropSign s.toList) = true ∧ s.toList.head? ≠ some '+'

/-- The floats as numbers: what number one is, if it is one, and which one a numeral is read as.  A
number is printed in digits that are read as the same number, the others are printed as words. -/
structure Doubles (D : Floats) where
  number : D.F64 → Option ℚ
  nearest : ℚ → D.F64
  printed : ∀ x q, number x = some q →
    IsNumeral (D.display64 x) ∧
      ∃ r, numberOf (D.display64 x) = some r ∧ number (nearest r) = some q
  special : ∀ x, number x = none → D.display64 x ∈ ["inf", "-inf", "NaN"]

/-- The tokens are a literal of the scalar. -/
def Denotes (F : Doubles D) (ts : List Token) : ScalarValue D → Prop
  | .utf8 (some s) | .largeUtf8 (some s) => ts = [.str s.toList]
  | .int _ (some n) => (numeral ts).bind numberOf = some (n : ℚ)
  | .float64 (some x) => ∃ q, (numeral ts).bind numberOf = some q ∧
      (F.number x).isSome ∧ F.number (F.nearest q) = F.number x
  | .boolean (some b) => ∃ t, ts = [t] ∧ t.isWord (if b then "TRUE" else "FALSE") = true
  | _ => False

/-- The condition compares the column of the filter with its scalar. -/
def Means (F : Doubles D) (e : Expr D) (ts : List Token) : Prop :=
  ∃ c v literal, comparison e = some (c, v) ∧ ts = .ident c.toList :: .symbol '=' :: literal ∧
    Denotes F literal v

/-- The columns of an expression of the list. -/
def itemColumns (schema : List String) : List Token → Option (List (List Char))
  | [.symbol '*'] => some (schema.map String.toList)
  | [.ident name] => if String.ofList name ∈ schema then some [name] else none
  | [.number text] => some [text]
  | _ => none

/-- The columns that arrive; of a constant only the number of rows does. -/
def Provider.output (self : Provider) (projection : self.Projection) (items : List (List Token)) :
    Option (List (List Char)) :=
  (items.mapM (itemColumns self.schema)).map fun columns =>
    if (self.projected projection).isEmpty then [] else columns.flatten

/-- The statement is one `SELECT` over the relation: the projected columns, the filters reported as
exact, the limit. -/
def Faithful (F : Doubles D) (self : Provider) (projection : self.Projection)
    (filters : List (Expr D)) (limit : Option ℕ) : Prop :=
  ∃ select, readStatement (self.buildSql projection filters limit) = some select ∧
    self.output projection select.items = some ((self.projected projection).map String.toList) ∧
    select.source = self.relation.tokens ∧
    List.Forall₂ (Means F) (filters.filter fun e => supportsFilter e = .exact) select.conditions ∧
    select.limit = limit.map fun n => [.number (toString n).toList]

/-! ## The condition -/

/-- A name that needs no escaping. -/
structure PlainName (name : String) : Prop where
  quotes : '"' ∉ name.toList
  nul : '\x00' ∉ name.toList
  nonempty : name ≠ ""

/-- A scalar whose literal is one in a statement. -/
structure PlainScalar (F : Doubles D) (v : ScalarValue D) : Prop where
  number : ∀ x, v = .float64 (some x) → (F.number x).isSome
  nul : ∀ s, v = .utf8 (some s) ∨ v = .largeUtf8 (some s) → '\x00' ∉ s.toList

/-! ## The tokens of a scalar -/

/-- The text goes on with a blank, if it does. -/
def BeginsBlank (rest : List Char) : Prop := ∀ c, rest.head? = some c → c = ' '

lemma BeginsBlank.delimited {rest : List Char} (h : BeginsBlank rest) :
    beginsDelimited (rest.map .chr) = true := by
  cases rest with
  | nil => rfl
  | cons c rest =>
      obtain rfl := h c rfl
      rfl

lemma flatMap_chr (rest : List Char) : (rest.map Piece.chr).flatMap Piece.chars = rest := by
  simp [List.flatMap_map, Piece.chars]

/-- A token that a blank ends. -/
lemma lexFrom_readsAs {cs rest : List Char} {t : Token} (h : ReadsAs cs t) (hrest : BeginsBlank rest) :
    lexFrom .ground (cs ++ rest) = (lexFrom .ground rest).map fun ts => t :: ts := by
  obtain ⟨-, s, hscan, hclosed, hfinish⟩ := h
  obtain ⟨last, hlast, hafter⟩ := lexFrom_delimited hclosed hrest.delimited
  rw [hfinish, Option.some.injEq] at hlast
  subst hlast
  rw [flatMap_chr] at hafter
  rw [lexFrom_append, hscan, hafter, Option.map_map]
  rfl

/-! ## Numerals -/

namespace IsNumeral

variable {s : String}

/-- Letters are not among the characters of a numeral. -/
lemma not_alpha (h : IsNumeral s) {c : Char} (hc : c ∈ (Text.dropSign s.toList).map Char.toLower) :
    c.isAlpha = false := by
  obtain ⟨d, hd, rfl⟩ := List.mem_map.mp hc
  rw [Char.isAlpha_toLower_eq_isAlpha]
  exact mantissa_not_alpha h.1 d hd

lemma parsesF64 (h : IsNumeral s) : Text.parsesF64 s = true := by
  have hexponent : Text.splitOnceChars 'e' ((Text.dropSign s.toList).map Char.toLower) = none :=
    FunctionCall.splitOnceChars_none fun hmem => absurd (h.not_alpha hmem) (by decide)
  have hdecimal : Text.isDecimal (Text.dropSign s.toList) = true := by
    rw [Text.isDecimal, hexponent]
    exact h.1
  rw [Text.parsesF64_eq, hdecimal, Bool.or_true]

lemma not_floatName (h : IsNumeral s) : Text.isFloatName s = false := by
  by_contra hname
  rw [Bool.not_eq_false] at hname
  have hmem : 'n' ∈ (Text.dropSign s.toList).map Char.toLower := by
    simp only [Text.isFloatName, Bool.or_eq_true, beq_iff_eq] at hname
    rcases hname with (h | h) | h <;> rw [h] <;> decide
  exact absurd (h.not_alpha hmem) (by decide)

/-- The sign and the digits. -/
lemma readLiteral_eq (h : IsNumeral s) : readLiteral (.bare s) =
    signTokens s.toList ++ [.number (Text.dropSign s.toList)] := by
  rw [readLiteral, h.not_floatName]
  rfl

lemma numeral_eq (h : IsNumeral s) : numeral (readLiteral (.bare s)) = some s := by
  rw [h.readLiteral_eq]
  rcases signed_cases s.toList with ⟨hsame, htokens⟩ | ⟨sign, hsign, hcons, htokens⟩
  · rw [htokens, hsame]
    exact congrArg some (String.ofList_toList)
  · rcases hsign with rfl | rfl
    · exact absurd (by rw [hcons]; rfl) h.2
    · rw [htokens]
      show some (String.ofList ('-' :: Text.dropSign s.toList)) = some s
      rw [← hcons, String.ofList_toList]

lemma mem (h : IsNumeral s) {c : Char} (hc : c ∈ s.toList) :
    c.isDigit = true ∨ c = '.' ∨ c = '-' := by
  have hbody : ∀ d ∈ Text.dropSign s.toList, d.isDigit = true ∨ d = '.' := (mantissa_chars h.1).2
  rcases signed_cases s.toList with ⟨hsame, -⟩ | ⟨sign, hsign, hcons, -⟩
  · rw [← hsame] at hc
    exact (hbody c hc).imp_right .inl
  · rw [hcons] at hc
    rcases List.mem_cons.mp hc with rfl | hc
    · rcases hsign with rfl | rfl
      · exact absurd (by rw [hcons]; rfl) h.2
      · exact .inr (.inr rfl)
    · exact (hbody c hc).imp_right .inl

end IsNumeral

lemma isMantissa_of_isDigits {cs : List Char} (h : Text.isDigits cs = true) :
    Text.isMantissa cs = true := by
  rw [Text.isMantissa, (FunctionCall.digits_plain h).1]
  exact h

lemma isNumeral_int (n : ℤ) : IsNumeral (toString n) := by
  cases n with
  | ofNat n =>
      have hdigits : Text.isDigits (toString (Int.ofNat n)).toList = true := Text.isDigits_toString n
      refine ⟨?_, fun hplus => ?_⟩
      · rw [Text.dropSign_digits hdigits]
        exact isMantissa_of_isDigits hdigits
      · simp only [Text.isDigits, Bool.and_eq_true, List.all_eq_true] at hdigits
        exact absurd (hdigits.2 '+' (List.mem_of_mem_head? hplus)) (by decide)
  | negSucc n =>
      have htext : (toString (Int.negSucc n)).toList = '-' :: (toString (n + 1)).toList := by
        have hrepr : toString (Int.negSucc n) = "-" ++ toString (n + 1) := rfl
        rw [hrepr, String.toList_append]
        rfl
      rw [IsNumeral, htext]
      exact ⟨isMantissa_of_isDigits (Text.isDigits_toString (n + 1)), by simp⟩

/-- The tokens that the literal of a scalar is read as. -/
def valueTokens : ScalarValue D → List Token
  | .utf8 (some s) | .largeUtf8 (some s) => readLiteral (.quoted s)
  | .int _ (some n) => readLiteral (.bare (toString n))
  | .float64 (some x) => readLiteral (.bare (D.display64 x))
  | .boolean (some b) => [.word (if b then "true" else "false").toList]
  | _ => []

/-- A printed float parses as one, be it a number or not. -/
lemma parsesF64_display (F : Doubles D) (x : D.F64) : Text.parsesF64 (D.display64 x) = true := by
  cases hx : F.number x with
  | some q => exact (F.printed x q hx).1.parsesF64
  | none =>
      have hall : ∀ s ∈ ["inf", "-inf", "NaN"], Text.parsesF64 s = true := by decide
      exact hall _ (F.special x hx)

lemma lexFrom_bare {s : String} (h : Text.parsesF64 s = true) {rest : List Char}
    (hrest : BeginsBlank rest) :
    lexFrom .ground (s.toList ++ rest) =
      (lexFrom .ground rest).map fun ts => readLiteral (.bare s) ++ ts := by
  have hread := @lexFrom_literal (.bare s) (rest.map .chr) hrest.delimited (by
    intro s' hs'
    cases hs'
    rw [h, Bool.or_true])
  rwa [flatMap_chr] at hread

lemma lexFrom_quoted_scalar (s : String) {rest : List Char} (hrest : BeginsBlank rest) :
    lexFrom .ground ((lit s).toList ++ rest) =
      (lexFrom .ground rest).map fun ts => readLiteral (.quoted s) ++ ts := by
  have hread := @lexFrom_literal (.quoted s) (rest.map .chr) hrest.delimited nofun
  rwa [flatMap_chr] at hread

/-- The literal of a scalar before a blank. -/
lemma lexFrom_scalar (F : Doubles D) {v : ScalarValue D} {text : String}
    (h : scalarText v = some text) {rest : List Char} (hrest : BeginsBlank rest) :
    lexFrom .ground (text.toList ++ rest) =
      (lexFrom .ground rest).map fun ts => valueTokens v ++ ts := by
  match v, h with
  | .utf8 (some s), h | .largeUtf8 (some s), h =>
      obtain rfl : lit s = text := by simpa [scalarText] using h
      exact lexFrom_quoted_scalar s hrest
  | .int bits (some n), h =>
      obtain ⟨-, rfl⟩ : (bits = 32 ∨ bits = 64) ∧ toString n = text := by
        simpa [scalarText] using h
      exact lexFrom_bare (isNumeral_int n).parsesF64 hrest
  | .int bits none, h => exact absurd h (by simp [scalarText])
  | .float64 (some x), h =>
      obtain rfl : D.display64 x = text := by simpa [scalarText] using h
      exact lexFrom_bare (parsesF64_display F x) hrest
  | .boolean (some b), h =>
      obtain rfl : (if b then "true" else "false") = text := by simpa [scalarText] using h
      refine lexFrom_readsAs (readsAs_alpha ?_ (List.all_eq_true.mp ?_)) hrest
      · cases b <;> decide
      · cases b <;> decide

/-- The literals of all scalars but floats that are no numbers denote them. -/
lemma denotes_iff (F : Doubles D) {v : ScalarValue D} {text : String}
    (h : scalarText v = some text) :
    Denotes F (valueTokens v) v ↔ ∀ x, v = .float64 (some x) → (F.number x).isSome := by
  match v, h with
  | .utf8 (some s), _ | .largeUtf8 (some s), _ => exact iff_of_true rfl nofun
  | .boolean (some b), _ =>
      refine iff_of_true ⟨_, rfl, ?_⟩ nofun
      cases b <;> decide
  | .int bits none, h => exact absurd h (by simp [scalarText])
  | .int bits (some n), _ =>
      refine iff_of_true ?_ nofun
      show (numeral (readLiteral (.bare (toString n)))).bind numberOf = some (n : ℚ)
      rw [(isNumeral_int n).numeral_eq]
      exact FunctionCall.numberOf_toString_int n
  | .float64 (some x), _ =>
      constructor
      · rintro ⟨q, -, hx, -⟩ y hy
        cases hy
        exact hx
      · intro h
        obtain ⟨q, hq⟩ := Option.isSome_iff_exists.mp (h x rfl)
        obtain ⟨hnumeral, r, hr, hnearest⟩ := F.printed x q hq
        refine ⟨r, ?_, h x rfl, by rw [hnearest, hq]⟩
        show (numeral (readLiteral (.bare (D.display64 x)))).bind numberOf = some r
        rw [hnumeral.numeral_eq]
        exact hr

/-- A kind of tokens that no literal has. -/
structure Foreign (p : Token → Bool) : Prop where
  str : ∀ cs, p (.str cs) = false
  number : ∀ cs, p (.number cs) = false
  symbol : ∀ c ∈ ['-', '='], p (.symbol c) = false
  word : ∀ w ∈ ["inf", "NaN", "true", "false"], p (.word w.toList) = false

lemma foreign_isWord {keyword : String} (h : keyword ∈ ["AND", "LIMIT"]) :
    Foreign (Token.isWord keyword) where
  str _ := rfl
  number _ := rfl
  symbol _ _ := rfl
  word := by
    have hall : ∀ keyword ∈ ["AND", "LIMIT"], ∀ w ∈ ["inf", "NaN", "true", "false"],
        Token.isWord keyword (.word w.toList) = false := by decide
    exact hall keyword h

variable {p : Token → Bool}

lemma passes_word {text : List Char} (h : p (.word text) = false) :
    passes p (.word text) = true := by
  simp [passes, h]

lemma passes_numeral (hp : Foreign p) {s : String} (h : IsNumeral s) :
    ∀ t ∈ readLiteral (.bare s), passes p t = true := by
  rw [h.readLiteral_eq]
  intro t ht
  rcases List.mem_append.mp ht with ht | ht
  · rcases signed_cases s.toList with ⟨-, htokens⟩ | ⟨sign, hsign, hcons, htokens⟩
    · rw [htokens] at ht
      cases ht
    · rw [htokens, List.mem_singleton] at ht
      subst ht
      rcases hsign with rfl | rfl
      · exact absurd (by rw [hcons]; rfl) h.2
      · simp [passes, hp.symbol '-' (by decide)]
  · rw [List.mem_singleton.mp ht]
    simp [passes, hp.number]

lemma passes_special (hp : Foreign p) {s : String} (h : s ∈ ["inf", "-inf", "NaN"]) :
    ∀ t ∈ readLiteral (.bare s), passes p t = true := by
  have hinf := hp.word "inf" (by decide)
  have hnan := hp.word "NaN" (by decide)
  have hdash := hp.symbol '-' (by decide)
  simp only [List.mem_cons, List.not_mem_nil, or_false] at h
  rcases h with rfl | rfl | rfl
  · have htokens : readLiteral (.bare "inf") = [.word "inf".toList] := by decide
    rw [htokens, List.forall_mem_singleton]
    exact passes_word hinf
  · have htokens : readLiteral (.bare "-inf") = [.symbol '-', .word "inf".toList] := by decide
    rw [htokens, List.forall_mem_cons, List.forall_mem_singleton]
    exact ⟨by simp [passes, hdash], passes_word hinf⟩
  · have htokens : readLiteral (.bare "NaN") = [.word "NaN".toList] := by decide
    rw [htokens, List.forall_mem_singleton]
    exact passes_word hnan

/-- No literal has a token of another kind. -/
lemma passes_valueTokens (F : Doubles D) (hp : Foreign p) (v : ScalarValue D) :
    ∀ t ∈ valueTokens v, passes p t = true := by
  have hnone : ∀ t ∈ ([] : List Token), passes p t = true := fun t ht =>
    absurd ht List.not_mem_nil
  have hstr : ∀ s : String, ∀ t ∈ [Token.str s.toList], passes p t = true := by
    intro s t ht
    rw [List.mem_singleton.mp ht]
    simp [passes, hp.str]
  cases v with
  | utf8 s => cases s with
      | none => exact hnone
      | some s => exact hstr s
  | largeUtf8 s => cases s with
      | none => exact hnone
      | some s => exact hstr s
  | int bits n => cases n with
      | none => exact hnone
      | some n => exact passes_numeral hp (isNumeral_int n)
  | float64 x => cases x with
      | none => exact hnone
      | some x =>
          cases hx : F.number x with
          | some q => exact passes_numeral hp (F.printed x q hx).1
          | none => exact passes_special hp (F.special x hx)
  | boolean b => cases b with
      | none => exact hnone
      | some b =>
          intro t ht
          rw [List.mem_singleton.mp ht]
          have hword : p (.word (if b then "true" else "false").toList) = false :=
            hp.word _ (by cases b <;> decide)
          exact passes_word hword
  | uint _ _ => exact hnone
  | float32 _ => exact hnone
  | other _ _ => exact hnone

/-- No other character than those of a string can be a NUL. -/
lemma nul_scalarText (F : Doubles D) {v : ScalarValue D} {text : String}
    (h : scalarText v = some text) : '\x00' ∈ text.toList ↔
      ∃ s, (v = .utf8 (some s) ∨ v = .largeUtf8 (some s)) ∧ '\x00' ∈ s.toList := by
  have hnumeral : ∀ {s : String}, IsNumeral s → '\x00' ∉ s.toList := by
    intro s hs hmem
    rcases hs.mem hmem with h | h | h
    · exact absurd h (by decide)
    · exact absurd h (by decide)
    · exact absurd h (by decide)
  have hlit : ∀ s : String, '\x00' ∈ (lit s).toList ↔ '\x00' ∈ s.toList := by
    intro s
    rw [toList_lit, List.mem_cons, List.mem_append, List.mem_singleton, List.mem_flatMap]
    constructor
    · rintro (h | ⟨c, hc, hmem⟩ | h)
      · exact absurd h (by decide)
      · split_ifs at hmem
        · exact absurd hmem (by decide)
        · rwa [List.mem_singleton.mp hmem]
      · exact absurd h (by decide)
    · exact fun h => .inr (.inl ⟨_, h, by decide⟩)
  match v, h with
  | .utf8 (some s), h | .largeUtf8 (some s), h =>
      obtain rfl : lit s = text := by simpa [scalarText] using h
      rw [hlit]
      simp
  | .int bits none, h => exact absurd h (by simp [scalarText])
  | .int bits (some n), h =>
      obtain ⟨-, rfl⟩ : (bits = 32 ∨ bits = 64) ∧ toString n = text := by
        simpa [scalarText] using h
      exact iff_of_false (hnumeral (isNumeral_int n)) (by simp)
  | .float64 (some x), h =>
      obtain rfl : D.display64 x = text := by simpa [scalarText] using h
      refine iff_of_false ?_ (by simp)
      cases hx : F.number x with
      | some q => exact hnumeral (F.printed x q hx).1
      | none =>
          have hall : ∀ s ∈ ["inf", "-inf", "NaN"], '\x00' ∉ s.toList := by decide
          exact hall _ (F.special x hx)
  | .boolean (some b), h =>
      obtain rfl : (if b then "true" else "false") = text := by simpa [scalarText] using h
      refine iff_of_false ?_ (by simp)
      cases b <;> decide

/-! ## The list of columns -/

/-- The tokens of the columns. -/
def identTokens (names : List String) : List Token :=
  [.symbol ','].intercalate (names.map fun name => [.ident name.toList])

def quotedText (name : String) : String := "\"" ++ name ++ "\""

lemma toList_quotedText (name : String) (rest : List Char) :
    (quotedText name).toList ++ rest = '"' :: name.toList ++ '"' :: rest := by
  simp [quotedText]

/-- The columns and what stands behind them, one by one. -/
lemma toList_columns (name name' : String) (names : List String) (rest : List Char) :
    (Text.join ", " ((name :: name' :: names).map quotedText)).toList ++ rest =
      '"' :: name.toList ++ '"' :: (", ".toList ++
        ((Text.join ", " ((name' :: names).map quotedText)).toList ++ rest)) := by
  rw [List.map_cons, Text.join_cons _ _ (by simp), String.toList_append, String.toList_append,
    List.append_assoc, List.append_assoc, toList_quotedText]

lemma identTokens_cons (name name' : String) (names : List String) :
    identTokens (name :: name' :: names) =
      .ident name.toList :: .symbol ',' :: identTokens (name' :: names) := by
  simp [identTokens, List.intercalate_cons_cons]

lemma lexFrom_comma (rest : List Char) :
    lexFrom .ground (", ".toList ++ rest) = (lexFrom .ground rest).map fun ts => .symbol ',' :: ts := by
  have hscan : scanChars .ground ", ".toList = ([.symbol ','], .ground) := by decide
  rw [lexFrom_append, hscan]
  rfl

lemma head_comma (rest : List Char) : (", ".toList ++ rest).head? ≠ some '"' := by
  intro h
  have hcomma : ',' = '"' := Option.some.inj h
  exact absurd hcomma (by decide)

lemma BeginsBlank.not_quote {rest : List Char} (h : BeginsBlank rest) : rest.head? ≠ some '"' := by
  intro hquote
  exact absurd (h '"' hquote) (by decide)

/-- Columns without quotes are read as they are. -/
lemma lexFrom_columns {names : List String} (hne : names ≠ [])
    (h : ∀ name ∈ names, '"' ∉ name.toList) {rest : List Char} (hrest : BeginsBlank rest) :
    lexFrom .ground ((Text.join ", " (names.map quotedText)).toList ++ rest) =
      (lexFrom .ground rest).map fun ts => identTokens names ++ ts := by
  induction names with
  | nil => exact absurd rfl hne
  | cons name names ih =>
      rw [List.forall_mem_cons] at h
      cases names with
      | nil =>
          rw [List.map_singleton, Text.join_singleton, toList_quotedText,
            lexFrom_rawIdent h.1 hrest.not_quote]
          rfl
      | cons name' names =>
          rw [toList_columns, lexFrom_rawIdent h.1 (head_comma _), lexFrom_comma,
            ih (List.cons_ne_nil _ _) h.2, Option.map_map, Option.map_map, identTokens_cons]
          rfl

lemma splitTop_identTokens {names : List String} (hne : names ≠ []) :
    splitTop isComma 0 (identTokens names) = names.map fun name => [.ident name.toList] := by
  induction names with
  | nil => exact absurd rfl hne
  | cons name names ih =>
      cases names with
      | nil => rfl
      | cons name' names =>
          rw [identTokens_cons, List.map_cons, ← ih (List.cons_ne_nil _ _)]
          rfl

lemma passes_identTokens {p : Token → Bool} (hident : ∀ name, p (.ident name) = false)
    (hcomma : p (.symbol ',') = false) (names : List String) :
    ∀ t ∈ identTokens names, passes p t = true := by
  induction names with
  | nil => exact nofun
  | cons name names ih =>
      cases names with
      | nil =>
          intro t ht
          rw [List.mem_singleton.mp ht]
          simp [passes, hident]
      | cons name' names =>
          rw [identTokens_cons, List.forall_mem_cons, List.forall_mem_cons]
          exact ⟨by simp [passes, hident], by simp [passes, hcomma], ih⟩

/-- What the list is read as when its first name is. -/
lemma items_cons (v : List Char) (ts : List Token) : ∃ first others,
    splitTop isComma 0 (cutAt (Token.isWord "FROM") 0 (.ident v :: ts)).1 =
      (.ident v :: first) :: others := by
  have hcut := @cutAt_append (Token.isWord "FROM") [.ident v] (by simp [passes, Token.isWord]) ts
  have hsplit := @splitTop_append isComma [.ident v] (by simp [passes, isComma])
    (cutAt (Token.isWord "FROM") 0 ts).1
  rw [List.singleton_append] at hcut hsplit
  rw [hcut]
  dsimp only
  rw [List.singleton_append, hsplit]
  obtain ⟨first, others, hfirst⟩ := List.exists_cons_of_ne_nil
    (splitTop_ne_nil isComma 0 (cutAt (Token.isWord "FROM") 0 ts).1)
  exact ⟨first, others, by rw [hfirst]; rfl⟩

/-- The first column of the list is the first name. -/
lemma itemColumns_first {schema : List String} {v : List Char} {first : List Token}
    {columns : List (List Char)} (h : itemColumns schema (.ident v :: first) = some columns) :
    first = [] ∧ columns = [v] := by
  cases first with
  | nil =>
      rw [itemColumns] at h
      split_ifs at h
      exact ⟨rfl, (Option.some.inj h).symm⟩
  | cons t first => cases h

/-- Columns that are read as they are have no quotes. -/
lemma quotes_of_columns {schema names : List String} {rest : List Char} {ts : List Token}
    (hread : lexFrom .ground ((Text.join ", " (names.map quotedText)).toList ++ rest) = some ts)
    (hrest : BeginsBlank rest) {columns : List (List (List Char))}
    (hcolumns : (splitTop isComma 0 (cutAt (Token.isWord "FROM") 0 ts).1).mapM (itemColumns schema) =
      some columns) (hnames : columns.flatten = names.map String.toList) :
    ∀ name ∈ names, '"' ∉ name.toList := by
  induction names generalizing ts columns with
  | nil => exact nofun
  | cons name names ih =>
      obtain ⟨tail, htail, htext⟩ : ∃ tail : List Char, tail.head? ≠ some '"' ∧
          (Text.join ", " ((name :: names).map quotedText)).toList ++ rest =
            '"' :: name.toList ++ '"' :: tail := by
        cases names with
        | nil => exact ⟨rest, hrest.not_quote, toList_quotedText name rest⟩
        | cons name' names => exact ⟨_, head_comma _, toList_columns name name' names rest⟩
      -- the first name that is read is the first column, so it is the name itself
      have hquotes : '"' ∉ name.toList := by
        rw [htext] at hread
        obtain ⟨v, ts', rfl, hv⟩ := lexFrom_rawIdent_inv htail hread
        obtain ⟨first, others, hitems⟩ := items_cons v ts'
        rw [hitems, List.mapM_cons] at hcolumns
        obtain ⟨column, hcolumn, hothers⟩ := Option.bind_eq_some_iff.mp hcolumns
        obtain ⟨columns', -, hcons⟩ := Option.bind_eq_some_iff.mp hothers
        obtain ⟨-, rfl⟩ := itemColumns_first hcolumn
        obtain rfl : [v] :: columns' = columns := Option.some.inj hcons
        exact hv (List.cons.inj hnames).1
      rw [List.forall_mem_cons]
      refine ⟨hquotes, ?_⟩
      cases names with
      | nil => exact nofun
      | cons name' names =>
          rw [toList_columns, lexFrom_rawIdent hquotes (head_comma _), lexFrom_comma] at hread
          obtain ⟨_, hcomma, rfl⟩ := Option.map_eq_some_iff.mp hread
          obtain ⟨ts', hts', rfl⟩ := Option.map_eq_some_iff.mp hcomma
          have hcut := @cutAt_append (Token.isWord "FROM") [.ident name.toList, .symbol ',']
            (by simp [passes, Token.isWord]) ts'
          rw [List.cons_append, List.singleton_append] at hcut
          have hitems : splitTop isComma 0
              (cutAt (Token.isWord "FROM") 0 (.ident name.toList :: .symbol ',' :: ts')).1 =
                [.ident name.toList] :: splitTop isComma 0 (cutAt (Token.isWord "FROM") 0 ts').1 := by
            rw [hcut]
            rfl
          rw [hitems, List.mapM_cons] at hcolumns
          obtain ⟨column, hcolumn, hothers⟩ := Option.bind_eq_some_iff.mp hcolumns
          obtain ⟨columns', hcolumns', hcons⟩ := Option.bind_eq_some_iff.mp hothers
          obtain ⟨-, rfl⟩ := itemColumns_first hcolumn
          obtain rfl : [name.toList] :: columns' = columns := Option.some.inj hcons
          exact ih hts' hcolumns' (List.cons.inj hnames).2

/-! ## The conditions -/

/-- The filter is one that a literal is made for. -/
def Exact (e : Expr D) (c : String) (v : ScalarValue D) (text : String) : Prop :=
  comparison e = some (c, v) ∧ scalarText v = some text

lemma exact_iff (e : Expr D) : supportsFilter e = .exact ↔ ∃ c v text, Exact e c v text := by
  unfold supportsFilter extractEqLiteral Exact
  cases hcomparison : comparison e with
  | none => simp
  | some cv =>
      obtain ⟨c, v⟩ := cv
      cases htext : scalarText v with
      | none => simp [htext]
      | some text => simp [htext]

lemma Exact.extract {e : Expr D} {c : String} {v : ScalarValue D} {text : String}
    (h : Exact e c v text) : extractEqLiteral e = some (c, text) := by
  unfold extractEqLiteral
  rw [h.1, Option.bind_some, h.2, Option.map_some]

/-- The tokens of a condition. -/
def clauseTokens (e : Expr D) : List Token :=
  match comparison e with
  | some (c, v) => .ident c.toList :: .symbol '=' :: valueTokens v
  | none => []

def conditionTokens (es : List (Expr D)) : List Token :=
  [andToken].intercalate (es.map clauseTokens)

def clausesText (es : List (Expr D)) : String :=
  Text.join " AND " ((es.filterMap extractEqLiteral).map Provider.clauseText)

def limitTokens : Option ℕ → List Token
  | some n => [.word "LIMIT".toList, .number (toString n).toList]
  | none => []

variable {e : Expr D} {c : String} {v : ScalarValue D} {text : String}

lemma toList_clause (c text : String) (rest : List Char) :
    (Provider.clauseText (c, text)).toList ++ rest =
      '"' :: c.toList ++ '"' :: (" = ".toList ++ (text.toList ++ rest)) := by
  simp [Provider.clauseText]

lemma beginsBlank_cons (rest : List Char) : BeginsBlank (' ' :: rest) := by
  intro c hc
  exact (Option.some.inj hc).symm

/-- A condition whose column has no quotes. -/
lemma lexFrom_clause (F : Doubles D) (h : Exact e c v text) (hc : '"' ∉ c.toList) {rest : List Char}
    (hrest : BeginsBlank rest) :
    lexFrom .ground ((Provider.clauseText (c, text)).toList ++ rest) =
      (lexFrom .ground rest).map fun ts => clauseTokens e ++ ts := by
  have hequals : scanChars .ground " = ".toList = ([.symbol '='], .ground) := by decide
  have hblank : (" = ".toList ++ (text.toList ++ rest)).head? ≠ some '"' :=
    (beginsBlank_cons _).not_quote
  rw [toList_clause, lexFrom_rawIdent hc hblank, lexFrom_append, hequals, lexFrom_scalar F h.2 hrest,
    Option.map_map, Option.map_map, clauseTokens, h.1]
  rfl

lemma passes_clauseTokens (F : Doubles D) (hp : Foreign p) {e : Expr D}
    (hident : ∀ c v, comparison e = some (c, v) → p (.ident c.toList) = false) :
    ∀ t ∈ clauseTokens e, passes p t = true := by
  unfold clauseTokens
  cases hcomparison : comparison e with
  | none => exact nofun
  | some cv =>
      rw [List.forall_mem_cons, List.forall_mem_cons]
      refine ⟨?_, ?_, passes_valueTokens F hp cv.2⟩
      · simp [passes, hident cv.1 cv.2 hcomparison]
      · simp [passes, hp.symbol '=' (by decide)]

lemma lexFrom_and (rest : List Char) :
    lexFrom .ground (" AND ".toList ++ rest) = (lexFrom .ground rest).map fun ts => andToken :: ts := by
  have hscan : scanChars .ground " AND ".toList = ([andToken], .ground) := by decide
  rw [lexFrom_append, hscan]
  rfl

lemma beginsBlank_and (rest : List Char) : BeginsBlank (" AND ".toList ++ rest) :=
  beginsBlank_cons _

lemma lexFrom_limit (limit : Option ℕ) :
    lexFrom .ground (Provider.limitText limit).toList = some (limitTokens limit) := by
  cases limit with
  | none => rfl
  | some n =>
      have hlimit : Scans " LIMIT " [.word "LIMIT".toList] := by decide
      exact ((spells_toString n).after hlimit).lex_eq

lemma cutAt_limit (limit : Option ℕ) : cutAt (Token.isWord "LIMIT") 0 (limitTokens limit) =
    ([], limit.map fun n => [.number (toString n).toList]) := by
  cases limit with
  | none => rfl
  | some n => exact cutAt_hit (by decide) _

lemma beginsBlank_limit (limit : Option ℕ) : BeginsBlank (Provider.limitText limit).toList := by
  cases limit with
  | none => exact nofun
  | some n =>
      intro c hc
      rw [Provider.limitText, String.toList_append] at hc
      exact (Option.some.inj hc).symm

/-- A condition and those behind it. -/
lemma clausesText_cons {e' : Expr D} {c' text' : String} {v' : ScalarValue D} (h : Exact e c v text)
    (h' : Exact e' c' v' text') (es : List (Expr D)) (rest : List Char) :
    (clausesText (e :: e' :: es)).toList ++ rest = (Provider.clauseText (c, text)).toList ++
      (" AND ".toList ++ ((clausesText (e' :: es)).toList ++ rest)) := by
  unfold clausesText
  rw [List.filterMap_cons_some h.extract, List.filterMap_cons_some h'.extract, List.map_cons,
    List.map_cons, Text.join_cons _ _ (List.cons_ne_nil _ _), String.toList_append,
    String.toList_append, List.append_assoc, List.append_assoc]

lemma clausesText_singleton (h : Exact e c v text) :
    clausesText [e] = Provider.clauseText (c, text) := by
  unfold clausesText
  rw [List.filterMap_cons_some h.extract]
  rfl

lemma conditionTokens_singleton (e : Expr D) : conditionTokens [e] = clauseTokens e := by
  simp [conditionTokens, List.intercalate_singleton]

lemma conditionTokens_cons (e e' : Expr D) (es : List (Expr D)) :
    conditionTokens (e :: e' :: es) =
      clauseTokens e ++ andToken :: conditionTokens (e' :: es) := by
  simp [conditionTokens, List.intercalate_cons_cons]

/-- Conditions whose columns have no quotes are read as they are. -/
lemma lexFrom_conditions (F : Doubles D) {es : List (Expr D)} (hne : es ≠ [])
    (hexact : ∀ e ∈ es, ∃ c v text, Exact e c v text ∧ '"' ∉ c.toList) {rest : List Char}
    (hrest : BeginsBlank rest) :
    lexFrom .ground ((clausesText es).toList ++ rest) =
      (lexFrom .ground rest).map fun ts => conditionTokens es ++ ts := by
  induction es with
  | nil => exact absurd rfl hne
  | cons e es ih =>
      rw [List.forall_mem_cons] at hexact
      obtain ⟨⟨c, v, text, hclause, hc⟩, hothers⟩ := hexact
      cases es with
      | nil =>
          rw [clausesText_singleton hclause, lexFrom_clause F hclause hc hrest,
            conditionTokens_singleton]
      | cons e' es =>
          obtain ⟨c', v', text', hclause', -⟩ := hothers e' List.mem_cons_self
          rw [clausesText_cons hclause hclause', lexFrom_clause F hclause hc (beginsBlank_and _),
            lexFrom_and, ih (List.cons_ne_nil _ _) hothers, Option.map_map, Option.map_map,
            conditionTokens_cons]
          simp [Function.comp_def]

/-- A condition is all there is before `AND`. -/
lemma splitTop_clause (F : Doubles D) (e : Expr D) (ts : List Token) :
    splitTop (Token.isWord "AND") 0 (clauseTokens e ++ andToken :: ts) =
      clauseTokens e :: splitTop (Token.isWord "AND") 0 ts := by
  rw [splitTop_append (passes_clauseTokens F (foreign_isWord (by simp)) fun _ _ _ => rfl), splitTop_hit (by decide),
    List.modifyHead_cons, List.append_nil]

lemma splitTop_last (F : Doubles D) (e : Expr D) :
    splitTop (Token.isWord "AND") 0 (clauseTokens e) = [clauseTokens e] := by
  have hsplit := splitTop_append
    (@passes_clauseTokens D (Token.isWord "AND") F (foreign_isWord (by simp)) e fun _ _ _ => rfl) []
  rw [List.append_nil] at hsplit
  rw [hsplit, splitTop, List.modifyHead_cons, List.append_nil]

lemma splitTop_conditionTokens (F : Doubles D) {es : List (Expr D)} (hne : es ≠ []) :
    splitTop (Token.isWord "AND") 0 (conditionTokens es) = es.map clauseTokens := by
  induction es with
  | nil => exact absurd rfl hne
  | cons e es ih =>
      cases es with
      | nil => rw [conditionTokens_singleton, splitTop_last F, List.map_singleton]
      | cons e' es =>
          rw [conditionTokens_cons, splitTop_clause F, ih (List.cons_ne_nil _ _)]
          rfl

lemma passes_conditionTokens (F : Doubles D) (hp : Foreign p) (hand : p andToken = false)
    {es : List (Expr D)}
    (hident : ∀ e ∈ es, ∀ c v, comparison e = some (c, v) → p (.ident c.toList) = false) :
    ∀ t ∈ conditionTokens es, passes p t = true := by
  induction es with
  | nil => exact nofun
  | cons e es ih =>
      rw [List.forall_mem_cons] at hident
      cases es with
      | nil =>
          rw [conditionTokens_singleton]
          exact passes_clauseTokens F hp hident.1
      | cons e' es =>
          rw [conditionTokens_cons, List.forall_mem_append, List.forall_mem_cons]
          exact ⟨passes_clauseTokens F hp hident.1, passes_word hand, ih hident.2⟩

/-- The conditions before the limit. -/
lemma cutAt_clause (F : Doubles D) (e : Expr D) (ts : List Token) :
    (cutAt (Token.isWord "LIMIT") 0 (clauseTokens e ++ ts)).1 =
      clauseTokens e ++ (cutAt (Token.isWord "LIMIT") 0 ts).1 := by
  rw [cutAt_append (passes_clauseTokens F (foreign_isWord (by simp)) fun _ _ _ => rfl)]

/-- The condition of a filter means it where its literal denotes the scalar. -/
lemma means_clauseTokens (F : Doubles D) (h : Exact e c v text) :
    Means F e (clauseTokens e) ↔ ∀ x, v = .float64 (some x) → (F.number x).isSome := by
  rw [← denotes_iff F h.2, clauseTokens, h.1]
  constructor
  · rintro ⟨c', v', literal, hcomparison, htokens, hdenotes⟩
    rw [h.1, Option.some.injEq, Prod.mk.injEq] at hcomparison
    obtain ⟨rfl, rfl⟩ := hcomparison
    have hliteral : valueTokens v = literal := (List.cons.inj (List.cons.inj htokens).2).2
    rwa [hliteral]
  · exact fun hdenotes => ⟨c, v, _, h.1, rfl, hdenotes⟩

/-- A first condition whose column is read as it is has no quotes. -/
lemma quotes_of_means (F : Doubles D) (h : Exact e c v text) {tail : List Char} {ts : List Token}
    (htail : tail.head? ≠ some '"')
    (hread : lexFrom .ground ('"' :: c.toList ++ '"' :: tail) = some ts) {es : List (Expr D)}
    (hmeans : List.Forall₂ (Means F) (e :: es)
      (splitTop (Token.isWord "AND") 0 (cutAt (Token.isWord "LIMIT") 0 ts).1)) :
    '"' ∉ c.toList := by
  obtain ⟨name, ts', rfl, hname⟩ := lexFrom_rawIdent_inv htail hread
  have hcut := @cutAt_append (Token.isWord "LIMIT") [.ident name]
    (by simp [passes, Token.isWord]) ts'
  have hsplit := @splitTop_append (Token.isWord "AND") [.ident name]
    (by simp [passes, Token.isWord]) (cutAt (Token.isWord "LIMIT") 0 ts').1
  rw [List.singleton_append] at hcut hsplit
  rw [hcut] at hmeans
  dsimp only at hmeans
  rw [List.singleton_append, hsplit] at hmeans
  obtain ⟨first, others, hfirst⟩ := List.exists_cons_of_ne_nil
    (splitTop_ne_nil (Token.isWord "AND") 0 (cutAt (Token.isWord "LIMIT") 0 ts').1)
  rw [hfirst, List.modifyHead_cons] at hmeans
  obtain ⟨⟨c', v', literal, hcomparison, htokens, -⟩, -⟩ := List.forall₂_cons.mp hmeans
  rw [h.1, Option.some.injEq, Prod.mk.injEq] at hcomparison
  obtain ⟨rfl, -⟩ := hcomparison
  rw [List.singleton_append, List.cons.injEq, Token.ident.injEq] at htokens
  exact hname htokens.1

/-- Conditions that mean their filters have columns without quotes and numbers that are numbers. -/
lemma plain_of_conditions (F : Doubles D) {es : List (Expr D)}
    (hexact : ∀ e ∈ es, ∃ c v text, Exact e c v text) {limit : Option ℕ} {ts : List Token}
    (hread : lexFrom .ground ((clausesText es).toList ++ (Provider.limitText limit).toList) = some ts)
    (hmeans : List.Forall₂ (Means F) es
      (splitTop (Token.isWord "AND") 0 (cutAt (Token.isWord "LIMIT") 0 ts).1)) :
    ∀ e ∈ es, ∀ c v text, Exact e c v text →
      '"' ∉ c.toList ∧ ∀ x, v = .float64 (some x) → (F.number x).isSome := by
  induction es generalizing ts with
  | nil => exact nofun
  | cons e es ih =>
      rw [List.forall_mem_cons] at hexact
      obtain ⟨⟨c, v, text, hclause⟩, hothers⟩ := hexact
      have hunique : ∀ c' v' text', Exact e c' v' text' → c' = c ∧ v' = v := by
        intro c' v' text' h'
        have hpair := h'.1
        rw [hclause.1, Option.some.injEq, Prod.mk.injEq] at hpair
        exact ⟨hpair.1.symm, hpair.2.symm⟩
      obtain ⟨tail, htail, htext⟩ : ∃ tail : List Char, tail.head? ≠ some '"' ∧
          (clausesText (e :: es)).toList ++ (Provider.limitText limit).toList =
            '"' :: c.toList ++ '"' :: tail := by
        cases es with
        | nil =>
            rw [clausesText_singleton hclause, toList_clause]
            exact ⟨_, (beginsBlank_cons _).not_quote, rfl⟩
        | cons e' es =>
            obtain ⟨c', v', text', hclause'⟩ := hothers e' List.mem_cons_self
            rw [clausesText_cons hclause hclause', toList_clause]
            exact ⟨_, (beginsBlank_cons _).not_quote, rfl⟩
      have hquotes : '"' ∉ c.toList := quotes_of_means F hclause htail (htext ▸ hread) hmeans
      have hhead : Means F e (clauseTokens e) → ∀ c' v' text', Exact e c' v' text' →
          '"' ∉ c'.toList ∧ ∀ x, v' = .float64 (some x) → (F.number x).isSome := by
        intro hmeans c' v' text' h'
        obtain ⟨rfl, rfl⟩ := hunique c' v' text' h'
        exact ⟨hquotes, (means_clauseTokens F hclause).mp hmeans⟩
      rw [List.forall_mem_cons]
      cases es with
      | nil =>
          rw [clausesText_singleton hclause, lexFrom_clause F hclause hquotes (beginsBlank_limit limit),
            lexFrom_limit, Option.map_some, Option.some.injEq] at hread
          subst hread
          rw [cutAt_clause F, cutAt_limit, List.append_nil, splitTop_last F] at hmeans
          exact ⟨hhead (List.forall₂_cons.mp hmeans).1, nofun⟩
      | cons e' es =>
          obtain ⟨c', v', text', hclause'⟩ := hothers e' List.mem_cons_self
          rw [clausesText_cons hclause hclause', lexFrom_clause F hclause hquotes (beginsBlank_and _),
            lexFrom_and] at hread
          obtain ⟨_, hand, rfl⟩ := Option.map_eq_some_iff.mp hread
          obtain ⟨ts', hts', rfl⟩ := Option.map_eq_some_iff.mp hand
          have hcut : (cutAt (Token.isWord "LIMIT") 0 (andToken :: ts')).1 =
              andToken :: (cutAt (Token.isWord "LIMIT") 0 ts').1 := by
            have h := @cutAt_append (Token.isWord "LIMIT") [andToken] (by decide) ts'
            rw [List.singleton_append] at h
            rw [h]
            rfl
          rw [cutAt_clause F, hcut, splitTop_clause F] at hmeans
          obtain ⟨hmeans, hrest⟩ := List.forall₂_cons.mp hmeans
          exact ⟨hhead hmeans, ih hothers hts' hrest⟩

/-! ## The whole statement -/

/-- The filters that are reported as exact. -/
def exactFilters (filters : List (Expr D)) : List (Expr D) :=
  filters.filter fun e => supportsFilter e = .exact

lemma exact_of_mem {filters : List (Expr D)} {e : Expr D} (h : e ∈ exactFilters filters) :
    ∃ c v text, Exact e c v text :=
  (exact_iff e).mp (of_decide_eq_true (List.mem_filter.mp h).2)

lemma filterMap_exactFilters (filters : List (Expr D)) :
    filters.filterMap extractEqLiteral = (exactFilters filters).filterMap extractEqLiteral := by
  unfold exactFilters
  rw [List.filterMap_filter]
  refine List.filterMap_congr fun e _ => ?_
  unfold supportsFilter
  cases extractEqLiteral e <;> simp

def whereTokens (es : List (Expr D)) : List Token :=
  if es = [] then [] else .word "WHERE".toList :: conditionTokens es

lemma whereText_eq (filters : List (Expr D)) : Provider.whereText filters =
    if exactFilters filters = [] then "" else " WHERE " ++ clausesText (exactFilters filters) := by
  unfold Provider.whereText clausesText
  rw [filterMap_exactFilters]
  by_cases hnil : exactFilters filters = []
  · rw [hnil]
    rfl
  · rw [if_neg hnil]
    obtain ⟨e, es, hes⟩ := List.exists_cons_of_ne_nil hnil
    obtain ⟨c, v, text, h⟩ := exact_of_mem (hes ▸ List.mem_cons_self : e ∈ exactFilters filters)
    rw [hes, List.filterMap_cons_some h.extract]
    rfl

/-- The tokens of the list. -/
def Provider.itemTokens (self : Provider) : self.Projection → List Token
  | some [] => [.number ['1']]
  | some p => identTokens (p.map self.schema.get)
  | none => [.symbol '*']

/-- What can follow a relation begins with a blank. -/
lemma beginsBlank_tail (filters : List (Expr D)) (limit : Option ℕ) :
    BeginsBlank ((Provider.whereText filters).toList ++ (Provider.limitText limit).toList) := by
  rw [whereText_eq]
  split_ifs
  · exact beginsBlank_limit limit
  · rw [String.toList_append]
    exact beginsBlank_cons _

lemma toList_buildSql (self : Provider) (projection : self.Projection) (filters : List (Expr D))
    (limit : Option ℕ) : (self.buildSql projection filters limit).toList =
      "SELECT ".toList ++ ((self.columnsText projection).toList ++ (" FROM ".toList ++
        (self.relation.text.toList ++ ((Provider.whereText filters).toList ++
          (Provider.limitText limit).toList)))) := by
  simp [Provider.buildSql]

/-- A relation and what follows it. -/
lemma lexFrom_relation (r : Relation) {rest : List Char} (hrest : BeginsBlank rest) :
    lexFrom .ground (r.text.toList ++ rest) =
      (lexFrom .ground rest).map fun ts => r.tokens ++ ts := by
  obtain ⟨s, last, hs, hclosed, hlast, htokens⟩ := spells_iff.mp r.spells
  obtain ⟨last', hlast', hafter⟩ := lexFrom_delimited hclosed hrest.delimited
  rw [hlast, Option.some.injEq] at hlast'
  subst hlast'
  rw [flatMap_chr] at hafter
  rw [lexFrom_append, hs, hafter, Option.map_map, ← htokens]
  simp [Function.comp_def]

section

variable {F : Doubles D} {self : Provider} {projection : self.Projection} {filters : List (Expr D)}
  {limit : Option ℕ}

/-- The tokens of the statement. -/
def statementTokens (self : Provider) (projection : self.Projection) (filters : List (Expr D))
    (limit : Option ℕ) : List Token :=
  .word "SELECT".toList :: (self.itemTokens projection ++ .word "FROM".toList ::
    (self.relation.tokens ++ (whereTokens (exactFilters filters) ++ limitTokens limit)))

/-- No name that is used has a quote, and every float is a number. -/
structure Readable (F : Doubles D) (table : Provider) (projection : table.Projection)
    (filters : List (Expr D)) : Prop where
  columns : ∀ p, projection = some p → ∀ i ∈ p, '"' ∉ (table.schema.get i).toList
  filters : ∀ e ∈ exactFilters filters, ∀ c v text, Exact e c v text →
    '"' ∉ c.toList ∧ ∀ x, v = .float64 (some x) → (F.number x).isSome

lemma columnsText_cons (self : Provider) (i : Fin self.schema.length)
    (p : List (Fin self.schema.length)) : self.columnsText (some (i :: p)) =
      Text.join ", " (((i :: p).map self.schema.get).map quotedText) := by
  rw [List.map_map]
  rfl

lemma lexFrom_list (h : ∀ p, projection = some p → ∀ i ∈ p, '"' ∉ (self.schema.get i).toList)
    (rest : List Char) :
    lexFrom .ground ((self.columnsText projection).toList ++ (" FROM ".toList ++ rest)) =
      (lexFrom .ground rest).map fun ts =>
        self.itemTokens projection ++ .word "FROM".toList :: ts := by
  have hfrom : Scans " FROM " [.word "FROM".toList] := by decide
  match projection with
  | none =>
      have hstar : Scans "* FROM " [.symbol '*', .word "FROM".toList] := by decide
      have htext : (self.columnsText none).toList ++ (" FROM ".toList ++ rest) =
          "* FROM ".toList ++ rest := by
        have hliteral : "*".toList ++ " FROM ".toList = "* FROM ".toList := by decide
        rw [← hliteral, List.append_assoc]
        rfl
      rw [htext, lexFrom_scans hstar]
      rfl
  | some [] =>
      have hone : Scans "1 FROM " [.number ['1'], .word "FROM".toList] := by decide
      have htext : (self.columnsText (some [])).toList ++ (" FROM ".toList ++ rest) =
          "1 FROM ".toList ++ rest := by
        have hliteral : "1".toList ++ " FROM ".toList = "1 FROM ".toList := by decide
        rw [← hliteral, List.append_assoc]
        rfl
      rw [htext, lexFrom_scans hone]
      rfl
  | some (i :: p) =>
      have hnames : ∀ name ∈ (i :: p).map self.schema.get, '"' ∉ name.toList := by
        intro name hname
        obtain ⟨j, hj, rfl⟩ := List.mem_map.mp hname
        exact h _ rfl j hj
      have hblank : BeginsBlank (" FROM ".toList ++ rest) := beginsBlank_cons _
      rw [columnsText_cons, lexFrom_columns (by simp) hnames hblank, lexFrom_scans hfrom,
        Option.map_map]
      rfl

lemma lexFrom_tail (F : Doubles D)
    (h : ∀ e ∈ exactFilters filters, ∀ c v text, Exact e c v text → '"' ∉ c.toList) :
    lexFrom .ground ((Provider.whereText filters).toList ++ (Provider.limitText limit).toList) =
      some (whereTokens (exactFilters filters) ++ limitTokens limit) := by
  rw [whereText_eq, whereTokens]
  by_cases hnil : exactFilters filters = []
  · rw [if_pos hnil, if_pos hnil]
    exact lexFrom_limit limit
  · have hwhere : Scans " WHERE " [.word "WHERE".toList] := by decide
    have hexact : ∀ e ∈ exactFilters filters, ∃ c v text, Exact e c v text ∧ '"' ∉ c.toList := by
      intro e he
      obtain ⟨c, v, text, hclause⟩ := exact_of_mem he
      exact ⟨c, v, text, hclause, h e he c v text hclause⟩
    rw [if_neg hnil, if_neg hnil, String.toList_append, List.append_assoc,
      lexFrom_scans hwhere, lexFrom_conditions F hnil hexact (beginsBlank_limit limit),
      lexFrom_limit]
    rfl

/-- Without quotes in names the statement has its tokens. -/
lemma lex_buildSql (h : Readable F self projection filters) :
    lex (self.buildSql projection filters limit) =
      some (statementTokens self projection filters limit) := by
  have hselect : Scans "SELECT " [.word "SELECT".toList] := by decide
  have hlex : lex (self.buildSql projection filters limit) =
      lexFrom .ground (self.buildSql projection filters limit).toList := rfl
  rw [hlex, toList_buildSql, lexFrom_scans hselect, lexFrom_list h.columns,
    lexFrom_relation _ (beginsBlank_tail filters limit),
    lexFrom_tail F fun e he c v text hclause => (h.filters e he c v text hclause).1]
  rfl

/-! ## Its parts -/

lemma cutAt_where_limit (limit : Option ℕ) :
    cutAt (Token.isWord "WHERE") 0 (limitTokens limit) = (limitTokens limit, none) := by
  cases limit with
  | none => rfl
  | some n =>
      have hcut := @cutAt_append (Token.isWord "WHERE") (limitTokens (some n)) (by
        intro t ht
        simp only [limitTokens, List.mem_cons, List.not_mem_nil, or_false] at ht
        rcases ht with rfl | rfl
        · decide
        · rfl) []
      rw [List.append_nil] at hcut
      rw [hcut, cutAt, List.append_nil]

/-- What stands behind `FROM`, when conditions do. -/
lemma readSource_where (r : Relation) (items ts : List Token) :
    readSource items (r.tokens ++ .word "WHERE".toList :: ts) =
      { items := splitTop isComma 0 items
        source := r.tokens
        conditions := splitTop (Token.isWord "AND") 0 (cutAt (Token.isWord "LIMIT") 0 ts).1
        limit := (cutAt (Token.isWord "LIMIT") 0 ts).2 } := by
  have hcut := r.whole (Token.isWord "WHERE") (by simp) (.word "WHERE".toList :: ts)
  rw [cutAt_hit (by decide), List.append_nil] at hcut
  rw [readSource, hcut]

lemma readSource_eq (F : Doubles D) (r : Relation) (items : List Token) (es : List (Expr D))
    (limit : Option ℕ) :
    readSource items (r.tokens ++ (whereTokens es ++ limitTokens limit)) =
      { items := splitTop isComma 0 items
        source := r.tokens
        conditions := es.map clauseTokens
        limit := limit.map fun n => [.number (toString n).toList] } := by
  unfold whereTokens
  by_cases hnil : es = []
  · have hwhere := r.whole (Token.isWord "WHERE") (by simp) (limitTokens limit)
    have hlimit := r.whole (Token.isWord "LIMIT") (by simp) (limitTokens limit)
    rw [cutAt_where_limit] at hwhere
    rw [cutAt_limit, List.append_nil] at hlimit
    rw [if_pos hnil, List.nil_append, readSource, hwhere]
    dsimp only
    rw [hlimit, hnil]
    rfl
  · have hcut := cutAt_append (@passes_conditionTokens D (Token.isWord "LIMIT") F
      (foreign_isWord (by simp)) (by decide) es fun _ _ _ _ _ => rfl) (limitTokens limit)
    rw [cutAt_limit, List.append_nil] at hcut
    rw [if_neg hnil, List.cons_append, readSource_where, hcut, splitTop_conditionTokens F hnil]

/-- The list and what stands behind it. -/
lemma cutAt_items (self : Provider) (projection : self.Projection) (ts : List Token) :
    cutAt (Token.isWord "FROM") 0 (self.itemTokens projection ++ .word "FROM".toList :: ts) =
      (self.itemTokens projection, some ts) := by
  have hpasses : ∀ t ∈ self.itemTokens projection, passes (Token.isWord "FROM") t = true := by
    match projection with
    | none => exact List.forall_mem_singleton.mpr rfl
    | some [] => exact List.forall_mem_singleton.mpr rfl
    | some (i :: p) => exact passes_identTokens (fun _ => rfl) rfl _
  rw [cutAt_append hpasses, cutAt_hit (by decide), List.append_nil]

lemma foreign_semicolon : Foreign (fun t => t = semicolon) where
  str _ := rfl
  number _ := rfl
  symbol := by simp [semicolon]
  word _ _ := rfl

lemma semicolon_notMem_of_passes {ts : List Token}
    (h : ∀ t ∈ ts, passes (fun t => t = semicolon) t = true) : semicolon ∉ ts := by
  intro hmem
  have hne := not_of_passes h semicolon hmem
  exact absurd rfl (of_decide_eq_false hne)

lemma semicolon_notMem (F : Doubles D) (self : Provider) (projection : self.Projection)
    (filters : List (Expr D)) (limit : Option ℕ) :
    semicolon ∉ self.itemTokens projection ++ .word "FROM".toList ::
      (self.relation.tokens ++ (whereTokens (exactFilters filters) ++ limitTokens limit)) := by
  have hitems : semicolon ∉ self.itemTokens projection := by
    cases projection with
    | none => exact fun h => absurd (List.mem_singleton.mp h) (by decide)
    | some p =>
        cases p with
        | nil => exact fun h => absurd (List.mem_singleton.mp h) (by decide)
        | cons i p =>
            exact semicolon_notMem_of_passes (passes_identTokens (fun _ => rfl) (by decide) _)
  have hwhere : semicolon ∉ whereTokens (exactFilters filters) := by
    unfold whereTokens
    split_ifs
    · exact List.not_mem_nil
    · have hconditions : semicolon ∉ conditionTokens (exactFilters filters) :=
        semicolon_notMem_of_passes (passes_conditionTokens F foreign_semicolon (by decide)
          fun _ _ _ _ _ => rfl)
      exact List.not_mem_cons_of_ne_of_not_mem (fun h => by cases h) hconditions
  have hlimit : semicolon ∉ limitTokens limit := by
    cases limit <;> simp [limitTokens, semicolon]
  simp only [List.mem_append, List.mem_cons, not_or]
  exact ⟨hitems, (fun h => by cases h), self.relation.plain.2.1, hwhere, hlimit⟩

lemma readSelect_statementTokens (F : Doubles D) (self : Provider) (projection : self.Projection)
    (filters : List (Expr D)) (limit : Option ℕ) :
    readSelect (statementTokens self projection filters limit) =
      some { items := splitTop isComma 0 (self.itemTokens projection)
             source := self.relation.tokens
             conditions := (exactFilters filters).map clauseTokens
             limit := limit.map fun n => [.number (toString n).toList] } := by
  have hselect : (Token.word "SELECT".toList).isWord "SELECT" = true := by decide
  have hsemicolon := semicolon_notMem F self projection filters limit
  rw [statementTokens, readSelect, hselect, Bool.true_and,
    if_pos (by simpa using hsemicolon), cutAt_items]
  dsimp only
  rw [readSource_eq F]

/-- The columns of the list are the projected ones. -/
lemma output_itemTokens (self : Provider) (projection : self.Projection) :
    self.output projection (splitTop isComma 0 (self.itemTokens projection)) =
      some ((self.projected projection).map String.toList) := by
  unfold Provider.output
  match projection with
  | none =>
      have hitems : (splitTop isComma 0 (self.itemTokens none)).mapM (itemColumns self.schema) =
          some [self.schema.map String.toList] := rfl
      rw [hitems, Option.map_some, Provider.projected]
      by_cases hschema : self.schema = []
      · simp [hschema]
      · simp [hschema]
  | some [] => rfl
  | some (i :: p) =>
      have hcolumn : ∀ j ∈ i :: p, itemColumns self.schema [.ident (self.schema.get j).toList] =
          some [(self.schema.get j).toList] := by
        intro j _
        rw [itemColumns, String.ofList_toList, if_pos (List.get_mem _ _)]
      have hitems : ∀ l : List (Fin self.schema.length),
          (∀ j ∈ l, itemColumns self.schema [.ident (self.schema.get j).toList] =
            some [(self.schema.get j).toList]) →
          (l.map fun j => [Token.ident (self.schema.get j).toList]).mapM (itemColumns self.schema) =
            some (l.map fun j => [(self.schema.get j).toList]) := by
        intro l hl
        induction l with
        | nil => rfl
        | cons j l ih =>
            rw [List.forall_mem_cons] at hl
            rw [List.map_cons, List.mapM_cons, hl.1, ih hl.2]
            rfl
      have hsplit : splitTop isComma 0 (self.itemTokens (some (i :: p))) =
          (i :: p).map fun j => [Token.ident (self.schema.get j).toList] := by
        rw [Provider.itemTokens, splitTop_identTokens (by simp), List.map_map]
        · rfl
        · exact nofun
      rw [hsplit, hitems _ hcolumn, Option.map_some, Provider.projected, List.map_map,
        ← List.flatMap_def]
      exact congrArg some (List.flatMap_pure_eq_map _ _)

/-- A readable statement means the scan where it can be passed on. -/
lemma faithful_iff_of_readable (h : Readable F self projection filters) :
    Faithful F self projection filters limit ↔
      '\x00' ∉ (self.buildSql projection filters limit).toList ∧
        .ident [] ∉ statementTokens self projection filters limit := by
  have hread : readStatement (self.buildSql projection filters limit) =
      if '\x00' ∈ (self.buildSql projection filters limit).toList then none
      else if .ident [] ∈ statementTokens self projection filters limit then none
      else readSelect (statementTokens self projection filters limit) := by
    rw [readStatement, lex_buildSql h, Option.bind_some]
  rw [readSelect_statementTokens F] at hread
  constructor
  · rintro ⟨select, hselect, -⟩
    rw [hread] at hselect
    split_ifs at hselect with hnul hident
    exact ⟨hnul, hident⟩
  · rintro ⟨hnul, hident⟩
    rw [if_neg hnul, if_neg hident] at hread
    refine ⟨_, hread, output_itemTokens self projection, rfl, ?_, rfl⟩
    refine List.forall₂_map_right_iff.mpr (List.forall₂_same.mpr fun e he => ?_)
    obtain ⟨c, v, text, hclause⟩ := exact_of_mem he
    exact (means_clauseTokens F hclause).mpr (h.filters e he c v text hclause).2

/-- What a statement that can be read is cut into. -/
lemma exists_of_readStatement {sql : String} {select : SelectText}
    (h : readStatement sql = some select) : ∃ ts, lex sql = some ts ∧ readSelect ts = some select := by
  unfold readStatement at h
  split_ifs at h
  obtain ⟨ts, hts, hread⟩ := Option.bind_eq_some_iff.mp h
  split_ifs at hread
  exact ⟨ts, hts, hread⟩

/-- The columns of a statement that means the scan have no quotes. -/
lemma columns_of_output {ts : List Token} {rest : List Char}
    (hread : lexFrom .ground ((self.columnsText projection).toList ++ (" FROM ".toList ++ rest)) =
      some ts)
    (hout : self.output projection
      (splitTop isComma 0 (cutAt (Token.isWord "FROM") 0 ts).1) =
        some ((self.projected projection).map String.toList)) :
    ∀ p, projection = some p → ∀ i ∈ p, '"' ∉ (self.schema.get i).toList := by
  rintro p rfl i hi
  cases p with
  | nil => cases hi
  | cons j p =>
      have hblank : BeginsBlank (" FROM ".toList ++ rest) := beginsBlank_cons _
      obtain ⟨columns, hcolumns, hnames⟩ := Option.map_eq_some_iff.mp hout
      rw [if_neg (by simp [Provider.projected])] at hnames
      rw [columnsText_cons] at hread
      exact quotes_of_columns hread hblank hcolumns hnames _ (List.mem_map_of_mem hi)

lemma readable_of_faithful (h : Faithful F self projection filters limit) :
    Readable F self projection filters := by
  obtain ⟨select, hread, hout, -, hmeans, -⟩ := h
  obtain ⟨ts, hlex, hselect⟩ := exists_of_readStatement hread
  have hscan : Scans "SELECT " [.word "SELECT".toList] := by decide
  have hchars : lexFrom .ground (self.buildSql projection filters limit).toList = some ts := hlex
  rw [toList_buildSql, lexFrom_scans hscan] at hchars
  obtain ⟨ts₁, hlist, rfl⟩ := Option.map_eq_some_iff.mp hchars
  have hkeyword : readSelect (.word "SELECT".toList :: ts₁) = some select := hselect
  obtain ⟨items, rest, hcut, rfl⟩ := exists_of_readSelect hkeyword
  have hcolumns : ∀ p, projection = some p → ∀ i ∈ p, '"' ∉ (self.schema.get i).toList := by
    refine columns_of_output hlist ?_
    rwa [hcut, ← readSource_items items rest]
  refine ⟨hcolumns, ?_⟩
  rw [lexFrom_list hcolumns] at hlist
  obtain ⟨ts₂, hsource, rfl⟩ := Option.map_eq_some_iff.mp hlist
  rw [lexFrom_relation _ (beginsBlank_tail filters limit)] at hsource
  obtain ⟨ts₃, htail, rfl⟩ := Option.map_eq_some_iff.mp hsource
  rw [cutAt_items, Prod.mk.injEq, Option.some.injEq] at hcut
  obtain ⟨-, rfl⟩ := hcut
  by_cases hnil : exactFilters filters = []
  · rw [hnil]
    exact nofun
  · have hwhere : Scans " WHERE " [.word "WHERE".toList] := by decide
    rw [whereText_eq, if_neg hnil, String.toList_append, List.append_assoc,
      lexFrom_scans hwhere] at htail
    obtain ⟨ts₄, hconditions, rfl⟩ := Option.map_eq_some_iff.mp htail
    rw [List.singleton_append, readSource_where] at hmeans
    exact plain_of_conditions F (fun e he => exact_of_mem he) hconditions hmeans

/-! ## Names that are passed on -/

lemma nul_quotedText (name : String) : '\x00' ∈ (quotedText name).toList ↔ '\x00' ∈ name.toList := by
  simp [quotedText]

lemma foreign_empty : Foreign (fun t => t = .ident []) where
  str _ := rfl
  number _ := rfl
  symbol _ _ := rfl
  word _ _ := rfl

lemma empty_iff (name : String) : [] = name.toList ↔ name = "" := by
  rw [eq_comm, String.toList_eq_nil_iff]

/-- Only the column of a condition can be an empty name. -/
lemma empty_clauseTokens (F : Doubles D) (h : Exact e c v text) :
    .ident [] ∈ clauseTokens e ↔ c = "" := by
  have hvalue : .ident [] ∉ valueTokens v := by
    intro hmem
    have hne := not_of_passes (passes_valueTokens F foreign_empty v) _ hmem
    exact absurd rfl (of_decide_eq_false hne)
  rw [clauseTokens, h.1]
  simp only [List.mem_cons, hvalue, or_false, reduceCtorEq, Token.ident.injEq]
  rw [empty_iff]

lemma empty_itemTokens : .ident [] ∈ self.itemTokens projection ↔
    ∃ p, projection = some p ∧ ∃ i ∈ p, self.schema.get i = "" := by
  match projection with
  | none => simp [Provider.itemTokens]
  | some [] => simp [Provider.itemTokens]
  | some (i :: p) =>
      have hcomma : Token.ident [] ∉ [.symbol ','] := by decide
      rw [Provider.itemTokens, identTokens, Separated.mem_intercalate hcomma]
      · simp
      · exact nofun

/-- An empty name in the tokens is one of a column. -/
lemma empty_statementTokens (F : Doubles D) :
    .ident [] ∈ statementTokens self projection filters limit ↔
      (∃ p, projection = some p ∧ ∃ i ∈ p, self.schema.get i = "") ∨
        ∃ e ∈ exactFilters filters, ∃ c v text, Exact e c v text ∧ c = "" := by
  have hlimit : .ident [] ∉ limitTokens limit := by
    cases limit <;> simp [limitTokens]
  have hclauses : .ident [] ∈ conditionTokens (exactFilters filters) ↔
      ∃ e ∈ exactFilters filters, ∃ c v text, Exact e c v text ∧ c = "" := by
    have hand : Token.ident [] ∉ [andToken] := by decide
    rw [conditionTokens, Separated.mem_intercalate hand]
    constructor
    · rintro ⟨ts, hts, hmem⟩
      obtain ⟨e, he, rfl⟩ := List.mem_map.mp hts
      obtain ⟨c, v, text, hclause⟩ := exact_of_mem he
      exact ⟨e, he, c, v, text, hclause, (empty_clauseTokens F hclause).mp hmem⟩
    · rintro ⟨e, he, c, v, text, hclause, hc⟩
      exact ⟨_, List.mem_map_of_mem he, (empty_clauseTokens F hclause).mpr hc⟩
  have hwhere : .ident [] ∈ whereTokens (exactFilters filters) ↔
      .ident [] ∈ conditionTokens (exactFilters filters) := by
    unfold whereTokens
    split_ifs with hnil
    · simp [hnil, conditionTokens, List.intercalate_nil]
    · simp
  rw [statementTokens, List.mem_cons, List.mem_append, List.mem_cons, List.mem_append,
    List.mem_append, empty_itemTokens, hwhere, hclauses]
  simp [self.relation.plain.2.2, hlimit]

/-- A NUL of a condition is one of its column or of its string. -/
lemma nul_clauseText (F : Doubles D) (h : Exact e c v text) :
    '\x00' ∈ (Provider.clauseText (c, text)).toList ↔ '\x00' ∈ c.toList ∨
      ∃ s, (v = .utf8 (some s) ∨ v = .largeUtf8 (some s)) ∧ '\x00' ∈ s.toList := by
  rw [← nul_scalarText F h.2]
  simp [Provider.clauseText]

lemma nul_columnsText : '\x00' ∈ (self.columnsText projection).toList ↔
    ∃ p, projection = some p ∧ ∃ i ∈ p, '\x00' ∈ (self.schema.get i).toList := by
  match projection with
  | none => simp [Provider.columnsText]
  | some [] => simp [Provider.columnsText]
  | some (i :: p) =>
      have hcomma : '\x00' ∉ ", ".toList := by decide
      rw [columnsText_cons, Text.join, String.toList_intercalate, Separated.mem_intercalate hcomma]
      simp [nul_quotedText]

lemma nul_whereText (F : Doubles D) : '\x00' ∈ (Provider.whereText filters).toList ↔
    ∃ e ∈ exactFilters filters, ∃ c v text, Exact e c v text ∧
      ('\x00' ∈ c.toList ∨ ∃ s, (v = .utf8 (some s) ∨ v = .largeUtf8 (some s)) ∧
        '\x00' ∈ s.toList) := by
  have hand : '\x00' ∉ " AND ".toList := by decide
  have hclauses : '\x00' ∈ (clausesText (exactFilters filters)).toList ↔
      ∃ e ∈ exactFilters filters, ∃ c v text, Exact e c v text ∧
        '\x00' ∈ (Provider.clauseText (c, text)).toList := by
    rw [clausesText, Text.join, String.toList_intercalate, Separated.mem_intercalate hand]
    simp only [List.mem_map, List.mem_filterMap]
    constructor
    · rintro ⟨_, ⟨_, ⟨cv, ⟨e, he, hextract⟩, rfl⟩, rfl⟩, hmem⟩
      obtain ⟨c, v, text, hclause⟩ := exact_of_mem he
      rw [hclause.extract, Option.some.injEq] at hextract
      exact ⟨e, he, c, v, text, hclause, hextract ▸ hmem⟩
    · rintro ⟨e, he, c, v, text, hclause, hmem⟩
      exact ⟨_, ⟨_, ⟨(c, text), ⟨e, he, hclause.extract⟩, rfl⟩, rfl⟩, hmem⟩
  have hwhere : '\x00' ∈ (Provider.whereText filters).toList ↔
      '\x00' ∈ (clausesText (exactFilters filters)).toList := by
    rw [whereText_eq]
    split_ifs with hnil
    · rw [hnil]
      rfl
    · simp
  rw [hwhere, hclauses]
  constructor
  · rintro ⟨e, he, c, v, text, hclause, hmem⟩
    exact ⟨e, he, c, v, text, hclause, (nul_clauseText F hclause).mp hmem⟩
  · rintro ⟨e, he, c, v, text, hclause, hmem⟩
    exact ⟨e, he, c, v, text, hclause, (nul_clauseText F hclause).mpr hmem⟩

lemma nul_buildSql (F : Doubles D) :
    '\x00' ∈ (self.buildSql projection filters limit).toList ↔
      (∃ p, projection = some p ∧ ∃ i ∈ p, '\x00' ∈ (self.schema.get i).toList) ∨
        ∃ e ∈ exactFilters filters, ∃ c v text, Exact e c v text ∧
          ('\x00' ∈ c.toList ∨ ∃ s, (v = .utf8 (some s) ∨ v = .largeUtf8 (some s)) ∧
            '\x00' ∈ s.toList) := by
  have hlimit : '\x00' ∉ (Provider.limitText limit).toList := by
    cases limit with
    | none => exact List.not_mem_nil
    | some n =>
        have hdigits : '\x00' ∉ (toString n).toList := by
          intro hmem
          have hall := Text.isDigits_toString n
          simp only [Text.isDigits, Bool.and_eq_true, List.all_eq_true] at hall
          exact absurd (hall.2 _ hmem) (by decide)
        rw [Provider.limitText, String.toList_append, List.mem_append, not_or]
        exact ⟨by decide, hdigits⟩
  rw [toList_buildSql, List.mem_append, List.mem_append, List.mem_append, List.mem_append,
    List.mem_append, nul_columnsText, nul_whereText F]
  simp [self.relation.plain.1, hlimit]

end

/-! ## The condition -/

/-- Every name that is used and every literal is plain. -/
structure PlainScan (F : Doubles D) (table : Provider) (projection : table.Projection)
    (filters : List (Expr D)) : Prop where
  columns : ∀ p, projection = some p → ∀ i ∈ p, PlainName (table.schema.get i)
  filters : ∀ e ∈ exactFilters filters, ∀ c v text, Exact e c v text →
    PlainName c ∧ PlainScalar F v

/-- **The statement of a scan** is one `SELECT` over the relation that gives the projected columns of
the rows that meet the exact filters, exactly when the names of the columns have neither quotes nor
NULs and are not empty, the strings have no NULs and the floats are numbers. -/
theorem buildSql_iff (F : Doubles D) (self : Provider) (projection : self.Projection)
    (filters : List (Expr D)) (limit : Option ℕ) :
    Faithful F self projection filters limit ↔ PlainScan F self projection filters := by
  constructor
  · intro h
    have hreadable := readable_of_faithful h
    obtain ⟨hnul, hempty⟩ := (faithful_iff_of_readable hreadable).mp h
    rw [nul_buildSql F, not_or] at hnul
    rw [empty_statementTokens F, not_or] at hempty
    refine ⟨fun p hp i hi => ⟨hreadable.columns p hp i hi, ?_, ?_⟩, fun e he c v text hclause => ?_⟩
    · exact fun hmem => hnul.1 ⟨p, hp, i, hi, hmem⟩
    · exact fun hname => hempty.1 ⟨p, hp, i, hi, hname⟩
    · obtain ⟨hquotes, hnumber⟩ := hreadable.filters e he c v text hclause
      refine ⟨⟨hquotes, ?_, ?_⟩, hnumber, ?_⟩
      · exact fun hmem => hnul.2 ⟨e, he, c, v, text, hclause, .inl hmem⟩
      · exact fun hc => hempty.2 ⟨e, he, c, v, text, hclause, hc⟩
      · exact fun s hs hmem => hnul.2 ⟨e, he, c, v, text, hclause, .inr ⟨s, hs, hmem⟩⟩
  · intro h
    have hreadable : Readable F self projection filters :=
      ⟨fun p hp i hi => (h.columns p hp i hi).quotes, fun e he c v text hclause =>
        ⟨(h.filters e he c v text hclause).1.quotes, (h.filters e he c v text hclause).2.number⟩⟩
    refine (faithful_iff_of_readable hreadable).mpr ⟨?_, ?_⟩
    · rw [nul_buildSql F, not_or]
      constructor
      · rintro ⟨p, hp, i, hi, hmem⟩
        exact (h.columns p hp i hi).nul hmem
      · rintro ⟨e, he, c, v, text, hclause, hmem | ⟨s, hs, hmem⟩⟩
        · exact (h.filters e he c v text hclause).1.nul hmem
        · exact (h.filters e he c v text hclause).2.nul s hs hmem
    · rw [empty_statementTokens F, not_or]
      constructor
      · rintro ⟨p, hp, i, hi, hname⟩
        exact (h.columns p hp i hi).nonempty hname
      · rintro ⟨e, he, c, v, text, hclause, hc⟩
        exact (h.filters e he c v text hclause).1.nonempty hc

/-! ## A name with a quote, and a float that is no number -/

/-- The whole numbers, and one float that is none. -/
def wholeFloats : Floats where
  F32 := Empty
  F64 := Option ℤ
  parse := fun s => s.toInt?
  display32 := Empty.elim
  display64 := fun x => x.elim "NaN" toString

def wholeDoubles : Doubles wholeFloats where
  number := Option.map fun n : ℤ => (n : ℚ)
  nearest := fun q => some q.floor
  printed := by
    intro x q hx
    obtain ⟨n, rfl, rfl⟩ := Option.map_eq_some_iff.mp hx
    refine ⟨isNumeral_int n, _, FunctionCall.numberOf_toString_int n, ?_⟩
    show some (((n : ℚ).floor : ℤ) : ℚ) = some (n : ℚ)
    rw [Rat.floor_intCast]
  special := by
    intro x hx
    obtain rfl := Option.map_eq_none_iff.mp hx
    simp [wholeFloats]

/-- A table of an attached database. -/
def items : Relation where
  text := quoteIdent "items"
  tokens := [.ident "items".toList]
  spells := @spells_ident "" "items" [] rfl
  whole := by
    intro p hp ts
    refine cutAt_append ?_ ts
    simp only [List.mem_cons, List.not_mem_nil, or_false] at hp
    rcases hp with rfl | rfl <;> decide
  plain := by decide

/-- A table with a quote in the name of a column. -/
def inches : Provider where
  relation := items
  schema := ["size", "width\""]

/-- The column with the quote cannot be selected, and a condition with a float that is no number
compares two columns. -/
theorem unescapedScan_not_faithful :
    ¬ Faithful wholeDoubles inches (some [(1 : Fin 2)]) [] none ∧
      ¬ Faithful wholeDoubles inches (some [(0 : Fin 2)])
        [.binary (.column none "size") .eq (.literal (.float64 (some none)))] none := by
  have hfirst : inches.buildSql (some [(1 : Fin 2)]) ([] : List (Expr wholeFloats)) none =
      "SELECT \"width\"\" FROM \"items\"" := by decide
  have hsecond : inches.buildSql (some [(0 : Fin 2)]) [Expr.binary (.column none "size") .eq
      (.literal (.float64 (some none)) : Expr wholeFloats)] none =
        "SELECT \"size\" FROM \"items\" WHERE \"size\" = NaN" := by decide
  constructor
  · rintro ⟨select, hread, -⟩
    have hnone : readStatement "SELECT \"width\"\" FROM \"items\"" = none := by decide
    rw [hfirst, hnone] at hread
    exact absurd hread (by simp)
  · rintro ⟨select, hread, -, -, hmeans, -⟩
    have hconditions : (readStatement "SELECT \"size\" FROM \"items\" WHERE \"size\" = NaN").map
        SelectText.conditions =
          some [[.ident "size".toList, .symbol '=', .word "NaN".toList]] := by decide
    rw [hsecond] at hread
    rw [hread, Option.map_some, Option.some.injEq] at hconditions
    rw [hconditions] at hmeans
    obtain ⟨⟨c, v, literal, hcomparison, -, hdenotes⟩, -⟩ := List.forall₂_cons.mp hmeans
    obtain ⟨-, rfl⟩ := Prod.mk.inj (Option.some.inj hcomparison)
    obtain ⟨-, -, hnumber, -⟩ := hdenotes
    exact absurd hnumber (by decide)

end DuckDb
end Engine
end Pawrly
