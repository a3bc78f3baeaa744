import Pawrly.Sql.Confinement
import Pawrly.Config.Workspace

/-!
# Calls of declared functions

The SQL text of a call (`CallArg` and `render_call_sql` of `pawrly-core/src/function.rs`) and the
binding of its arguments (`pawrly-engine/src/functions/udtf.rs`).  Between them stand the parser,
for which a call is a `SELECT` of one table factor with literal arguments, and the planner, which
types the literals; the 64-bit floats are outside code.
-/

namespace Pawrly
namespace Engine
namespace FunctionCall

open Config Sql

/-! ## The text of a call -/

/-- The types that are rendered bare. -/
def bareTypes : List String :=
  ["int", "integer", "int32", "int64", "bigint", "long", "smallint", "double", "float", "float32",
    "float64", "real", "decimal", "numeric", "bool", "boolean"]

/-- `to_ascii_lowercase`. -/
def lowercase (s : String) : String := String.ofList (s.toList.map Char.toLower)

def typeIsString (type : String) : Bool := !bareTypes.contains (lowercase (Text.trim type))

/-- The text is `true` or `false` in any case. -/
def booleanOf (value : String) : Option Bool :=
  if lowercase value = "true" then some true
  else if lowercase value = "false" then some false
  else none

/-- The text has a letter that no exponent begins with. -/
def hasStrayLetter (value : String) : Bool :=
  value.toList.any fun c => c.isAlpha && !(c = 'e' || c = 'E')

def isSafeBareLiteral (value : String) : Bool :=
  if (booleanOf value).isSome then true
  else if hasStrayLetter value then false
  else Text.parsesI64 value || Text.parsesF64 value

structure CallArg where
  value : String
  quoted : Bool

/-- `CallArg::new`. -/
def CallArg.make (value type : String) : CallArg where
  value := value
  quoted := typeIsString type || !isSafeBareLiteral value

def CallArg.render (a : CallArg) : String := if a.quoted then lit a.value else a.value

def renderCallSql (ns name : String) (args : List CallArg) : String :=
  "SELECT * FROM " ++ ns ++ "." ++ name ++ "(" ++ Text.join ", " (args.map CallArg.render) ++ ")"

/-- The arguments of a call in the order of the declaration. -/
def callArgs (values : List String) (params : List FunctionArg) : List CallArg :=
  List.zipWith (fun value param => CallArg.make value param.type) values params

/-! ## The parser -/

/-- A literal argument. -/
inductive SqlArg
  | string (text : List Char)
  | number (negative : Bool) (text : List Char)
  | boolean (b : Bool)
  deriving DecidableEq

/-- The word is a boolean literal. -/
def wordBoolean (word : List Char) : Option Bool := booleanOf (String.ofList word)

mutual

/-- The literals of an argument list and the parenthesis that closes it. -/
def parseArgs : List Token → Option (List SqlArg)
  | .str text :: rest => (parseRest rest).map (.string text :: ·)
  | .number text :: rest => (parseRest rest).map (.number false text :: ·)
  | .symbol '+' :: .number text :: rest => (parseRest rest).map (.number false text :: ·)
  | .symbol '-' :: .number text :: rest => (parseRest rest).map (.number true text :: ·)
  | .word word :: rest =>
      (wordBoolean word).bind fun b => (parseRest rest).map (.boolean b :: ·)
  | _ => none

/-- What follows an argument. -/
def parseRest : List Token → Option (List SqlArg)
  | [.symbol ')'] => some []
  | .symbol ',' :: rest => parseArgs rest
  | _ => none

end

/-- A call as the only table factor of a `SELECT`. -/
structure ParsedCall where
  ns : List Char
  name : List Char
  args : List SqlArg
  deriving DecidableEq

/-- A statement that is `SELECT * FROM ns.name(literals)`.  A word that begins another kind of table
factor (`factorWord`) is no namespace. -/
def parseCall (factorWord : List Char → Bool) : List Token → Option ParsedCall
  | .word first :: .symbol '*' :: .word second :: .word ns :: .symbol '.' :: .word name ::
      .symbol '(' :: rest =>
      if (Token.word first).isWord "SELECT" && (Token.word second).isWord "FROM" &&
          !factorWord ns then
        (if rest = [.symbol ')'] then some [] else parseArgs rest).map fun args =>
          { ns := ns, name := name, args := args }
      else none
  | _ => none

/-! ## The planner -/

/-- The floats of the language: reading a text and printing. -/
structure Floats where
  F32 : Type
  F64 : Type
  parse : String → F64
  display32 : F32 → String
  display64 : F64 → String

/-- A scalar; of the types that `scalar_to_string` does not name, the name and whether there is a
value. -/
inductive ScalarValue (D : Floats)
  | utf8 (v : Option String)
  | largeUtf8 (v : Option String)
  | int (bits : ℕ) (v : Option ℤ)
  | uint (bits : ℕ) (v : Option ℕ)
  | float32 (v : Option D.F32)
  | float64 (v : Option D.F64)
  | boolean (v : Option Bool)
  | other (type : String) (present : Bool)

/-- An argument expression of a planned call. -/
inductive PlannedExpr (D : Floats)
  | literal (v : ScalarValue D)
  | negative (e : PlannedExpr D)
  | other

/-- The value of an integer text. -/
def intVal (cs : List Char) : ℤ :=
  if cs.head? = some '-' then -(Text.digitsVal (Text.dropSign cs) : ℤ)
  else Text.digitsVal (Text.dropSign cs)

section

variable (D : Floats)

/-- The numeral with its sign. -/
def signedText (negative : Bool) (text : List Char) : String :=
  String.ofList (if negative then '-' :: text else text)

/-- `parse_sql_number`: a 64-bit integer, an unsigned one, or a float. -/
def parseSqlNumber (negative : Bool) (text : List Char) : ScalarValue D :=
  let signed := signedText negative text
  if Text.parsesI64 signed then .int 64 (some (intVal signed.toList))
  else
    match if negative then none else Text.parseUnsigned (2 ^ 64 - 1) signed with
    | some n => .uint 64 (some n)
    | none => .float64 (some (D.parse signed))

def planArg : SqlArg → PlannedExpr D
  | .string text => .literal (.utf8 (some (String.ofList text)))
  | .number negative text => .literal (parseSqlNumber D negative text)
  | .boolean b => .literal (.boolean (some b))

/-! ## Binding -/

variable {D}

/-- The scalar is a typed null. -/
def ScalarValue.isNull : ScalarValue D → Bool
  | utf8 v => v.isNone
  | largeUtf8 v => v.isNone
  | int _ v => v.isNone
  | uint _ v => v.isNone
  | float32 v => v.isNone
  | float64 v => v.isNone
  | boolean v => v.isNone
  | other _ present => !present

def scalarToString : ScalarValue D → Option String
  | .utf8 v => v
  | .largeUtf8 v => v
  | .int _ v => v.map toString
  | .uint _ v => v.map toString
  | .float32 v => v.map D.display32
  | .float64 v => v.map D.display64
  | .boolean v => v.map fun b => if b then "true" else "false"
  | .other _ _ => none

/-- A bound literal, one that counts as not provided, or nothing where the expression is no
literal. -/
def literalValue : PlannedExpr D → Option (Option String)
  | .literal v => some (scalarToString v)
  | .negative (.literal v) => some ((scalarToString v).map fun s => "-" ++ s)
  | _ => none

/-- `namespace.name`. -/
def qualifiedName (f : FunctionDef) : String := f.ns ++ "." ++ f.name

/-- Bind the literals to the parameters, counted from an index. -/
def bindLiterals (f : FunctionDef) : ℕ → List FunctionArg → List (PlannedExpr D) →
    OrderedMap String String → Except String (OrderedMap String String)
  | i, param :: params, e :: es, bound =>
      match literalValue e with
      | some (some s) => bindLiterals f (i + 1) params es (bound.insert param.name s)
      | some none => bindLiterals f (i + 1) params es bound
      | none =>
          .error ("function `" ++ qualifiedName f ++ "` argument " ++ toString (i + 1) ++ " (`" ++
            param.name ++ "`) must be a literal value")
  | _, _, _, bound => .ok bound

/-- Fill the defaults and ask for what is required. -/
def fillDefaults (f : FunctionDef) : ℕ → List FunctionArg → OrderedMap String String →
    Except String (OrderedMap String String)
  | _, [], bound => .ok bound
  | i, param :: params, bound =>
      if bound.contains param.name then fillDefaults f (i + 1) params bound
      else
        match param.default with
        | some d => fillDefaults f (i + 1) params (bound.insert param.name d)
        | none =>
            if param.required then
              .error ("function `" ++ qualifiedName f ++ "` requires argument `" ++ param.name ++
                "` (position " ++ toString (i + 1) ++ ")")
            else fillDefaults f (i + 1) params bound

def bindArgs (f : FunctionDef) (args : List (PlannedExpr D)) :
    Except String (OrderedMap String String) :=
  if f.args.length < args.length then
    .error ("function `" ++ qualifiedName f ++ "` takes at most " ++ toString f.args.length ++
      " argument(s), got " ++ toString args.length)
  else (bindLiterals f 0 f.args args .empty).bind (fillDefaults f 0 f.args)

end

end FunctionCall
end Engine
end Pawrly
