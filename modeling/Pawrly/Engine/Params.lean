import Pawrly.Lib.OrderedMap
import Pawrly.Lib.Templates
import Pawrly.Text
import Mathlib.Data.String.Basic

/-!
# Parameters of a query

The `${param:KEY}` placeholders of a SQL text and the `-- pawrly: materialize` directive at its
start, as `query` reads them.  A map of parameters is walked in an order of its own, so that the
order is an argument here.
-/

namespace Pawrly
namespace Engine

/-! ## Substitution -/

/-- The placeholder of a parameter. -/
def paramNeedle (key : String) : String := "$\x7bparam:" ++ key ++ "\x7d"

/-- `substitute_params`, with the entries in the order that the map is walked in. -/
def substituteParams (order : List (String × String)) (sql : String) : String :=
  order.foldl (fun out e => Text.replace (paramNeedle e.1) e.2 out) sql

/-! ## The directive -/

/-- `sql.lines()`. -/
def lines (s : String) : List String :=
  match (Text.split '\n' s).reverse with
  | [] => []
  | last :: init =>
      (init.reverse.map fun l => (Text.stripSuffix "\r" l).getD l) ++
        if last = "" then [] else [last]

/-- `s.split_whitespace().next()`. -/
def firstWord (s : String) : Option String :=
  let word := (s.toList.dropWhile Text.isWhitespace).takeWhile fun c => !Text.isWhitespace c
  if word = [] then none else some (String.ofList word)

/-- What follows `pawrly: materialize` in a comment. -/
def materializeArgs (comment : String) : Option String :=
  (Text.stripPrefix "pawrly:" (Text.trim comment)).bind fun rest =>
    Text.stripPrefix "materialize" (Text.trim rest)

/-- The place and the name of the directive, among the comments that the lines start with. -/
def directiveAt : ℕ → List String → Option (ℕ × String)
  | _, [] => none
  | i, raw :: rest =>
      let line := Text.trim raw
      if line = "" then directiveAt (i + 1) rest
      else
        match Text.stripPrefix "--" line with
        | none => none
        | some comment =>
            match materializeArgs comment with
            | some args => (firstWord args).map fun name => (i, name)
            | none => directiveAt (i + 1) rest

/-- `parse_inline_materialize`: the name and the text without the line of the directive. -/
def parseInlineMaterialize (sql : String) : Option (String × String) :=
  (directiveAt 0 (lines sql)).map fun d => (d.2, Text.join "\n" ((lines sql).eraseIdx d.1))

/-- What `query` does with a text: it materializes a query under a name, or runs it. -/
inductive QueryText
  | materialize (name sql : String)
  | run (sql : String)
  deriving DecidableEq

/-- The text of a query, where `produce_materialize` substitutes the parameters once more. -/
def queryText (allowInline : Bool) (order again : List (String × String)) (sql : String) :
    QueryText :=
  let text := substituteParams order sql
  match if allowInline then parseInlineMaterialize text else none with
  | some (name, body) => .materialize name (substituteParams again body)
  | none => .run text

end Engine
end Pawrly
