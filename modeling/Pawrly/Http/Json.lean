import Pawrly.Text
import Pawrly.Lib.OrderedMap
import Mathlib.Data.String.Basic

/-!
# JSON values

The JSON values of requests and responses: their compact text, the `$.a.b` paths that read and
write them, and the rows of a response.
-/

namespace Pawrly
namespace Http

/-- A JSON value (`serde_json::Value`).  A number is given by its text; the fields of an object are
in the order of their names. -/
inductive Json
  | null
  | bool (b : Bool)
  | num (text : String)
  | str (s : String)
  | arr (items : List Json)
  | obj (fields : List (String × Json))

namespace Json

/-! ## Equality -/

mutual

/-- Equality of values is decided by their shapes. -/
def decEq : (a b : Json) → Decidable (a = b)
  | .null, .null => .isTrue rfl
  | .bool b, .bool b' => decidable_of_iff (b = b') (by rw [Json.bool.injEq])
  | .num t, .num t' => decidable_of_iff (t = t') (by rw [Json.num.injEq])
  | .str s, .str s' => decidable_of_iff (s = s') (by rw [Json.str.injEq])
  | .arr l, .arr l' =>
      have := decEqItems l l'
      decidable_of_iff (l = l') (by rw [Json.arr.injEq])
  | .obj l, .obj l' =>
      have := decEqFields l l'
      decidable_of_iff (l = l') (by rw [Json.obj.injEq])
  | .null, .bool _ | .null, .num _ | .null, .str _ | .null, .arr _ | .null, .obj _
  | .bool _, .null | .bool _, .num _ | .bool _, .str _ | .bool _, .arr _ | .bool _, .obj _
  | .num _, .null | .num _, .bool _ | .num _, .str _ | .num _, .arr _ | .num _, .obj _
  | .str _, .null | .str _, .bool _ | .str _, .num _ | .str _, .arr _ | .str _, .obj _
  | .arr _, .null | .arr _, .bool _ | .arr _, .num _ | .arr _, .str _ | .arr _, .obj _
  | .obj _, .null | .obj _, .bool _ | .obj _, .num _ | .obj _, .str _ | .obj _, .arr _ =>
      .isFalse Json.noConfusion

def decEqItems : (l l' : List Json) → Decidable (l = l')
  | [], [] => .isTrue rfl
  | [], _ :: _ | _ :: _, [] => .isFalse nofun
  | a :: l, a' :: l' =>
      have := decEq a a'
      have := decEqItems l l'
      decidable_of_iff (a = a' ∧ l = l') (by rw [List.cons.injEq])

def decEqFields : (l l' : List (String × Json)) → Decidable (l = l')
  | [], [] => .isTrue rfl
  | [], _ :: _ | _ :: _, [] => .isFalse nofun
  | (k, a) :: l, (k', a') :: l' =>
      have := decEq a a'
      have := decEqFields l l'
      decidable_of_iff ((k = k' ∧ a = a') ∧ l = l') (by rw [List.cons.injEq, Prod.mk.injEq])

end

instance : DecidableEq Json := decEq

/-! ## Printing -/

def hexDigit (n : ℕ) : Char := "0123456789abcdef".toList.getD n '0'

/-- A character inside a JSON string. -/
def escapeChar (c : Char) : List Char :=
  if c = '"' then ['\\', '"']
  else if c = '\\' then ['\\', '\\']
  else if c = '\x08' then ['\\', 'b']
  else if c = '\x0c' then ['\\', 'f']
  else if c = '\n' then ['\\', 'n']
  else if c = '\r' then ['\\', 'r']
  else if c = '\t' then ['\\', 't']
  else if c.toNat < 32 then
    ['\\', 'u', '0', '0', hexDigit (c.toNat / 16), hexDigit (c.toNat % 16)]
  else [c]

def printString (s : String) : String :=
  "\"" ++ String.ofList (s.toList.flatMap escapeChar) ++ "\""

mutual

/-- `Value::to_string`. -/
def print : Json → String
  | null => "null"
  | bool b => toString b
  | num text => text
  | str s => printString s
  | arr items => "[" ++ Text.join "," (printItems items) ++ "]"
  | obj fields => "\x7b" ++ Text.join "," (printFields fields) ++ "\x7d"

def printItems : List Json → List String
  | [] => []
  | v :: vs => v.print :: printItems vs

def printFields : List (String × Json) → List String
  | [] => []
  | (k, v) :: fields => (printString k ++ ":" ++ v.print) :: printFields fields

end

/-! ## Reading -/

/-- `value.get(key)`. -/
def get? (key : String) : Json → Option Json
  | obj fields => fields.lookup key
  | _ => none

/-- `value.get(idx)`. -/
def getIndex? (idx : ℕ) : Json → Option Json
  | arr items => items[idx]?
  | _ => none

def asBool? : Json → Option Bool
  | bool b => some b
  | _ => none

def asArray? : Json → Option (List Json)
  | arr items => some items
  | _ => none

/-- `get_key_or_index`. -/
def getKeyOrIndex (value : Json) (key : String) : Option Json :=
  match value.get? key with
  | some v => some v
  | none =>
      match value with
      | arr items => (Text.parseUnsigned (2 ^ 64 - 1) key).bind fun idx => items[idx]?
      | _ => none

/-- The bracket indices of a path segment; the fuel is the length of the text. -/
def walkIndices : ℕ → Json → List Char → Option Json
  | fuel + 1, current, '[' :: stripped =>
      (Text.splitOnceChars ']' stripped).bind fun (inside, rest) =>
        (Text.parseUnsigned (2 ^ 64 - 1) (Text.trim (String.ofList inside))).bind fun idx =>
          (current.getIndex? idx).bind fun next => walkIndices fuel next rest
  | _, current, _ => some current

/-- `segment_get`. -/
def segmentGet (value : Json) (segment : String) : Option Json :=
  let key := segment.toList.takeWhile (· ≠ '[')
  let rest := segment.toList.dropWhile (· ≠ '[')
  (if key.isEmpty then some value else value.getKeyOrIndex (String.ofList key)).bind fun current =>
    walkIndices rest.length current rest

/-- The segments of a `$.a.b` path. -/
def pathSegments (path : String) : List String :=
  (Text.split '.' (Text.trimStartMatches "$" (Text.trimStartMatches "$." path))).filter (· ≠ "")

/-- `json_at_path`. -/
def atPath (body : Json) (path : String) : Option Json :=
  if path = "$" then some body
  else (pathSegments path).foldlM segmentGet body

/-- `value_to_cursor`. -/
def toCursor : Json → Option String
  | str s => if s = "" then none else some s
  | num text => some text
  | _ => none

/-- `cursor_at_path`. -/
def cursorAtPath (body : Json) (path : String) : Option String :=
  (body.atPath path).bind toCursor

/-! ## Writing -/

/-- Write a leaf below the segments, with new objects where they are missing. -/
def setAt (leaf : Json) : List String → Json → Option Json
  | [], _ => some leaf
  | part :: rest, obj fields =>
      (setAt leaf rest ((fields.lookup part).getD (obj []))).map fun v =>
        obj (OrderedMap.insertEntry part v fields)
  | _ :: _, _ => none

/-- `set_json_at_path`; `none` when something that is not an object blocks the path. -/
def setAtPath (root : Json) (path : String) (leaf : Json) : Option Json :=
  setAt leaf (pathSegments path) root

/-- Insert the fields of a list one after the other. -/
def extendFields (fields : List (String × Json)) (l : List (String × Json)) :
    List (String × Json) :=
  l.foldl (fun fields e => OrderedMap.insertEntry e.1 e.2 fields) fields

/-! ## Strings inside a value -/

/-- Read one character of a JSON string back. -/
def unescapeChar : List Char → Option (Char × List Char)
  | '\\' :: c :: cs =>
      if c = 'u' then
        match cs with
        | _ :: _ :: high :: low :: rest =>
            some (Char.ofNat (16 * (hexDigits.idxOf high) + hexDigits.idxOf low), rest)
        | _ => none
      else
        some (if c = 'b' then '\x08' else if c = 'f' then '\x0c' else if c = 'n' then '\n'
          else if c = 'r' then '\r' else if c = 't' then '\t' else c, cs)
  | c :: cs => some (c, cs)
  | [] => none
where hexDigits : List Char := "0123456789abcdef".toList

lemma unescape_control (n : ℕ) (h : n < 32) : Char.ofNat (16 * unescapeChar.hexDigits.idxOf
    (hexDigit (n / 16)) + unescapeChar.hexDigits.idxOf (hexDigit (n % 16))) = Char.ofNat n := by
  revert n
  decide

lemma unescapeChar_escapeChar (c : Char) (cs : List Char) :
    unescapeChar (escapeChar c ++ cs) = some (c, cs) := by
  unfold escapeChar
  split_ifs with hquote hback hb hf hn hr ht hcontrol
  · simp [unescapeChar, hquote]
  · simp [unescapeChar, hback]
  · simp [unescapeChar, hb]
  · simp [unescapeChar, hf]
  · simp [unescapeChar, hn]
  · simp [unescapeChar, hr]
  · simp [unescapeChar, ht]
  · have hread := unescape_control c.toNat hcontrol
    rw [Char.ofNat_toNat] at hread
    simp [unescapeChar, hread]
  · simp [unescapeChar, hback]

lemma escape_injective {cs cs' : List Char}
    (h : cs.flatMap escapeChar = cs'.flatMap escapeChar) : cs = cs' := by
  have hnil : ∀ (c : Char) (rest : List Char), escapeChar c ++ rest ≠ [] := by
    intro c rest hempty
    have hread := unescapeChar_escapeChar c rest
    rw [hempty] at hread
    simp [unescapeChar] at hread
  induction cs generalizing cs' with
  | nil =>
      cases cs' with
      | nil => rfl
      | cons c cs' => exact absurd h.symm (hnil c _)
  | cons c cs ih =>
      cases cs' with
      | nil => exact absurd h (hnil c _)
      | cons c' cs' =>
          simp only [List.flatMap_cons] at h
          have hread := congrArg unescapeChar h
          rw [unescapeChar_escapeChar, unescapeChar_escapeChar, Option.some.injEq,
            Prod.mk.injEq] at hread
          rw [hread.1, ih hread.2]

lemma printString_injective {s s' : String} (h : printString s = printString s') : s = s' := by
  have hlist := congrArg String.toList h
  simp only [printString, String.toList_append, String.toList_ofList] at hlist
  exact String.toList_inj.mp (escape_injective (by simpa using hlist))


lemma printFields_append (l l' : List (String × Json)) :
    printFields (l ++ l') = printFields l ++ printFields l' := by
  induction l with
  | nil => rfl
  | cons e l ih =>
      obtain ⟨k, v⟩ := e
      simp [printFields, ih]

/-- Whether a leaf can be written does not depend on the leaf. -/
lemma setAt_isSome (leaf leaf' : Json) (segments : List String) (v : Json) :
    (setAt leaf segments v).isSome = (setAt leaf' segments v).isSome := by
  induction segments generalizing v with
  | nil => rfl
  | cons part rest ih => cases v <;> simp [setAt, ih]

/-- The texts of a value with different strings at one place differ. -/
theorem print_setAt_injective {c c' : String} {segments : List String} {v w w' : Json}
    (hw : setAt (.str c) segments v = some w) (hw' : setAt (.str c') segments v = some w')
    (h : w.print = w'.print) : c = c' := by
  induction segments generalizing v w w' with
  | nil =>
      cases hw
      cases hw'
      exact printString_injective h
  | cons part rest ih =>
      cases v with
      | null | bool | num | str | arr => cases hw
      | obj fields =>
          obtain ⟨x, hx, rfl⟩ := Option.map_eq_some_iff.mp hw
          obtain ⟨y, hy, rfl⟩ := Option.map_eq_some_iff.mp hw'
          obtain ⟨l, l', hinsert⟩ := OrderedMap.exists_insertEntry (α := Json) part fields
          obtain ⟨before, after, hjoin⟩ := Text.exists_join "," (printFields l) (printFields l')
          simp only [print, hinsert, printFields_append, printFields, hjoin] at h
          have hlist := congrArg String.toList h
          simp only [String.toList_append, List.append_assoc, List.append_cancel_left_eq,
            List.append_cancel_right_eq] at hlist
          refine ih hx hy (String.toList_inj.mp ?_)
          simpa [← List.append_assoc] using hlist


end Json

end Http
end Pawrly
