import Pawrly.Http.Json

/-!
# JSON texts

JSON documents as they are written, with the white space between their tokens and the escapes of
their strings: `Document.text` is the text and `Document.value` what it stands for.  A document may
have holes of a type `H`, inside its strings and in place of values; filling them is compatible with
both (`flat_fill`, `value_fill`).
-/

namespace Pawrly
namespace Http

/-! ## Characters and numbers -/

/-- White space between tokens. -/
abbrev Layout := { cs : List Char // ∀ c ∈ cs, c = ' ' ∨ c = '\t' ∨ c = '\n' ∨ c = '\r' }

/-- A character that stands for itself in a string. -/
def isPlainChar (c : Char) : Bool := 32 ≤ c.toNat && c ≠ '"' && c ≠ '\\'

/-- What the letter of a short escape stands for. -/
def shortEscape : Char → Option Char
  | '"' => some '"'
  | '\\' => some '\\'
  | '/' => some '/'
  | 'b' => some '\x08'
  | 'f' => some '\x0c'
  | 'n' => some '\n'
  | 'r' => some '\r'
  | 't' => some '\t'
  | _ => none

def hexValue (c : Char) : Option ℕ :=
  let i := "0123456789abcdef".toList.idxOf c.toLower
  if i < 16 then some i else none

/-- The code unit of four hexadecimal digits. -/
def codeUnit (cs : List Char) : Option ℕ :=
  if cs.length = 4 then cs.foldlM (fun n c => (hexValue c).map (16 * n + ·)) 0 else none

/-- The character of a `\u` escape: a code unit that is no surrogate, or a pair of surrogates. -/
def unicodeEscape (cs : List Char) : Option Char :=
  if cs.length = 4 then
    (codeUnit cs).bind fun n => if 0xd800 ≤ n && n < 0xe000 then none else some (Char.ofNat n)
  else if (cs.drop 4).take 2 = ['\\', 'u'] then
    (codeUnit (cs.take 4)).bind fun hi => (codeUnit (cs.drop 6)).bind fun lo =>
      if 0xd800 ≤ hi && hi < 0xdc00 && 0xdc00 ≤ lo && lo < 0xe000 then
        some (Char.ofNat (0x10000 + 0x400 * (hi - 0xd800) + (lo - 0xdc00)))
      else none
  else none

/-- A character of a string, as it is written. -/
inductive StrChar
  | plain (c : Char) (valid : isPlainChar c = true)
  | short (letter : Char) (valid : (shortEscape letter).isSome = true)
  | unicode (digits : List Char) (valid : (unicodeEscape digits).isSome = true)

def StrChar.text : StrChar → List Char
  | plain c _ => [c]
  | short letter _ => ['\\', letter]
  | unicode digits _ => '\\' :: 'u' :: digits

def StrChar.char : StrChar → Char
  | plain c _ => c
  | short letter valid => (shortEscape letter).get valid
  | unicode digits valid => (unicodeEscape digits).get valid

/-- Digits, at least one. -/
def isDigitRun (cs : List Char) : Bool := !cs.isEmpty && cs.all Char.isDigit

/-- The exponent of a number, if there is one. -/
def isExponent : List Char → Bool
  | [] => true
  | 'e' :: '+' :: cs | 'e' :: '-' :: cs | 'E' :: '+' :: cs | 'E' :: '-' :: cs => isDigitRun cs
  | 'e' :: cs | 'E' :: cs => isDigitRun cs
  | _ => false

/-- The fraction and the exponent of a number. -/
def isFraction : List Char → Bool
  | '.' :: cs => !(cs.takeWhile Char.isDigit).isEmpty && isExponent (cs.dropWhile Char.isDigit)
  | cs => isExponent cs

/-- A JSON number. -/
def isNumber (cs : List Char) : Bool :=
  let cs := if cs.head? = some '-' then cs.drop 1 else cs
  let digits := cs.takeWhile Char.isDigit
  (digits = ['0'] || (!digits.isEmpty && digits.head? ≠ some '0')) &&
    isFraction (cs.dropWhile Char.isDigit)

/-! ## Documents -/

/-- A part of a string: a character, or a hole. -/
inductive StrPiece (H : Type)
  | char (s : StrChar)
  | hole (h : H)

mutual

/-- A value, with the white space inside it. -/
inductive Doc (H : Type)
  | null
  | bool (b : Bool)
  | num (text : List Char) (valid : isNumber text = true)
  | str (pieces : List (StrPiece H))
  | hole (h : H)
  | arr (blank : Layout) (items : Items H)
  | obj (blank : Layout) (fields : Fields H)

inductive Items (H : Type)
  | nil
  | cons (before : Layout) (v : Doc H) (after : Layout) (rest : Items H)

inductive Fields (H : Type)
  | nil
  | cons (before : Layout) (key : List StrChar) (afterKey beforeValue : Layout) (v : Doc H)
      (after : Layout) (rest : Fields H)

end

/-- What a key stands for. -/
def keyName (key : List StrChar) : String := String.ofList (key.map StrChar.char)

/-- A key, as it is written. -/
def keyText (key : List StrChar) : List Char := '"' :: key.flatMap StrChar.text ++ ['"']

section

variable {H K β : Type}

/-! ### The text -/

/-- The comma before the rest of the items. -/
def Items.comma (lit : Char → β) : Items H → List β
  | .nil => []
  | .cons .. => [lit ',']

def Fields.comma (lit : Char → β) : Fields H → List β
  | .nil => []
  | .cons .. => [lit ',']

section

variable (lit : Char → β) (slot : List (StrPiece H) → List β) (bare : H → List β)

mutual

/-- The document written with symbols `lit c` for its characters; `slot` writes its strings and
`bare` its holes. -/
def Doc.flat : Doc H → List β
  | .null => "null".toList.map lit
  | .bool b => (toString b).toList.map lit
  | .num text _ => text.map lit
  | .str pieces => slot pieces
  | .hole h => bare h
  | .arr blank items => lit '[' :: (blank.1.map lit ++ items.flat ++ [lit ']'])
  | .obj blank fields => lit '\x7b' :: (blank.1.map lit ++ fields.flat ++ [lit '\x7d'])

def Items.flat : Items H → List β
  | .nil => []
  | .cons before v after rest =>
      before.1.map lit ++ v.flat ++ after.1.map lit ++ rest.comma lit ++ rest.flat

def Fields.flat : Fields H → List β
  | .nil => []
  | .cons before key afterKey beforeValue v after rest =>
      before.1.map lit ++ (keyText key).map lit ++ afterKey.1.map lit ++ lit ':' ::
        beforeValue.1.map lit ++ v.flat ++ after.1.map lit ++ rest.comma lit ++ rest.flat

end

end

/-! ### The value -/

section

variable (number : String → String) (slot : List (StrPiece H) → Json) (bare : H → Json)

mutual

/-- What the document stands for; a later field of a name replaces an earlier one, and `number` is
the text that a number is printed with. -/
def Doc.value : Doc H → Json
  | .null => .null
  | .bool b => .bool b
  | .num text _ => .num (number (String.ofList text))
  | .str pieces => slot pieces
  | .hole h => bare h
  | .arr _ items => .arr items.values
  | .obj _ fields => .obj (Json.extendFields [] fields.values)

def Items.values : Items H → List Json
  | .nil => []
  | .cons _ v _ rest => v.value :: rest.values

def Fields.values : Fields H → List (String × Json)
  | .nil => []
  | .cons _ key _ _ v _ rest => (keyName key, v.value) :: rest.values

end

end

/-! ### Filling the holes -/

section

variable (slot : List (StrPiece H) → Doc K) (bare : H → Doc K)

mutual

/-- The document with its strings and holes replaced. -/
def Doc.fill : Doc H → Doc K
  | .null => .null
  | .bool b => .bool b
  | .num text valid => .num text valid
  | .str pieces => slot pieces
  | .hole h => bare h
  | .arr blank items => .arr blank items.fill
  | .obj blank fields => .obj blank fields.fill

def Items.fill : Items H → Items K
  | .nil => .nil
  | .cons before v after rest => .cons before v.fill after rest.fill

def Fields.fill : Fields H → Fields K
  | .nil => .nil
  | .cons before key afterKey beforeValue v after rest =>
      .cons before key afterKey beforeValue v.fill after rest.fill

end

end

mutual

/-- The strings of the document, apart from the keys. -/
def Doc.slots : Doc H → List (List (StrPiece H))
  | .str pieces => [pieces]
  | .arr _ items => items.slots
  | .obj _ fields => fields.slots
  | _ => []

def Items.slots : Items H → List (List (StrPiece H))
  | .nil => []
  | .cons _ v _ rest => v.slots ++ rest.slots

def Fields.slots : Fields H → List (List (StrPiece H))
  | .nil => []
  | .cons _ _ _ _ v _ rest => v.slots ++ rest.slots

end

mutual

/-- The holes in place of values. -/
def Doc.bares : Doc H → List H
  | .hole h => [h]
  | .arr _ items => items.bares
  | .obj _ fields => fields.bares
  | _ => []

def Items.bares : Items H → List H
  | .nil => []
  | .cons _ v _ rest => v.bares ++ rest.bares

def Fields.bares : Fields H → List H
  | .nil => []
  | .cons _ _ _ _ v _ rest => v.bares ++ rest.bares

end

end

/-! ## Filling is compatible with the text and the value -/

section

variable {H K β γ : Type}

section

variable {lit : Char → β} {slot slot' : List (StrPiece H) → List β} {bare bare' : H → List β}

mutual

/-- The text depends on the strings and holes that occur. -/
lemma Doc.flat_congr (d : Doc H) (hslot : ∀ ps ∈ d.slots, slot ps = slot' ps)
    (hbare : ∀ h ∈ d.bares, bare h = bare' h) : d.flat lit slot bare = d.flat lit slot' bare' := by
  cases d with
  | null | bool | num => rfl
  | str pieces => exact hslot pieces List.mem_cons_self
  | hole h => exact hbare h List.mem_cons_self
  | arr blank items =>
      simp only [Doc.flat, items.flat_congr hslot hbare]
  | obj blank fields =>
      simp only [Doc.flat, fields.flat_congr hslot hbare]

lemma Items.flat_congr (l : Items H) (hslot : ∀ ps ∈ l.slots, slot ps = slot' ps)
    (hbare : ∀ h ∈ l.bares, bare h = bare' h) : l.flat lit slot bare = l.flat lit slot' bare' := by
  cases l with
  | nil => rfl
  | cons before v after rest =>
      simp only [Items.slots, Items.bares, List.forall_mem_append] at hslot hbare
      simp only [Items.flat, v.flat_congr hslot.1 hbare.1, rest.flat_congr hslot.2 hbare.2]

lemma Fields.flat_congr (l : Fields H) (hslot : ∀ ps ∈ l.slots, slot ps = slot' ps)
    (hbare : ∀ h ∈ l.bares, bare h = bare' h) : l.flat lit slot bare = l.flat lit slot' bare' := by
  cases l with
  | nil => rfl
  | cons before key afterKey beforeValue v after rest =>
      simp only [Fields.slots, Fields.bares, List.forall_mem_append] at hslot hbare
      simp only [Fields.flat, v.flat_congr hslot.1 hbare.1, rest.flat_congr hslot.2 hbare.2]

end

end

section

variable {lit : Char → β} {slot : List (StrPiece H) → List β} {bare : H → List β}
  {lit' : Char → γ} {g : β → List γ}

lemma flatMap_lit (hg : ∀ c, g (lit c) = [lit' c]) (cs : List Char) :
    (cs.map lit).flatMap g = cs.map lit' := by
  induction cs with
  | nil => rfl
  | cons c cs ih => rw [List.map_cons, List.flatMap_cons, hg, ih]; rfl

lemma Items.comma_flatMap (hg : ∀ c, g (lit c) = [lit' c]) (l : Items H) :
    (l.comma lit).flatMap g = l.comma lit' := by
  cases l with
  | nil => rfl
  | cons => simp [Items.comma, hg]

lemma Fields.comma_flatMap (hg : ∀ c, g (lit c) = [lit' c]) (l : Fields H) :
    (l.comma lit).flatMap g = l.comma lit' := by
  cases l with
  | nil => rfl
  | cons => simp [Fields.comma, hg]

mutual

/-- A text whose symbols are replaced one by one. -/
lemma Doc.flat_flatMap (hg : ∀ c, g (lit c) = [lit' c]) (d : Doc H) :
    (d.flat lit slot bare).flatMap g =
      d.flat lit' (fun ps => (slot ps).flatMap g) fun h => (bare h).flatMap g := by
  cases d with
  | null => exact flatMap_lit hg _
  | bool b => exact flatMap_lit hg _
  | num text valid => exact flatMap_lit hg _
  | str pieces => rfl
  | hole h => rfl
  | arr blank items =>
      simp only [Doc.flat, List.flatMap_cons, List.flatMap_append, List.flatMap_nil, hg,
        flatMap_lit hg, items.flat_flatMap hg, List.append_nil, List.singleton_append]
  | obj blank fields =>
      simp only [Doc.flat, List.flatMap_cons, List.flatMap_append, List.flatMap_nil, hg,
        flatMap_lit hg, fields.flat_flatMap hg, List.append_nil, List.singleton_append]

lemma Items.flat_flatMap (hg : ∀ c, g (lit c) = [lit' c]) (l : Items H) :
    (l.flat lit slot bare).flatMap g =
      l.flat lit' (fun ps => (slot ps).flatMap g) fun h => (bare h).flatMap g := by
  cases l with
  | nil => rfl
  | cons before v after rest =>
      simp only [Items.flat, List.flatMap_append, flatMap_lit hg, v.flat_flatMap hg,
        rest.flat_flatMap hg, rest.comma_flatMap hg]

lemma Fields.flat_flatMap (hg : ∀ c, g (lit c) = [lit' c]) (l : Fields H) :
    (l.flat lit slot bare).flatMap g =
      l.flat lit' (fun ps => (slot ps).flatMap g) fun h => (bare h).flatMap g := by
  cases l with
  | nil => rfl
  | cons before key afterKey beforeValue v after rest =>
      simp only [Fields.flat, List.flatMap_cons, List.flatMap_append, hg, flatMap_lit hg,
        v.flat_flatMap hg, rest.flat_flatMap hg, rest.comma_flatMap hg, List.singleton_append]

end

end

section

variable {lit : Char → β} {slot : List (StrPiece K) → List β} {bare : K → List β}
  {f : List (StrPiece H) → Doc K} {g : H → Doc K}

lemma Items.comma_fill (l : Items H) : (l.fill f g).comma lit = l.comma lit := by
  cases l <;> rfl

lemma Fields.comma_fill (l : Fields H) : (l.fill f g).comma lit = l.comma lit := by
  cases l <;> rfl

mutual

/-- The text of a filled document. -/
lemma Doc.flat_fill (d : Doc H) : (d.fill f g).flat lit slot bare =
    d.flat lit (fun ps => (f ps).flat lit slot bare) fun h => (g h).flat lit slot bare := by
  cases d with
  | null | bool | num | str | hole => rfl
  | arr blank items => simp only [Doc.fill, Doc.flat, items.flat_fill]
  | obj blank fields => simp only [Doc.fill, Doc.flat, fields.flat_fill]

lemma Items.flat_fill (l : Items H) : (l.fill f g).flat lit slot bare =
    l.flat lit (fun ps => (f ps).flat lit slot bare) fun h => (g h).flat lit slot bare := by
  cases l with
  | nil => rfl
  | cons before v after rest =>
      simp only [Items.fill, Items.flat, v.flat_fill, rest.flat_fill, rest.comma_fill]

lemma Fields.flat_fill (l : Fields H) : (l.fill f g).flat lit slot bare =
    l.flat lit (fun ps => (f ps).flat lit slot bare) fun h => (g h).flat lit slot bare := by
  cases l with
  | nil => rfl
  | cons before key afterKey beforeValue v after rest =>
      simp only [Fields.fill, Fields.flat, v.flat_fill, rest.flat_fill, rest.comma_fill]

end

end

section

variable {number : String → String} {slot : List (StrPiece K) → Json} {bare : K → Json}
  {f : List (StrPiece H) → Doc K} {g : H → Doc K}

mutual

/-- The value of a filled document. -/
lemma Doc.value_fill (d : Doc H) : (d.fill f g).value number slot bare =
    d.value number (fun ps => (f ps).value number slot bare)
      fun h => (g h).value number slot bare := by
  cases d with
  | null | bool | num | str | hole => rfl
  | arr blank items => simp only [Doc.fill, Doc.value, items.values_fill]
  | obj blank fields => simp only [Doc.fill, Doc.value, fields.values_fill]

lemma Items.values_fill (l : Items H) : (l.fill f g).values number slot bare =
    l.values number (fun ps => (f ps).value number slot bare)
      fun h => (g h).value number slot bare := by
  cases l with
  | nil => rfl
  | cons before v after rest =>
      simp only [Items.fill, Items.values, v.value_fill, rest.values_fill]

lemma Fields.values_fill (l : Fields H) : (l.fill f g).values number slot bare =
    l.values number (fun ps => (f ps).value number slot bare)
      fun h => (g h).value number slot bare := by
  cases l with
  | nil => rfl
  | cons before key afterKey beforeValue v after rest =>
      simp only [Fields.fill, Fields.values, v.value_fill, rest.values_fill]

end

end

end

/-! ## Texts -/

section

variable {H : Type} (inPlace : H → List Char)

/-- A part of a string, as it is written. -/
def StrPiece.text : StrPiece H → List Char
  | char s => s.text
  | hole h => inPlace h

/-- What a part of a string stands for. -/
def StrPiece.chars : StrPiece H → List Char
  | char s => [s.char]
  | hole h => inPlace h

/-- A string, as it is written. -/
def stringText (pieces : List (StrPiece H)) : List Char :=
  '"' :: pieces.flatMap (StrPiece.text inPlace) ++ ['"']

/-- The characters of a string. -/
def stringChars (pieces : List (StrPiece H)) : List Char :=
  pieces.flatMap (StrPiece.chars inPlace)

/-- What a string stands for. -/
def stringValue (pieces : List (StrPiece H)) : Json :=
  .str (String.ofList (stringChars inPlace pieces))

end

/-- A JSON text: a value without holes, between white space. -/
structure Document where
  before : Layout
  root : Doc Empty
  after : Layout

def Document.text (d : Document) : String :=
  String.ofList (d.before.1 ++ d.root.flat id (stringText Empty.elim) Empty.elim ++ d.after.1)

def Document.value (number : String → String) (d : Document) : Json :=
  d.root.value number (stringValue Empty.elim) Empty.elim

/-- The text is a serialisation of the value: the compact one, or another document of it. -/
def Serializes (number : String → String) (text : String) (v : Json) : Prop :=
  text = v.print ∨ ∃ d : Document, d.text = text ∧ d.value number = v

/-! ## Strings without escapes -/

namespace Json

mutual

/-- The strings of a value, with the names of its fields. -/
def strings : Json → List String
  | str s => [s]
  | arr items => itemStrings items
  | obj fields => fieldStrings fields
  | _ => []

def itemStrings : List Json → List String
  | [] => []
  | v :: vs => v.strings ++ itemStrings vs

def fieldStrings : List (String × Json) → List String
  | [] => []
  | (k, v) :: fields => k :: v.strings ++ fieldStrings fields

end

lemma mem_fieldStrings {fields : List (String × Json)} {s : String} :
    s ∈ fieldStrings fields ↔ ∃ e ∈ fields, s = e.1 ∨ s ∈ e.2.strings := by
  induction fields with
  | nil => simp [fieldStrings]
  | cons e fields ih =>
      obtain ⟨k, v⟩ := e
      simp only [fieldStrings, List.cons_append, List.mem_cons, List.mem_append, ih]
      simp [or_and_right, exists_or, or_assoc]

lemma mem_of_mem_extendFields {l : List (String × Json)} {e : String × Json} :
    ∀ {fields}, e ∈ extendFields fields l → e ∈ fields ∨ e ∈ l := by
  induction l with
  | nil => exact fun h => .inl h
  | cons e' l ih =>
      intro fields h
      rcases ih h with hmem | hmem
      · rcases OrderedMap.mem_insertEntry hmem with rfl | hmem
        · exact .inr List.mem_cons_self
        · exact .inl hmem
      · exact .inr (List.mem_cons_of_mem _ hmem)

end Json

/-- The string needs no escape. -/
def IsPlain (s : String) : Prop := ∀ c ∈ s.toList, isPlainChar c = true

lemma StrChar.plain_of_text {s : StrChar} (h : '\\' ∉ s.text) : isPlainChar s.char = true := by
  cases s with
  | plain c valid => exact valid
  | short letter valid => exact absurd List.mem_cons_self h
  | unicode digits valid => exact absurd List.mem_cons_self h

lemma keyName_plain {key : List StrChar} (h : '\\' ∉ keyText key) : IsPlain (keyName key) := by
  intro c hc
  rw [keyName, String.toList_ofList] at hc
  obtain ⟨s, hs, rfl⟩ := List.mem_map.mp hc
  refine StrChar.plain_of_text fun hback => h ?_
  simp only [keyText, List.cons_append, List.mem_cons, List.mem_append, List.mem_flatMap]
  exact .inr (.inl ⟨s, hs, hback⟩)

lemma stringValue_plain {pieces : List (StrPiece Empty)}
    (h : '\\' ∉ stringText Empty.elim pieces) :
    ∀ s ∈ (stringValue Empty.elim pieces).strings, IsPlain s := by
  intro s hs c hc
  rw [stringValue, Json.strings, List.mem_singleton] at hs
  subst hs
  rw [String.toList_ofList, stringChars] at hc
  obtain ⟨piece, hpiece, hc⟩ := List.mem_flatMap.mp hc
  cases piece with
  | hole h => exact h.elim
  | char s =>
      rw [StrPiece.chars, List.mem_singleton] at hc
      subst hc
      refine StrChar.plain_of_text fun hback => h ?_
      simp only [stringText, List.cons_append, List.mem_cons, List.mem_append, List.mem_flatMap]
      exact .inr (.inl ⟨.char s, hpiece, hback⟩)

section

variable {number : String → String}

mutual

/-- A document without a backslash stands for a value whose strings need no escape. -/
lemma Doc.strings_plain (d : Doc Empty) (h : '\\' ∉ d.flat id (stringText Empty.elim) Empty.elim) :
    ∀ s ∈ (d.value number (stringValue Empty.elim) Empty.elim).strings, IsPlain s := by
  cases d with
  | null | bool | num => exact fun s hs => (by cases hs)
  | hole e => exact e.elim
  | str pieces => exact stringValue_plain h
  | arr blank items =>
      refine items.strings_plain fun hback => h ?_
      simp only [Doc.flat, List.mem_cons, List.mem_append]
      exact .inr (.inl (.inr hback))
  | obj blank fields =>
      intro s hs
      obtain ⟨e, he, hs⟩ := Json.mem_fieldStrings.mp hs
      rcases Json.mem_of_mem_extendFields he with hmem | hmem
      · cases hmem
      · refine fields.strings_plain (fun hback => h ?_) s (Json.mem_fieldStrings.mpr ⟨e, hmem, hs⟩)
        simp only [Doc.flat, List.mem_cons, List.mem_append]
        exact .inr (.inl (.inr hback))

lemma Items.strings_plain (l : Items Empty) (h : '\\' ∉ l.flat id (stringText Empty.elim) Empty.elim) :
    ∀ s ∈ Json.itemStrings (l.values number (stringValue Empty.elim) Empty.elim), IsPlain s := by
  cases l with
  | nil => exact fun s hs => (by cases hs)
  | cons before v after rest =>
      simp only [Items.flat, List.mem_append, not_or] at h
      intro s hs
      rw [Items.values, Json.itemStrings, List.mem_append] at hs
      exact hs.elim (v.strings_plain h.1.1.1.2 s) (rest.strings_plain h.2 s)

lemma Fields.strings_plain (l : Fields Empty) (h : '\\' ∉ l.flat id (stringText Empty.elim) Empty.elim) :
    ∀ s ∈ Json.fieldStrings (l.values number (stringValue Empty.elim) Empty.elim), IsPlain s := by
  cases l with
  | nil => exact fun s hs => (by cases hs)
  | cons before key afterKey beforeValue v after rest =>
      simp only [Fields.flat, List.map_id, List.append_assoc, List.mem_append, List.cons_append,
        List.mem_cons, not_or] at h
      obtain ⟨-, hkey, -, -, -, hv, -, -, hrest⟩ := h
      intro s hs
      rw [Fields.values, Json.fieldStrings, List.cons_append, List.mem_cons, List.mem_append] at hs
      rcases hs with rfl | hs | hs
      · exact keyName_plain hkey
      · exact v.strings_plain hv s hs
      · exact rest.strings_plain hrest s hs

end

end

lemma plain_of_escapeChar {c : Char} (h : '\\' ∉ Json.escapeChar c) : isPlainChar c = true := by
  unfold Json.escapeChar at h
  unfold isPlainChar
  split_ifs at h <;> simp_all

lemma plain_of_printString {s : String} (h : '\\' ∉ (Json.printString s).toList) : IsPlain s := by
  intro c hc
  refine plain_of_escapeChar fun hback => h ?_
  simp only [Json.printString, String.toList_append, String.toList_ofList, List.mem_append,
    List.mem_flatMap]
  exact .inl (.inr ⟨c, hc, hback⟩)

lemma mem_join {c : Char} {sep part : String} {parts : List String} (hpart : part ∈ parts)
    (hc : c ∈ part.toList) : c ∈ (Text.join sep parts).toList := by
  obtain ⟨l, l', rfl⟩ := List.mem_iff_append.mp hpart
  obtain ⟨before, after, hjoin⟩ := Text.exists_join sep l l'
  rw [hjoin]
  simp [hc]

mutual

/-- A value that is printed without a backslash has only strings that need no escape. -/
lemma Json.strings_plain (v : Json) (h : '\\' ∉ v.print.toList) : ∀ s ∈ v.strings, IsPlain s := by
  cases v with
  | null | bool | num => exact fun s hs => (by cases hs)
  | str s =>
      intro s' hs
      rw [Json.strings, List.mem_singleton] at hs
      subst hs
      exact plain_of_printString h
  | arr items =>
      refine Json.itemStrings_plain items fun part hpart hback => h ?_
      simp only [Json.print, String.toList_append, List.mem_append]
      exact .inl (.inr (mem_join hpart hback))
  | obj fields =>
      refine Json.fieldStrings_plain fields fun part hpart hback => h ?_
      simp only [Json.print, String.toList_append, List.mem_append]
      exact .inl (.inr (mem_join hpart hback))

lemma Json.itemStrings_plain (l : List Json) (h : ∀ part ∈ Json.printItems l, '\\' ∉ part.toList) :
    ∀ s ∈ Json.itemStrings l, IsPlain s := by
  cases l with
  | nil => exact fun s hs => (by cases hs)
  | cons v vs =>
      rw [Json.printItems, List.forall_mem_cons] at h
      intro s hs
      rw [Json.itemStrings, List.mem_append] at hs
      exact hs.elim (Json.strings_plain v h.1 s) (Json.itemStrings_plain vs h.2 s)

lemma Json.fieldStrings_plain (l : List (String × Json))
    (h : ∀ part ∈ Json.printFields l, '\\' ∉ part.toList) :
    ∀ s ∈ Json.fieldStrings l, IsPlain s := by
  cases l with
  | nil => exact fun s hs => (by cases hs)
  | cons e fields =>
      obtain ⟨k, v⟩ := e
      rw [Json.printFields, List.forall_mem_cons] at h
      simp only [String.toList_append, List.mem_append, not_or] at h
      intro s hs
      rw [Json.fieldStrings, List.cons_append, List.mem_cons, List.mem_append] at hs
      rcases hs with rfl | hs | hs
      · exact plain_of_printString h.1.1.1
      · exact Json.strings_plain v h.1.2 s hs
      · exact Json.fieldStrings_plain fields h.2 s hs

end

/-- No text without a backslash serialises a value that has a string which needs an escape. -/
lemma plain_of_serializes {number : String → String} {text : String} {v : Json}
    (h : Serializes number text v) (hback : '\\' ∉ text.toList) : ∀ s ∈ v.strings, IsPlain s := by
  rcases h with rfl | ⟨d, rfl, rfl⟩
  · exact v.strings_plain hback
  · refine d.root.strings_plain fun hmem => hback ?_
    rw [Document.text, String.toList_ofList, List.mem_append, List.mem_append]
    exact .inl (.inr hmem)

end Http
end Pawrly
