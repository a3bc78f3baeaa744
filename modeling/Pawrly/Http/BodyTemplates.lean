import Pawrly.Http.JsonTokens
import Pawrly.Http.Fetch

/-!
# JSON body templates

What the rendering of a JSON body is for: the document of the template with the values of the
parameters in its strings and in place of its values, and without the members and elements that are
the placeholder of an unbound parameter (`BodyTemplate.expected`).  The code works on the text.  Its
result is a text of that value when the values bring nothing into the text that means something
there, and when no unbound placeholder stands inside a longer string next to one that is to be
removed (`Renders`).
-/

namespace Pawrly
namespace Http

open Templates

/-! ## Templates -/

/-- A JSON body template: a document whose holes are the placeholders of parameters. -/
structure BodyTemplate where
  before : Layout
  root : Doc String
  after : Layout

def placeholderText (name : String) : List Char := (placeholder name).toList

def BodyTemplate.text (t : BodyTemplate) : String :=
  String.ofList (t.before.1 ++ t.root.flat id (stringText placeholderText) placeholderText ++
    t.after.1)

/-- The placeholders are those of the names. -/
structure BodyTemplate.Over (t : BodyTemplate) (names : List String) : Prop where
  slots : ∀ ps ∈ t.root.slots, ∀ n, .hole n ∈ ps → n ∈ names
  bares : ∀ n ∈ t.root.bares, n ∈ names

/-! ## The value -/

/-- Members in the order of their names; a later one of a name replaces an earlier one. -/
def members {α : Type} (l : List (String × α)) : List (String × α) :=
  l.foldl (fun fields e => OrderedMap.insertEntry e.1 e.2 fields) []

/-- The members that are left, unless there were some and all are removed. -/
def keptMembers (l : List (String × Option Json)) : Option Json :=
  let kept := l.filterMap fun e => e.2.map fun v => (e.1, v)
  if !l.isEmpty && kept.isEmpty then none else some (.obj kept)

section

variable {H : Type} (number : String → String) (slot : List (StrPiece H) → Option Json)
  (bare : H → Option Json)

mutual

/-- What the document stands for without its removed parts: `slot` and `bare` give the values of its
strings and holes that stay. -/
def Doc.pruned : Doc H → Option Json
  | .null => some .null
  | .bool b => some (.bool b)
  | .num text _ => some (.num (number (String.ofList text)))
  | .str pieces => slot pieces
  | .hole h => bare h
  | .arr _ items => some (.arr (items.pruned.filterMap id))
  | .obj _ fields => keptMembers (members fields.pruned)

def Items.pruned : Items H → List (Option Json)
  | .nil => []
  | .cons _ v _ rest => v.pruned :: rest.pruned

def Fields.pruned : Fields H → List (String × Option Json)
  | .nil => []
  | .cons _ key _ _ v _ rest => (keyName key, v.pruned) :: rest.pruned

end

end

/-- The scalar that a text is: a literal or a number. -/
def scalarDoc (v : String) : Option (Doc Empty) :=
  if v = "null" then some .null
  else if v = "true" then some (.bool true)
  else if v = "false" then some (.bool false)
  else if h : isNumber v.toList = true then some (.num v.toList h)
  else none

section

variable (number : String → String) (bound : Params)

/-- What stands in a string for a parameter: its value, or the placeholder while it is unbound. -/
def inPlace (name : String) : List Char := ((bound.get? name).getD (placeholder name)).toList

/-- The parameter whose placeholder the string is, if it is unbound. -/
def unboundSlot : List (StrPiece String) → Option String
  | [.hole name] => if bound.contains name then none else some name
  | _ => none

def expectedSlot (ps : List (StrPiece String)) : Option Json :=
  match unboundSlot bound ps with
  | some _ => none
  | none => some (stringValue (inPlace bound) ps)

/-- A value in place of a JSON value is the scalar that it is the text of, or a string. -/
def bareValue (v : String) : Json :=
  match scalarDoc v with
  | some d => d.value number (stringValue Empty.elim) Empty.elim
  | none => .str v

def expectedBare (name : String) : Option Json := (bound.get? name).map (bareValue number)

/-- The value that the template stands for with the parameters bound. -/
def BodyTemplate.expected (t : BodyTemplate) : Json :=
  (t.root.pruned number (expectedSlot bound) (expectedBare number bound)).getD (.obj [])

end

/-! ## The runs -/

/-- A placeholder that is searched for, with the quotes around it or without them. -/
abbrev Mark := Bool × String

def needle : Mark → List Char
  | (true, name) => '"' :: placeholderText name ++ ['"']
  | (false, name) => placeholderText name

/-- The mark of an unbound parameter, in quotes. -/
def sentinelText : List Char := '"' :: unboundSentinel.toList ++ ['"']

section

variable (bound : Params)

/-- What a placeholder is replaced by. -/
def filler : Mark → List Char
  | (true, _) => sentinelText
  | (false, name) => ((bound.get? name).map String.toList).getD sentinelText

def boundMarks : List Mark := bound.entries.map fun e => (false, e.1)

/-- The declared parameters that are not bound. -/
def unboundNames (declared : List ParamSpec) : List String :=
  (declared.filter fun p => !bound.contains p.name).map ParamSpec.name

def unboundMarks (names : List String) : List Mark :=
  names.flatMap fun name => [(true, name), (false, name)]

/-- A part of a string, as symbols and marks. -/
def partPieces : StrPiece String → List (Piece Char Mark)
  | .char s => s.text.map .char
  | .hole name => [.hole (false, name)]

/-- A string, as symbols and marks. -/
def slotPieces (ps : List (StrPiece String)) : List (Piece Char Mark) :=
  match unboundSlot bound ps with
  | some name => [.hole (true, name)]
  | none => .char '"' :: ps.flatMap partPieces ++ [.char '"']

def BodyTemplate.pieces (t : BodyTemplate) : List (Piece Char Mark) :=
  t.before.1.map .char ++
    t.root.flat .char (slotPieces bound) (fun name => [.hole (false, name)]) ++
      t.after.1.map .char

end

/-! ## When the text stands for the value -/

section

variable (bound : Params)

def unboundPart : StrPiece String → Bool
  | .hole name => !bound.contains name
  | .char _ => false

/-- An unbound placeholder inside a longer string. -/
def embeds (ps : List (StrPiece String)) : Bool :=
  (unboundSlot bound ps).isNone && ps.any (unboundPart bound)

/-- Something is to be removed. -/
def BodyTemplate.Removes (t : BodyTemplate) : Prop :=
  (∃ ps ∈ t.root.slots, (unboundSlot bound ps).isSome = true) ∨
    ∃ name ∈ t.root.bares, bound.contains name = false

/-- Every replacement of the runs finds the placeholders of the template only. -/
def BodyTemplate.Found (t : BodyTemplate) (declared : List ParamSpec) : Prop :=
  ∀ as k bs, boundMarks bound ++ unboundMarks (unboundNames bound declared) = as ++ k :: bs →
    Genuine needle (filler bound) as k (t.pieces bound)

/-- The rendering of the text does what it does to the value: every replacement finds the
placeholders of the template only, what it puts into a string needs no escape there and is a scalar
elsewhere, and when a declared parameter is unbound, either nothing is to be removed and the marked
text is no JSON, or it is JSON with no string that happens to be the mark. -/
structure BodyTemplate.Renders (t : BodyTemplate) (declared : List ParamSpec) : Prop where
  found : t.Found bound declared
  plain : ∀ ps ∈ t.root.slots, unboundSlot bound ps = none → ∀ name, .hole name ∈ ps →
    ∀ c ∈ inPlace bound name, isPlainChar c = true
  scalar : ∀ name ∈ t.root.bares, ∀ v, bound.get? name = some v → (scalarDoc v).isSome = true
  removed : unboundNames bound declared ≠ [] →
    ((∃ ps ∈ t.root.slots, embeds bound ps = true) ∧ ¬ t.Removes bound) ∨
      (∀ ps ∈ t.root.slots, embeds bound ps = false) ∧
        ∀ ps ∈ t.root.slots, unboundSlot bound ps = none →
          stringChars (inPlace bound) ps ≠ unboundSentinel.toList

end

/-! ## The document with the values in it -/

/-- A character that needs no escape. -/
def plainChar (c : Char) : StrChar :=
  if h : isPlainChar c = true then .plain c h else .plain ' ' rfl

def plainPieces (cs : List Char) : List (StrPiece Empty) := cs.map fun c => .char (plainChar c)

section

variable (bound : Params)

def filledPart : StrPiece String → List (StrPiece Empty)
  | .char s => [.char s]
  | .hole name => plainPieces (inPlace bound name)

def filledSlot (ps : List (StrPiece String)) : Doc Empty :=
  match unboundSlot bound ps with
  | some _ => .str (plainPieces unboundSentinel.toList)
  | none => .str (ps.flatMap (filledPart bound))

def filledBare (name : String) : Doc Empty :=
  match bound.get? name with
  | some v => (scalarDoc v).getD (.str (plainPieces v.toList))
  | none => .str (plainPieces unboundSentinel.toList)

/-- The document with the values in it, and the mark where a parameter is unbound. -/
def BodyTemplate.filled (t : BodyTemplate) : Document :=
  ⟨t.before, t.root.fill (filledSlot bound) (filledBare bound), t.after⟩

end

/-! ## The texts of the runs -/

section

variable {bound : Params}

lemma fill_chars (filled : List Mark) (cs : List Char) :
    fill needle (filler bound) filled (cs.map .char) = cs := by
  induction cs with
  | nil => rfl
  | cons c cs ih => rw [List.map_cons, fill_cons, ih]; rfl

/-- The text of the template with some marks filled. -/
lemma BodyTemplate.fill_pieces (t : BodyTemplate) (filled : List Mark) :
    fill needle (filler bound) filled (t.pieces bound) =
      t.before.1 ++ t.root.flat id (fun ps => fill needle (filler bound) filled (slotPieces bound ps))
        (fun name => fill needle (filler bound) filled [.hole (false, name)]) ++ t.after.1 := by
  have hchar : ∀ c : Char, (Piece.char c).text needle (filler bound) filled = [id c] := fun c => rfl
  rw [pieces, fill_append, fill_append, fill_chars, fill_chars, fill, t.root.flat_flatMap hchar]
  rfl

lemma fill_hole (filled : List Mark) (name : String) :
    fill needle (filler bound) filled [.hole (false, name)] =
      if (false, name) ∈ filled then filler bound (false, name) else placeholderText name := by
  simp [fill, Piece.text, needle]

/-- A string with some marks filled. -/
lemma fill_string {filled : List Mark} {ps : List (StrPiece String)} {f : String → List Char}
    (h : ∀ name, .hole name ∈ ps →
      fill needle (filler bound) filled [.hole (false, name)] = f name) :
    fill needle (filler bound) filled (.char '"' :: ps.flatMap partPieces ++ [.char '"']) =
      stringText f ps := by
  have hparts : fill needle (filler bound) filled (ps.flatMap partPieces) =
      ps.flatMap (StrPiece.text f) := by
    rw [fill, List.flatMap_assoc]
    refine List.flatMap_congr fun piece hpiece => ?_
    cases piece with
    | char s => exact fill_chars filled s.text
    | hole name => exact h name hpiece
  rw [fill_append, fill_cons, hparts]
  rfl

lemma unboundSlot_eq_some {ps : List (StrPiece String)} {name : String}
    (h : unboundSlot bound ps = some name) :
    ps = [.hole name] ∧ bound.contains name = false := by
  unfold unboundSlot at h
  split at h
  · split_ifs at h with hbound
    obtain rfl := Option.some.inj h
    exact ⟨rfl, by simpa using hbound⟩
  · cases h

lemma get?_of_not_contains {name : String} (h : bound.contains name = false) :
    bound.get? name = none := by
  simpa [OrderedMap.contains] using h

lemma mem_boundMarks {name : String} :
    (false, name) ∈ boundMarks bound ↔ bound.contains name = true := by
  rw [boundMarks, OrderedMap.contains_iff, List.mem_map]
  constructor
  · rintro ⟨e, he, hname⟩
    obtain rfl : e.1 = name := (Prod.mk.inj hname).2
    exact ⟨e.2, OrderedMap.mem_entries.mp he⟩
  · rintro ⟨v, hv⟩
    exact ⟨(name, v), OrderedMap.mem_entries.mpr hv, rfl⟩

lemma quoted_notMem_boundMarks {name : String} : (true, name) ∉ boundMarks bound := by
  simp [boundMarks]

lemma mem_unboundMarks {mark : Mark} {names : List String} :
    mark ∈ unboundMarks names ↔ mark.2 ∈ names := by
  obtain ⟨quoted, name⟩ := mark
  cases quoted <;> simp [unboundMarks]

lemma mem_unboundNames {declared : List ParamSpec} {name : String} :
    name ∈ unboundNames bound declared ↔
      name ∈ declared.map ParamSpec.name ∧ bound.contains name = false := by
  simp only [unboundNames, List.mem_map, List.mem_filter, Bool.not_eq_true']
  constructor
  · rintro ⟨p, ⟨hp, hbound⟩, rfl⟩
    exact ⟨⟨p, hp, rfl⟩, hbound⟩
  · rintro ⟨⟨p, hp, rfl⟩, hbound⟩
    exact ⟨p, ⟨hp, hbound⟩, rfl⟩

/-- A placeholder without its mark filled is the text it stands for, and with it the value. -/
lemma fill_bound_hole (name : String) :
    fill needle (filler bound) (boundMarks bound) [.hole (false, name)] = inPlace bound name := by
  rw [fill_hole, inPlace]
  by_cases h : bound.contains name = true
  · obtain ⟨v, hv⟩ := OrderedMap.contains_iff.mp h
    rw [if_pos (mem_boundMarks.mpr h), filler, hv]
    rfl
  · rw [if_neg fun hmem => h (mem_boundMarks.mp hmem),
      get?_of_not_contains (Bool.eq_false_iff.mpr h)]
    rfl

/-- A string with the values in it. -/
lemma fill_bound_slot (ps : List (StrPiece String)) :
    fill needle (filler bound) (boundMarks bound) (slotPieces bound ps) =
      stringText (inPlace bound) ps := by
  unfold slotPieces
  split
  · rename_i name hslot
    obtain ⟨rfl, hbound⟩ := unboundSlot_eq_some hslot
    have htext : inPlace bound name = placeholderText name := by
      rw [inPlace, get?_of_not_contains hbound]
      rfl
    simp [fill, Piece.text, quoted_notMem_boundMarks, needle, stringText, StrPiece.text, htext]
  · exact fill_string fun name _ => fill_bound_hole name

/-- A placeholder with all marks filled. -/
lemma fill_all_hole {declared : List ParamSpec} {name : String}
    (hname : name ∈ declared.map ParamSpec.name) :
    fill needle (filler bound) (boundMarks bound ++ unboundMarks (unboundNames bound declared))
      [.hole (false, name)] = filler bound (false, name) := by
  rw [fill_hole, if_pos]
  by_cases h : bound.contains name = true
  · exact List.mem_append_left _ (mem_boundMarks.mpr h)
  · exact List.mem_append_right _
      (mem_unboundMarks.mpr (mem_unboundNames.mpr ⟨hname, Bool.eq_false_iff.mpr h⟩))

/-- A string with the values and marks in it. -/
def markedSlot (bound : Params) (ps : List (StrPiece String)) : List Char :=
  match unboundSlot bound ps with
  | some _ => sentinelText
  | none => stringText (fun name => filler bound (false, name)) ps

lemma fill_all_slot {declared : List ParamSpec} {ps : List (StrPiece String)}
    (hps : ∀ name, .hole name ∈ ps → name ∈ declared.map ParamSpec.name) :
    fill needle (filler bound) (boundMarks bound ++ unboundMarks (unboundNames bound declared))
      (slotPieces bound ps) = markedSlot bound ps := by
  unfold slotPieces markedSlot
  split
  · rename_i name hslot
    obtain ⟨rfl, hbound⟩ := unboundSlot_eq_some hslot
    have hmem : (true, name) ∈ boundMarks bound ++ unboundMarks (unboundNames bound declared) :=
      List.mem_append_right _ (mem_unboundMarks.mpr
        (mem_unboundNames.mpr ⟨hps name List.mem_cons_self, hbound⟩))
    rw [fill, List.flatMap_cons, Piece.text, if_pos hmem]
    exact List.append_nil _
  · exact fill_string fun name hname => fill_all_hole (hps name hname)

lemma needle_ne_nil (mark : Mark) : needle mark ≠ [] := by
  obtain ⟨_ | _, name⟩ := mark <;> simp [needle, placeholderText, placeholder]

/-- Whether the replacements find the placeholders of the template only is decided mark by mark. -/
lemma BodyTemplate.found_of_holesAt (t : BodyTemplate) {declared : List ParamSpec}
    (h : let marks := boundMarks bound ++ unboundMarks (unboundNames bound declared)
      (List.range marks.length).all (fun i => (marks.drop i).head?.all fun k =>
        holesAt needle (filler bound) (marks.take i) k (t.pieces bound)) = true) :
    t.Found bound declared := by
  intro as k bs hmarks
  dsimp only at h
  rw [hmarks, List.all_eq_true] at h
  have hat := h as.length (List.mem_range.mpr (by simp))
  rw [List.drop_left, List.take_left, List.head?_cons, Option.all_some] at hat
  exact genuine_of_holesAt (needle_ne_nil k) hat

/-! ## The runs fill the marks -/

lemma toList_renderTemplate (template : String) :
    (renderTemplate template bound).toList =
      replaceKeys needle (filler bound) (boundMarks bound) template.toList := by
  have hrun : ∀ (l : List (String × String)) (s : String), (∀ e ∈ l, e ∈ bound.entries) →
      (l.foldl (fun out e => Text.replace (placeholder e.1) e.2 out) s).toList =
        replaceKeys needle (filler bound) (l.map fun e => (false, e.1)) s.toList := by
    intro l
    induction l with
    | nil => exact fun s _ => rfl
    | cons e l ih =>
        intro s hl
        have hvalue : filler bound (false, e.1) = e.2.toList := by
          rw [filler, OrderedMap.mem_entries.mp (hl e List.mem_cons_self)]
          rfl
        rw [List.foldl_cons, ih _ fun e' he' => hl e' (List.mem_cons_of_mem e he'),
          Text.toList_replace, ← hvalue]
        rfl
  exact hrun bound.entries template fun e he => he

/-- The text in which the placeholders of the names are marked. -/
def markUnbound (names : List String) (s : String) : String :=
  let sentinel := "\"" ++ unboundSentinel ++ "\""
  names.foldl (fun out name => Text.replace (placeholder name) sentinel
    (Text.replace ("\"" ++ placeholder name ++ "\"") sentinel out)) s

lemma toList_sentinel : ("\"" ++ unboundSentinel ++ "\"").toList = sentinelText := by
  simp [sentinelText]

lemma toList_markUnbound {names : List String} (hnames : ∀ n ∈ names, bound.contains n = false)
    (s : String) :
    (markUnbound names s).toList =
      replaceKeys needle (filler bound) (unboundMarks names) s.toList := by
  unfold markUnbound
  induction names generalizing s with
  | nil => rfl
  | cons name names ih =>
      have hbare : filler bound (false, name) = sentinelText := by
        rw [filler, get?_of_not_contains (hnames name List.mem_cons_self)]
        rfl
      have hquoted : ("\"" ++ placeholder name ++ "\"").toList = needle (true, name) := by
        simp [needle, placeholderText]
      rw [List.foldl_cons, ih fun n hn => hnames n (List.mem_cons_of_mem name hn),
        Text.toList_replace, Text.toList_replace, hquoted, toList_sentinel]
      show _ = replaceKeys needle (filler bound) (unboundMarks names)
        (replaceScan (needle (false, name)) (filler bound (false, name)) 0 _)
      rw [hbare]
      rfl

lemma marks_nodup {declared : List ParamSpec} (hset : (declared.map ParamSpec.name).Nodup) :
    (boundMarks bound ++ unboundMarks (unboundNames bound declared)).Nodup := by
  have hbound : (boundMarks bound).Nodup := by
    have hkeys := bound.entries_nodup.map (f := fun name => ((false, name) : Mark))
      fun a b h => (Prod.mk.inj h).2
    rwa [List.map_map] at hkeys
  have hnames : (unboundNames bound declared).Nodup :=
    hset.sublist (List.filter_sublist.map ParamSpec.name)
  have hunbound : (unboundMarks (unboundNames bound declared)).Nodup := by
    refine List.nodup_flatMap.mpr ⟨fun name _ => by simp, hnames.imp ?_⟩
    intro a b hab
    simp [hab.symm]
  refine List.nodup_append.mpr ⟨hbound, hunbound, ?_⟩
  rintro mark hmark _ hmark' rfl
  obtain ⟨quoted, name⟩ := mark
  have hname := (mem_unboundNames.mp (mem_unboundMarks.mp hmark')).2
  cases quoted with
  | true => exact quoted_notMem_boundMarks hmark
  | false =>
      rw [mem_boundMarks, hname] at hmark
      cases hmark

section

variable {t : BodyTemplate} {declared : List ParamSpec}

lemma BodyTemplate.toList_text (t : BodyTemplate) :
    t.text.toList = fill needle (filler bound) [] (t.pieces bound) := by
  have hhole : ∀ name, fill needle (filler bound) [] [.hole (false, name)] =
      placeholderText name := fun name => by
    rw [fill_hole, if_neg List.not_mem_nil]
  have hslot : ∀ ps, fill needle (filler bound) [] (slotPieces bound ps) =
      stringText placeholderText ps := by
    intro ps
    unfold slotPieces
    split
    · rename_i name hslot
      obtain ⟨rfl, -⟩ := unboundSlot_eq_some hslot
      simp [fill, Piece.text, needle, stringText, StrPiece.text]
    · exact fill_string fun name _ => hhole name
  rw [t.fill_pieces, text, String.toList_ofList]
  simp only [hhole, hslot]

/-- The first run puts the values in. -/
lemma BodyTemplate.Found.toList_rendered (hset : (declared.map ParamSpec.name).Nodup)
    (h : t.Found bound declared) :
    (renderTemplate t.text bound).toList =
      t.before.1 ++ t.root.flat id (stringText (inPlace bound)) (inPlace bound) ++ t.after.1 := by
  rw [toList_renderTemplate, t.toList_text, replaceKeys_all needle_ne_nil
    (List.nodup_append.mp (marks_nodup hset)).1, t.fill_pieces]
  · simp only [fill_bound_slot, fill_bound_hole]
  · exact fun as k bs hbs => h as k (bs ++ unboundMarks (unboundNames bound declared)) (by
      rw [hbs, List.append_assoc]
      rfl)

/-- The second run puts the marks in. -/
lemma BodyTemplate.Found.toList_marked (hset : (declared.map ParamSpec.name).Nodup)
    (hover : t.Over (declared.map ParamSpec.name)) (h : t.Found bound declared) :
    (markUnbound (unboundNames bound declared) (renderTemplate t.text bound)).toList =
      t.before.1 ++ t.root.flat id (markedSlot bound) (fun name => filler bound (false, name)) ++
        t.after.1 := by
  have hruns := replaceKeys_all needle_ne_nil (marks_nodup hset) h
  rw [← t.toList_text, replaceKeys, List.foldl_append] at hruns
  rw [toList_markUnbound fun n hn => (mem_unboundNames.mp hn).2, toList_renderTemplate]
  show replaceKeys needle (filler bound) _ (replaceKeys needle (filler bound) _ _) = _
  rw [replaceKeys, replaceKeys, hruns, t.fill_pieces]
  rw [t.root.flat_congr (fun ps hps => fill_all_slot (hover.slots ps hps))
    fun name hname => fill_all_hole (hover.bares name hname)]

end

end

/-! ## Pruning a value -/

lemma insertEntry_map {α β : Type} (f : α → β) (k : String) (v : α) (l : List (String × α)) :
    OrderedMap.insertEntry k (f v) (l.map fun e => (e.1, f e.2)) =
      (OrderedMap.insertEntry k v l).map fun e => (e.1, f e.2) := by
  induction l with
  | nil => rfl
  | cons e l ih =>
      simp only [List.map_cons, OrderedMap.insertEntry]
      split_ifs
      · rfl
      · rfl
      · rw [List.map_cons, ih]

lemma members_map {α β : Type} (f : α → β) (l : List (String × α)) :
    members (l.map fun e => (e.1, f e.2)) = (members l).map fun e => (e.1, f e.2) := by
  have hfold : ∀ (l fields : List (String × α)),
      (l.map fun e => (e.1, f e.2)).foldl (fun fields e => OrderedMap.insertEntry e.1 e.2 fields)
          (fields.map fun e => (e.1, f e.2)) =
        (l.foldl (fun fields e => OrderedMap.insertEntry e.1 e.2 fields) fields).map
          fun e => (e.1, f e.2) := by
    intro l
    induction l with
    | nil => exact fun fields => rfl
    | cons e l ih =>
        intro fields
        rw [List.map_cons, List.foldl_cons]
        dsimp only
        rw [insertEntry_map, ih]
        rfl
  exact hfold l []

lemma pruneItems_eq (l : List Json) : pruneItems l = l.filterMap pruneUnboundFilters := by
  induction l with
  | nil => rfl
  | cons v l ih =>
      rw [pruneItems, List.filterMap_cons]
      cases pruneUnboundFilters v with
      | none => exact ih
      | some v' => rw [← ih]

lemma pruneFields_eq (l : List (String × Json)) :
    pruneFields l = l.filterMap fun e => (pruneUnboundFilters e.2).map fun v => (e.1, v) := by
  induction l with
  | nil => rfl
  | cons e l ih =>
      obtain ⟨k, v⟩ := e
      rw [pruneFields, List.filterMap_cons]
      cases pruneUnboundFilters v with
      | none => exact ih
      | some v' => rw [← ih]; rfl

/-- What is left of an object are the members that are kept. -/
lemma prune_obj (l : List (String × Json)) :
    pruneUnboundFilters (.obj l) = keptMembers (l.map fun e => (e.1, pruneUnboundFilters e.2)) := by
  rw [pruneUnboundFilters, keptMembers, pruneFields_eq, List.filterMap_map, List.isEmpty_map]
  rfl

/-- Nothing is removed from an object whose members all stay. -/
lemma keptMembers_some (l : List (String × Json)) :
    keptMembers (l.map fun e => (e.1, some e.2)) = some (.obj l) := by
  have hkept : (l.map fun e => (e.1, some e.2)).filterMap
      (fun e => e.2.map fun v => (e.1, v)) = l := by
    rw [List.filterMap_map]
    exact List.filterMap_some
  rw [keptMembers, hkept, List.isEmpty_map]
  cases l <;> rfl

section

variable {H : Type} {number : String → String} {slot : List (StrPiece H) → Json} {bare : H → Json}
  {slot' : List (StrPiece H) → Option Json} {bare' : H → Option Json}

mutual

/-- Pruning the value of a document. -/
lemma Doc.prune_value (d : Doc H) (hslot : ∀ ps ∈ d.slots, pruneUnboundFilters (slot ps) = slot' ps)
    (hbare : ∀ h ∈ d.bares, pruneUnboundFilters (bare h) = bare' h) :
    pruneUnboundFilters (d.value number slot bare) = d.pruned number slot' bare' := by
  cases d with
  | null | bool | num => rfl
  | str pieces => exact hslot pieces List.mem_cons_self
  | hole h => exact hbare h List.mem_cons_self
  | arr blank items =>
      show some (Json.arr (pruneItems (items.values number slot bare))) = _
      rw [pruneItems_eq, Doc.pruned, ← items.prune_values hslot hbare, List.filterMap_map]
      rfl
  | obj blank fields =>
      show pruneUnboundFilters (.obj (members (fields.values number slot bare))) = _
      rw [prune_obj, ← members_map, fields.prune_values hslot hbare]
      rfl

lemma Items.prune_values (l : Items H)
    (hslot : ∀ ps ∈ l.slots, pruneUnboundFilters (slot ps) = slot' ps)
    (hbare : ∀ h ∈ l.bares, pruneUnboundFilters (bare h) = bare' h) :
    (l.values number slot bare).map pruneUnboundFilters = l.pruned number slot' bare' := by
  cases l with
  | nil => rfl
  | cons before v after rest =>
      simp only [Items.slots, Items.bares, List.forall_mem_append] at hslot hbare
      rw [Items.values, Items.pruned, List.map_cons, v.prune_value hslot.1 hbare.1,
        rest.prune_values hslot.2 hbare.2]

lemma Fields.prune_values (l : Fields H)
    (hslot : ∀ ps ∈ l.slots, pruneUnboundFilters (slot ps) = slot' ps)
    (hbare : ∀ h ∈ l.bares, pruneUnboundFilters (bare h) = bare' h) :
    (l.values number slot bare).map (fun e => (e.1, pruneUnboundFilters e.2)) =
      l.pruned number slot' bare' := by
  cases l with
  | nil => rfl
  | cons before key afterKey beforeValue v after rest =>
      simp only [Fields.slots, Fields.bares, List.forall_mem_append] at hslot hbare
      rw [Fields.values, Fields.pruned, List.map_cons, v.prune_value hslot.1 hbare.1,
        rest.prune_values hslot.2 hbare.2]

end

mutual

/-- A document of which nothing is removed. -/
lemma Doc.pruned_of_some (d : Doc H) (hslot : ∀ ps ∈ d.slots, slot' ps = some (slot ps))
    (hbare : ∀ h ∈ d.bares, bare' h = some (bare h)) :
    d.pruned number slot' bare' = some (d.value number slot bare) := by
  cases d with
  | null | bool | num => rfl
  | str pieces => exact hslot pieces List.mem_cons_self
  | hole h => exact hbare h List.mem_cons_self
  | arr blank items =>
      rw [Doc.pruned, items.pruned_of_some hslot hbare, List.filterMap_map]
      show some (Json.arr ((items.values number slot bare).filterMap some)) = _
      rw [List.filterMap_some]
      rfl
  | obj blank fields =>
      rw [Doc.pruned, fields.pruned_of_some hslot hbare, members_map some, keptMembers_some]
      rfl

lemma Items.pruned_of_some (l : Items H) (hslot : ∀ ps ∈ l.slots, slot' ps = some (slot ps))
    (hbare : ∀ h ∈ l.bares, bare' h = some (bare h)) :
    l.pruned number slot' bare' = (l.values number slot bare).map some := by
  cases l with
  | nil => rfl
  | cons before v after rest =>
      simp only [Items.slots, Items.bares, List.forall_mem_append] at hslot hbare
      rw [Items.pruned, Items.values, List.map_cons, v.pruned_of_some hslot.1 hbare.1,
        rest.pruned_of_some hslot.2 hbare.2]

lemma Fields.pruned_of_some (l : Fields H) (hslot : ∀ ps ∈ l.slots, slot' ps = some (slot ps))
    (hbare : ∀ h ∈ l.bares, bare' h = some (bare h)) :
    l.pruned number slot' bare' = (l.values number slot bare).map fun e => (e.1, some e.2) := by
  cases l with
  | nil => rfl
  | cons before key afterKey beforeValue v after rest =>
      simp only [Fields.slots, Fields.bares, List.forall_mem_append] at hslot hbare
      rw [Fields.pruned, Fields.values, List.map_cons, v.pruned_of_some hslot.1 hbare.1,
        rest.pruned_of_some hslot.2 hbare.2]

end

end

/-! ## The filled document -/

lemma plainPieces_text {cs : List Char} (h : ∀ c ∈ cs, isPlainChar c = true) :
    (plainPieces cs).flatMap (StrPiece.text Empty.elim) = cs := by
  rw [plainPieces, List.flatMap_map]
  have hchar : ∀ c ∈ cs, (StrPiece.char (plainChar c)).text Empty.elim = [c] := by
    intro c hc
    rw [StrPiece.text, plainChar, dif_pos (h c hc)]
    rfl
  rw [List.flatMap_congr hchar, List.flatMap_singleton']

lemma plainPieces_chars {cs : List Char} (h : ∀ c ∈ cs, isPlainChar c = true) :
    (plainPieces cs).flatMap (StrPiece.chars Empty.elim) = cs := by
  rw [plainPieces, List.flatMap_map]
  have hchar : ∀ c ∈ cs, (StrPiece.char (plainChar c)).chars Empty.elim = [c] := by
    intro c hc
    rw [StrPiece.chars, plainChar, dif_pos (h c hc)]
    rfl
  rw [List.flatMap_congr hchar, List.flatMap_singleton']

lemma unboundSentinel_plain : ∀ c ∈ unboundSentinel.toList, isPlainChar c = true :=
  List.all_eq_true.mp (by decide)

section

variable {bound : Params} {number : String → String}

lemma filledSlot_text {ps : List (StrPiece String)} (hslot : unboundSlot bound ps = none)
    (hplain : ∀ name, .hole name ∈ ps → ∀ c ∈ inPlace bound name, isPlainChar c = true) :
    (filledSlot bound ps).flat id (stringText Empty.elim) Empty.elim =
      stringText (inPlace bound) ps := by
  rw [filledSlot, hslot]
  show '"' :: (ps.flatMap (filledPart bound)).flatMap (StrPiece.text Empty.elim) ++ ['"'] = _
  rw [List.flatMap_assoc, stringText]
  congr 2
  refine List.flatMap_congr fun piece hpiece => ?_
  cases piece with
  | char s => exact List.append_nil _
  | hole name => exact plainPieces_text (hplain name hpiece)

lemma filledSlot_value {ps : List (StrPiece String)} (hslot : unboundSlot bound ps = none)
    (hplain : ∀ name, .hole name ∈ ps → ∀ c ∈ inPlace bound name, isPlainChar c = true) :
    (filledSlot bound ps).value number (stringValue Empty.elim) Empty.elim =
      stringValue (inPlace bound) ps := by
  rw [filledSlot, hslot]
  show Json.str (String.ofList ((ps.flatMap (filledPart bound)).flatMap
    (StrPiece.chars Empty.elim))) = _
  rw [List.flatMap_assoc, stringValue, stringChars]
  congr 2
  refine List.flatMap_congr fun piece hpiece => ?_
  cases piece with
  | char s => rfl
  | hole name => exact plainPieces_chars (hplain name hpiece)

lemma sentinelDoc_text :
    (Doc.str (plainPieces unboundSentinel.toList)).flat id (stringText Empty.elim) Empty.elim =
      sentinelText := by
  show '"' :: (plainPieces unboundSentinel.toList).flatMap (StrPiece.text Empty.elim) ++ ['"'] = _
  rw [plainPieces_text unboundSentinel_plain]
  rfl

lemma sentinelDoc_value :
    (Doc.str (plainPieces unboundSentinel.toList)).value number (stringValue Empty.elim)
      Empty.elim = .str unboundSentinel := by
  show Json.str (String.ofList ((plainPieces unboundSentinel.toList).flatMap
    (StrPiece.chars Empty.elim))) = _
  rw [plainPieces_chars unboundSentinel_plain, String.ofList_toList]

lemma scalarDoc_text {v : String} {d : Doc Empty} (h : scalarDoc v = some d) :
    d.flat id (stringText Empty.elim) Empty.elim = v.toList := by
  unfold scalarDoc at h
  split_ifs at h with hnull htrue hfalse hnumber
  · obtain rfl := Option.some.inj h
    rw [hnull]
    rfl
  · obtain rfl := Option.some.inj h
    rw [htrue]
    rfl
  · obtain rfl := Option.some.inj h
    rw [hfalse]
    rfl
  · obtain rfl := Option.some.inj h
    exact List.map_id _

lemma scalarDoc_prune {v : String} {d : Doc Empty} (h : scalarDoc v = some d) :
    pruneUnboundFilters (d.value number (stringValue Empty.elim) Empty.elim) =
      some (d.value number (stringValue Empty.elim) Empty.elim) := by
  unfold scalarDoc at h
  split_ifs at h <;> · obtain rfl := Option.some.inj h; rfl

variable {t : BodyTemplate}

lemma BodyTemplate.filled_text (t : BodyTemplate) : (t.filled bound).text =
    String.ofList (t.before.1 ++
      t.root.flat id
        (fun ps => (filledSlot bound ps).flat id (stringText Empty.elim) Empty.elim)
        (fun name => (filledBare bound name).flat id (stringText Empty.elim) Empty.elim) ++
      t.after.1) := by
  rw [filled, Document.text, Doc.flat_fill]

lemma BodyTemplate.filled_value (t : BodyTemplate) : (t.filled bound).value number =
    t.root.value number
      (fun ps => (filledSlot bound ps).value number (stringValue Empty.elim) Empty.elim)
      (fun name => (filledBare bound name).value number (stringValue Empty.elim) Empty.elim) := by
  rw [filled, Document.value, Doc.value_fill]

/-! ## The rendered text -/

/-- A bare placeholder of a bound parameter. -/
lemma filledBare_bound {name v : String} {d : Doc Empty} (hv : bound.get? name = some v)
    (hd : scalarDoc v = some d) : filledBare bound name = d := by
  simp [filledBare, hv, hd]

lemma expectedBare_bound {name v : String} {d : Doc Empty} (hv : bound.get? name = some v)
    (hd : scalarDoc v = some d) :
    expectedBare number bound name =
      some (d.value number (stringValue Empty.elim) Empty.elim) := by
  simp [expectedBare, hv, bareValue, hd]

/-- Of a template from which nothing is to be removed, the text with the values in it is what is
asked for. -/
lemma BodyTemplate.Renders.serializes_rendered {declared : List ParamSpec}
    (hset : (declared.map ParamSpec.name).Nodup) (h : t.Renders bound declared)
    (hstay : ¬ t.Removes bound) :
    Serializes number (renderTemplate t.text bound) (t.expected number bound) := by
  have hnone : ∀ ps ∈ t.root.slots, unboundSlot bound ps = none := fun ps hps =>
    Option.not_isSome_iff_eq_none.mp fun hsome => hstay (.inl ⟨ps, hps, hsome⟩)
  have hscalar : ∀ name ∈ t.root.bares, ∃ v d,
      bound.get? name = some v ∧ scalarDoc v = some d := by
    intro name hname
    have hbound : bound.contains name = true := by
      rw [← Bool.not_eq_false]
      exact fun hfalse => hstay (.inr ⟨name, hname, hfalse⟩)
    obtain ⟨v, hv⟩ := OrderedMap.contains_iff.mp hbound
    obtain ⟨d, hd⟩ := Option.isSome_iff_exists.mp (h.scalar name hname v hv)
    exact ⟨v, d, hv, hd⟩
  refine .inr ⟨t.filled bound, ?_, ?_⟩
  · have hslot : ∀ ps ∈ t.root.slots,
        (filledSlot bound ps).flat id (stringText Empty.elim) Empty.elim =
          stringText (inPlace bound) ps := fun ps hps =>
      filledSlot_text (hnone ps hps) (h.plain ps hps (hnone ps hps))
    have hbare : ∀ name ∈ t.root.bares,
        (filledBare bound name).flat id (stringText Empty.elim) Empty.elim =
          inPlace bound name := by
      intro name hname
      obtain ⟨v, d, hv, hd⟩ := hscalar name hname
      rw [filledBare_bound hv hd, scalarDoc_text hd, inPlace, hv]
      rfl
    rw [t.filled_text, t.root.flat_congr hslot hbare, ← h.found.toList_rendered hset,
      String.ofList_toList]
  · have hslot : ∀ ps ∈ t.root.slots, expectedSlot bound ps =
        some ((filledSlot bound ps).value number (stringValue Empty.elim) Empty.elim) := by
      intro ps hps
      rw [expectedSlot, hnone ps hps,
        filledSlot_value (hnone ps hps) (h.plain ps hps (hnone ps hps))]
    have hbare : ∀ name ∈ t.root.bares, expectedBare number bound name =
        some ((filledBare bound name).value number (stringValue Empty.elim) Empty.elim) := by
      intro name hname
      obtain ⟨v, d, hv, hd⟩ := hscalar name hname
      rw [filledBare_bound hv hd, expectedBare_bound hv hd]
    rw [t.filled_value, BodyTemplate.expected, t.root.pruned_of_some hslot hbare]
    rfl

/-! ## The marked text -/

lemma not_embeds {ps : List (StrPiece String)} (h : embeds bound ps = false)
    (hslot : unboundSlot bound ps = none) {name : String} (hname : .hole name ∈ ps) :
    bound.contains name = true := by
  rw [embeds, hslot, Option.isNone_none, Bool.true_and, List.any_eq_false] at h
  simpa [unboundPart] using h _ hname

lemma filler_bound {name : String} (h : bound.contains name = true) :
    filler bound (false, name) = inPlace bound name := by
  obtain ⟨v, hv⟩ := OrderedMap.contains_iff.mp h
  rw [filler, inPlace, hv]
  rfl

lemma prune_sentinel : pruneUnboundFilters (.str unboundSentinel) = none := by
  simp [pruneUnboundFilters]

/-- Without an unbound placeholder inside a longer string, the marked text is a document. -/
lemma BodyTemplate.Renders.marked_eq {declared : List ParamSpec}
    (hset : (declared.map ParamSpec.name).Nodup) (hover : t.Over (declared.map ParamSpec.name))
    (h : t.Renders bound declared) (hembeds : ∀ ps ∈ t.root.slots, embeds bound ps = false) :
    markUnbound (unboundNames bound declared) (renderTemplate t.text bound) =
      (t.filled bound).text := by
  have hslot : ∀ ps ∈ t.root.slots,
      (filledSlot bound ps).flat id (stringText Empty.elim) Empty.elim = markedSlot bound ps := by
    intro ps hps
    cases hnone : unboundSlot bound ps with
    | some name =>
        rw [filledSlot, markedSlot, hnone]
        exact sentinelDoc_text
    | none =>
        rw [filledSlot_text hnone (h.plain ps hps hnone), markedSlot, hnone]
        refine congrArg (fun l => '"' :: l ++ ['"']) (List.flatMap_congr fun piece hpiece => ?_)
        cases piece with
        | char s => rfl
        | hole name => exact (filler_bound (not_embeds (hembeds ps hps) hnone hpiece)).symm
  have hbare : ∀ name ∈ t.root.bares,
      (filledBare bound name).flat id (stringText Empty.elim) Empty.elim =
        filler bound (false, name) := by
    intro name hname
    cases hv : bound.get? name with
    | none =>
        rw [filledBare, hv, filler, hv]
        exact sentinelDoc_text
    | some v =>
        obtain ⟨d, hd⟩ := Option.isSome_iff_exists.mp (h.scalar name hname v hv)
        rw [filledBare_bound hv hd, filler, hv]
        exact scalarDoc_text hd
  rw [t.filled_text, t.root.flat_congr hslot hbare, ← h.found.toList_marked hset hover,
    String.ofList_toList]

/-- What is left of that document is what is asked for. -/
lemma BodyTemplate.Renders.pruned_eq {declared : List ParamSpec} (h : t.Renders bound declared)
    (hother : ∀ ps ∈ t.root.slots, unboundSlot bound ps = none →
      stringChars (inPlace bound) ps ≠ unboundSentinel.toList) :
    (pruneUnboundFilters ((t.filled bound).value number)).getD (.obj []) =
      t.expected number bound := by
  have hslot : ∀ ps ∈ t.root.slots, pruneUnboundFilters
      ((filledSlot bound ps).value number (stringValue Empty.elim) Empty.elim) =
        expectedSlot bound ps := by
    intro ps hps
    cases hnone : unboundSlot bound ps with
    | some name =>
        rw [filledSlot, expectedSlot, hnone]
        show pruneUnboundFilters ((Doc.str (plainPieces unboundSentinel.toList)).value number
          (stringValue Empty.elim) Empty.elim) = none
        rw [sentinelDoc_value, prune_sentinel]
    | none =>
        rw [filledSlot_value hnone (h.plain ps hps hnone), expectedSlot, hnone]
        refine if_neg fun hsentinel => hother ps hps hnone ?_
        rw [← hsentinel, String.toList_ofList]
  have hbare : ∀ name ∈ t.root.bares, pruneUnboundFilters
      ((filledBare bound name).value number (stringValue Empty.elim) Empty.elim) =
        expectedBare number bound name := by
    intro name hname
    cases hv : bound.get? name with
    | none =>
        rw [filledBare, expectedBare, hv, sentinelDoc_value, prune_sentinel]
        rfl
    | some v =>
        obtain ⟨d, hd⟩ := Option.isSome_iff_exists.mp (h.scalar name hname v hv)
        rw [filledBare_bound hv hd, expectedBare_bound hv hd]
        exact scalarDoc_prune hd
  rw [t.filled_value, BodyTemplate.expected, t.root.prune_value hslot hbare]

lemma sentinelText_scan : Place.outside.scan sentinelText = some .outside := by
  decide

/-- A string in which an unbound placeholder is marked ends there. -/
lemma scan_markedParts {ps : List (StrPiece String)}
    (hplain : ∀ name, .hole name ∈ ps → ∀ c ∈ inPlace bound name, isPlainChar c = true) :
    Place.inside.scan (ps.flatMap (StrPiece.text fun name => filler bound (false, name))) =
      if ps.any (unboundPart bound) then none else some .inside := by
  induction ps with
  | nil => rfl
  | cons piece ps ih =>
      rw [List.flatMap_cons, Place.scan_append, List.any_cons]
      have hrest := ih fun name hname => hplain name (List.mem_cons_of_mem piece hname)
      cases piece with
      | char s =>
          rw [StrPiece.text, s.scan_text]
          exact hrest
      | hole name =>
          rw [StrPiece.text, unboundPart]
          by_cases h : bound.contains name = true
          · rw [filler_bound h, Place.scan_stay fun c hc =>
              Place.step_plain (hplain name List.mem_cons_self c hc), h]
            exact hrest
          · have hnone := Bool.eq_false_iff.mpr h
            rw [filler, get?_of_not_contains hnone, hnone]
            rfl

lemma scan_markedSlot {ps : List (StrPiece String)}
    (hplain : unboundSlot bound ps = none → ∀ name, .hole name ∈ ps →
      ∀ c ∈ inPlace bound name, isPlainChar c = true) :
    Place.outside.scan (markedSlot bound ps) =
      if !embeds bound ps then some .outside else none := by
  unfold markedSlot embeds
  cases hslot : unboundSlot bound ps with
  | some name => exact sentinelText_scan
  | none =>
      show Place.inside.scan (ps.flatMap (StrPiece.text fun name => filler bound (false, name)) ++
        ['"']) = _
      rw [Place.scan_append, scan_markedParts (hplain hslot), Option.isNone_none, Bool.true_and]
      cases ps.any (unboundPart bound) <;> rfl

/-- With an unbound placeholder inside a longer string, the marked text is no JSON. -/
lemma BodyTemplate.Renders.marked_not_json {declared : List ParamSpec}
    (hset : (declared.map ParamSpec.name).Nodup) (hover : t.Over (declared.map ParamSpec.name))
    (h : t.Renders bound declared) (hembeds : ∃ ps ∈ t.root.slots, embeds bound ps = true)
    (d : Document) :
    d.text ≠ markUnbound (unboundNames bound declared) (renderTemplate t.text bound) := by
  have hbare : ∀ name ∈ t.root.bares,
      Place.outside.scan (filler bound (false, name)) = some .outside := by
    intro name hname
    cases hv : bound.get? name with
    | none =>
        rw [filler, hv]
        exact sentinelText_scan
    | some v =>
        obtain ⟨d, hd⟩ := Option.isSome_iff_exists.mp (h.scalar name hname v hv)
        rw [filler, hv, Option.map_some, Option.getD_some, ← scalarDoc_text hd]
        exact d.scan_text
  have hroot := t.root.scan_flat (fun ps hps => scan_markedSlot (h.plain ps hps)) hbare
  obtain ⟨ps, hps, hbad⟩ := hembeds
  rw [if_neg (by
    rw [List.all_eq_true]
    exact fun hall => absurd (hall ps hps) (by simp [hbad]))] at hroot
  intro heq
  have hscan := d.scan_text
  rw [heq, h.found.toList_marked hset hover, Place.scan_append, Place.scan_append,
    Place.scan_stay (Place.step_layout t.before), Option.bind_some, hroot] at hscan
  cases hscan

/-! ## The rendering -/

lemma renderJsonBody_eq (parse : String → Except String Json) (template : String)
    (declared : List ParamSpec) :
    renderJsonBody parse template bound declared =
      if unboundNames bound declared = [] then renderTemplate template bound
      else match parse (markUnbound (unboundNames bound declared)
          (renderTemplate template bound)) with
        | .ok v => ((pruneUnboundFilters v).map Json.print).getD "\x7b\x7d"
        | .error _ => renderTemplate template bound := rfl

/-- What the rendering of a body needs of the JSON parser: a text that it accepts is JSON, and it
reads the marked text of the template if that is JSON. -/
structure BodyTemplate.ReadBy (t : BodyTemplate) (bound : Params) (number : String → String)
    (parse : String → Except String Json) : Prop where
  json : ∀ text v, parse text = .ok v → ∃ d : Document, d.text = text
  marked : parse (t.filled bound).text = .ok ((t.filled bound).value number)

/-- With all parameters bound nothing is to be removed. -/
lemma BodyTemplate.Over.not_removes {declared : List ParamSpec}
    (hover : t.Over (declared.map ParamSpec.name)) (hall : unboundNames bound declared = []) :
    ¬ t.Removes bound := by
  have hbound : ∀ name ∈ declared.map ParamSpec.name, bound.contains name = true := by
    intro name hname
    rw [← Bool.not_eq_false]
    exact fun hfalse => List.eq_nil_iff_forall_not_mem.mp hall name
      (mem_unboundNames.mpr ⟨hname, hfalse⟩)
  rintro (⟨ps, hps, hsome⟩ | ⟨name, hname, hfalse⟩)
  · obtain ⟨name, hslot⟩ := Option.isSome_iff_exists.mp hsome
    obtain ⟨rfl, hfalse⟩ := unboundSlot_eq_some hslot
    rw [hbound name (hover.slots _ hps name List.mem_cons_self)] at hfalse
    cases hfalse
  · rw [hbound name (hover.bares name hname)] at hfalse
    cases hfalse

/-- The rendering is a text of what is asked for. -/
lemma BodyTemplate.Renders.serializes {declared : List ParamSpec}
    {parse : String → Except String Json}
    (hset : (declared.map ParamSpec.name).Nodup) (hover : t.Over (declared.map ParamSpec.name))
    (hparse : t.ReadBy bound number parse) (h : t.Renders bound declared) :
    Serializes number (renderJsonBody parse t.text bound declared) (t.expected number bound) := by
  rw [renderJsonBody_eq]
  by_cases hunbound : unboundNames bound declared = []
  · rw [if_pos hunbound]
    exact h.serializes_rendered hset (hover.not_removes hunbound)
  · rw [if_neg hunbound]
    rcases h.removed hunbound with ⟨hembeds, hstay⟩ | ⟨hembeds, hother⟩
    · split
      · rename_i v hv
        obtain ⟨d, hd⟩ := hparse.json _ v hv
        exact absurd hd (h.marked_not_json hset hover hembeds d)
      · exact h.serializes_rendered hset hstay
    · rw [h.marked_eq hset hover hembeds, hparse.marked]
      refine .inl ?_
      rw [← h.pruned_eq hother]
      dsimp only
      cases pruneUnboundFilters ((t.filled bound).value number) with
      | none => decide
      | some v => rfl

/-! ## What a rendered text takes -/

/-- The template is written without escapes, with different names in each object. -/
structure BodyTemplate.Unescaped (t : BodyTemplate) : Prop where
  slots : ∀ ps ∈ t.root.slots, ∀ s, .char s ∈ ps → s.isPlain = true
  keys : t.root.PlainKeys

/-- A string takes no more than its characters, and as much only when what is put in needs no
escape. -/
lemma stringText_tally {ps : List (StrPiece String)} {f : String → List Char}
    (hchars : ∀ s, .char s ∈ ps → s.isPlain = true) :
    tally (stringText f ps) ≤ (stringValue f ps).weight ∧
      ((stringValue f ps).weight ≤ tally (stringText f ps) →
        ∀ name, .hole name ∈ ps → ∀ c ∈ f name, isPlainChar c = true) := by
  have hparts : tally (ps.flatMap (StrPiece.text f)) ≤ stringCost (stringChars f ps) ∧
      (stringCost (stringChars f ps) ≤ tally (ps.flatMap (StrPiece.text f)) →
        ∀ name, .hole name ∈ ps → ∀ c ∈ f name, isPlainChar c = true) := by
    induction ps with
    | nil => exact ⟨Nat.le_refl 0, fun _ _ hname => absurd hname List.not_mem_nil⟩
    | cons piece ps ih =>
        obtain ⟨hle, heq⟩ := ih fun s hs => hchars s (List.mem_cons_of_mem piece hs)
        rw [stringChars] at hle heq ⊢
        simp only [List.flatMap_cons, tally_append, stringCost_append]
        cases piece with
        | char s =>
            have hs : tally s.text = stringCost [s.char] :=
              s.tally_plain (hchars s List.mem_cons_self)
            simp only [StrPiece.text, StrPiece.chars]
            refine ⟨by omega, fun hcost name hname => heq (by omega) name ?_⟩
            rcases List.mem_cons.mp hname with hsame | hname
            · cases hsame
            · exact hname
        | hole name =>
            have hname := tally_le_stringCost (f name)
            simp only [StrPiece.text, StrPiece.chars]
            refine ⟨by omega, fun hcost other hother => ?_⟩
            rcases List.mem_cons.mp hother with heq' | hother
            · obtain rfl := StrPiece.hole.inj heq'
              exact plain_of_stringCost_le (by omega)
            · exact heq (by omega) other hother
  rw [stringText, tally_quoted, stringValue, Json.weight, String.toList_ofList]
  exact ⟨by omega, fun hcost => hparts.2 (by omega)⟩

lemma scalarDoc_tally {v : String} {d : Doc Empty} (h : scalarDoc v = some d) :
    tally v.toList ≤ (d.value number (stringValue Empty.elim) Empty.elim).weight := by
  unfold scalarDoc at h
  split_ifs at h with hnull htrue hfalse hnumber
  · obtain rfl := Option.some.inj h
    rw [hnull]
    exact Nat.le_refl 1
  · obtain rfl := Option.some.inj h
    rw [htrue]
    exact Nat.le_refl 1
  · obtain rfl := Option.some.inj h
    rw [hfalse]
    exact Nat.le_refl 0
  · rw [tally_number hnumber]
    exact Nat.zero_le _

/-- A value in place of a JSON value takes no more than its text, and as much only when it is a
scalar. -/
lemma bareValue_tally (number : String → String) (v : String) :
    tally v.toList ≤ (bareValue number v).weight ∧
      ((bareValue number v).weight ≤ tally v.toList → (scalarDoc v).isSome = true) := by
  cases hd : scalarDoc v with
  | some d =>
      simp only [bareValue, hd]
      exact ⟨scalarDoc_tally hd, fun _ => rfl⟩
  | none =>
      have hcost := tally_le_stringCost v.toList
      simp only [bareValue, hd, Json.weight]
      exact ⟨by omega, by omega⟩

/-- With all parameters bound and a template without escapes, the rendered text stands for what is
asked for only if the values need no escape in the strings and are scalars elsewhere. -/
lemma BodyTemplate.renders_of_serializes {declared : List ParamSpec}
    (hset : (declared.map ParamSpec.name).Nodup) (hover : t.Over (declared.map ParamSpec.name))
    (hplain : t.Unescaped) (hall : unboundNames bound declared = [])
    (hfound : t.Found bound declared)
    (h : Serializes number (renderTemplate t.text bound) (t.expected number bound)) :
    t.Renders bound declared := by
  have hstay := hover.not_removes hall
  have hslot : ∀ ps ∈ t.root.slots,
      expectedSlot bound ps = some (stringValue (inPlace bound) ps) := by
    intro ps hps
    have hnone : unboundSlot bound ps = none := Option.not_isSome_iff_eq_none.mp
      fun hsome => hstay (.inl ⟨ps, hps, hsome⟩)
    rw [expectedSlot, hnone]
  have hbound : ∀ name ∈ t.root.bares, ∃ v, bound.get? name = some v := by
    intro name hname
    refine OrderedMap.contains_iff.mp ?_
    rw [← Bool.not_eq_false]
    exact fun hfalse => hstay (.inr ⟨name, hname, hfalse⟩)
  have hbare : ∀ name ∈ t.root.bares, expectedBare number bound name =
      some (bareValue number ((bound.get? name).getD "")) := by
    intro name hname
    obtain ⟨v, hv⟩ := hbound name hname
    rw [expectedBare, hv]
    rfl
  have hbareTally : ∀ name ∈ t.root.bares, tally (inPlace bound name) ≤
      (bareValue number ((bound.get? name).getD "")).weight := by
    intro name hname
    obtain ⟨v, hv⟩ := hbound name hname
    rw [inPlace, hv]
    exact (bareValue_tally number v).1
  have hcost := h.weight_le
  rw [BodyTemplate.expected, t.root.pruned_of_some hslot hbare, Option.getD_some,
    hfound.toList_rendered hset, tally_append, tally_append, tally_layout, tally_layout] at hcost
  rw [Nat.zero_add, Nat.add_zero] at hcost
  have hslotTally : ∀ ps ∈ t.root.slots, tally (stringText (inPlace bound) ps) ≤
      (stringValue (inPlace bound) ps).weight := fun ps hps =>
    (stringText_tally (hplain.slots ps hps)).1
  obtain ⟨hslots, hbares⟩ := (t.root.tally_le hplain.keys hslotTally hbareTally).2 hcost
  refine ⟨hfound, fun ps hps _ => (stringText_tally (hplain.slots ps hps)).2 (hslots ps hps), ?_,
    fun hunbound => absurd hall hunbound⟩
  intro name hname v hv
  have hle := hbares name hname
  rw [inPlace, hv] at hle
  exact (bareValue_tally number v).2 hle

end

/-- The rendering of a JSON body is a text of the template's value with the parameters put in and
the unbound ones removed if the replacements find the placeholders of the template only, what they
put in means nothing special where it stands, and the mark of the unbound ones is read as such.  With
all parameters bound and a template without escapes, it is one only then. -/
theorem renderJsonBody_serializes (number : String → String) (parse : String → Except String Json)
    (t : BodyTemplate) (bound : Params) (declared : List ParamSpec)
    (hset : (declared.map ParamSpec.name).Nodup) (hover : t.Over (declared.map ParamSpec.name))
    (hparse : t.ReadBy bound number parse) :
    (t.Renders bound declared → Serializes number (renderJsonBody parse t.text bound declared)
        (t.expected number bound)) ∧
      (t.Unescaped → unboundNames bound declared = [] → t.Found bound declared →
        Serializes number (renderJsonBody parse t.text bound declared) (t.expected number bound) →
          t.Renders bound declared) := by
  refine ⟨fun h => h.serializes hset hover hparse, fun hplain hall hfound h => ?_⟩
  rw [renderJsonBody_eq, if_pos hall] at h
  exact t.renders_of_serializes hset hover hplain hall hfound h

/-- One parameter with a value and one without, whose member is removed. -/
theorem renderJsonBody_serializes_removed :
    let blank : Layout := ⟨[], by simp⟩
    let field (name : String) (rest : Fields String) : Fields String :=
      .cons blank (name.toList.map plainChar) blank blank (.str [.hole name]) blank rest
    let t : BodyTemplate := ⟨blank, .obj blank (field "x" (field "y" .nil)), blank⟩
    let bound : Params := OrderedMap.empty.insert "x" "1"
    let parse : String → Except String Json := fun text =>
      if text = (t.filled bound).text then .ok ((t.filled bound).value id) else .error ""
    Serializes id (renderJsonBody parse t.text bound [{ name := "x" }, { name := "y" }])
      (.obj [("x", .str "1")]) := by
  intro blank field t bound parse
  have hexpected : t.expected id bound = .obj [("x", .str "1")] := by decide
  rw [← hexpected]
  have hslots : t.root.slots = [[.hole "x"], [.hole "y"]] := rfl
  have hbares : t.root.bares = [] := rfl
  refine (renderJsonBody_serializes id parse t bound _ (by decide) ⟨?_, ?_⟩ ⟨?_, ?_⟩).1
    ⟨?_, ?_, ?_, ?_⟩
  · simp [hslots]
  · simp [hbares]
  · intro text v hv
    by_cases htext : text = (t.filled bound).text
    · exact ⟨t.filled bound, htext.symm⟩
    · rw [show parse text = .error "" from if_neg htext] at hv
      cases hv
  · exact if_pos rfl
  · exact t.found_of_holesAt (by decide)
  · rw [hslots]
    rintro ps hps hnone name hname
    rcases List.mem_cons.mp hps with rfl | hps
    · obtain rfl : name = "x" := by simpa using hname
      exact List.all_eq_true.mp (by decide)
    · obtain rfl := List.mem_singleton.mp hps
      exact absurd hnone (by decide)
  · simp [hbares]
  · refine fun _ => .inr ⟨?_, ?_⟩
    · rw [hslots]
      decide
    · rw [hslots]
      decide

/-- A value that ends the string it stands in adds a member to the object. -/
theorem renderJsonBody_fails :
    let blank : Layout := ⟨[], by simp⟩
    let t : BodyTemplate := ⟨blank, .obj blank
      (.cons blank ("name".toList.map plainChar) blank blank (.str [.hole "name"]) blank .nil), blank⟩
    let bound : Params := OrderedMap.empty.insert "name" "a\",\"admin\":\"b"
    let parse : String → Except String Json := fun _ => .error ""
    renderJsonBody parse t.text bound [{ name := "name" }] =
        "\x7b\"name\":\"a\",\"admin\":\"b\"\x7d" ∧
      t.expected id bound = .obj [("name", .str "a\",\"admin\":\"b")] ∧
      ¬ Serializes id (renderJsonBody parse t.text bound [{ name := "name" }])
        (t.expected id bound) := by
  intro blank t bound parse
  have htext : renderJsonBody parse t.text bound [{ name := "name" }] =
      "\x7b\"name\":\"a\",\"admin\":\"b\"\x7d" := by decide
  have hexpected : t.expected id bound = .obj [("name", .str "a\",\"admin\":\"b")] := by
    decide
  refine ⟨htext, hexpected, fun h => ?_⟩
  rw [htext, hexpected] at h
  have hplain := plain_of_serializes h (by decide) "a\",\"admin\":\"b"
    (by decide) '"' (by decide)
  exact absurd hplain (by decide)

end Http
end Pawrly
