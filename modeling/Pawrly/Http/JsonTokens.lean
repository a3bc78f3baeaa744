import Pawrly.Http.JsonText

/-!
# Characters of JSON texts

What the characters of a JSON text tell about it.  Outside its strings there is no underscore
(`Document.scan_text`).  And it has at least as many quotes, backslashes and letters `u` as its value
asks for (`Serializes.weight_le`): two quotes for a string, one `u` for `null` and `true`, and a
backslash more for a character that needs an escape.
-/

namespace Pawrly
namespace Http

/-! ## The characters of the tokens -/

/-- A character of a number. -/
def isNumberChar (c : Char) : Bool := c.isDigit || "+-.eE".toList.contains c

lemma isDigitRun_chars {cs : List Char} (h : isDigitRun cs = true) :
    ∀ c ∈ cs, isNumberChar c = true := by
  intro c hc
  rw [isDigitRun, Bool.and_eq_true] at h
  rw [isNumberChar, List.all_eq_true.mp h.2 c hc, Bool.true_or]

lemma isExponent_chars {cs : List Char} (h : isExponent cs = true) :
    ∀ c ∈ cs, isNumberChar c = true := by
  have hsigned : ∀ {e sign : Char} {l : List Char}, isNumberChar e = true →
      isNumberChar sign = true → isDigitRun l = true →
        ∀ c ∈ e :: sign :: l, isNumberChar c = true := fun he hsign hl =>
    List.forall_mem_cons.mpr ⟨he, List.forall_mem_cons.mpr ⟨hsign, isDigitRun_chars hl⟩⟩
  have hunsigned : ∀ {e : Char} {l : List Char}, isNumberChar e = true → isDigitRun l = true →
      ∀ c ∈ e :: l, isNumberChar c = true := fun he hl =>
    List.forall_mem_cons.mpr ⟨he, isDigitRun_chars hl⟩
  unfold isExponent at h
  split at h
  · exact fun c hc => by cases hc
  · exact hsigned (by decide) (by decide) h
  · exact hsigned (by decide) (by decide) h
  · exact hsigned (by decide) (by decide) h
  · exact hsigned (by decide) (by decide) h
  · exact hunsigned (by decide) h
  · exact hunsigned (by decide) h
  · cases h

lemma takeWhile_digits {cs : List Char} :
    ∀ c ∈ cs.takeWhile Char.isDigit, isNumberChar c = true := by
  intro c hc
  rw [isNumberChar, List.mem_takeWhile_imp hc, Bool.true_or]

lemma isFraction_chars {cs : List Char} (h : isFraction cs = true) :
    ∀ c ∈ cs, isNumberChar c = true := by
  unfold isFraction at h
  split at h
  · rename_i rest
    rw [Bool.and_eq_true] at h
    rw [← List.takeWhile_append_dropWhile (p := Char.isDigit) (l := rest)]
    simp only [List.mem_cons, List.mem_append]
    rintro c (rfl | hc | hc)
    · decide
    · exact takeWhile_digits c hc
    · exact isExponent_chars h.2 c hc
  · exact isExponent_chars h

lemma isNumber_chars {cs : List Char} (h : isNumber cs = true) :
    ∀ c ∈ cs, isNumberChar c = true := by
  have hdigits : ∀ l : List Char, isFraction (l.dropWhile Char.isDigit) = true →
      ∀ c ∈ l, isNumberChar c = true := by
    intro l hl c hc
    rw [← List.takeWhile_append_dropWhile (p := Char.isDigit) (l := l), List.mem_append] at hc
    exact hc.elim (takeWhile_digits c) (isFraction_chars hl c)
  unfold isNumber at h
  rw [Bool.and_eq_true] at h
  intro c hc
  split_ifs at h with hsign
  · obtain ⟨rest, rfl⟩ := List.head?_eq_some_iff.mp hsign
    rcases List.mem_cons.mp hc with rfl | hc
    · decide
    · exact hdigits rest h.2 c hc
  · exact hdigits cs h.2 c hc

/-! ## Inside and outside strings -/

/-- Where a reader of a JSON text is. -/
inductive Place
  | outside
  | inside
  | escaped
  deriving DecidableEq

/-- The place after a character; there is none after an underscore outside of the strings. -/
def Place.step : Place → Char → Option Place
  | outside, c => if c = '"' then some inside else if c = '_' then none else some outside
  | inside, c => if c = '"' then some outside else if c = '\\' then some escaped else some inside
  | escaped, _ => some inside

def Place.scan (p : Place) (cs : List Char) : Option Place := cs.foldlM step p

namespace Place

lemma scan_cons (p : Place) (c : Char) (cs : List Char) :
    p.scan (c :: cs) = (p.step c).bind fun q => q.scan cs := rfl

lemma scan_append (p : Place) (cs cs' : List Char) :
    p.scan (cs ++ cs') = (p.scan cs).bind fun q => q.scan cs' :=
  List.foldlM_append

/-- Characters that leave the place as it is. -/
lemma scan_stay {p : Place} {cs : List Char} (h : ∀ c ∈ cs, p.step c = some p) :
    p.scan cs = some p := by
  induction cs with
  | nil => rfl
  | cons c cs ih =>
      rw [scan_cons, h c List.mem_cons_self]
      exact ih fun d hd => h d (List.mem_cons_of_mem c hd)

lemma scan_flatMap {α : Type} {p : Place} {f : α → List Char} {l : List α}
    (h : ∀ a ∈ l, p.scan (f a) = some p) : p.scan (l.flatMap f) = some p := by
  induction l with
  | nil => rfl
  | cons a l ih =>
      rw [List.flatMap_cons, scan_append, h a List.mem_cons_self]
      exact ih fun b hb => h b (List.mem_cons_of_mem a hb)

lemma step_layout (blank : Layout) : ∀ c ∈ blank.1, outside.step c = some outside := by
  intro c hc
  rcases blank.2 c hc with rfl | rfl | rfl | rfl <;> decide

lemma step_number {cs : List Char} (h : isNumber cs = true) :
    ∀ c ∈ cs, outside.step c = some outside := by
  intro c hc
  have hchar := isNumber_chars h c hc
  have hquote : c ≠ '"' := by
    rintro rfl
    exact absurd hchar (by decide)
  have hscore : c ≠ '_' := by
    rintro rfl
    exact absurd hchar (by decide)
  rw [step, if_neg hquote, if_neg hscore]

lemma step_plain {c : Char} (h : isPlainChar c = true) : inside.step c = some inside := by
  simp only [isPlainChar, Bool.and_eq_true, decide_eq_true_eq] at h
  rw [step, if_neg h.1.2, if_neg h.2]

lemma step_hex {c : Char} (h : (hexValue c).isSome = true) : inside.step c = some inside := by
  have hquote : c ≠ '"' := by
    rintro rfl
    exact absurd h (by decide)
  have hback : c ≠ '\\' := by
    rintro rfl
    exact absurd h (by decide)
  rw [step, if_neg hquote, if_neg hback]

end Place

lemma codeUnit_digits {cs : List Char} (h : (codeUnit cs).isSome = true) :
    ∀ c ∈ cs, (hexValue c).isSome = true := by
  have hfold : ∀ (l : List Char) (n : ℕ),
      (l.foldlM (fun n c => (hexValue c).map (16 * n + ·)) n).isSome = true →
        ∀ c ∈ l, (hexValue c).isSome = true := by
    intro l
    induction l with
    | nil => exact fun n _ c hc => by cases hc
    | cons d l ih =>
        intro n hl
        rw [List.foldlM_cons] at hl
        cases hd : hexValue d with
        | none =>
            rw [hd] at hl
            cases hl
        | some x =>
            rw [hd] at hl
            exact List.forall_mem_cons.mpr ⟨by rw [hd]; rfl, ih _ hl⟩
  unfold codeUnit at h
  split_ifs at h
  · exact hfold cs 0 h
  · cases h

lemma isSome_of_bind {α β : Type} {o : Option α} {f : α → Option β}
    (h : (o.bind f).isSome = true) : o.isSome = true := by
  cases o with
  | none => cases h
  | some a => rfl

/-- The digits of a `\u` escape are inside the string. -/
lemma Place.scan_unicode {digits : List Char} (h : (unicodeEscape digits).isSome = true) :
    inside.scan digits = some inside := by
  have hhex : ∀ {cs : List Char}, (codeUnit cs).isSome = true → inside.scan cs = some inside :=
    fun hcs => scan_stay fun c hc => step_hex (codeUnit_digits hcs c hc)
  unfold unicodeEscape at h
  split_ifs at h with hlen hpair
  · exact hhex (isSome_of_bind h)
  · have hhi : (codeUnit (digits.take 4)).isSome = true := isSome_of_bind h
    have hlo : (codeUnit (digits.drop 6)).isSome = true := by
      obtain ⟨hi, hhi⟩ := Option.isSome_iff_exists.mp hhi
      rw [hhi] at h
      exact isSome_of_bind h
    have hsplit : digits = digits.take 4 ++ (['\\', 'u'] ++ digits.drop 6) := by
      have hdrop : digits.drop 6 = (digits.drop 4).drop 2 := by rw [List.drop_drop]
      rw [← hpair, hdrop, List.take_append_drop, List.take_append_drop]
    have hlast : inside.scan (digits.drop 6) = some inside := hhex hlo
    rw [hsplit, scan_append, hhex hhi]
    exact hlast
  · cases h

/-- A character of a string, as it is written, is inside the string. -/
lemma StrChar.scan_text (s : StrChar) : Place.inside.scan s.text = some .inside := by
  cases s with
  | plain c valid =>
      rw [StrChar.text, Place.scan_cons, Place.step_plain valid]
      rfl
  | short letter valid => rfl
  | unicode digits valid =>
      show Place.inside.scan digits = some .inside
      exact Place.scan_unicode valid

/-- A string ends where it started. -/
lemma Place.scan_quoted {cs : List Char} (h : inside.scan cs = some inside) :
    outside.scan ('"' :: cs ++ ['"']) = some outside := by
  show (inside.scan (cs ++ ['"'])) = some outside
  rw [scan_append, h]
  rfl

lemma keyText_scan (key : List StrChar) : Place.outside.scan (keyText key) = some .outside :=
  Place.scan_quoted (Place.scan_flatMap fun s _ => s.scan_text)

lemma stringText_scan {H : Type} {inPlace : H → List Char} {pieces : List (StrPiece H)}
    (h : ∀ n, .hole n ∈ pieces → Place.inside.scan (inPlace n) = some .inside) :
    Place.outside.scan (stringText inPlace pieces) = some .outside := by
  refine Place.scan_quoted (Place.scan_flatMap fun piece hpiece => ?_)
  cases piece with
  | char s => exact s.scan_text
  | hole n => exact h n hpiece

section

variable {H : Type} {slot : List (StrPiece H) → List Char} {bare : H → List Char}
  {good : List (StrPiece H) → Bool}

/-- The places after two texts one after the other. -/
lemma Place.scan_step {cs cs' : List Char} {a b : Bool}
    (h : outside.scan cs = if a then some outside else none)
    (h' : outside.scan cs' = if b then some outside else none) :
    outside.scan (cs ++ cs') = if a && b then some outside else none := by
  rw [scan_append, h]
  cases a with
  | false => rfl
  | true => exact h'

lemma Place.scan_layout (blank : Layout) :
    outside.scan (blank.1.map id) = if true then some outside else none := by
  rw [List.map_id, scan_stay (step_layout blank)]
  rfl

lemma Items.scan_comma (l : Items H) :
    Place.outside.scan (l.comma id) = if true then some .outside else none := by
  cases l <;> rfl

lemma Fields.scan_comma (l : Fields H) :
    Place.outside.scan (l.comma id) = if true then some .outside else none := by
  cases l <;> rfl

mutual

/-- A document is read through, or a string of it is not. -/
lemma Doc.scan_flat (d : Doc H)
    (hslot : ∀ ps ∈ d.slots,
      Place.outside.scan (slot ps) = if good ps then some .outside else none)
    (hbare : ∀ h ∈ d.bares, Place.outside.scan (bare h) = some .outside) :
    Place.outside.scan (d.flat id slot bare) =
      if d.slots.all good then some .outside else none := by
  cases d with
  | null => rfl
  | bool b => cases b <;> rfl
  | num text valid =>
      show Place.outside.scan (text.map id) = _
      rw [List.map_id, Place.scan_stay (Place.step_number valid)]
      rfl
  | str pieces =>
      show Place.outside.scan (slot pieces) = if [pieces].all good then some .outside else none
      rw [hslot pieces List.mem_cons_self]
      simp
  | hole h => exact hbare h List.mem_cons_self
  | arr blank items =>
      show Place.outside.scan (blank.1.map id ++ items.flat id slot bare ++ [']']) = _
      have hclose : Place.outside.scan [']'] = if true then some .outside else none := rfl
      rw [Place.scan_step (Place.scan_step (Place.scan_layout blank) (items.scan_flat hslot hbare))
        hclose]
      simp [Doc.slots]
  | obj blank fields =>
      show Place.outside.scan (blank.1.map id ++ fields.flat id slot bare ++ ['\x7d']) = _
      have hclose : Place.outside.scan ['\x7d'] = if true then some .outside else none := rfl
      rw [Place.scan_step (Place.scan_step (Place.scan_layout blank)
        (fields.scan_flat hslot hbare)) hclose]
      simp [Doc.slots]

lemma Items.scan_flat (l : Items H)
    (hslot : ∀ ps ∈ l.slots,
      Place.outside.scan (slot ps) = if good ps then some .outside else none)
    (hbare : ∀ h ∈ l.bares, Place.outside.scan (bare h) = some .outside) :
    Place.outside.scan (l.flat id slot bare) =
      if l.slots.all good then some .outside else none := by
  cases l with
  | nil => rfl
  | cons before v after rest =>
      simp only [Items.slots, Items.bares, List.forall_mem_append] at hslot hbare
      have hv := Place.scan_step (Place.scan_layout before) (v.scan_flat hslot.1 hbare.1)
      have hrest := rest.scan_flat hslot.2 hbare.2
      rw [Items.flat, Place.scan_step (Place.scan_step (Place.scan_step hv
        (Place.scan_layout after)) rest.scan_comma) hrest]
      simp [Items.slots]

lemma Fields.scan_flat (l : Fields H)
    (hslot : ∀ ps ∈ l.slots,
      Place.outside.scan (slot ps) = if good ps then some .outside else none)
    (hbare : ∀ h ∈ l.bares, Place.outside.scan (bare h) = some .outside) :
    Place.outside.scan (l.flat id slot bare) =
      if l.slots.all good then some .outside else none := by
  cases l with
  | nil => rfl
  | cons before key afterKey beforeValue v after rest =>
      simp only [Fields.slots, Fields.bares, List.forall_mem_append] at hslot hbare
      have hkey : Place.outside.scan ((keyText key).map id) =
          if true then some .outside else none := by
        rw [List.map_id, keyText_scan]
        rfl
      have hcolon : Place.outside.scan [':'] = if true then some .outside else none := rfl
      have hname := Place.scan_step (Place.scan_step (Place.scan_layout before) hkey)
        (Place.scan_layout afterKey)
      have hv := Place.scan_step (Place.scan_step (Place.scan_step hname hcolon)
        (Place.scan_layout beforeValue)) (v.scan_flat hslot.1 hbare.1)
      have hall := Place.scan_step (Place.scan_step (Place.scan_step hv
        (Place.scan_layout after)) rest.scan_comma) (rest.scan_flat hslot.2 hbare.2)
      simp only [List.append_assoc, List.cons_append, List.nil_append] at hall
      simp only [Fields.flat, id, List.append_assoc, List.cons_append]
      rw [hall]
      simp [Fields.slots]

end

end

/-- A value without holes has no underscore outside of its strings. -/
lemma Doc.scan_text (d : Doc Empty) :
    Place.outside.scan (d.flat id (stringText Empty.elim) Empty.elim) = some .outside := by
  have hgood : ∀ ps ∈ d.slots, Place.outside.scan (stringText Empty.elim ps) =
      if (fun _ => true : List (StrPiece Empty) → Bool) ps then some .outside else none :=
    fun ps _ => stringText_scan fun n _ => n.elim
  rw [d.scan_flat hgood fun h _ => h.elim]
  simp

/-- A JSON text has no underscore outside of its strings. -/
theorem Document.scan_text (d : Document) : Place.outside.scan d.text.toList = some .outside := by
  rw [text, String.toList_ofList, Place.scan_append, Place.scan_append,
    Place.scan_stay (Place.step_layout d.before), Option.bind_some, d.root.scan_text,
    Option.bind_some, Place.scan_stay (Place.step_layout d.after)]

/-! ## Quotes, backslashes and `u`s -/

def charTally (c : Char) : ℕ := if c = '"' ∨ c = '\\' ∨ c = 'u' then 1 else 0

/-- The quotes, backslashes and `u`s of a text. -/
def tally (cs : List Char) : ℕ := (cs.map charTally).sum

/-- What a character of a string takes at least. -/
def charCost (c : Char) : ℕ := charTally c + if isPlainChar c then 0 else 1

def stringCost (cs : List Char) : ℕ := (cs.map charCost).sum

mutual

/-- What a value takes at least of quotes, backslashes and `u`s. -/
def Json.weight : Json → ℕ
  | .null => 1
  | .bool b => if b then 1 else 0
  | .num _ => 0
  | .str s => 2 + stringCost s.toList
  | .arr items => Json.itemsWeight items
  | .obj fields => Json.fieldsWeight fields

def Json.itemsWeight : List Json → ℕ
  | [] => 0
  | v :: vs => v.weight + Json.itemsWeight vs

def Json.fieldsWeight : List (String × Json) → ℕ
  | [] => 0
  | (k, v) :: fields => 2 + stringCost k.toList + v.weight + Json.fieldsWeight fields

end

@[simp] lemma tally_nil : tally [] = 0 := rfl

@[simp] lemma tally_cons (c : Char) (cs : List Char) :
    tally (c :: cs) = charTally c + tally cs := rfl

@[simp] lemma tally_append (cs cs' : List Char) : tally (cs ++ cs') = tally cs + tally cs' := by
  simp [tally]

lemma tally_zero {cs : List Char} (h : ∀ c ∈ cs, charTally c = 0) : tally cs = 0 := by
  induction cs with
  | nil => rfl
  | cons c cs ih =>
      rw [tally_cons, h c List.mem_cons_self, ih fun d hd => h d (List.mem_cons_of_mem c hd)]

lemma tally_layout (blank : Layout) : tally blank.1 = 0 := by
  refine tally_zero fun c hc => ?_
  rcases blank.2 c hc with rfl | rfl | rfl | rfl <;> rfl

lemma tally_number {cs : List Char} (h : isNumber cs = true) : tally cs = 0 := by
  refine tally_zero fun c hc => if_neg ?_
  have hchar := isNumber_chars h c hc
  rintro (rfl | rfl | rfl) <;> exact absurd hchar (by decide)

lemma charCost_plain {c : Char} (h : isPlainChar c = true) : charCost c = charTally c := by
  rw [charCost, h]
  rfl

lemma charCost_le (c : Char) : charCost c ≤ 2 := by
  unfold charCost charTally
  split_ifs <;> omega

lemma charTally_le_cost (c : Char) : charTally c ≤ charCost c := Nat.le_add_right _ _

lemma tally_le_stringCost (cs : List Char) : tally cs ≤ stringCost cs := by
  induction cs with
  | nil => exact Nat.le_refl 0
  | cons c cs ih => exact Nat.add_le_add (charTally_le_cost c) ih

/-- A text that takes no more than its characters has no character that needs an escape. -/
lemma plain_of_stringCost_le {cs : List Char} (h : stringCost cs ≤ tally cs) :
    ∀ c ∈ cs, isPlainChar c = true := by
  induction cs with
  | nil => exact fun c hc => by cases hc
  | cons c cs ih =>
      have hsum : charCost c + stringCost cs ≤ charTally c + tally cs := h
      have hrest := tally_le_stringCost cs
      refine List.forall_mem_cons.mpr ⟨?_, ih (by have := charTally_le_cost c; omega)⟩
      by_contra hplain
      have hcost : charCost c = charTally c + 1 := by rw [charCost, if_neg hplain]
      omega

lemma shortEscape_cost {letter c : Char} (h : shortEscape letter = some c) :
    charCost c ≤ 1 + charTally letter := by
  unfold shortEscape at h
  split at h
  · obtain rfl := Option.some.inj h; decide
  · obtain rfl := Option.some.inj h; decide
  · obtain rfl := Option.some.inj h; decide
  · obtain rfl := Option.some.inj h; decide
  · obtain rfl := Option.some.inj h; decide
  · obtain rfl := Option.some.inj h; decide
  · obtain rfl := Option.some.inj h; decide
  · obtain rfl := Option.some.inj h; decide
  · cases h

/-- A character of a string takes what it costs. -/
lemma StrChar.cost_le (s : StrChar) : charCost s.char ≤ tally s.text := by
  cases s with
  | plain c valid => exact Nat.le_of_eq (charCost_plain valid)
  | short letter valid =>
      exact shortEscape_cost (Option.some_get valid).symm
  | unicode digits valid =>
      have htext : tally (text (unicode digits valid)) = 2 + tally digits := by
        show 1 + (1 + tally digits) = _
        omega
      have hcost := charCost_le (char (unicode digits valid))
      omega

lemma stringCost_cons (c : Char) (cs : List Char) :
    stringCost (c :: cs) = charCost c + stringCost cs := rfl

lemma stringCost_append (cs cs' : List Char) :
    stringCost (cs ++ cs') = stringCost cs + stringCost cs' := by
  simp [stringCost]

/-- Characters of a string, as they are written. -/
lemma stringCost_chars_le (l : List StrChar) :
    stringCost (l.map StrChar.char) ≤ tally (l.flatMap StrChar.text) := by
  induction l with
  | nil => exact Nat.le_refl 0
  | cons s l ih =>
      rw [List.map_cons, List.flatMap_cons, stringCost_cons, tally_append]
      have hchar := s.cost_le
      omega

lemma tally_quoted (cs : List Char) : tally ('"' :: cs ++ ['"']) = 2 + tally cs := by
  show 1 + tally (cs ++ ['"']) = _
  rw [tally_append]
  show 1 + (tally cs + 1) = _
  omega

lemma keyText_cost (key : List StrChar) :
    2 + stringCost (keyName key).toList ≤ tally (keyText key) := by
  have hchars := stringCost_chars_le key
  rw [keyText, tally_quoted, keyName, String.toList_ofList]
  omega

lemma fieldsWeight_insertEntry (k : String) (v : Json) (l : List (String × Json)) :
    Json.fieldsWeight (OrderedMap.insertEntry k v l) ≤
      2 + stringCost k.toList + v.weight + Json.fieldsWeight l := by
  induction l with
  | nil => exact Nat.le_refl _
  | cons e l ih =>
      obtain ⟨k', v'⟩ := e
      rw [OrderedMap.insertEntry]
      split_ifs
      · exact Nat.le_refl _
      · simp only [Json.fieldsWeight]
        omega
      · simp only [Json.fieldsWeight]
        omega

/-- A new field adds all of its weight. -/
lemma fieldsWeight_insertEntry_new {k : String} {l : List (String × Json)} (v : Json)
    (h : ∀ e ∈ l, e.1 ≠ k) :
    Json.fieldsWeight (OrderedMap.insertEntry k v l) =
      2 + stringCost k.toList + v.weight + Json.fieldsWeight l := by
  induction l with
  | nil => rfl
  | cons e l ih =>
      obtain ⟨k', v'⟩ := e
      obtain ⟨hne, hl⟩ := List.forall_mem_cons.mp h
      rw [OrderedMap.insertEntry]
      split_ifs with hlt heq
      · rfl
      · exact absurd heq.symm hne
      · simp only [Json.fieldsWeight, ih hl]
        omega

lemma fieldsWeight_extendFields_le (l : List (String × Json)) :
    ∀ fields, Json.fieldsWeight (Json.extendFields fields l) ≤
      Json.fieldsWeight fields + Json.fieldsWeight l := by
  induction l with
  | nil => exact fun fields => Nat.le_refl _
  | cons e l ih =>
      intro fields
      obtain ⟨k, v⟩ := e
      have hrest := ih (OrderedMap.insertEntry k v fields)
      have hentry := fieldsWeight_insertEntry k v fields
      simp only [Json.extendFields, List.foldl_cons, Json.fieldsWeight] at hrest ⊢
      omega

/-- Fields with different names all count. -/
lemma fieldsWeight_extendFields {l : List (String × Json)} (hl : (l.map Prod.fst).Nodup) :
    ∀ fields, (∀ e ∈ fields, ∀ e' ∈ l, e.1 ≠ e'.1) →
      Json.fieldsWeight (Json.extendFields fields l) =
        Json.fieldsWeight fields + Json.fieldsWeight l := by
  induction l with
  | nil => exact fun fields _ => rfl
  | cons e l ih =>
      intro fields hfields
      obtain ⟨k, v⟩ := e
      obtain ⟨hk, hl⟩ := List.nodup_cons.mp hl
      have hentry := fieldsWeight_insertEntry_new (k := k) v
        fun e he => hfields e he (k, v) List.mem_cons_self
      have hrest := ih hl (OrderedMap.insertEntry k v fields) (by
        intro e he e' he'
        rcases OrderedMap.mem_insertEntry he with rfl | he
        · exact fun heq => hk (List.mem_map.mpr ⟨e', he', heq.symm⟩)
        · exact hfields e he e' (List.mem_cons_of_mem _ he'))
      simp only [Json.extendFields, List.foldl_cons, Json.fieldsWeight] at hrest ⊢
      omega

section

variable {H : Type} {number : String → String} {slot : List (StrPiece H) → List Char}
  {bare : H → List Char} {slot' : List (StrPiece H) → Json} {bare' : H → Json}

mutual

/-- The text of a document takes what its value does. -/
lemma Doc.weight_le (d : Doc H) (hslot : ∀ ps ∈ d.slots, (slot' ps).weight ≤ tally (slot ps))
    (hbare : ∀ h ∈ d.bares, (bare' h).weight ≤ tally (bare h)) :
    (d.value number slot' bare').weight ≤ tally (d.flat id slot bare) := by
  cases d with
  | null => exact Nat.le_refl 1
  | bool b =>
      cases b with
      | false => exact Nat.zero_le _
      | true => exact Nat.le_refl 1
  | num text valid => exact Nat.zero_le _
  | str pieces => exact hslot pieces List.mem_cons_self
  | hole h => exact hbare h List.mem_cons_self
  | arr blank items =>
      have hitems := items.weight_le hslot hbare
      simp only [Doc.value, Json.weight, Doc.flat, tally_cons, tally_append]
      omega
  | obj blank fields =>
      have hfields := fields.weight_le hslot hbare
      have hmembers := fieldsWeight_extendFields_le (fields.values number slot' bare') []
      simp only [Doc.value, Json.weight, Doc.flat, tally_cons, tally_append]
      simp only [Json.fieldsWeight] at hmembers
      omega

lemma Items.weight_le (l : Items H) (hslot : ∀ ps ∈ l.slots, (slot' ps).weight ≤ tally (slot ps))
    (hbare : ∀ h ∈ l.bares, (bare' h).weight ≤ tally (bare h)) :
    Json.itemsWeight (l.values number slot' bare') ≤ tally (l.flat id slot bare) := by
  cases l with
  | nil => exact Nat.zero_le _
  | cons before v after rest =>
      simp only [Items.slots, Items.bares, List.forall_mem_append] at hslot hbare
      have hv := v.weight_le hslot.1 hbare.1
      have hrest := rest.weight_le hslot.2 hbare.2
      simp only [Items.values, Json.itemsWeight, Items.flat, tally_append]
      omega

lemma Fields.weight_le (l : Fields H)
    (hslot : ∀ ps ∈ l.slots, (slot' ps).weight ≤ tally (slot ps))
    (hbare : ∀ h ∈ l.bares, (bare' h).weight ≤ tally (bare h)) :
    Json.fieldsWeight (l.values number slot' bare') ≤ tally (l.flat id slot bare) := by
  cases l with
  | nil => exact Nat.zero_le _
  | cons before key afterKey beforeValue v after rest =>
      simp only [Fields.slots, Fields.bares, List.forall_mem_append] at hslot hbare
      have hv := v.weight_le hslot.1 hbare.1
      have hrest := rest.weight_le hslot.2 hbare.2
      have hkey := keyText_cost key
      simp only [Fields.values, Json.fieldsWeight, Fields.flat, tally_append, tally_cons,
        List.map_id]
      omega

end

end

lemma stringText_weight {pieces : List (StrPiece Empty)} :
    (stringValue Empty.elim pieces).weight ≤ tally (stringText Empty.elim pieces) := by
  have hparts : stringCost (pieces.flatMap (StrPiece.chars Empty.elim)) ≤
      tally (pieces.flatMap (StrPiece.text Empty.elim)) := by
    induction pieces with
    | nil => exact Nat.le_refl 0
    | cons piece pieces ih =>
        cases piece with
        | hole h => exact h.elim
        | char s =>
            have hchar := s.cost_le
            rw [List.flatMap_cons, List.flatMap_cons, stringCost_append, tally_append]
            exact Nat.add_le_add hchar ih
  rw [stringText, tally_quoted, stringValue, Json.weight, String.toList_ofList, stringChars]
  omega

lemma Document.weight_le (number : String → String) (d : Document) :
    (d.value number).weight ≤ tally d.text.toList := by
  have hroot : (d.root.value number (stringValue Empty.elim) Empty.elim).weight ≤
      tally (d.root.flat id (stringText Empty.elim) Empty.elim) :=
    d.root.weight_le (fun ps _ => stringText_weight) fun h _ => h.elim
  rw [text, String.toList_ofList, tally_append, tally_append]
  exact Nat.le_trans hroot (by omega)

/-! ### The compact text -/

lemma escapeChar_cost (c : Char) : charCost c ≤ tally (Json.escapeChar c) := by
  unfold Json.escapeChar
  split_ifs with h₁ h₂ h₃ h₄ h₅ h₆ h₇ h₈
  · rw [h₁]; decide
  · rw [h₂]; decide
  · rw [h₃]; decide
  · rw [h₄]; decide
  · rw [h₅]; decide
  · rw [h₆]; decide
  · rw [h₇]; decide
  · have hcost := charCost_le c
    simp only [tally_cons]
    have hback : charTally '\\' = 1 := rfl
    have hu : charTally 'u' = 1 := rfl
    omega
  · have hplain : isPlainChar c = true := by
      simp only [isPlainChar, Bool.and_eq_true, decide_eq_true_eq]
      exact ⟨⟨Nat.le_of_not_lt h₈, h₁⟩, h₂⟩
    rw [charCost_plain hplain]
    exact Nat.le_refl _

lemma printString_cost (s : String) :
    2 + stringCost s.toList ≤ tally (Json.printString s).toList := by
  have hchars : ∀ cs : List Char, stringCost cs ≤ tally (cs.flatMap Json.escapeChar) := by
    intro cs
    induction cs with
    | nil => exact Nat.le_refl 0
    | cons c cs ih =>
        rw [List.flatMap_cons, stringCost_cons, tally_append]
        exact Nat.add_le_add (escapeChar_cost c) ih
  have htext : (Json.printString s).toList = '"' :: s.toList.flatMap Json.escapeChar ++ ['"'] := by
    simp [Json.printString]
  rw [htext, tally_quoted]
  exact Nat.add_le_add_left (hchars s.toList) 2

/-- A joined text has what its parts have. -/
lemma tally_join (sep : String) (parts : List String) :
    (parts.map fun part => tally part.toList).sum ≤ tally (Text.join sep parts).toList := by
  induction parts with
  | nil => exact Nat.zero_le _
  | cons part parts ih =>
      by_cases hparts : parts = []
      · rw [hparts, Text.join_singleton]
        exact Nat.le_refl _
      · rw [Text.join_cons sep part hparts, List.map_cons, List.sum_cons]
        simp only [String.toList_append, tally_append]
        omega

mutual

/-- The compact text of a value takes what the value does. -/
lemma Json.weight_le_print (v : Json) : v.weight ≤ tally v.print.toList := by
  cases v with
  | null => exact Nat.le_of_eq (by decide)
  | bool b => cases b <;> exact Nat.le_of_eq (by decide)
  | num text => exact Nat.zero_le _
  | str s => exact printString_cost s
  | arr items =>
      have hitems := Json.itemsWeight_le_print items
      have hjoin := tally_join "," (Json.printItems items)
      simp only [Json.weight, Json.print, String.toList_append, tally_append]
      omega
  | obj fields =>
      have hfields := Json.fieldsWeight_le_print fields
      have hjoin := tally_join "," (Json.printFields fields)
      simp only [Json.weight, Json.print, String.toList_append, tally_append]
      omega

lemma Json.itemsWeight_le_print (l : List Json) :
    Json.itemsWeight l ≤ ((Json.printItems l).map fun part => tally part.toList).sum := by
  cases l with
  | nil => exact Nat.zero_le _
  | cons v vs =>
      have hv := Json.weight_le_print v
      have hvs := Json.itemsWeight_le_print vs
      rw [Json.itemsWeight, Json.printItems, List.map_cons, List.sum_cons]
      omega

lemma Json.fieldsWeight_le_print (l : List (String × Json)) :
    Json.fieldsWeight l ≤ ((Json.printFields l).map fun part => tally part.toList).sum := by
  cases l with
  | nil => exact Nat.zero_le _
  | cons e fields =>
      obtain ⟨k, v⟩ := e
      have hk := printString_cost k
      have hv := Json.weight_le_print v
      have hfields := Json.fieldsWeight_le_print fields
      rw [Json.fieldsWeight, Json.printFields, List.map_cons, List.sum_cons]
      simp only [String.toList_append, tally_append]
      omega

end

/-- A text of a value takes what the value does. -/
theorem Serializes.weight_le {number : String → String} {text : String} {v : Json}
    (h : Serializes number text v) : v.weight ≤ tally text.toList := by
  rcases h with rfl | ⟨d, rfl, rfl⟩
  · exact v.weight_le_print
  · exact d.weight_le number

/-! ### Documents written without escapes -/

def StrChar.isPlain : StrChar → Bool
  | plain .. => true
  | _ => false

lemma StrChar.tally_plain {s : StrChar} (h : s.isPlain = true) : tally s.text = charCost s.char := by
  cases s with
  | plain c valid => exact (charCost_plain valid).symm
  | short | unicode => cases h

section

variable {H : Type}

def Fields.names : Fields H → List String
  | .nil => []
  | .cons _ key _ _ _ _ rest => keyName key :: rest.names

mutual

/-- The names of the members of an object differ and are written without escapes. -/
def Doc.PlainKeys : Doc H → Prop
  | .arr _ items => items.PlainKeys
  | .obj _ fields => fields.names.Nodup ∧ fields.PlainKeys
  | _ => True

def Items.PlainKeys : Items H → Prop
  | .nil => True
  | .cons _ v _ rest => v.PlainKeys ∧ rest.PlainKeys

def Fields.PlainKeys : Fields H → Prop
  | .nil => True
  | .cons _ key _ _ v _ rest => (∀ s ∈ key, s.isPlain = true) ∧ v.PlainKeys ∧ rest.PlainKeys

end

lemma keyText_tally {key : List StrChar} (h : ∀ s ∈ key, s.isPlain = true) :
    tally (keyText key) = 2 + stringCost (keyName key).toList := by
  have hchars : tally (key.flatMap StrChar.text) = stringCost (key.map StrChar.char) := by
    induction key with
    | nil => rfl
    | cons s key ih =>
        obtain ⟨hs, hkey⟩ := List.forall_mem_cons.mp h
        rw [List.flatMap_cons, List.map_cons, tally_append, s.tally_plain hs, ih hkey]
        rfl
  rw [keyText, tally_quoted, hchars, keyName, String.toList_ofList]

variable {number : String → String} {slot : List (StrPiece H) → List Char}
  {bare : H → List Char} {slot' : List (StrPiece H) → Json} {bare' : H → Json}

lemma Fields.values_names (l : Fields H) :
    (l.values number slot' bare').map Prod.fst = l.names := by
  cases l with
  | nil => rfl
  | cons before key afterKey beforeValue v after rest =>
      rw [Fields.values, Fields.names, List.map_cons, rest.values_names]

mutual

/-- A document without escapes takes no more than its value, when its strings and holes do not; and
as much only when each of them does. -/
lemma Doc.tally_le (d : Doc H) (hkeys : d.PlainKeys)
    (hslot : ∀ ps ∈ d.slots, tally (slot ps) ≤ (slot' ps).weight)
    (hbare : ∀ h ∈ d.bares, tally (bare h) ≤ (bare' h).weight) :
    tally (d.flat id slot bare) ≤ (d.value number slot' bare').weight ∧
      ((d.value number slot' bare').weight ≤ tally (d.flat id slot bare) →
        (∀ ps ∈ d.slots, (slot' ps).weight ≤ tally (slot ps)) ∧
          ∀ h ∈ d.bares, (bare' h).weight ≤ tally (bare h)) := by
  cases d with
  | null => exact ⟨Nat.le_refl 1, fun _ => ⟨nofun, nofun⟩⟩
  | bool b =>
      cases b with
      | false => exact ⟨Nat.le_refl 0, fun _ => ⟨nofun, nofun⟩⟩
      | true => exact ⟨Nat.le_refl 1, fun _ => ⟨nofun, nofun⟩⟩
  | num text valid =>
      refine ⟨?_, fun _ => ⟨nofun, nofun⟩⟩
      show tally (text.map id) ≤ 0
      rw [List.map_id, tally_number valid]
  | str pieces =>
      exact ⟨hslot pieces List.mem_cons_self,
        fun h => ⟨List.forall_mem_singleton.mpr h, nofun⟩⟩
  | hole h =>
      exact ⟨hbare h List.mem_cons_self, fun hle => ⟨nofun, List.forall_mem_singleton.mpr hle⟩⟩
  | arr blank items =>
      obtain ⟨hitems, heq⟩ := items.tally_le hkeys hslot hbare
      have hblank := tally_layout blank
      have htext : tally ((Doc.arr blank items).flat id slot bare) =
          tally (items.flat id slot bare) := by
        have hopen : charTally '[' = 0 := rfl
        have hclose : charTally ']' = 0 := rfl
        simp only [Doc.flat, id, tally_cons, tally_append, List.map_id, tally_nil]
        omega
      rw [htext]
      exact ⟨hitems, heq⟩
  | obj blank fields =>
      obtain ⟨hnodup, hkeys⟩ := hkeys
      obtain ⟨hfields, heq⟩ := fields.tally_le hkeys hslot hbare
      have hblank := tally_layout blank
      have htext : tally ((Doc.obj blank fields).flat id slot bare) =
          tally (fields.flat id slot bare) := by
        have hopen : charTally '\x7b' = 0 := rfl
        have hclose : charTally '\x7d' = 0 := rfl
        simp only [Doc.flat, id, tally_cons, tally_append, List.map_id, tally_nil]
        omega
      have hvalue : ((Doc.obj blank fields).value number slot' bare').weight =
          Json.fieldsWeight (fields.values number slot' bare') := by
        have hall := fieldsWeight_extendFields
          (l := fields.values number slot' bare') (by rwa [fields.values_names]) [] nofun
        rw [Doc.value, Json.weight, hall]
        exact Nat.zero_add _
      rw [htext, hvalue]
      exact ⟨hfields, heq⟩

lemma Items.tally_le (l : Items H) (hkeys : l.PlainKeys)
    (hslot : ∀ ps ∈ l.slots, tally (slot ps) ≤ (slot' ps).weight)
    (hbare : ∀ h ∈ l.bares, tally (bare h) ≤ (bare' h).weight) :
    tally (l.flat id slot bare) ≤ Json.itemsWeight (l.values number slot' bare') ∧
      (Json.itemsWeight (l.values number slot' bare') ≤ tally (l.flat id slot bare) →
        (∀ ps ∈ l.slots, (slot' ps).weight ≤ tally (slot ps)) ∧
          ∀ h ∈ l.bares, (bare' h).weight ≤ tally (bare h)) := by
  cases l with
  | nil => exact ⟨Nat.le_refl 0, fun _ => ⟨nofun, nofun⟩⟩
  | cons before v after rest =>
      simp only [Items.slots, Items.bares, List.forall_mem_append] at hslot hbare
      obtain ⟨hv, hveq⟩ := v.tally_le hkeys.1 hslot.1 hbare.1
      obtain ⟨hrest, hresteq⟩ := rest.tally_le hkeys.2 hslot.2 hbare.2
      have hbefore := tally_layout before
      have hafter := tally_layout after
      have hcomma : tally (rest.comma id) = 0 := by cases rest <;> rfl
      simp only [Items.flat, Items.values, Json.itemsWeight, Items.slots, Items.bares,
        tally_append, List.map_id, List.forall_mem_append]
      refine ⟨by omega, fun hle => ?_⟩
      obtain ⟨hvs, hvb⟩ := hveq (by omega)
      obtain ⟨hrs, hrb⟩ := hresteq (by omega)
      exact ⟨⟨hvs, hrs⟩, hvb, hrb⟩

lemma Fields.tally_le (l : Fields H) (hkeys : l.PlainKeys)
    (hslot : ∀ ps ∈ l.slots, tally (slot ps) ≤ (slot' ps).weight)
    (hbare : ∀ h ∈ l.bares, tally (bare h) ≤ (bare' h).weight) :
    tally (l.flat id slot bare) ≤ Json.fieldsWeight (l.values number slot' bare') ∧
      (Json.fieldsWeight (l.values number slot' bare') ≤ tally (l.flat id slot bare) →
        (∀ ps ∈ l.slots, (slot' ps).weight ≤ tally (slot ps)) ∧
          ∀ h ∈ l.bares, (bare' h).weight ≤ tally (bare h)) := by
  cases l with
  | nil => exact ⟨Nat.le_refl 0, fun _ => ⟨nofun, nofun⟩⟩
  | cons before key afterKey beforeValue v after rest =>
      simp only [Fields.slots, Fields.bares, List.forall_mem_append] at hslot hbare
      obtain ⟨hkey, hvkeys, hrkeys⟩ := hkeys
      obtain ⟨hv, hveq⟩ := v.tally_le hvkeys hslot.1 hbare.1
      obtain ⟨hrest, hresteq⟩ := rest.tally_le hrkeys hslot.2 hbare.2
      have hblank := fun blank => tally_layout blank
      have hcomma : tally (rest.comma id) = 0 := by cases rest <;> rfl
      have hcolon : charTally ':' = 0 := rfl
      have hname := keyText_tally hkey
      simp only [Fields.flat, Fields.values, Json.fieldsWeight, Fields.slots, Fields.bares, id,
        tally_append, tally_cons, List.map_id, hblank, List.forall_mem_append]
      refine ⟨by omega, fun hle => ?_⟩
      obtain ⟨hvs, hvb⟩ := hveq (by omega)
      obtain ⟨hrs, hrb⟩ := hresteq (by omega)
      exact ⟨⟨hvs, hrs⟩, hvb, hrb⟩

end

end

end Http
end Pawrly
