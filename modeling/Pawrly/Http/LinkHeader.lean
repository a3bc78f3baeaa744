import Pawrly.Http.Paginate

/-!
# Link headers

Link-values and the header they are written as: the target between angle brackets, and parameters
with a token or a quoted string for a value, with blanks where the grammar allows them.  The next
page is the target of the first link-value that has the relation type `next` and no `results=false`
(`nextTarget`).

`parse_link_next` cuts the header at every comma and semicolon, and takes a stretch for the
attribute only when it is written as `rel=next`, with any quotes around the value.
`parseLinkNext_eq_iff` says for which headers it finds the next page all the same.
-/

namespace Pawrly
namespace Http

/-! ## The grammar -/

/-- Optional white space. -/
abbrev Blanks := { cs : List Char // ∀ c ∈ cs, c = ' ' ∨ c = '\t' }

def isTokenChar (c : Char) : Bool := c.isAlphanum || "!#$%&'*+-.^_`|~".toList.contains c

/-- A token. -/
structure Token where
  chars : List Char
  nonempty : chars ≠ []
  valid : ∀ c ∈ chars, isTokenChar c = true

/-- A character of a quoted string that is not escaped. -/
def isQuotedText (c : Char) : Bool :=
  c = '\t' || (32 ≤ c.toNat && c ≠ '"' && c ≠ '\\' && c.toNat ≠ 127)

/-- A character that may be escaped in a quoted string. -/
def isQuotable (c : Char) : Bool := c = '\t' || (32 ≤ c.toNat && c.toNat ≠ 127)

inductive QuotedChar
  | plain (c : Char) (valid : isQuotedText c = true)
  | escaped (c : Char) (valid : isQuotable c = true)

inductive ParamValue
  | token (t : Token)
  | quoted (cs : List QuotedChar)

/-- A parameter of a link-value, with the blanks around its semicolon and its equals sign. -/
structure LinkParam where
  beforeSemicolon : Blanks
  afterSemicolon : Blanks
  name : Token
  value : Option (Blanks × Blanks × ParamValue)

/-- A character of a URL. -/
def isUrlChar (c : Char) : Bool := 33 ≤ c.toNat && c.toNat < 127 && c ≠ '<' && c ≠ '>'

/-- A link-value of a list, with the blanks around it. -/
structure LinkValue where
  before : Blanks
  target : List Char
  valid : ∀ c ∈ target, isUrlChar c = true
  params : List LinkParam
  after : Blanks

/-! ### How they are written -/

def QuotedChar.text : QuotedChar → List Char
  | plain c _ => [c]
  | escaped c _ => ['\\', c]

def ParamValue.text : ParamValue → List Char
  | token t => t.chars
  | quoted cs => '"' :: cs.flatMap QuotedChar.text ++ ['"']

/-- A parameter without its semicolon and the blanks around that. -/
def LinkParam.attr (p : LinkParam) : List Char :=
  p.name.chars ++ p.value.elim [] fun v => v.1.1 ++ '=' :: v.2.1.1 ++ v.2.2.text

def LinkParam.text (p : LinkParam) : List Char :=
  p.beforeSemicolon.1 ++ ';' :: p.afterSemicolon.1 ++ p.attr

def LinkValue.text (l : LinkValue) : List Char :=
  l.before.1 ++ '<' :: l.target ++ '>' :: l.params.flatMap LinkParam.text ++ l.after.1

/-- The header of the link-values. -/
def linkHeader (links : List LinkValue) : String :=
  Text.join "," (links.map fun l => String.ofList l.text)

/-! ### What they mean -/

def QuotedChar.char : QuotedChar → Char
  | plain c _ => c
  | escaped c _ => c

def ParamValue.value : ParamValue → String
  | token t => String.ofList t.chars
  | quoted cs => String.ofList (cs.map QuotedChar.char)

/-- A parameter has a name, in any case. -/
def LinkParam.isNamed (name : String) (p : LinkParam) : Bool :=
  (String.ofList p.name.chars).toLower = name

/-- The relation types, in lower case: the words of the first `rel`; later ones are ignored. -/
def LinkValue.relationTypes (l : LinkValue) : List String :=
  match (l.params.find? (LinkParam.isNamed "rel")).bind LinkParam.value with
  | some (_, _, v) => ((Text.split ' ' v.value).filter (· ≠ "")).map String.toLower
  | none => []

/-- A parameter says that there are no results. -/
def LinkParam.isResultsFalse (p : LinkParam) : Bool :=
  p.isNamed "results" && p.value.any fun v => v.2.2.value = "false"

/-- The link-value leads to the next page. -/
def LinkValue.IsNext (l : LinkValue) : Prop :=
  "next" ∈ l.relationTypes ∧ ∀ p ∈ l.params, p.isResultsFalse = false

instance (l : LinkValue) : Decidable l.IsNext :=
  inferInstanceAs (Decidable (_ ∧ _))

/-- The target of the first link-value that leads to the next page. -/
def nextTarget (links : List LinkValue) : Option String :=
  links.findSome? fun l => if l.IsNext then some (String.ofList l.target) else none

/-! ## How they are read -/

/-- A stretch is the attribute `name=value`, with quotes around the value and blanks around it
all. -/
def WrittenAs (name value stretch : List Char) : Prop :=
  ∃ ws q q' ws', (∀ c ∈ ws, Text.isWhitespace c = true) ∧ (∀ c ∈ ws', Text.isWhitespace c = true) ∧
    (∀ c ∈ q, c = '"' ∨ c = '\'') ∧ (∀ c ∈ q', c = '"' ∨ c = '\'') ∧
    stretch = ws ++ (name ++ '=' :: q ++ value ++ q') ++ ws'

/-- A text without the blanks around it, and then without the brackets around that. -/
def bareUrl (cs : List Char) : String :=
  Text.trimEndChar '>' (Text.trimStartMatches "<" (Text.trim (String.ofList cs)))

/-- What stands between two commas is taken for the next page at a URL: a stretch after the first
is written as `rel=next`, none as `results=false`. -/
structure TakenFor (piece : List Char) (url : String) : Prop where
  next : ∃ s ∈ (piece.splitOn ';').tail, WrittenAs "rel".toList "next".toList s
  results : ∀ s ∈ (piece.splitOn ';').tail, ¬ WrittenAs "results".toList "false".toList s
  target : url = bareUrl ((piece.splitOn ';').headD [])
  nonempty : url ≠ ""

/-- No piece of the link-value between its commas is taken for the next page. -/
def LinkValue.Unread (l : LinkValue) : Prop :=
  ∀ piece ∈ l.text.splitOn ',', ∀ url, ¬ TakenFor piece url

/-- The first piece of the link-value that is taken for the next page has the URL. -/
def LinkValue.ReadAs (l : LinkValue) (url : String) : Prop :=
  ∃ before piece after, l.text.splitOn ',' = before ++ piece :: after ∧ TakenFor piece url ∧
    ∀ piece' ∈ before, ∀ url', ¬ TakenFor piece' url'

/-- The first link-value that a piece of is taken for the next page is read as the URL. -/
def FirstReadAs (links : List LinkValue) (url : String) : Prop :=
  ∃ before l after, links = before ++ l :: after ∧ l.ReadAs url ∧ ∀ l' ∈ before, l'.Unread

/-- The link-values are read in order: those that neither lead to the next page nor are read are
passed over, and the first other one leads to the next page and is read as its target; or one that
is mistaken or missed has the target that is due after it. -/
inductive ReadsRight : List LinkValue → Prop
  | nil : ReadsRight []
  | pass {l : LinkValue} {links : List LinkValue} :
      ¬ l.IsNext → l.Unread → ReadsRight links → ReadsRight (l :: links)
  | read {l : LinkValue} {links : List LinkValue} :
      l.IsNext → l.ReadAs (String.ofList l.target) → ReadsRight (l :: links)
  | mistaken {l : LinkValue} {links : List LinkValue} {url : String} :
      ¬ l.IsNext → l.ReadAs url → nextTarget links = some url → ReadsRight (l :: links)
  | missed {l : LinkValue} {links : List LinkValue} :
      l.IsNext → l.Unread → FirstReadAs links (String.ofList l.target) → ReadsRight (l :: links)

/-! ## Reading a piece -/

lemma linkAttr_eq_some {name value attr : String} (hne : value ≠ "")
    (hhead : ∀ c ∈ value.toList.head?, ¬ (c = '"' ∨ c = '\''))
    (hlast : ∀ c ∈ value.toList.getLast?, ¬ (c = '"' ∨ c = '\'')) :
    linkAttr name attr = some value ↔
      ∃ q q', (∀ c ∈ q, c = '"' ∨ c = '\'') ∧ (∀ c ∈ q', c = '"' ∨ c = '\'') ∧
        attr.toList = name.toList ++ (q ++ value.toList ++ q') := by
  have hquote : ∀ c, ['"', '\''].contains c = true ↔ c = '"' ∨ c = '\'' := by
    intro c
    simp
  have htrim : ∀ v : String, Text.trimChars ['"', '\''] v = value ↔
      ∃ q q', (∀ c ∈ q, c = '"' ∨ c = '\'') ∧ (∀ c ∈ q', c = '"' ∨ c = '\'') ∧
        v.toList = q ++ value.toList ++ q' := by
    intro v
    rw [Text.trimChars_eq, ← String.toList_inj, String.toList_ofList, Text.trimBoth_eq_iff]
    · simp only [hquote]
    · simpa using hne
    · intro c hc
      rw [← Bool.not_eq_true, hquote]
      exact hhead c hc
    · intro c hc
      rw [← Bool.not_eq_true, hquote]
      exact hlast c hc
  unfold linkAttr
  rw [Option.map_eq_some_iff]
  constructor
  · rintro ⟨v, hv, heq⟩
    obtain ⟨q, q', hq, hq', hv'⟩ := (htrim v).mp heq
    refine ⟨q, q', hq, hq', ?_⟩
    rw [Text.stripPrefix_eq_some.mp hv, hv']
  · rintro ⟨q, q', hq, hq', h⟩
    refine ⟨String.ofList (q ++ value.toList ++ q'), ?_, ?_⟩
    · rw [Text.stripPrefix_eq_some, String.toList_ofList, h]
    · exact (htrim _).mpr ⟨q, q', hq, hq', String.toList_ofList⟩

lemma isWhitespace_of_quote {c : Char} (h : c = '"' ∨ c = '\'') : Text.isWhitespace c = false := by
  rcases h with rfl | rfl <;> decide

lemma getLast?_append_quotes {l q : List Char}
    (hl : ∀ c ∈ l.getLast?, Text.isWhitespace c = false) (hq : ∀ c ∈ q, c = '"' ∨ c = '\'') :
    ∀ c ∈ (l ++ q).getLast?, Text.isWhitespace c = false := by
  intro c hc
  rw [List.getLast?_append] at hc
  cases hlast : q.getLast? with
  | none =>
      rw [hlast] at hc
      exact hl c hc
  | some d =>
      rw [hlast] at hc
      cases hc
      exact isWhitespace_of_quote (hq c (List.mem_of_getLast? hlast))

/-- The attribute of a trimmed stretch, as it is written in the stretch. -/
lemma linkAttr_trim {name value : String} {stretch : List Char} (hname : name ≠ "")
    (hstart : ∀ c ∈ name.toList.head?, Text.isWhitespace c = false) (hvalue : value ≠ "")
    (hhead : ∀ c ∈ value.toList.head?, ¬ (c = '"' ∨ c = '\''))
    (hlast : ∀ c ∈ value.toList.getLast?, ¬ (c = '"' ∨ c = '\'') ∧ Text.isWhitespace c = false) :
    linkAttr (name ++ "=") (Text.trim (String.ofList stretch)) = some value ↔
      WrittenAs name.toList value.toList stretch := by
  rw [linkAttr_eq_some hvalue hhead fun c hc => (hlast c hc).1]
  have htrim : ∀ q q' : List Char, (∀ c ∈ q', c = '"' ∨ c = '\'') →
      ((Text.trim (String.ofList stretch)).toList =
          (name ++ "=").toList ++ (q ++ value.toList ++ q') ↔
        ∃ ws ws', (∀ c ∈ ws, Text.isWhitespace c = true) ∧ (∀ c ∈ ws', Text.isWhitespace c = true) ∧
          stretch = ws ++ (name.toList ++ '=' :: q ++ value.toList ++ q') ++ ws') := by
    intro q q' hq'
    have hshape : (name ++ "=").toList ++ (q ++ value.toList ++ q') =
        name.toList ++ '=' :: q ++ value.toList ++ q' := by
      simp
    rw [hshape, Text.trim_eq, String.toList_ofList, String.toList_ofList, Text.trimBoth_eq_iff]
    · simp
    · intro c hc
      obtain ⟨a, as, ha⟩ := List.exists_cons_of_ne_nil (by simpa using hname : name.toList ≠ [])
      rw [ha] at hc
      cases hc
      exact hstart c (by rw [ha]; rfl)
    · refine getLast?_append_quotes ?_ hq'
      intro c hc
      obtain ⟨as, a, ha⟩ := List.eq_nil_or_concat' value.toList |>.resolve_left (by simpa using hvalue)
      rw [ha, ← List.append_assoc, List.getLast?_concat] at hc
      cases hc
      exact (hlast c (by rw [ha, List.getLast?_concat]; rfl)).2
  constructor
  · rintro ⟨q, q', hq, hq', h⟩
    obtain ⟨ws, ws', hws, hws', heq⟩ := (htrim q q' hq').mp h
    exact ⟨ws, q, q', ws', hws, hws', hq, hq', heq⟩
  · rintro ⟨ws, q, q', ws', hws, hws', hq, hq', heq⟩
    exact ⟨q, q', hq, hq', (htrim q q' hq').mpr ⟨ws, ws', hws, hws', heq⟩⟩

lemma isNextAttr_iff (stretch : List Char) :
    isNextAttr (Text.trim (String.ofList stretch)) = true ↔
      WrittenAs "rel".toList "next".toList stretch := by
  have hrel : linkAttr ("rel" ++ "=") (Text.trim (String.ofList stretch)) = some "next" ↔
      WrittenAs "rel".toList "next".toList stretch :=
    linkAttr_trim (by decide) (by rintro c ⟨⟩; decide) (by decide) (by rintro c ⟨⟩; decide)
      (by rintro c ⟨⟩; decide)
  rw [← hrel]
  exact decide_eq_true_iff

lemma isEmptyAttr_iff (stretch : List Char) :
    isEmptyAttr (Text.trim (String.ofList stretch)) = true ↔
      WrittenAs "results".toList "false".toList stretch := by
  have hresults : linkAttr ("results" ++ "=") (Text.trim (String.ofList stretch)) = some "false" ↔
      WrittenAs "results".toList "false".toList stretch :=
    linkAttr_trim (by decide) (by rintro c ⟨⟩; decide) (by decide) (by rintro c ⟨⟩; decide)
      (by rintro c ⟨⟩; decide)
  rw [← hresults, show "results" ++ "=" = "results=" from rfl]
  unfold isEmptyAttr
  rw [Bool.and_eq_true, decide_eq_true_eq, and_iff_right_iff_imp]
  -- A text that begins with `results=` does not begin with `rel=`.
  intro h
  generalize Text.trim (String.ofList stretch) = attr at h
  rw [Option.isNone_iff_eq_none]
  by_contra hrel
  obtain ⟨v, hv⟩ := Option.ne_none_iff_exists'.mp hrel
  obtain ⟨w, hw, _⟩ := Option.map_eq_some_iff.mp hv
  obtain ⟨w', hw', _⟩ := Option.map_eq_some_iff.mp h
  rw [Text.stripPrefix_eq_some] at hw hw'
  rw [hw] at hw'
  cases hw'

/-- The code finds the next page in a piece exactly when the piece is taken for it. -/
lemma linkTarget_eq_some {piece : List Char} {url : String} :
    linkTarget (String.ofList piece) = some url ↔ TakenFor piece url := by
  obtain ⟨head, stretches, hsplit⟩ :=
    List.exists_cons_of_ne_nil (List.splitOn_ne_nil ';' piece)
  have htext : Text.split ';' (String.ofList piece) =
      String.ofList head :: stretches.map String.ofList := by
    unfold Text.split
    rw [String.toList_ofList, hsplit]
    rfl
  have hnext : ((stretches.map String.ofList).map Text.trim).any isNextAttr = true ↔
      ∃ s ∈ stretches, WrittenAs "rel".toList "next".toList s := by
    simp only [List.map_map, List.any_map, List.any_eq_true, Function.comp_apply, isNextAttr_iff]
  have hempty : ((stretches.map String.ofList).map Text.trim).any isEmptyAttr = false ↔
      ∀ s ∈ stretches, ¬ WrittenAs "results".toList "false".toList s := by
    rw [← Bool.not_eq_true]
    simp only [List.map_map, List.any_map, List.any_eq_true, Function.comp_apply, isEmptyAttr_iff,
      not_exists, not_and]
  unfold linkTarget
  rw [htext]
  show (if bareUrl head = "" then none
    else if ((stretches.map String.ofList).map Text.trim).any isNextAttr &&
      !((stretches.map String.ofList).map Text.trim).any isEmptyAttr then some (bareUrl head)
    else none) = some url ↔ _
  have hhead : bareUrl ((piece.splitOn ';').headD []) = bareUrl head := by rw [hsplit]; rfl
  have htail : (piece.splitOn ';').tail = stretches := by rw [hsplit]; rfl
  constructor
  · intro h
    generalize bareUrl head = target at h hhead
    split_ifs at h with hne hread
    have hurl : target = url := Option.some.inj h
    rw [Bool.and_eq_true, Bool.not_eq_true', hnext, hempty] at hread
    refine ⟨?_, ?_, ?_, ?_⟩
    · rw [htail]
      exact hread.1
    · rw [htail]
      exact hread.2
    · rw [hhead, hurl]
    · rw [← hurl]
      exact hne
  · rintro ⟨hread, hresults, htarget, hne⟩
    rw [htail] at hread hresults
    rw [hhead] at htarget
    rw [← htarget, if_neg hne, if_pos]
    rw [Bool.and_eq_true, Bool.not_eq_true', hnext, hempty]
    exact ⟨hread, hresults⟩

/-! ## Reading a header -/

/-- What the code reads from a link-value on its own. -/
def LinkValue.read? (l : LinkValue) : Option String :=
  (Text.split ',' (String.ofList l.text)).findSome? linkTarget

lemma LinkValue.read?_eq_some {l : LinkValue} {url : String} :
    l.read? = some url ↔ l.ReadAs url := by
  have hnone : ∀ piece, linkTarget (String.ofList piece) = none ↔ ∀ url, ¬ TakenFor piece url := by
    intro piece
    simp only [Option.eq_none_iff_forall_ne_some, ne_eq, linkTarget_eq_some]
  unfold read? Text.split ReadAs
  rw [String.toList_ofList, List.findSome?_map, List.findSome?_eq_some_iff]
  simp only [Function.comp_apply, linkTarget_eq_some, hnone]

lemma LinkValue.read?_eq_none {l : LinkValue} : l.read? = none ↔ l.Unread := by
  unfold read? Text.split Unread
  rw [String.toList_ofList, List.findSome?_map, List.findSome?_eq_none_iff]
  simp only [Function.comp_apply, Option.eq_none_iff_forall_ne_some, ne_eq, linkTarget_eq_some]

lemma linkHeader_cons (l : LinkValue) {links : List LinkValue} (h : links ≠ []) :
    linkHeader (l :: links) = String.ofList (l.text ++ ',' :: (linkHeader links).toList) := by
  unfold linkHeader
  rw [List.map_cons, Text.join_cons _ _ (by simpa using h), ← String.toList_inj]
  simp

lemma linkHeader_singleton (l : LinkValue) : linkHeader [l] = String.ofList l.text := by
  simp [linkHeader, Text.join]

/-- A header is cut into the pieces of its link-values. -/
lemma findSome?_linkHeader (links : List LinkValue) :
    (Text.split ',' (linkHeader links)).findSome? linkTarget = links.findSome? LinkValue.read? := by
  induction links with
  | nil => decide
  | cons l links ih =>
      cases links with
      | nil =>
          rw [linkHeader_singleton, List.findSome?_cons, List.findSome?_nil]
          show l.read? = _
          cases l.read? <;> rfl
      | cons l' links =>
          rw [linkHeader_cons l (List.cons_ne_nil _ _), Text.split_ofList_append,
            String.ofList_toList, List.findSome?_append, ih]
          conv_rhs => rw [List.findSome?_cons]
          show l.read?.or _ = _
          cases l.read? <;> rfl

/-- All bytes of the header can be read as text. -/
def Legible (links : List LinkValue) : Prop := ∀ l ∈ links, ∀ c ∈ l.text, isVisibleAscii c = true

instance (links : List LinkValue) : Decidable (Legible links) :=
  inferInstanceAs (Decidable (∀ l ∈ links, ∀ c ∈ l.text, isVisibleAscii c = true))

lemma legible_iff (links : List LinkValue) :
    (linkHeader links).toList.all isVisibleAscii = true ↔ Legible links := by
  rw [List.all_eq_true]
  unfold Legible
  induction links with
  | nil => simp [linkHeader, Text.join]
  | cons l links ih =>
      rw [List.forall_mem_cons, ← ih]
      cases links with
      | nil => simp [linkHeader, Text.join]
      | cons l' links =>
          rw [linkHeader_cons l (List.cons_ne_nil _ _), String.toList_ofList, List.forall_mem_append,
            List.forall_mem_cons]
          have hcomma : isVisibleAscii ',' = true := by decide
          simp only [hcomma, true_and]

lemma parseLinkNext_eq (links : List LinkValue) (headers : List (String × String)) :
    parseLinkNext (("link", linkHeader links) :: headers) =
      if Legible links then links.findSome? LinkValue.read? else none := by
  have hheader : headerText (("link", linkHeader links) :: headers) "link" =
      (some (linkHeader links)).filter fun value => value.toList.all isVisibleAscii := by
    unfold headerText header?
    rw [show "link".toLower = "link" by decide +kernel, List.lookup_cons_self]
  unfold parseLinkNext
  rw [hheader, Option.filter_some]
  by_cases hlegible : Legible links
  · rw [if_pos ((legible_iff links).mpr hlegible), if_pos hlegible]
    exact findSome?_linkHeader links
  · rw [if_neg (mt (legible_iff links).mp hlegible), if_neg hlegible]
    rfl

lemma nextTarget_cons (l : LinkValue) (links : List LinkValue) :
    nextTarget (l :: links) =
      if l.IsNext then some (String.ofList l.target) else nextTarget links := by
  unfold nextTarget
  rw [List.findSome?_cons]
  split_ifs <;> rfl

lemma nextTarget_eq_none {links : List LinkValue} :
    nextTarget links = none ↔ ∀ l ∈ links, ¬ l.IsNext := by
  unfold nextTarget
  rw [List.findSome?_eq_none_iff]
  simp

lemma firstReadAs_iff {links : List LinkValue} {url : String} :
    links.findSome? LinkValue.read? = some url ↔ FirstReadAs links url := by
  rw [List.findSome?_eq_some_iff]
  simp only [LinkValue.read?_eq_some, LinkValue.read?_eq_none]
  rfl

lemma readsRight_iff {links : List LinkValue} :
    links.findSome? LinkValue.read? = nextTarget links ↔ ReadsRight links := by
  induction links with
  | nil => exact iff_of_true rfl .nil
  | cons l links ih =>
      rw [nextTarget_cons, List.findSome?_cons]
      constructor
      · intro h
        split at h
        · rename_i url hread
          rw [LinkValue.read?_eq_some] at hread
          split_ifs at h with hnext
          · cases h
            exact .read hnext hread
          · exact .mistaken hnext hread h.symm
        · rename_i hread
          rw [LinkValue.read?_eq_none] at hread
          split_ifs at h with hnext
          · exact .missed hnext hread (firstReadAs_iff.mp h)
          · exact .pass hnext hread (ih.mp h)
      · intro h
        cases h with
        | pass hnext hread h =>
            rw [LinkValue.read?_eq_none.mpr hread, if_neg hnext]
            exact ih.mpr h
        | read hnext hread => rw [LinkValue.read?_eq_some.mpr hread, if_pos hnext]
        | mistaken hnext hread h => rw [LinkValue.read?_eq_some.mpr hread, if_neg hnext, h]
        | missed hnext hread h =>
            rw [LinkValue.read?_eq_none.mpr hread, if_pos hnext]
            exact firstReadAs_iff.mpr h

/-- The code finds the next page of a header exactly when its link-values are read right, or some of
it cannot be read as text and there is no next page. -/
theorem parseLinkNext_eq_iff (links : List LinkValue) (headers : List (String × String)) :
    parseLinkNext (("link", linkHeader links) :: headers) = nextTarget links ↔
      if Legible links then ReadsRight links else ∀ l ∈ links, ¬ l.IsNext := by
  rw [parseLinkNext_eq]
  split_ifs with hlegible
  · exact readsRight_iff
  · rw [eq_comm]
    exact nextTarget_eq_none

/-- A comma in the target of the next page, a second relation type, and a blank after the equals
sign: the first is cut in two, the others are not found. -/
theorem parseLinkNext_fails :
    let none : Blanks := ⟨[], by simp⟩
    let rel : Token := ⟨"rel".toList, by decide, List.all_eq_true.mp (by decide)⟩
    let param := fun (blanks : Blanks) (value : ParamValue) =>
      (⟨none, none, rel, some (none, blanks, value)⟩ : LinkParam)
    let next : ParamValue := .token ⟨"next".toList, by decide, List.all_eq_true.mp (by decide)⟩
    let lastNext : ParamValue := .quoted ("last next".toList.filterMap fun c =>
      if h : isQuotedText c then some (.plain c h) else Option.none)
    let fails := fun l : LinkValue =>
      parseLinkNext [("link", linkHeader [l])] ≠ nextTarget [l]
    fails ⟨none, "https://api.example.com/items?fields=id,name&page=2".toList,
        List.all_eq_true.mp (by decide), [param none next], none⟩ ∧
      fails ⟨none, "https://api.example.com/items?page=2".toList,
        List.all_eq_true.mp (by decide), [param none lastNext], none⟩ ∧
      fails ⟨none, "https://api.example.com/items?page=2".toList,
        List.all_eq_true.mp (by decide), [param ⟨[' '], by simp⟩ next], none⟩ := by
  decide +kernel

end Http
end Pawrly
