import Pawrly.Engine.FunctionCall

/-!
# The text of a call parses as the call

The statement of `render_call_sql` is read as one call with one literal for each argument, in
whichever way the argument was quoted (`parseCall_renderCallSql`): the scanner is followed piece by
piece through the names and the literals.
-/

namespace Pawrly
namespace Engine
namespace FunctionCall

open Config Sql

/-! ## Names -/

/-- The characters of an identifier: its first one begins a word and no numeral. -/
lemma identifier_chars {name : String} (h : isValidIdentifier name = true) :
    ∃ c cs, name.toList = c :: cs ∧ c.isDigit = false ∧ LexState.start c = ([], .word [c]) ∧
      ∀ d ∈ cs, isWordChar d = true := by
  unfold isValidIdentifier at h
  cases hl : name.toList with
  | nil =>
      rw [hl] at h
      cases h
  | cons c cs =>
      rw [hl] at h
      simp only [Bool.and_eq_true, Bool.or_eq_true, List.all_eq_true, decide_eq_true_eq] at h
      refine ⟨c, cs, rfl, ?_, ?_, fun d hd => ?_⟩
      · rcases h.1 with halpha | rfl
        · by_contra hdigit
          rw [Bool.not_eq_false] at hdigit
          rw [isAlpha_of_isDigit hdigit] at halpha
          cases halpha
        · decide
      · rcases h.1 with halpha | rfl
        · exact start_alpha halpha
        · decide
      · rcases h.2 d hd with halnum | rfl
        · simp [isWordChar, halnum]
        · decide

/-- Reading an identifier that a character ends which is not of a word. -/
lemma lexFrom_identifier {name : String} (h : isValidIdentifier name = true) {c : Char}
    (hc : isWordChar c = false) (rest : List Char) :
    lexFrom .ground (name.toList ++ c :: rest) =
      (lexFrom .ground (c :: rest)).map fun ts => .word name.toList :: ts := by
  obtain ⟨d, ds, hname, -, hstart, hds⟩ := identifier_chars h
  have hscan : scanChars .ground name.toList = ([], .word name.toList.reverse) := by
    rw [hname, scanChars]
    simp only [LexState.step, hstart, scanChars_word hds, List.nil_append, List.reverse_cons]
  have hstep : LexState.step (.word name.toList.reverse) c =
      LexState.emit (.word name.toList) c := by
    simp [LexState.step, hc]
  rw [lexFrom_append, hscan, lexFrom_cons, hstep, lexFrom_cons]
  simp [LexState.step, LexState.emit, Function.comp_def]

/-- A point between two identifiers is a symbol. -/
lemma lexFrom_point {name : String} (h : isValidIdentifier name = true) (rest : List Char) :
    lexFrom .ground ('.' :: (name.toList ++ rest)) =
      (lexFrom .ground (name.toList ++ rest)).map fun ts => .symbol '.' :: ts := by
  obtain ⟨d, ds, hname, hdigit, -, -⟩ := identifier_chars h
  have hpoint : LexState.step .ground '.' = ([], .point) := by decide
  have hstep : LexState.step .point d = LexState.emit (.symbol '.') d := by
    simp [LexState.step, hdigit]
  rw [lexFrom_cons, hpoint, hname, List.cons_append, lexFrom_cons, hstep, lexFrom_cons]
  simp [LexState.step, LexState.emit, Function.comp_def]

/-! ## Arguments -/

/-- The tokens of an argument. -/
def CallArg.tokens (a : CallArg) : List Token :=
  if a.quoted then [.str a.value.toList]
  else if (booleanOf a.value).isSome then [.word a.value.toList]
  else signTokens a.value.toList ++ [.number (Text.dropSign a.value.toList)]

/-- What the parser makes of an argument. -/
def CallArg.parsed (a : CallArg) : SqlArg :=
  if a.quoted then .string a.value.toList
  else
    match booleanOf a.value with
    | some b => .boolean b
    | none => .number (a.value.toList.head? = some '-') (Text.dropSign a.value.toList)

/-- A bare argument is a literal by itself. -/
def CallArg.Safe (a : CallArg) : Prop := a.quoted = false → isSafeBareLiteral a.value = true

lemma make_safe (value type : String) : (CallArg.make value type).Safe := by
  intro h
  simp only [CallArg.make, Bool.or_eq_false_iff, Bool.not_eq_false'] at h
  exact h.2

lemma isAlpha_of_booleanOf {value : String} (h : (booleanOf value).isSome = true) :
    value.toList ≠ [] ∧ ∀ c ∈ value.toList, c.isAlpha = true := by
  have hlower : ∃ word : List Char, word ≠ [] ∧ (∀ c ∈ word, c.isAlpha = true) ∧
      value.toList.map Char.toLower = word := by
    unfold booleanOf at h
    split_ifs at h with htrue hfalse
    · refine ⟨"true".toList, by decide, List.all_eq_true.mp (by decide), ?_⟩
      rw [← htrue, lowercase, String.toList_ofList]
    · refine ⟨"false".toList, by decide, List.all_eq_true.mp (by decide), ?_⟩
      rw [← hfalse, lowercase, String.toList_ofList]
    · cases h
  obtain ⟨word, hne, halpha, hmap⟩ := hlower
  refine ⟨fun hnil => hne (by rw [← hmap, hnil]; rfl), fun c hc => ?_⟩
  rw [← Char.isAlpha_toLower_eq_isAlpha]
  exact halpha _ (hmap ▸ List.mem_map_of_mem hc)

/-- A bare number that is no boolean is no word either. -/
lemma not_isFloatName {value : String} (hsafe : isSafeBareLiteral value = true)
    (hbool : (booleanOf value).isSome = false) :
    Text.isFloatName value = false ∧ (Text.parsesI64 value || Text.parsesF64 value) = true := by
  unfold isSafeBareLiteral at hsafe
  rw [hbool] at hsafe
  simp only [Bool.false_eq_true, if_false] at hsafe
  split_ifs at hsafe with hstray
  refine ⟨?_, hsafe⟩
  by_contra hname
  rw [Bool.not_eq_false] at hname
  -- the words `inf`, `infinity` and `nan` all have the letter `n`
  have hmem : 'n' ∈ (Text.dropSign value.toList).map Char.toLower := by
    simp only [Text.isFloatName, Bool.or_eq_true, beq_iff_eq] at hname
    rcases hname with (h | h) | h <;> rw [h] <;> decide
  obtain ⟨c, hc, hlower⟩ := List.mem_map.mp hmem
  have hin : c ∈ value.toList := by
    rcases signed_cases value.toList with ⟨hsame, -⟩ | ⟨sign, -, hcons, -⟩
    · rwa [hsame] at hc
    · rw [hcons]
      exact List.mem_cons_of_mem _ hc
  refine hstray (List.any_eq_true.mpr ⟨c, hin, ?_⟩)
  have halpha : c.isAlpha = true := by
    rw [← Char.isAlpha_toLower_eq_isAlpha, hlower]
    decide
  have hne : ∀ d : Char, d.toLower ≠ 'n' → c ≠ d := by
    rintro d hd rfl
    exact hd hlower
  simp [halpha, hne 'e' (by decide), hne 'E' (by decide)]

/-- Reading an argument between delimiters. -/
lemma lexFrom_arg {a : CallArg} (ha : a.Safe) {ps : List Piece}
    (hps : beginsDelimited ps = true) :
    lexFrom .ground (a.render.toList ++ ps.flatMap Piece.chars) =
      (lexFrom .ground (ps.flatMap Piece.chars)).map fun ts => a.tokens ++ ts := by
  unfold CallArg.render CallArg.tokens
  cases hquoted : a.quoted with
  | true =>
      simp only [if_true]
      exact lexFrom_literal (l := .quoted a.value) hps (by simp)
  | false =>
      have hsafe := ha hquoted
      simp only [Bool.false_eq_true, if_false]
      cases hbool : (booleanOf a.value).isSome with
      | true =>
          obtain ⟨hne, halpha⟩ := isAlpha_of_booleanOf hbool
          obtain ⟨-, s, hscan, hclosed, hfinish⟩ := readsAs_alpha hne halpha
          obtain ⟨last, hlast, hrest⟩ := lexFrom_delimited hclosed hps
          rw [hfinish] at hlast
          cases hlast
          rw [lexFrom_append, hscan, hrest, Option.map_map]
          simp [Function.comp_def]
      | false =>
          obtain ⟨hname, hparses⟩ := not_isFloatName hsafe hbool
          rw [show a.value = (Literal.bare a.value).render from rfl,
            lexFrom_literal (l := .bare a.value) hps (by rintro s ⟨⟩; exact hparses)]
          simp [readLiteral, hname, Literal.render]

/-- The parser makes one literal of an argument. -/
lemma parseArgs_arg (a : CallArg) (rest : List Token) :
    parseArgs (a.tokens ++ rest) = (parseRest rest).map (a.parsed :: ·) := by
  unfold CallArg.tokens CallArg.parsed
  cases hquoted : a.quoted with
  | true => simp [parseArgs]
  | false =>
      simp only [Bool.false_eq_true, if_false]
      cases hbool : booleanOf a.value with
      | some b => simp [parseArgs, wordBoolean, String.ofList_toList, hbool]
      | none =>
          simp only [Option.isSome_none, Bool.false_eq_true, if_false]
          generalize a.value.toList = cs
          match cs with
          | [] => simp [signTokens, parseArgs]
          | c :: cs =>
              by_cases hplus : c = '+'
              · subst hplus
                simp [signTokens, parseArgs]
              · by_cases hdash : c = '-'
                · subst hdash
                  simp [signTokens, parseArgs]
                · simp [signTokens, hplus, hdash, parseArgs]

/-! ## Argument lists -/

/-- The tokens of an argument list. -/
def listTokens : List CallArg → List Token
  | [] => []
  | [a] => a.tokens
  | a :: b :: args => a.tokens ++ .symbol ',' :: listTokens (b :: args)

lemma listTokens_ne_nil (a : CallArg) (args : List CallArg) : listTokens (a :: args) ≠ [] := by
  have ha : a.tokens ≠ [] := by
    unfold CallArg.tokens
    split_ifs <;> simp
  cases args with
  | nil => exact ha
  | cons b args => simp [listTokens]

lemma lexFrom_args {args : List CallArg} (h : ∀ a ∈ args, a.Safe) :
    lexFrom .ground ((Text.join ", " (args.map CallArg.render)).toList ++ [')']) =
      some (listTokens args ++ [.symbol ')']) := by
  induction args with
  | nil => decide
  | cons a args ih =>
      have ha := h a List.mem_cons_self
      cases args with
      | nil =>
          have hclose : lexFrom .ground [')'] = some [.symbol ')'] := by decide
          have harg := @lexFrom_arg _ ha [.chr ')'] (by decide)
          simp only [List.flatMap_cons, List.flatMap_nil, Piece.chars, List.append_nil, hclose] at harg
          simpa [listTokens] using harg
      | cons b args =>
          have hrest := ih fun c hc => h c (List.mem_cons_of_mem _ hc)
          have hcomma : ∀ cs, lexFrom .ground (',' :: ' ' :: cs) =
              (lexFrom .ground cs).map fun ts => .symbol ',' :: ts := by
            intro cs
            have hsymbol : LexState.step .ground ',' = ([.symbol ','], .ground) := by decide
            have hblank : LexState.step .ground ' ' = ([], .ground) := by decide
            rw [lexFrom_cons, hsymbol, lexFrom_cons, hblank, Option.map_map]
            simp [Function.comp_def]
          have hpieces : ∀ cs : List Char, (cs.map Piece.chr).flatMap Piece.chars = cs := by
            intro cs
            induction cs with
            | nil => rfl
            | cons c cs ihcs => simp [Piece.chars, ihcs]
          have harg := @lexFrom_arg _ ha ((',' :: ' ' ::
            ((Text.join ", " ((b :: args).map CallArg.render)).toList ++ [')'])).map .chr)
            (by simp [beginsDelimited]; decide)
          rw [hpieces, hcomma, hrest] at harg
          rw [List.map_cons, Text.join_cons _ _ (by simp)]
          simpa [listTokens] using harg

lemma parseArgs_list {args : List CallArg} (hne : args ≠ []) :
    parseArgs (listTokens args ++ [.symbol ')']) = some (args.map CallArg.parsed) := by
  induction args with
  | nil => exact absurd rfl hne
  | cons a args ih =>
      cases args with
      | nil =>
          rw [listTokens, parseArgs_arg a]
          rfl
      | cons b args =>
          have hrest := ih (by simp)
          have htail : parseRest (.symbol ',' :: (listTokens (b :: args) ++ [.symbol ')'])) =
              parseArgs (listTokens (b :: args) ++ [.symbol ')']) := by
            simp [parseRest]
          rw [listTokens, List.append_assoc, List.cons_append, parseArgs_arg a, htail, hrest]
          rfl

/-! ## The statement -/

/-- The tokens of a statement. -/
def callTokens (ns name : String) (args : List CallArg) : List Token :=
  [.word "SELECT".toList, .symbol '*', .word "FROM".toList, .word ns.toList, .symbol '.',
    .word name.toList, .symbol '('] ++ (listTokens args ++ [.symbol ')'])

lemma lex_renderCallSql {ns name : String} (hns : isValidIdentifier ns = true)
    (hname : isValidIdentifier name = true) {args : List CallArg} (hargs : ∀ a ∈ args, a.Safe) :
    lex (renderCallSql ns name args) = some (callTokens ns name args) := by
  have hchars : (renderCallSql ns name args).toList = "SELECT * FROM ".toList ++
      (ns.toList ++ '.' :: (name.toList ++
        '(' :: ((Text.join ", " (args.map CallArg.render)).toList ++ [')']))) := by
    unfold renderCallSql
    simp only [String.toList_append, List.append_assoc]
    rfl
  have hselect : scanChars .ground "SELECT * FROM ".toList =
      ([.word "SELECT".toList, .symbol '*', .word "FROM".toList], .ground) := by decide
  have hopen : ∀ cs, lexFrom .ground ('(' :: cs) =
      (lexFrom .ground cs).map fun ts => .symbol '(' :: ts := by
    intro cs
    have hsymbol : LexState.step .ground '(' = ([.symbol '('], .ground) := by decide
    rw [lexFrom_cons, hsymbol]
    rfl
  show lexFrom .ground (renderCallSql ns name args).toList = _
  rw [hchars, lexFrom_append, hselect, lexFrom_identifier hns (by decide), lexFrom_point hname,
    lexFrom_identifier hname (by decide), hopen, lexFrom_args hargs]
  rfl

/-- **The statement is one call.**  Whatever the values, the statement is read as the call of the
function with one literal for each argument, unless the namespace begins another kind of table
factor. -/
theorem parseCall_renderCallSql (factorWord : List Char → Bool) {ns name : String}
    (hns : isValidIdentifier ns = true) (hname : isValidIdentifier name = true)
    {args : List CallArg} (hargs : ∀ a ∈ args, a.Safe) :
    (lex (renderCallSql ns name args)).bind (parseCall factorWord) =
      if factorWord ns.toList then none
      else some { ns := ns.toList, name := name.toList, args := args.map CallArg.parsed } := by
  have hwords : ((Token.word "SELECT".toList).isWord "SELECT" &&
      (Token.word "FROM".toList).isWord "FROM") = true := by decide
  rw [lex_renderCallSql hns hname hargs, Option.bind_some, callTokens]
  simp only [List.cons_append, List.nil_append, parseCall, hwords, Bool.true_and]
  cases factorWord ns.toList with
  | true => rfl
  | false =>
      simp only [Bool.not_false, if_true, Bool.false_eq_true, if_false]
      cases args with
      | nil => rfl
      | cons a args =>
          have hne : listTokens (a :: args) ++ [Token.symbol ')'] ≠ [.symbol ')'] := by
            intro hsame
            have hnil : listTokens (a :: args) = [] := List.append_left_eq_self.mp hsame
            exact listTokens_ne_nil a args hnil
          rw [if_neg hne, parseArgs_list (by simp)]
          rfl

end FunctionCall
end Engine
end Pawrly
