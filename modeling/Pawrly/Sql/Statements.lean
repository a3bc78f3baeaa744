import Pawrly.Sql.Confinement
import Pawrly.Sql.Spelling

/-!
# The statements of a text

An engine reads a text as statements with semicolons between them.  Blanks around a text and semicolons
behind it do not count (`lex_trim`, `lex_trimEndChar`), and a text between an opening and a closing has
its tokens between theirs (`lex_between`), unless it ends inside a comment, which takes in whatever
follows on its line (`lex_between_comment`).
-/

namespace Pawrly
namespace Sql

/-! ## Blanks -/

lemma isWordChar_blank {c : Char} (h : Text.isWhitespace c = true) : isWordChar c = false := by
  have halnum : c.isAlphanum = false := by
    by_contra halnum
    simp only [Bool.not_eq_false, Char.isAlphanum, Char.isAlpha, Char.isUpper, Char.isLower,
      Char.isDigit, Bool.or_eq_true, Bool.and_eq_true, decide_eq_true_eq, UInt32.le_iff_toNat_le,
      ge_iff_le] at halnum
    simp only [Text.isWhitespace, Bool.or_eq_true, Bool.and_eq_true, decide_eq_true_eq,
      beq_iff_eq] at h
    change ((65 ≤ c.toNat ∧ c.toNat ≤ 90) ∨ 97 ≤ c.toNat ∧ c.toNat ≤ 122) ∨
      48 ≤ c.toNat ∧ c.toNat ≤ 57 at halnum
    omega
  have hne : ∀ d : Char, Text.isWhitespace d = false → c ≠ d := by
    rintro d hd rfl
    rw [h] at hd
    cases hd
  simp [isWordChar, halnum, h, hne '_' (by decide), hne '$' (by decide), hne '@' (by decide),
    hne '#' (by decide)]

/-- A blank changes nothing in what is still to come. -/
lemma finish_blank (s : LexState) {c : Char} (h : Text.isWhitespace c = true) :
    ((s.step c).2.finish.map fun last => (s.step c).1 ++ last) = s.finish := by
  have hne : ∀ d : Char, Text.isWhitespace d = false → c ≠ d := by
    rintro d hd rfl
    rw [h] at hd
    cases hd
  have hquote := hne '\'' (by decide)
  have hdouble := hne '"' (by decide)
  have hstar := hne '*' (by decide)
  have hslash := hne '/' (by decide)
  by_cases hclosed : s.closed = true
  · obtain ⟨last, hlast, hstep⟩ := LexState.step_separator hclosed (isWordChar_blank h)
      (by simp [hquote, hdouble, hstar, hne '-' (by decide), hne '+' (by decide), hne '.' (by decide)])
    have hstart : LexState.start c = ([], .ground) := by simp [LexState.start, h]
    rw [hstep, hstart, hlast]
    simp [LexState.finish]
  · cases s with
    | str text => simp [LexState.step, hquote, LexState.finish]
    | ident text => simp [LexState.step, hdouble, LexState.finish]
    | lineComment =>
        by_cases hline : c = '\n'
        · simp [LexState.step, hline, LexState.finish]
        · simp [LexState.step, hline, LexState.finish]
    | blockComment => simp [LexState.step, hstar, LexState.finish]
    | blockStar => simp [LexState.step, hstar, hslash, LexState.finish]
    | ground | word | whole | point | fraction | exponent | exponentSign | exponentDigits | strQuote |
        identQuote | dash | slash =>
        exact absurd rfl hclosed

lemma lexFrom_blanks (s : LexState) {cs : List Char} (h : ∀ c ∈ cs, Text.isWhitespace c = true) :
    lexFrom s cs = s.finish := by
  induction cs generalizing s with
  | nil => simp [lexFrom, scanChars]
  | cons c cs ih =>
      rw [List.forall_mem_cons] at h
      rw [lexFrom_cons, ih _ h.2, finish_blank s h.1]

lemma scanChars_blanks {cs : List Char} (h : ∀ c ∈ cs, Text.isWhitespace c = true) :
    scanChars .ground cs = ([], .ground) := by
  induction cs with
  | nil => rfl
  | cons c cs ih =>
      rw [List.forall_mem_cons] at h
      have hstep : LexState.ground.step c = ([], .ground) := by
        simp [LexState.step, LexState.start, h.1]
      simp only [scanChars, hstep, ih h.2, List.nil_append]

lemma trim_spec (s : String) :
    ∃ before after, s.toList = before ++ (Text.trim s).toList ++ after ∧
      (∀ c ∈ before, Text.isWhitespace c = true) ∧ ∀ c ∈ after, Text.isWhitespace c = true := by
  refine ⟨s.toList.takeWhile Text.isWhitespace,
    ((s.toList.dropWhile Text.isWhitespace).reverse.takeWhile Text.isWhitespace).reverse, ?_,
    fun c hc => List.mem_takeWhile_imp hc, fun c hc => ?_⟩
  · rw [Text.trim, String.toList_ofList, List.append_assoc, ← List.reverse_append,
      List.takeWhile_append_dropWhile, List.reverse_reverse, List.takeWhile_append_dropWhile]
  · exact List.mem_takeWhile_imp (List.mem_reverse.mp hc)

/-- The tokens of a text are those of the text without the blanks around it. -/
lemma lex_trim (s : String) : lex (Text.trim s) = lex s := by
  obtain ⟨before, after, hs, hbefore, hafter⟩ := trim_spec s
  have hlex : ∀ t, lex t = lexFrom .ground t.toList := fun _ => rfl
  rw [hlex s, hs, List.append_assoc, lexFrom_append, scanChars_blanks hbefore, lexFrom_append,
    lexFrom_blanks _ hafter, hlex]
  simp [lexFrom, Function.comp_def]

/-! ## Semicolons -/

/-- Inside of a literal, an identifier or a comment, characters that do not end it change nothing. -/
lemma scanChars_unclosed {s : LexState} (h : s.closed = false) {cs : List Char}
    (hcs : ∀ c ∈ cs, c ∉ ['\'', '"', '/', '\n']) :
    ∃ s', scanChars s cs = ([], s') ∧ s'.closed = false ∧ s'.finish = s.finish := by
  induction cs generalizing s with
  | nil => exact ⟨s, rfl, h, rfl⟩
  | cons c cs ih =>
      rw [List.forall_mem_cons] at hcs
      have hc := hcs.1
      simp only [List.mem_cons, List.not_mem_nil, or_false, not_or] at hc
      obtain ⟨hquote, hdouble, hslash, hline⟩ := hc
      have hstep : ∃ s', s.step c = ([], s') ∧ s'.closed = false ∧ s'.finish = s.finish := by
        cases s with
        | str text => exact ⟨.str (c :: text), by simp only [LexState.step, if_neg hquote], rfl, rfl⟩
        | ident text => exact ⟨.ident (c :: text), by simp only [LexState.step, if_neg hdouble], rfl, rfl⟩
        | lineComment => exact ⟨.lineComment, by simp only [LexState.step, if_neg hline], rfl, rfl⟩
        | blockComment =>
            by_cases hstar : c = '*'
            · exact ⟨.blockStar, by simp only [LexState.step, if_pos hstar], rfl, rfl⟩
            · exact ⟨.blockComment, by simp only [LexState.step, if_neg hstar], rfl, rfl⟩
        | blockStar =>
            by_cases hstar : c = '*'
            · exact ⟨.blockStar, by simp only [LexState.step, if_neg hslash, if_pos hstar], rfl, rfl⟩
            · exact ⟨.blockComment, by simp only [LexState.step, if_neg hslash, if_neg hstar], rfl, rfl⟩
        | ground | word | whole | point | fraction | exponent | exponentSign | exponentDigits |
            strQuote | identQuote | dash | slash =>
            cases h
      obtain ⟨s₁, hs₁, hclosed, hfinish⟩ := hstep
      obtain ⟨s', hs', hclosed', hfinish'⟩ := ih hclosed hcs.2
      refine ⟨s', ?_, hclosed', hfinish'.trans hfinish⟩
      simp only [scanChars, hs₁, hs', List.nil_append]

/-- The token between statements. -/
def semicolon : Token := .symbol ';'

lemma scanChars_semicolons (k : ℕ) :
    scanChars .ground (List.replicate k ';') = (List.replicate k semicolon, .ground) := by
  induction k with
  | zero => rfl
  | succ k ih =>
      have hstep : LexState.ground.step ';' = ([semicolon], .ground) := by decide
      simp only [List.replicate_succ, scanChars, hstep, ih, List.singleton_append]

/-- Semicolons behind a text are tokens of their own, or part of what it ends inside of. -/
lemma lexFrom_semicolons (s : LexState) (k : ℕ) :
    ∃ j, lexFrom s (List.replicate k ';') = s.finish.map fun ts => ts ++ List.replicate j semicolon := by
  by_cases h : s.closed = true
  · refine ⟨k, ?_⟩
    obtain ⟨last, hlast, hstep⟩ := LexState.step_separator h (c := ';') (by decide) (by decide)
    have hstart : LexState.start ';' = ([semicolon], .ground) := by decide
    rw [hlast]
    cases k with
    | zero => simp [lexFrom, scanChars, hlast]
    | succ k =>
        rw [List.replicate_succ, lexFrom_cons, hstep, hstart, lexFrom, scanChars_semicolons]
        simp [LexState.finish, List.replicate_succ]
  · refine ⟨0, ?_⟩
    have hnone : ∀ c ∈ List.replicate k ';', c ∉ ['\'', '"', '/', '\n'] := by
      intro c hc
      rw [(List.mem_replicate.mp hc).2]
      decide
    obtain ⟨s', hs', -, hfinish⟩ := scanChars_unclosed (Bool.not_eq_true _ ▸ h) hnone
    rw [lexFrom, hs', hfinish]
    simp

lemma trimEndChar_spec (c : Char) (s : String) :
    ∃ k, s.toList = (Text.trimEndChar c s).toList ++ List.replicate k c := by
  refine ⟨(s.toList.reverse.takeWhile (· = c)).length, ?_⟩
  have hall : s.toList.reverse.takeWhile (· = c) =
      List.replicate (s.toList.reverse.takeWhile (· = c)).length c := by
    refine List.eq_replicate_of_mem fun d hd => ?_
    have hd' := List.mem_takeWhile_imp hd
    simpa using hd'
  rw [Text.trimEndChar, String.toList_ofList]
  conv_rhs => rw [← List.reverse_replicate, ← hall, ← List.reverse_append,
    List.takeWhile_append_dropWhile, List.reverse_reverse]

/-- A text has its tokens and some semicolons more than without the semicolons at its end. -/
lemma lex_trimEndChar (s : String) :
    ∃ j, lex s = (lex (Text.trimEndChar ';' s)).map fun ts => ts ++ List.replicate j semicolon := by
  obtain ⟨k, hs⟩ := trimEndChar_spec ';' s
  have hlex : ∀ t, lex t = lexFrom .ground t.toList := fun _ => rfl
  obtain ⟨j, hj⟩ := lexFrom_semicolons (scanChars .ground (Text.trimEndChar ';' s).toList).2 k
  refine ⟨j, ?_⟩
  rw [hlex s, hs, lexFrom_append, hj, hlex, lexFrom, Option.map_map, Option.map_map]
  simp only [Function.comp_def, List.append_assoc]

/-! ## Texts put between others -/

/-- A closed text between an opening and a closing. -/
lemma lex_between {opening text closing : String} {ts ts₁ ts₂ : List Token}
    (hopening : Scans opening ts₁) (h : Closed text) (hts : lex text = some ts)
    (hclosing : Spells closing ts₂) (hdelim : opensDelimited closing = true) :
    lex (opening ++ text ++ closing) = some (ts₁ ++ ts ++ ts₂) :=
  ((Spells.after ⟨hts, h⟩ hopening).append hclosing hdelim).lex_eq

/-- Behind a text that is not closed, a closing that does not end what it is inside of is not read. -/
lemma lex_between_unclosed {opening text closing : String} {ts₁ : List Token}
    (hopening : Scans opening ts₁) (h : ¬ Closed text)
    (hclosing : ∀ c ∈ closing.toList, c ∉ ['\'', '"', '/', '\n']) :
    lex (opening ++ text ++ closing) = (lex text).map fun ts => ts₁ ++ ts := by
  obtain ⟨s', hs', -, hfinish⟩ := scanChars_unclosed (Bool.not_eq_true _ ▸ h) hclosing
  unfold lex
  rw [String.toList_append, String.toList_append, scanChars_append, scanChars_append, hopening, hs']
  dsimp only
  rw [hfinish, Option.map_map]
  simp only [Function.comp_def, List.append_assoc, List.append_nil]

/-! ## Statements -/

/-- The statements: what stands between semicolons, if anything does. -/
def statements (ts : List Token) : List (List Token) :=
  (ts.splitOn semicolon).filter fun s => !s.isEmpty

lemma statements_of_notMem {ts : List Token} (h : semicolon ∉ ts) (hne : ts ≠ []) :
    statements ts = [ts] := by
  rw [statements, List.splitOn_eq_singleton h]
  simp [hne]

lemma statements_append (ts ts' : List Token) :
    statements (ts ++ semicolon :: ts') = statements ts ++ statements ts' := by
  rw [statements, List.splitOn_append_cons_self, List.filter_append]
  rfl

lemma statements_semicolons (k : ℕ) : statements (List.replicate k semicolon) = [] := by
  induction k with
  | zero => rfl
  | succ k ih =>
      have h := statements_append [] (List.replicate k semicolon)
      rw [ih] at h
      exact h

lemma statements_append_semicolons (ts : List Token) (k : ℕ) :
    statements (ts ++ List.replicate k semicolon) = statements ts := by
  cases k with
  | zero => rw [List.replicate_zero, List.append_nil]
  | succ k =>
      rw [List.replicate_succ, statements_append, statements_semicolons, List.append_nil]

lemma flatten_statements (ts : List Token) :
    (statements ts).flatten = ts.filter fun t => t ≠ semicolon := by
  have hfilter : ∀ l : List (List Token), (l.filter fun s => !s.isEmpty).flatten = l.flatten := by
    intro l
    induction l with
    | nil => rfl
    | cons s l ih =>
        cases s with
        | nil => simpa using ih
        | cons t s => simpa using ih
  rw [statements, hfilter]
  induction ts with
  | nil => rfl
  | cons t ts ih =>
      rw [List.splitOn_cons_eq_if_modifyHead]
      by_cases ht : t = semicolon
      · simp [ht, ih]
      · obtain ⟨s, l, hl⟩ := List.exists_cons_of_ne_nil (List.splitOn_ne_nil semicolon ts)
        rw [hl] at ih ⊢
        simpa [ht] using ih

/-- Nothing but semicolons is no statement. -/
lemma statements_eq_nil {ts : List Token} :
    statements ts = [] ↔ ts = List.replicate ts.length semicolon := by
  constructor
  · intro h
    have hfilter := flatten_statements ts
    rw [h, List.flatten_nil, eq_comm, List.filter_eq_nil_iff] at hfilter
    exact List.eq_replicate_of_mem fun t ht => by simpa using hfilter t ht
  · intro h
    rw [h]
    exact statements_semicolons _

/-- Tokens with a semicolon between others are more than one statement. -/
lemma statements_between {ts ts₁ ts₂ : List Token} {t₁ t₂ : Token} (hmem : semicolon ∈ ts)
    (h₁ : t₁ ∈ ts₁) (hne₁ : t₁ ≠ semicolon) (h₂ : t₂ ∈ ts₂) (hne₂ : t₂ ≠ semicolon) (s : List Token) :
    statements (ts₁ ++ ts ++ ts₂) ≠ [s] := by
  obtain ⟨before, after, rfl⟩ := List.append_of_mem hmem
  have hsplit : ts₁ ++ (before ++ semicolon :: after) ++ ts₂ =
      ts₁ ++ before ++ semicolon :: (after ++ ts₂) := by
    simp
  have hne : ∀ {l : List Token} {t}, t ∈ l → t ≠ semicolon → statements l ≠ [] := by
    intro l t ht hnot hnil
    rw [statements_eq_nil] at hnil
    rw [hnil] at ht
    exact hnot (List.mem_replicate.mp ht).2
  rw [hsplit, statements_append]
  intro h
  rcases List.append_eq_singleton_iff.mp h with ⟨hnil, -⟩ | ⟨-, hnil⟩
  · exact hne (List.mem_append_left _ h₁) hne₁ hnil
  · exact hne (List.mem_append_right _ h₂) hne₂ hnil

/-- Tokens that are one statement from their first on have only semicolons behind it. -/
lemma statements_cons_eq_singleton {t : Token} {ts s : List Token} (ht : t ≠ semicolon)
    (h : statements (t :: ts) = [s]) :
    semicolon ∉ s ∧ ∃ k, t :: ts = s ++ List.replicate k semicolon := by
  by_cases hmem : semicolon ∈ t :: ts
  · obtain ⟨before, after, hsplit, hnot⟩ := List.eq_append_cons_of_mem hmem
    have hne : before ≠ [] := by
      rintro rfl
      exact ht (List.cons.inj hsplit).1
    rw [hsplit, statements_append, statements_of_notMem hnot hne, List.singleton_append,
      List.cons.injEq, statements_eq_nil] at h
    obtain ⟨rfl, hafter⟩ := h
    refine ⟨hnot, after.length + 1, ?_⟩
    rw [hsplit, List.replicate_succ, ← hafter]
  · rw [statements_of_notMem hmem (List.cons_ne_nil _ _), List.cons.injEq] at h
    obtain ⟨rfl, -⟩ := h
    exact ⟨hmem, 0, (List.append_nil _).symm⟩

/-! ## First words -/

/-- What a word begins with is a word. -/
lemma lexFrom_word {text cs : List Char} {ts : List Token} (h : lexFrom (.word text) cs = some ts) :
    ∃ more rest, ts = .word (text.reverse ++ more) :: rest := by
  induction cs generalizing text ts with
  | nil =>
      simp only [lexFrom, scanChars, LexState.finish, Option.map_some, List.nil_append,
        Option.some.injEq] at h
      exact ⟨[], [], by rw [← h, List.append_nil]⟩
  | cons c cs ih =>
      rw [lexFrom_cons] at h
      by_cases hword : isWordChar c = true
      · simp only [LexState.step, if_pos hword, List.nil_append] at h
        obtain ⟨more, rest, hts⟩ := ih (by simpa using h)
        exact ⟨c :: more, rest, by simpa using hts⟩
      · simp only [LexState.step, if_neg hword, LexState.emit, List.cons_append] at h
        obtain ⟨rest, -, rfl⟩ := Option.map_eq_some_iff.mp h
        exact ⟨[], _, by rw [List.append_nil]⟩

/-- A text that begins with letters has a word that begins with them as its first token. -/
lemma lex_letters {text : String} {letters cs : List Char} {ts : List Token} (hne : letters ≠ [])
    (hletters : ∀ c ∈ letters, c.isAlpha = true) (htext : text.toList = letters ++ cs)
    (h : lex text = some ts) : ∃ more rest, ts = .word (letters ++ more) :: rest := by
  cases letters with
  | nil => exact absurd rfl hne
  | cons c letters =>
      rw [List.forall_mem_cons] at hletters
      have hwords : ∀ d ∈ letters, isWordChar d = true := by
        intro d hd
        simp [isWordChar, Char.isAlphanum, hletters.2 d hd]
      have hlex : lex text = lexFrom .ground text.toList := rfl
      have hstep : LexState.ground.step c = ([], .word [c]) := start_alpha hletters.1
      rw [hlex, htext, List.cons_append, lexFrom_cons, hstep, lexFrom_append, scanChars_word hwords] at h
      obtain ⟨more, rest, hts⟩ := lexFrom_word (by simpa using h)
      exact ⟨more, rest, by simpa using hts⟩

end Sql
end Pawrly
