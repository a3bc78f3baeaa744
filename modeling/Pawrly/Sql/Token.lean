import Pawrly.Sql.Syntax

/-!
# The tokens of a SQL text

A scanner for the lexical level of SQL: words, numerals, string literals and quoted identifiers
with doubled quotes, line and block comments, single-character symbols.  It is a finite machine
over characters (`LexState.step`), so a text can be scanned piece by piece (`scanChars_append`).

A text is `Closed` when it ends outside of a literal, an identifier and a comment; whatever
follows it after a blank is then read as if it stood alone (`lex_and`).
-/

namespace Pawrly
namespace Sql

/-- A lexical unit; blanks and comments are dropped. -/
inductive Token
  | word (text : List Char)
  | number (text : List Char)
  | str (text : List Char)
  | ident (text : List Char)
  | symbol (c : Char)
  deriving DecidableEq

/-- The token is a given keyword, in any case. -/
def Token.isWord (keyword : String) : Token → Bool
  | word text => text.map Char.toUpper = keyword.toList
  | _ => false

/-- The characters of words. -/
def isWordChar (c : Char) : Bool :=
  c.isAlphanum || c = '_' || c = '$' || c = '@' || c = '#' ||
    (decide (128 ≤ c.toNat) && !Text.isWhitespace c)

/-- What the scanner is in the middle of; texts are held in reverse. -/
inductive LexState
  | ground
  | word (text : List Char)
  /-- The digits of a numeral, up to its point or exponent. -/
  | whole (text : List Char)
  /-- A point that may begin a numeral. -/
  | point
  | fraction (text : List Char)
  /-- A numeral and a letter that begins its exponent, or the next word. -/
  | exponent (text : List Char) (e : Char)
  | exponentSign (text : List Char) (e sign : Char)
  | exponentDigits (text : List Char)
  | str (text : List Char)
  /-- A quote inside a literal: its end, or half of a doubled quote. -/
  | strQuote (text : List Char)
  | ident (text : List Char)
  | identQuote (text : List Char)
  | dash
  | lineComment
  | slash
  | blockComment
  | blockStar
  deriving DecidableEq

namespace LexState

/-- Read a character outside of everything. -/
def start (c : Char) : List Token × LexState :=
  if Text.isWhitespace c then ([], ground)
  else if c = '\'' then ([], str [])
  else if c = '"' then ([], ident [])
  else if c = '-' then ([], dash)
  else if c = '/' then ([], slash)
  else if c = '.' then ([], point)
  else if c.isDigit then ([], whole [c])
  else if isWordChar c then ([], word [c])
  else ([.symbol c], ground)

/-- End the current token, then read the character. -/
def emit (t : Token) (c : Char) : List Token × LexState := (t :: (start c).1, (start c).2)

/-- The letter that begins an exponent. -/
def isExponent (c : Char) : Bool := c = 'e' || c = 'E'

/-- Read one character: the tokens it completes and the next state. -/
def step : LexState → Char → List Token × LexState
  | ground, c => start c
  | word text, c => if isWordChar c then ([], word (c :: text)) else emit (.word text.reverse) c
  | whole text, c =>
      if c.isDigit then ([], whole (c :: text))
      else if c = '.' then ([], fraction (c :: text))
      else if isExponent c then ([], exponent text c)
      else emit (.number text.reverse) c
  | point, c => if c.isDigit then ([], fraction [c, '.']) else emit (.symbol '.') c
  | fraction text, c =>
      if c.isDigit then ([], fraction (c :: text))
      else if isExponent c then ([], exponent text c)
      else emit (.number text.reverse) c
  | exponent text e, c =>
      if c.isDigit then ([], exponentDigits (c :: e :: text))
      else if c = '+' || c = '-' then ([], exponentSign text e c)
      else if isWordChar c then ([.number text.reverse], word [c, e])
      else (.number text.reverse :: (emit (.word [e]) c).1, (emit (.word [e]) c).2)
  | exponentSign text e sign, c =>
      if c.isDigit then ([], exponentDigits (c :: sign :: e :: text))
      else if sign = '-' && c = '-' then ([.number text.reverse, .word [e]], lineComment)
      else (.number text.reverse :: .word [e] :: (emit (.symbol sign) c).1,
        (emit (.symbol sign) c).2)
  | exponentDigits text, c =>
      if c.isDigit then ([], exponentDigits (c :: text)) else emit (.number text.reverse) c
  | str text, c => if c = '\'' then ([], strQuote text) else ([], str (c :: text))
  | strQuote text, c => if c = '\'' then ([], str (c :: text)) else emit (.str text.reverse) c
  | ident text, c => if c = '"' then ([], identQuote text) else ([], ident (c :: text))
  | identQuote text, c => if c = '"' then ([], ident (c :: text)) else emit (.ident text.reverse) c
  | dash, c => if c = '-' then ([], lineComment) else emit (.symbol '-') c
  | lineComment, c => if c = '\n' then ([], ground) else ([], lineComment)
  | slash, c => if c = '*' then ([], blockComment) else emit (.symbol '/') c
  | blockComment, c => if c = '*' then ([], blockStar) else ([], blockComment)
  | blockStar, c =>
      if c = '/' then ([], ground) else if c = '*' then ([], blockStar) else ([], blockComment)

/-- The tokens still to come when the text ends here; `none` inside an open literal, identifier
or block comment. -/
def finish : LexState → Option (List Token)
  | ground => some []
  | word text => some [.word text.reverse]
  | whole text => some [.number text.reverse]
  | point => some [.symbol '.']
  | fraction text => some [.number text.reverse]
  | exponent text e => some [.number text.reverse, .word [e]]
  | exponentSign text e sign => some [.number text.reverse, .word [e], .symbol sign]
  | exponentDigits text => some [.number text.reverse]
  | strQuote text => some [.str text.reverse]
  | identQuote text => some [.ident text.reverse]
  | dash => some [.symbol '-']
  | slash => some [.symbol '/']
  | lineComment => some []
  | str _ => none
  | ident _ => none
  | blockComment => none
  | blockStar => none

/-- Outside of literals, identifiers and comments. -/
def closed : LexState → Bool
  | str _ => false
  | ident _ => false
  | lineComment => false
  | blockComment => false
  | blockStar => false
  | _ => true

end LexState

/-- Scan characters from a state. -/
def scanChars : LexState → List Char → List Token × LexState
  | s, [] => ([], s)
  | s, c :: cs =>
      let now := s.step c
      let rest := scanChars now.2 cs
      (now.1 ++ rest.1, rest.2)

/-- The tokens of a text. -/
def lex (text : String) : Option (List Token) :=
  let scanned := scanChars .ground text.toList
  scanned.2.finish.map fun last => scanned.1 ++ last

/-- The text ends outside of literals, identifiers and comments. -/
def Closed (text : String) : Prop := (scanChars .ground text.toList).2.closed = true

instance (text : String) : Decidable (Closed text) := inferInstanceAs (Decidable (_ = true))

lemma scanChars_append (s : LexState) (cs cs' : List Char) :
    scanChars s (cs ++ cs') =
      ((scanChars s cs).1 ++ (scanChars (scanChars s cs).2 cs').1,
        (scanChars (scanChars s cs).2 cs').2) := by
  induction cs generalizing s with
  | nil => simp [scanChars]
  | cons c cs ih => simp [scanChars, ih]

/-- Scanning on in a word. -/
lemma scanChars_word {cs : List Char} (h : ∀ c ∈ cs, isWordChar c = true) (text : List Char) :
    scanChars (.word text) cs = ([], .word (cs.reverse ++ text)) := by
  induction cs generalizing text with
  | nil => rfl
  | cons c cs ih =>
      have hstep : LexState.step (.word text) c = ([], .word (c :: text)) := by
        simp [LexState.step, h c List.mem_cons_self]
      simp only [scanChars, hstep, ih fun d hd => h d (List.mem_cons_of_mem _ hd), List.nil_append,
        List.reverse_cons, List.append_assoc, List.singleton_append]

/-- A character that can only stand between tokens or be one by itself. -/
def isDelimiter (c : Char) : Bool :=
  Text.isWhitespace c || c = ',' || c = '(' || c = ')' || c = '=' || c = '<' || c = '>'

lemma ne_of_isDelimiter {c d : Char} (h : isDelimiter c = true) (hd : isDelimiter d = false) :
    c ≠ d := by
  rintro rfl
  rw [h] at hd
  cases hd

/-- A character that goes on with no token ends the current one of a closed text. -/
lemma LexState.step_separator {s : LexState} (h : s.closed = true) {c : Char}
    (hword : isWordChar c = false) (hc : c ∉ ['\'', '"', '-', '+', '*', '.']) :
    ∃ last, s.finish = some last ∧ s.step c = (last ++ (start c).1, (start c).2) := by
  have hdigit : c.isDigit = false := by
    by_contra hd
    simp [isWordChar, Char.isAlphanum, Bool.not_eq_false _ |>.mp hd] at hword
  have hexp : isExponent c = false := by
    by_contra he
    rw [Bool.not_eq_false, isExponent, Bool.or_eq_true] at he
    rcases he with he | he
    all_goals
      obtain rfl := of_decide_eq_true he
      revert hword
      decide
  simp only [List.mem_cons, List.not_mem_nil, or_false, not_or] at hc
  obtain ⟨hquote, hdouble, hdash, hplus, hstar, hpoint⟩ := hc
  cases s with
  | ground => exact ⟨[], rfl, rfl⟩
  | word text => exact ⟨_, rfl, by simp [step, hword, emit]⟩
  | whole text => exact ⟨_, rfl, by simp [step, hdigit, hpoint, hexp, emit]⟩
  | point => exact ⟨_, rfl, by simp [step, hdigit, emit]⟩
  | fraction text => exact ⟨_, rfl, by simp [step, hdigit, hexp, emit]⟩
  | exponent text e => exact ⟨_, rfl, by simp [step, hdigit, hplus, hdash, hword, emit]⟩
  | exponentSign text e sign => exact ⟨_, rfl, by simp [step, hdigit, hdash, emit]⟩
  | exponentDigits text => exact ⟨_, rfl, by simp [step, hdigit, emit]⟩
  | strQuote text => exact ⟨_, rfl, by simp [step, hquote, emit]⟩
  | identQuote text => exact ⟨_, rfl, by simp [step, hdouble, emit]⟩
  | dash => exact ⟨_, rfl, by simp [step, hdash, emit]⟩
  | slash => exact ⟨_, rfl, by simp [step, hstar, emit]⟩
  | str text => cases h
  | ident text => cases h
  | lineComment => cases h
  | blockComment => cases h
  | blockStar => cases h

/-- A delimiter ends the current token of a closed text. -/
lemma LexState.step_delimiter {s : LexState} (h : s.closed = true) {c : Char}
    (hc : isDelimiter c = true) (hword : isWordChar c = false) :
    ∃ last, s.finish = some last ∧ s.step c = (last ++ (start c).1, (start c).2) := by
  refine step_separator h hword fun hmem => ?_
  have hall : ['\'', '"', '-', '+', '*', '.'].all (fun d => !isDelimiter d) = true := by decide
  exact ne_of_isDelimiter hc (by simpa using List.all_eq_true.mp hall c hmem) rfl

/-- A blank ends the current token of a closed text. -/
lemma LexState.step_blank {s : LexState} (h : s.closed = true) :
    ∃ last, s.finish = some last ∧ s.step ' ' = (last, .ground) := by
  obtain ⟨last, hlast, hstep⟩ := step_delimiter h (c := ' ') (by decide) (by decide)
  have hblank : start ' ' = ([], ground) := by decide
  exact ⟨last, hlast, by rw [hstep, hblank, List.append_nil]⟩

/-- The keyword that joins conditions. -/
def andToken : Token := .word "AND".toList

/-- Scanning past `AND` after a closed text. -/
lemma scanChars_and {text : String} (h : Closed text) :
    ∃ ts, lex text = some ts ∧
      scanChars .ground (text.toList ++ " AND ".toList) = (ts ++ [andToken], .ground) := by
  obtain ⟨last, hfinish, hstep⟩ := LexState.step_blank h
  have hand : scanChars .ground "AND ".toList = ([andToken], .ground) := by decide
  refine ⟨(scanChars .ground text.toList).1 ++ last, ?_, ?_⟩
  · unfold lex
    simp [hfinish]
  · have hsplit : " AND ".toList = ' ' :: "AND ".toList := by decide
    rw [scanChars_append, hsplit, scanChars, hstep]
    simp only [hand, List.append_assoc]

/-- Two texts with `AND` between them, the first one closed, have the tokens of both. -/
lemma lex_and {text text' : String} (h : Closed text) {ts : List Token}
    (hts : lex text = some ts) :
    lex (text ++ " AND " ++ text') = (lex text').map fun ts' => ts ++ andToken :: ts' := by
  obtain ⟨ts₀, hts₀, hscan⟩ := scanChars_and h
  rw [hts] at hts₀
  cases hts₀
  unfold lex
  rw [String.toList_append, String.toList_append, scanChars_append, hscan]
  simp [Function.comp_def]

/-- With `AND` between them, two texts end as the second one does. -/
lemma closed_and {text text' : String} (h : Closed text) :
    Closed (text ++ " AND " ++ text') ↔ Closed text' := by
  obtain ⟨ts₀, _, hscan⟩ := scanChars_and h
  unfold Closed
  rw [String.toList_append, String.toList_append, scanChars_append, hscan]

end Sql
end Pawrly
