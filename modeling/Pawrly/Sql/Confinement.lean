import Pawrly.Sql.Token
import Mathlib

/-!
# Values inside a SQL text

A template is a text with places for values, each of which is written as a literal.  Its tokens
are those of its own characters with a slot for every value; the value is confined when the
written text has these tokens, with one literal in each slot (`Confined`).

`confined_iff_apart` is the case of quoted values, `confined_iff_numerals` that of values between
delimiters, which may stand bare.
-/

namespace Pawrly
namespace Sql

/-! ## Templates -/

/-- A character of the template, or a place filled by a literal. -/
inductive Piece
  | chr (c : Char)
  | value (l : Literal)
  deriving DecidableEq

def Piece.chars : Piece → List Char
  | chr c => [c]
  | value l => l.render.toList

/-- The text with its values written in. -/
def renderPieces (ps : List Piece) : String := String.ofList (ps.flatMap Piece.chars)

/-- The pieces of a text without values. -/
def textPieces (s : String) : List Piece := s.toList.map .chr

/-- The tokens of a template, scanned from a state.  A value is a token by itself, so it stands
outside of literals, quoted identifiers and comments. -/
def lexTemplate : LexState → List Piece → Option (List (Token ⊕ Literal))
  | s, [] => s.finish.map fun last => last.map .inl
  | s, .chr c :: ps => (lexTemplate (s.step c).2 ps).map fun ts => (s.step c).1.map .inl ++ ts
  | s, .value l :: ps =>
      if s.closed then
        s.finish.bind fun last =>
          (lexTemplate .ground ps).map fun ts => last.map .inl ++ .inr l :: ts
      else none

/-- The sign of a numeral. -/
def signTokens : List Char → List Token
  | '+' :: _ => [.symbol '+']
  | '-' :: _ => [.symbol '-']
  | _ => []

/-- The literal that a value should be read as: one string, or one numeral after its sign. -/
def literalTokens : Literal → List Token
  | .quoted v => [.str v.toList]
  | .bare s => signTokens s.toList ++ [.number (Text.dropSign s.toList)]

/-- The tokens of a template with a literal in each slot. -/
def fillSlots (ts : List (Token ⊕ Literal)) : List Token :=
  ts.flatMap (Sum.elim (fun t => [t]) literalTokens)

/-- The written text has the tokens of the template, with one literal for each value. -/
def Confined (ps : List Piece) : Prop :=
  ∃ ts, lexTemplate .ground ps = some ts ∧ lex (renderPieces ps) = some (fillSlots ts)

/-- The values stand outside of literals, quoted identifiers and comments, and the template
leaves none of these open. -/
def Lexable (ps : List Piece) : Prop := (lexTemplate .ground ps).isSome = true

instance (ps : List Piece) : Decidable (Lexable ps) := inferInstanceAs (Decidable (_ = true))

/-! ## Scanning from a state -/

/-- The tokens of characters from a state on. -/
def lexFrom (s : LexState) (cs : List Char) : Option (List Token) :=
  (scanChars s cs).2.finish.map fun last => (scanChars s cs).1 ++ last

lemma lexFrom_append (s : LexState) (cs cs' : List Char) :
    lexFrom s (cs ++ cs') =
      (lexFrom (scanChars s cs).2 cs').map fun ts => (scanChars s cs).1 ++ ts := by
  unfold lexFrom
  rw [scanChars_append, Option.map_map]
  simp only [Function.comp_def, List.append_assoc]

lemma lexFrom_cons (s : LexState) (c : Char) (cs : List Char) :
    lexFrom s (c :: cs) = (lexFrom (s.step c).2 cs).map fun ts => (s.step c).1 ++ ts := by
  have hone : scanChars s [c] = s.step c := by simp [scanChars]
  rw [← List.singleton_append, lexFrom_append, hone]

lemma lex_renderPieces (ps : List Piece) :
    lex (renderPieces ps) = lexFrom .ground (ps.flatMap Piece.chars) := by
  rw [lex, renderPieces, String.toList_ofList]
  rfl

/-! ## Quoted values -/

/-- The text goes on with a quote. -/
def beginsQuoted : List Piece → Bool
  | .chr c :: _ => c = '\''
  | .value _ :: _ => true
  | [] => false

/-- The scanner has just read a quote that may close a literal. -/
def LexState.atQuote : LexState → Bool
  | .strQuote _ => true
  | _ => false

/-- No value touches a quote of the template or another value. -/
def standsApart : LexState → List Piece → Bool
  | _, [] => true
  | s, .chr c :: ps => standsApart (s.step c).2 ps
  | s, .value _ :: ps => !s.atQuote && !beginsQuoted ps && standsApart .ground ps

/-- All values of the template are quoted. -/
def AllQuoted (ps : List Piece) : Prop := ∀ l, Piece.value l ∈ ps → ∃ v, l = .quoted v

/-- Outside of a literal a quote opens one. -/
lemma step_quote {s : LexState} (h : s.closed = true) (hquote : ∀ text, s ≠ .strQuote text) :
    ∃ last, s.finish = some last ∧ s.step '\'' = (last, .str []) := by
  have hstart : LexState.start '\'' = ([], .str []) := by decide
  have hword : isWordChar '\'' = false := by decide
  have hdigit : '\''.isDigit = false := by decide
  have hexp : LexState.isExponent '\'' = false := by decide
  cases s with
  | ground => exact ⟨[], rfl, hstart⟩
  | word text => exact ⟨_, rfl, by simp [LexState.step, hword, LexState.emit, hstart]⟩
  | whole text => exact ⟨_, rfl, by simp [LexState.step, hdigit, hexp, LexState.emit, hstart]⟩
  | point => exact ⟨_, rfl, by simp [LexState.step, hdigit, LexState.emit, hstart]⟩
  | fraction text => exact ⟨_, rfl, by simp [LexState.step, hdigit, hexp, LexState.emit, hstart]⟩
  | exponent text e =>
      exact ⟨_, rfl, by simp [LexState.step, hdigit, hword, LexState.emit, hstart]⟩
  | exponentSign text e sign =>
      exact ⟨_, rfl, by simp [LexState.step, hdigit, LexState.emit, hstart]⟩
  | exponentDigits text => exact ⟨_, rfl, by simp [LexState.step, hdigit, LexState.emit, hstart]⟩
  | identQuote text => exact ⟨_, rfl, by simp [LexState.step, LexState.emit, hstart]⟩
  | dash => exact ⟨_, rfl, by simp [LexState.step, LexState.emit, hstart]⟩
  | slash => exact ⟨_, rfl, by simp [LexState.step, LexState.emit, hstart]⟩
  | strQuote text => exact absurd rfl (hquote text)
  | str text => cases h
  | ident text => cases h
  | lineComment => cases h
  | blockComment => cases h
  | blockStar => cases h

/-- The doubled quotes of a value stay inside its literal. -/
lemma scanChars_escaped (v text : List Char) :
    scanChars (.str text) (v.flatMap fun a => if a = '\'' then ['\'', '\''] else [a]) =
      ([], .str (v.reverse ++ text)) := by
  induction v generalizing text with
  | nil => rfl
  | cons a v ih =>
      rw [List.flatMap_cons, scanChars_append]
      by_cases ha : a = '\''
      · subst ha
        have hquotes : scanChars (.str text) ['\'', '\''] = ([], .str ('\'' :: text)) := rfl
        simp only [if_true, hquotes, ih, List.reverse_cons, List.append_assoc, List.nil_append,
          List.singleton_append]
      · have hone : scanChars (.str text) [a] = ([], .str (a :: text)) := by
          simp [scanChars, LexState.step, ha]
        simp only [if_neg ha, hone, ih, List.reverse_cons, List.append_assoc, List.nil_append,
          List.singleton_append]

lemma toList_lit (v : String) : (lit v).toList =
    '\'' :: ((v.toList.flatMap fun a => if a = '\'' then ['\'', '\''] else [a]) ++ ['\'']) := by
  unfold lit Text.replaceChar
  simp only [String.toList_append, String.toList_ofList]
  rfl

/-- Reading a quoted value after the quote that opens it. -/
lemma lexFrom_lit (s : LexState) (v : String) (cs : List Char) {ts : List Token}
    {text : List Char} (h : s.step '\'' = (ts, .str text)) :
    lexFrom s ((lit v).toList ++ cs) =
      (lexFrom (.strQuote (v.toList.reverse ++ text)) cs).map fun us => ts ++ us := by
  rw [toList_lit, List.cons_append, lexFrom_cons, h, List.append_assoc, lexFrom_append,
    scanChars_escaped, List.singleton_append, lexFrom_cons]
  simp only [LexState.step, if_true, List.nil_append, Option.map_map]
  rfl

/-- A literal ends where no further quote follows. -/
lemma lexFrom_strQuote (text : List Char) {cs : List Char} (h : cs.head? ≠ some '\'') :
    lexFrom (.strQuote text) cs =
      (lexFrom .ground cs).map fun ts => .str text.reverse :: ts := by
  cases cs with
  | nil => rfl
  | cons c cs =>
      have hc : c ≠ '\'' := fun hc => h (by rw [hc]; rfl)
      have hstep : LexState.step (.strQuote text) c = LexState.emit (.str text.reverse) c := by
        simp [LexState.step, hc]
      rw [lexFrom_cons, lexFrom_cons, hstep, Option.map_map]
      rfl

lemma head_chars_eq_quote {ps : List Piece} (hq : AllQuoted ps) :
    (ps.flatMap Piece.chars).head? = some '\'' ↔ beginsQuoted ps = true := by
  match ps with
  | [] => simp [beginsQuoted]
  | .chr c :: ps => simp [beginsQuoted, Piece.chars]
  | .value l :: ps =>
      obtain ⟨v, rfl⟩ := hq l List.mem_cons_self
      simp [beginsQuoted, Piece.chars, Literal.render, toList_lit]

/-- How a literal is read does not depend on its text so far. -/
lemma lexFrom_str_length (text text' : List Char) (cs : List Char) :
    (lexFrom (.str text) cs).map List.length = (lexFrom (.str text') cs).map List.length ∧
      (lexFrom (.strQuote text) cs).map List.length =
        (lexFrom (.strQuote text') cs).map List.length := by
  induction cs generalizing text text' with
  | nil => exact ⟨rfl, rfl⟩
  | cons c cs ih =>
      constructor
      · rw [lexFrom_cons, lexFrom_cons]
        by_cases hc : c = '\''
        · simpa [LexState.step, hc] using (ih text text').2
        · simpa [LexState.step, hc] using (ih (c :: text) (c :: text')).1
      · by_cases hc : c = '\''
        · rw [lexFrom_cons, lexFrom_cons]
          simpa [LexState.step, hc] using (ih (c :: text) (c :: text')).1
        · have hhead : (c :: cs).head? ≠ some '\'' := by simpa using hc
          rw [lexFrom_strQuote text hhead, lexFrom_strQuote text' hhead, Option.map_map,
            Option.map_map]
          rfl

/-- After a closing quote the tokens are those of the rest behind the literal, or fewer when the
rest begins with a quote. -/
lemma lexFrom_strQuote_length (text : List Char) {cs : List Char} {us : List Token}
    (h : lexFrom .ground cs = some us) :
    ∃ us', lexFrom (.strQuote text) cs = some us' ∧ us'.length ≤ us.length + 1 ∧
      (cs.head? = some '\'' → us'.length = us.length) := by
  by_cases hhead : cs.head? = some '\''
  · obtain ⟨cs', rfl⟩ : ∃ cs', cs = '\'' :: cs' := by
      cases cs with
      | nil => cases hhead
      | cons c cs =>
          rw [List.head?_cons, Option.some.injEq] at hhead
          exact ⟨cs, by rw [hhead]⟩
    have hopen : LexState.step .ground '\'' = ([], .str []) := by decide
    rw [lexFrom_cons, hopen] at h
    obtain ⟨us', hus', rfl⟩ := Option.map_eq_some_iff.mp h
    have hlength := (lexFrom_str_length ('\'' :: text) [] cs').1
    rw [hus'] at hlength
    obtain ⟨us, hus, hlen⟩ := Option.map_eq_some_iff.mp hlength
    refine ⟨us, ?_, by rw [List.nil_append, hlen]; exact Nat.le_succ _, fun _ => hlen⟩
    have hdouble : LexState.step (.strQuote text) '\'' = ([], .str ('\'' :: text)) := by
      simp [LexState.step]
    rw [lexFrom_cons, hdouble, hus]
    rfl
  · refine ⟨_, by rw [lexFrom_strQuote text hhead, h]; rfl, by simp, fun hq => absurd hq hhead⟩

lemma fillSlots_append (ts ts' : List (Token ⊕ Literal)) :
    fillSlots (ts ++ ts') = fillSlots ts ++ fillSlots ts' := List.flatMap_append

@[simp] lemma fillSlots_tokens (ts : List Token) : fillSlots (ts.map .inl) = ts := by
  induction ts with
  | nil => rfl
  | cons t ts ih =>
      rw [List.map_cons, fillSlots, List.flatMap_cons, ← fillSlots, ih]
      rfl

lemma fillSlots_value (l : Literal) (ts : List (Token ⊕ Literal)) :
    fillSlots (.inr l :: ts) = literalTokens l ++ fillSlots ts := rfl

/-- The written text has a token for every token and value of its template, unless a value
touches a quote: two literals are then read as one. -/
lemma lexFrom_quoted {ps : List Piece} (hq : AllQuoted ps) {s : LexState}
    {ts : List (Token ⊕ Literal)} (h : lexTemplate s ps = some ts) :
    ∃ us, lexFrom s (ps.flatMap Piece.chars) = some us ∧
      (standsApart s ps = true → us = fillSlots ts) ∧
      (standsApart s ps = false → us.length < (fillSlots ts).length) := by
  induction ps generalizing s ts with
  | nil =>
      obtain ⟨last, hlast, rfl⟩ := Option.map_eq_some_iff.mp h
      refine ⟨last, ?_, fun _ => (fillSlots_tokens last).symm, fun hno => by cases hno⟩
      rw [List.flatMap_nil, lexFrom, scanChars, hlast]
      rfl
  | cons p ps ih =>
      have hrest : AllQuoted ps := fun l hl => hq l (List.mem_cons_of_mem _ hl)
      cases p with
      | chr c =>
          obtain ⟨ts, hts, rfl⟩ := Option.map_eq_some_iff.mp h
          obtain ⟨us, hus, hapart, htouch⟩ := ih hrest hts
          refine ⟨(s.step c).1 ++ us, ?_, fun hs => ?_, fun hs => ?_⟩
          · rw [List.flatMap_cons, Piece.chars, List.singleton_append, lexFrom_cons, hus]
            rfl
          · rw [fillSlots_append, fillSlots_tokens, hapart hs]
          · rw [fillSlots_append, fillSlots_tokens, List.length_append, List.length_append]
            exact Nat.add_lt_add_left (htouch hs) _
      | value l =>
          obtain ⟨v, rfl⟩ := hq l List.mem_cons_self
          unfold lexTemplate at h
          split_ifs at h with hclosed
          obtain ⟨last, hlast, h⟩ := Option.bind_eq_some_iff.mp h
          obtain ⟨ts, hts, rfl⟩ := Option.map_eq_some_iff.mp h
          obtain ⟨us, hus, hapart, htouch⟩ := ih hrest hts
          have hle : us.length ≤ (fillSlots ts).length := by
            cases hs : standsApart .ground ps with
            | true => exact Nat.le_of_eq (congrArg List.length (hapart hs))
            | false => exact Nat.le_of_lt (htouch hs)
          have hfill : fillSlots (last.map .inl ++ .inr (.quoted v) :: ts) =
              last ++ .str v.toList :: fillSlots ts := by
            rw [fillSlots_append, fillSlots_tokens, fillSlots_value]
            rfl
          rw [List.flatMap_cons, Piece.chars, Literal.render, hfill]
          by_cases hquote : s.atQuote = true
          · -- the value follows a literal: its quotes are read as doubled
            obtain ⟨text, rfl⟩ : ∃ text, s = .strQuote text := by
              cases s with
              | strQuote text => exact ⟨text, rfl⟩
              | _ => cases hquote
            have hstep : LexState.step (.strQuote text) '\'' = ([], .str ('\'' :: text)) := by
              simp [LexState.step]
            obtain ⟨us', hus', hlen, _⟩ := lexFrom_strQuote_length
              (v.toList.reverse ++ '\'' :: text) hus
            cases hlast
            refine ⟨us', by rw [lexFrom_lit _ _ _ hstep, hus']; rfl, fun hs => ?_, fun _ => ?_⟩
            · simp [standsApart, LexState.atQuote] at hs
            · simp only [List.singleton_append, List.length_cons]
              omega
          · obtain ⟨last', hlast', hstep⟩ := step_quote hclosed fun text htext => by
              rw [htext] at hquote
              exact hquote rfl
            rw [hlast] at hlast'
            cases hlast'
            rw [lexFrom_lit s v _ hstep, List.append_nil]
            by_cases hnext : beginsQuoted ps = true
            · obtain ⟨us', hus', _, hlen⟩ :=
                lexFrom_strQuote_length v.toList.reverse hus
              refine ⟨last ++ us', by rw [hus']; rfl, fun hs => ?_, fun _ => ?_⟩
              · simp [standsApart, hnext] at hs
              · have hlen' := hlen ((head_chars_eq_quote hrest).mpr hnext)
                simp only [List.length_append, List.length_cons]
                omega
            · have hhead := fun hh => hnext ((head_chars_eq_quote hrest).mp hh)
              rw [lexFrom_strQuote _ hhead, hus, List.reverse_reverse]
              have hsame : standsApart s (.value (.quoted v) :: ps) = standsApart .ground ps := by
                simp [standsApart, hnext, hquote]
              rw [hsame]
              refine ⟨_, rfl, fun hs => by rw [hapart hs], fun hs => ?_⟩
              have hlt := htouch hs
              simp only [List.length_append, List.length_cons]
              omega

/-- **Quoted values** are confined exactly when the template can be read around them and none of
them touches a quote of the template or another value. -/
theorem confined_iff_apart {ps : List Piece} (hq : AllQuoted ps) :
    Confined ps ↔ Lexable ps ∧ standsApart .ground ps = true := by
  unfold Confined Lexable
  rw [lex_renderPieces]
  constructor
  · rintro ⟨ts, hts, hlex⟩
    obtain ⟨us, hus, _, htouch⟩ := lexFrom_quoted hq hts
    rw [hus] at hlex
    cases hlex
    refine ⟨by rw [hts]; rfl, ?_⟩
    by_contra hs
    exact absurd (htouch (by simpa using hs)) (Nat.lt_irrefl _)
  · rintro ⟨hlexable, hs⟩
    obtain ⟨ts, hts⟩ := Option.isSome_iff_exists.mp hlexable
    obtain ⟨us, hus, hapart, _⟩ := lexFrom_quoted hq hts
    exact ⟨ts, hts, by rw [hus, hapart hs]⟩

/-! ## Numerals -/

/-- The characters are a single token, which does not begin with a dash. -/
def ReadsAs (cs : List Char) (t : Token) : Prop :=
  cs.head? ≠ some '-' ∧
    ∃ s, scanChars .ground cs = ([], s) ∧ s.closed = true ∧ s.finish = some [t]

lemma start_digit {c : Char} (h : c.isDigit = true) : LexState.start c = ([], .whole [c]) := by
  have hne : ∀ d : Char, d.isDigit = false → c ≠ d := by
    rintro d hd rfl
    rw [h] at hd
    cases hd
  have hblank : Text.isWhitespace c = false := by
    simp only [Char.isDigit, ge_iff_le, UInt32.le_iff_toNat_le, Bool.and_eq_true,
      decide_eq_true_eq] at h
    have h1 : 48 ≤ c.toNat := h.1
    have h2 : c.toNat ≤ 57 := h.2
    simp only [Text.isWhitespace, Bool.or_eq_false_iff, Bool.and_eq_false_iff, beq_eq_false_iff_ne,
      decide_eq_false_iff_not]
    omega
  simp [LexState.start, hblank, hne '\'' (by decide), hne '"' (by decide), hne '-' (by decide),
    hne '/' (by decide), hne '.' (by decide), h]

lemma scanChars_digits {state : List Char → LexState}
    (hstep : ∀ text c, c.isDigit = true → (state text).step c = ([], state (c :: text)))
    {ds : List Char} (h : ds.all Char.isDigit = true) (text : List Char) :
    scanChars (state text) ds = ([], state (ds.reverse ++ text)) := by
  induction ds generalizing text with
  | nil => rfl
  | cons d ds ih =>
      rw [List.all_cons, Bool.and_eq_true] at h
      simp only [scanChars, hstep text d h.1, ih h.2, List.nil_append, List.reverse_cons,
        List.append_assoc, List.singleton_append]

lemma scanChars_whole {ds : List Char} (h : ds.all Char.isDigit = true) (text : List Char) :
    scanChars (.whole text) ds = ([], .whole (ds.reverse ++ text)) :=
  scanChars_digits (fun text c hc => by simp [LexState.step, hc]) h text

lemma scanChars_fraction {ds : List Char} (h : ds.all Char.isDigit = true) (text : List Char) :
    scanChars (.fraction text) ds = ([], .fraction (ds.reverse ++ text)) :=
  scanChars_digits (fun text c hc => by simp [LexState.step, hc]) h text

lemma scanChars_exponentDigits {ds : List Char} (h : ds.all Char.isDigit = true)
    (text : List Char) :
    scanChars (.exponentDigits text) ds = ([], .exponentDigits (ds.reverse ++ text)) :=
  scanChars_digits (fun text c hc => by simp [LexState.step, hc]) h text

/-- Digits with at most one point are read as the beginning of a numeral. -/
lemma scanChars_mantissa {cs : List Char} (h : Text.isMantissa cs = true) :
    scanChars .ground cs = ([], .whole cs.reverse) ∨
      scanChars .ground cs = ([], .fraction cs.reverse) := by
  unfold Text.isMantissa at h
  split at h
  · next hsplit =>
      cases cs with
      | nil => cases h
      | cons d ds =>
          simp only [Text.isDigits, List.all_cons, Bool.and_eq_true] at h
          left
          simp [scanChars, LexState.step, start_digit h.2.1, scanChars_whole h.2.2]
  · next whole frac hsplit =>
      obtain ⟨rfl, _⟩ := Text.splitOnceChars_spec hsplit
      simp only [Bool.and_eq_true] at h
      obtain ⟨⟨hwhole, hfrac⟩, hne⟩ := h
      right
      cases whole with
      | nil =>
          cases frac with
          | nil => cases hne
          | cons f fs =>
              rw [List.all_cons, Bool.and_eq_true] at hfrac
              have hpoint : LexState.start '.' = ([], .point) := by decide
              simp [scanChars, LexState.step, hpoint, hfrac.1, scanChars_fraction hfrac.2]
      | cons d ds =>
          rw [List.all_cons, Bool.and_eq_true] at hwhole
          have hdot : '.'.isDigit = false := by decide
          simp [scanChars, LexState.step, start_digit hwhole.1, scanChars_append,
            scanChars_whole hwhole.2, hdot, scanChars_fraction hfrac]

/-- A lower-case text without letters is the text itself. -/
lemma eq_of_map_toLower {cs ds : List Char} (h : cs.map Char.toLower = ds)
    (hd : ∀ d ∈ ds, d.isAlpha = false) : cs = ds := by
  subst h
  refine (List.map_id' cs).symm.trans (List.map_congr_left fun c hc => ?_)
  have halpha := hd c.toLower (List.mem_map_of_mem hc)
  rw [Char.isAlpha_toLower_eq_isAlpha] at halpha
  refine (Char.toLower_eq_of_not_isUpper fun hupper => ?_).symm
  simp [Char.isAlpha, hupper] at halpha

lemma isAlpha_of_isDigit {c : Char} (h : c.isDigit = true) : c.isAlpha = false := by
  simp only [Char.isDigit, Char.isAlpha, Char.isUpper, Char.isLower, ge_iff_le,
    UInt32.le_iff_toNat_le, Bool.and_eq_true, decide_eq_true_eq, Bool.or_eq_false_iff,
    Bool.and_eq_false_iff, decide_eq_false_iff_not] at h ⊢
  have h1 : 48 ≤ c.val.toNat := h.1
  have h2 : c.val.toNat ≤ 57 := h.2
  have hA : 'A'.val.toNat = 65 := rfl
  have ha : 'a'.val.toNat = 97 := rfl
  omega

lemma isExponent_of_toLower {c : Char} (h : c.toLower = 'e') : LexState.isExponent c = true := by
  by_cases hupper : c.isUpper = true
  · rw [Char.toLower_eq_of_isUpper hupper] at h
    have hnat := congrArg Char.toNat h
    have he : 'e'.toNat = 101 := rfl
    rw [Char.toNat_ofNat, he] at hnat
    split at hnat
    · have hc : c = 'E' := Char.toNat_inj.mp (by have hE : 'E'.toNat = 69 := rfl; omega)
      simp [LexState.isExponent, hc]
    · omega
  · rw [Char.toLower_eq_of_not_isUpper hupper] at h
    simp [LexState.isExponent, h]

lemma mantissa_chars {cs : List Char} (h : Text.isMantissa cs = true) :
    cs ≠ [] ∧ ∀ c ∈ cs, c.isDigit = true ∨ c = '.' := by
  unfold Text.isMantissa at h
  split at h
  · simp only [Text.isDigits, Bool.and_eq_true, List.all_eq_true] at h
    exact ⟨by simpa using h.1, fun c hc => .inl (h.2 c hc)⟩
  · next whole frac hsplit =>
      obtain ⟨rfl, _⟩ := Text.splitOnceChars_spec hsplit
      simp only [Bool.and_eq_true, List.all_eq_true] at h
      refine ⟨by simp, fun c hc => ?_⟩
      rcases List.mem_append.mp hc with hc | hc
      · exact .inl (h.1.1 c hc)
      · rcases List.mem_cons.mp hc with rfl | hc
        · exact .inr rfl
        · exact .inl (h.1.2 c hc)

lemma mantissa_head {cs : List Char} (h : Text.isMantissa cs = true) :
    cs.head? ≠ some '-' := by
  intro hhead
  rcases (mantissa_chars h).2 '-' (List.mem_of_mem_head? hhead) with hd | hd
  · revert hd
    decide
  · cases hd

lemma mantissa_not_alpha {cs : List Char} (h : Text.isMantissa cs = true) :
    ∀ c ∈ cs, c.isAlpha = false := by
  intro c hc
  rcases (mantissa_chars h).2 c hc with hd | rfl
  · exact isAlpha_of_isDigit hd
  · decide

lemma signed_cases (cs : List Char) :
    (Text.dropSign cs = cs ∧ signTokens cs = []) ∨ ∃ sign, (sign = '+' ∨ sign = '-') ∧
      cs = sign :: Text.dropSign cs ∧ signTokens cs = [.symbol sign] := by
  unfold Text.dropSign
  split
  · exact .inr ⟨'+', .inl rfl, rfl, rfl⟩
  · exact .inr ⟨'-', .inr rfl, rfl, rfl⟩
  · next hplus hdash =>
      refine .inl ⟨rfl, ?_⟩
      unfold signTokens
      split
      · exact absurd rfl (hplus _)
      · exact absurd rfl (hdash _)
      · rfl

/-- What `f64::from_str` accepts as a number in digits is one numeral. -/
lemma readsAs_decimal {cs : List Char} (h : Text.isDecimal cs = true) :
    ReadsAs cs (.number cs) := by
  unfold Text.isDecimal at h
  split at h
  · refine ⟨mantissa_head h, ?_⟩
    rcases scanChars_mantissa h with hscan | hscan
    · exact ⟨_, hscan, rfl, by rw [LexState.finish, List.reverse_reverse]⟩
    · exact ⟨_, hscan, rfl, by rw [LexState.finish, List.reverse_reverse]⟩
  · next mantissa digits hsplit =>
      rw [Bool.and_eq_true] at h
      obtain ⟨hmantissa, hdigits⟩ := h
      -- the letters of the text are the one that begins the exponent
      obtain ⟨ms, rest, rfl, hms, hrest⟩ := List.map_eq_append_iff.mp
        (Text.splitOnceChars_spec hsplit).1
      obtain ⟨e, xs, rfl, he, hxs⟩ := List.map_eq_cons_iff.mp hrest
      have hms' := eq_of_map_toLower hms (mantissa_not_alpha hmantissa)
      subst hms'
      have hdigits' : (Text.dropSign digits).all Char.isDigit = true := by
        rw [Text.isDigits, Bool.and_eq_true] at hdigits
        exact hdigits.2
      have hnotAlpha : ∀ c ∈ Text.dropSign digits, c.isAlpha = false := fun c hc =>
        isAlpha_of_isDigit (List.all_eq_true.mp hdigits' c hc)
      have hxs' : xs = digits := by
        refine eq_of_map_toLower hxs fun d hd => ?_
        rcases signed_cases digits with ⟨hsame, _⟩ | ⟨sign, hsign, hcons, _⟩
        · exact hnotAlpha d (by rw [hsame]; exact hd)
        · rw [hcons] at hd
          rcases List.mem_cons.mp hd with rfl | hd
          · rcases hsign with rfl | rfl <;> decide
          · exact hnotAlpha d hd
      subst hxs'
      have hexp := isExponent_of_toLower he
      have hnot : e.isDigit = false := by
        by_contra hd
        rw [Bool.not_eq_false] at hd
        rcases Bool.or_eq_true_iff.mp hexp with h1 | h1
        · rw [decide_eq_true_eq] at h1
          subst h1
          revert hd
          decide
        · rw [decide_eq_true_eq] at h1
          subst h1
          revert hd
          decide
      have hpoint : e ≠ '.' := by
        rintro rfl
        revert hexp
        decide
      obtain ⟨s, hs, hstep⟩ : ∃ s, scanChars .ground ms = ([], s) ∧
          s.step e = ([], .exponent ms.reverse e) := by
        rcases scanChars_mantissa hmantissa with hscan | hscan
        · exact ⟨_, hscan, by simp [LexState.step, hnot, hpoint, hexp]⟩
        · exact ⟨_, hscan, by simp [LexState.step, hnot, hexp]⟩
      obtain ⟨d, ds, hds⟩ : ∃ d ds, Text.dropSign xs = d :: ds := by
        cases hd : Text.dropSign xs with
        | nil => rw [hd] at hdigits; cases hdigits
        | cons d ds => exact ⟨d, ds, rfl⟩
      rw [hds, List.all_cons, Bool.and_eq_true] at hdigits'
      have hend : scanChars (.exponent ms.reverse e) xs =
          ([], .exponentDigits (xs.reverse ++ e :: ms.reverse)) := by
        rcases signed_cases xs with ⟨hsame, _⟩ | ⟨sign, hsign, hcons, _⟩
        · rw [← hsame, hds]
          simp [scanChars, LexState.step, hdigits'.1, scanChars_exponentDigits hdigits'.2]
        · have hsignDigit : sign.isDigit = false := by rcases hsign with rfl | rfl <;> decide
          rw [hcons, hds]
          simp [scanChars, LexState.step, hsignDigit, hsign, hdigits'.1,
            scanChars_exponentDigits hdigits'.2]
      refine ⟨?_, .exponentDigits (xs.reverse ++ e :: ms.reverse), ?_, rfl, ?_⟩
      · rw [List.head?_append_of_ne_nil _ (mantissa_chars hmantissa).1]
        exact mantissa_head hmantissa
      · rw [scanChars_append, hs, scanChars, hstep, hend]
        rfl
      · simp [LexState.finish]

/-- Digits are one numeral. -/
lemma readsAs_digits {cs : List Char} (h : Text.isDigits cs = true) :
    ReadsAs cs (.number cs) := by
  match cs, h with
  | d :: ds, h =>
      simp only [Text.isDigits, List.all_cons, Bool.and_eq_true] at h
      refine ⟨fun hhead => ?_, .whole (d :: ds).reverse, ?_, rfl,
        by rw [LexState.finish, List.reverse_reverse]⟩
      · rw [List.head?_cons, Option.some.injEq] at hhead
        subst hhead
        exact absurd h.2.1 (by decide)
      · simp [scanChars, LexState.step, start_digit h.2.1, scanChars_whole h.2.2]

lemma start_alpha {c : Char} (h : c.isAlpha = true) : LexState.start c = ([], .word [c]) := by
  have hne : ∀ d : Char, d.isAlpha = false → c ≠ d := by
    rintro d hd rfl
    rw [h] at hd
    cases hd
  have hdigit : c.isDigit = false := by
    by_contra hd
    rw [Bool.not_eq_false] at hd
    rw [isAlpha_of_isDigit hd] at h
    cases h
  have hblank : Text.isWhitespace c = false := by
    simp only [Char.isAlpha, Char.isUpper, Char.isLower, ge_iff_le, UInt32.le_iff_toNat_le,
      Bool.or_eq_true, Bool.and_eq_true, decide_eq_true_eq] at h
    have hA : 'A'.val.toNat = 65 := rfl
    have hZ : 'Z'.val.toNat = 90 := rfl
    have ha : 'a'.val.toNat = 97 := rfl
    have hz : 'z'.val.toNat = 122 := rfl
    have hval : c.toNat = c.val.toNat := rfl
    simp only [Text.isWhitespace, Bool.or_eq_false_iff, Bool.and_eq_false_iff, beq_eq_false_iff_ne,
      decide_eq_false_iff_not, hval]
    omega
  have hword : isWordChar c = true := by simp [isWordChar, Char.isAlphanum, h]
  simp [LexState.start, hblank, hne '\'' (by decide), hne '"' (by decide), hne '-' (by decide),
    hne '/' (by decide), hne '.' (by decide), hdigit, hword]

/-- Letters are one word. -/
lemma readsAs_alpha {cs : List Char} (hne : cs ≠ []) (h : ∀ c ∈ cs, c.isAlpha = true) :
    ReadsAs cs (.word cs) := by
  have hword : ∀ ds : List Char, (∀ c ∈ ds, c.isAlpha = true) → ∀ text,
      scanChars (.word text) ds = ([], .word (ds.reverse ++ text)) := by
    intro ds hds
    induction ds with
    | nil => exact fun _ => rfl
    | cons d ds ih =>
        intro text
        have hd : isWordChar d = true := by
          simp [isWordChar, Char.isAlphanum, hds d List.mem_cons_self]
        have hstep : LexState.step (.word text) d = ([], .word (d :: text)) := by
          simp [LexState.step, hd]
        simp only [scanChars, hstep, ih fun e he => hds e (List.mem_cons_of_mem _ he),
          List.nil_append, List.reverse_cons, List.append_assoc, List.singleton_append]
  obtain ⟨c, cs, rfl⟩ := List.exists_cons_of_ne_nil hne
  have hc := h c List.mem_cons_self
  refine ⟨fun hhead => ?_, .word (c :: cs).reverse, ?_, rfl,
    by rw [LexState.finish, List.reverse_reverse]⟩
  · rw [List.head?_cons, Option.some.injEq] at hhead
    subst hhead
    exact absurd hc (by decide)
  · simp [scanChars, LexState.step, start_alpha hc,
      hword cs fun d hd => h d (List.mem_cons_of_mem _ hd)]

/-- A number written as a word is one word. -/
lemma readsAs_floatName {s : String} (h : Text.isFloatName s = true) :
    ReadsAs (Text.dropSign s.toList) (.word (Text.dropSign s.toList)) := by
  simp only [Text.isFloatName, Bool.or_eq_true, beq_iff_eq] at h
  have hlower : ∃ word : List Char, word ≠ [] ∧ (∀ c ∈ word, c.isAlpha = true) ∧
      (Text.dropSign s.toList).map Char.toLower = word := by
    rcases h with (h | h) | h
    · exact ⟨"inf".toList, by decide, List.all_eq_true.mp (by decide), h⟩
    · exact ⟨"infinity".toList, by decide, List.all_eq_true.mp (by decide), h⟩
    · exact ⟨"nan".toList, by decide, List.all_eq_true.mp (by decide), h⟩
  obtain ⟨word, hne, halpha, hmap⟩ := hlower
  refine readsAs_alpha (fun hnil => hne (by rw [← hmap, hnil]; rfl)) fun c hc => ?_
  rw [← Char.isAlpha_toLower_eq_isAlpha]
  exact halpha _ (hmap ▸ List.mem_map_of_mem hc)

/-- A sign before a token is a symbol of its own. -/
lemma scanChars_signed {cs : List Char} {t : Token} (h : ReadsAs (Text.dropSign cs) t) :
    ∃ s, scanChars .ground cs = (signTokens cs, s) ∧ s.closed = true ∧ s.finish = some [t] := by
  obtain ⟨hhead, s, hscan, hclosed, hfinish⟩ := h
  refine ⟨s, ?_, hclosed, hfinish⟩
  rcases signed_cases cs with ⟨hsame, htokens⟩ | ⟨sign, hsign, hcons, htokens⟩
  · rw [htokens, ← hsame, hscan]
  · rw [htokens, hcons, scanChars]
    rcases hsign with rfl | rfl
    · have hplus : LexState.step .ground '+' = ([.symbol '+'], .ground) := by decide
      rw [hplus, hscan, List.append_nil]
    · have hdash : LexState.step .ground '-' = ([], .dash) := by decide
      rw [hdash]
      cases hbody : Text.dropSign cs with
      | nil =>
          rw [hbody] at hscan
          cases hscan
          cases hfinish
      | cons c body =>
          rw [hbody] at hscan hhead
          have hc : c ≠ '-' := fun hc => hhead (by rw [hc]; rfl)
          have hstep : LexState.step .dash c =
              (.symbol '-' :: (LexState.step .ground c).1, (LexState.step .ground c).2) := by
            simp [LexState.step, hc, LexState.emit]
          rw [scanChars, Prod.mk.injEq] at hscan
          rw [scanChars, hstep]
          simp only [List.nil_append, List.cons_append, hscan.1, hscan.2]

/-- What a literal is read as: a bare `inf` or `nan` is a word. -/
def readLiteral : Literal → List Token
  | .quoted v => [.str v.toList]
  | .bare s => signTokens s.toList ++
      [if Text.isFloatName s then .word (Text.dropSign s.toList)
        else .number (Text.dropSign s.toList)]

/-- A value that parses as a number is, after its sign, one token. -/
lemma readsAs_bare {s : String} (h : (Text.parsesI64 s || Text.parsesF64 s) = true) :
    ReadsAs (Text.dropSign s.toList)
      (if Text.isFloatName s then .word (Text.dropSign s.toList)
        else .number (Text.dropSign s.toList)) := by
  by_cases hname : Text.isFloatName s = true
  · rw [if_pos hname]
    exact readsAs_floatName hname
  · rw [if_neg hname]
    rw [Text.parsesF64_eq, Bool.or_eq_true, Bool.or_eq_true] at h
    rcases h with hint | hname' | hdecimal
    · simp only [Text.parsesI64, Bool.and_eq_true] at hint
      exact readsAs_digits hint.1
    · exact absurd hname' hname
    · exact readsAs_decimal hdecimal

/-! ## Values between delimiters -/

/-- The next piece, if there is one, is a character between tokens. -/
def beginsDelimited : List Piece → Bool
  | [] => true
  | .chr c :: _ => isDelimiter c && !isWordChar c
  | .value _ :: _ => false

/-- The values that are tokens by themselves stand between delimiters. -/
def Delimited : LexState → List Piece → Prop
  | _, [] => True
  | s, .chr c :: ps => Delimited (s.step c).2 ps
  | s, .value _ :: ps =>
      (s.closed = true → s = .ground) ∧ beginsDelimited ps = true ∧ Delimited .ground ps

/-- Bare values parse as numbers. -/
def BareNumbers (ps : List Piece) : Prop :=
  ∀ s, Piece.value (.bare s) ∈ ps → (Text.parsesI64 s || Text.parsesF64 s) = true

/-- A token ends at a delimiter. -/
lemma lexFrom_delimited {s : LexState} (h : s.closed = true) {ps : List Piece}
    (hps : beginsDelimited ps = true) :
    ∃ last, s.finish = some last ∧ lexFrom s (ps.flatMap Piece.chars) =
      (lexFrom .ground (ps.flatMap Piece.chars)).map fun ts => last ++ ts := by
  match ps, hps with
  | [], _ =>
      obtain ⟨last, hlast, _⟩ := LexState.step_blank h
      have hground : LexState.finish .ground = some [] := rfl
      refine ⟨last, hlast, ?_⟩
      simp only [List.flatMap_nil, lexFrom, scanChars, hlast, hground, Option.map_some,
        List.nil_append, List.append_nil]
  | .chr c :: ps, hps =>
      rw [beginsDelimited, Bool.and_eq_true, Bool.not_eq_true'] at hps
      obtain ⟨last, hlast, hstep⟩ := LexState.step_delimiter h hps.1 hps.2
      refine ⟨last, hlast, ?_⟩
      rw [List.flatMap_cons, Piece.chars, List.singleton_append, lexFrom_cons, lexFrom_cons, hstep,
        Option.map_map]
      simp only [Function.comp_def, List.append_assoc]
      rfl

/-- Reading a literal between delimiters. -/
lemma lexFrom_literal {l : Literal} {ps : List Piece} (hps : beginsDelimited ps = true)
    (hbare : ∀ s, l = .bare s → (Text.parsesI64 s || Text.parsesF64 s) = true) :
    lexFrom .ground (l.render.toList ++ ps.flatMap Piece.chars) =
      (lexFrom .ground (ps.flatMap Piece.chars)).map fun ts => readLiteral l ++ ts := by
  cases l with
  | quoted v =>
      have hopen : LexState.step .ground '\'' = ([], .str []) := by decide
      obtain ⟨last, hlast, hrest⟩ := lexFrom_delimited
        (s := .strQuote (v.toList.reverse ++ [])) rfl hps
      cases hlast
      rw [Literal.render, lexFrom_lit _ _ _ hopen, hrest, Option.map_map]
      simp [readLiteral, Function.comp_def]
  | bare s =>
      obtain ⟨st, hsigned, hclosed, hfinish⟩ := scanChars_signed (readsAs_bare (hbare s rfl))
      obtain ⟨last, hlast, hrest⟩ := lexFrom_delimited hclosed hps
      rw [hfinish] at hlast
      cases hlast
      rw [Literal.render, lexFrom_append, hsigned, hrest, Option.map_map]
      simp [readLiteral, Function.comp_def]

/-- The tokens of a template with its literals as they are read. -/
def readSlots (ts : List (Token ⊕ Literal)) : List Token :=
  ts.flatMap (Sum.elim (fun t => [t]) readLiteral)

lemma readSlots_append (ts ts' : List (Token ⊕ Literal)) :
    readSlots (ts ++ ts') = readSlots ts ++ readSlots ts' := List.flatMap_append

@[simp] lemma readSlots_tokens (ts : List Token) : readSlots (ts.map .inl) = ts := by
  induction ts with
  | nil => rfl
  | cons t ts ih =>
      rw [List.map_cons, readSlots, List.flatMap_cons, ← readSlots, ih]
      rfl

/-- Between delimiters every value is read by itself. -/
lemma lexFrom_template {ps : List Piece} (hbare : BareNumbers ps) {s : LexState}
    (hdelim : Delimited s ps) {ts : List (Token ⊕ Literal)} (h : lexTemplate s ps = some ts) :
    lexFrom s (ps.flatMap Piece.chars) = some (readSlots ts) := by
  induction ps generalizing s ts with
  | nil =>
      obtain ⟨last, hlast, rfl⟩ := Option.map_eq_some_iff.mp h
      rw [List.flatMap_nil, lexFrom, scanChars, hlast, readSlots_tokens]
      rfl
  | cons p ps ih =>
      have hrest : BareNumbers ps := fun s hs => hbare s (List.mem_cons_of_mem _ hs)
      cases p with
      | chr c =>
          obtain ⟨ts, hts, rfl⟩ := Option.map_eq_some_iff.mp h
          rw [List.flatMap_cons, Piece.chars, List.singleton_append, lexFrom_cons,
            ih hrest hdelim hts, readSlots_append, readSlots_tokens]
          rfl
      | value l =>
          obtain ⟨hground, hnext, hdelim⟩ := hdelim
          unfold lexTemplate at h
          split_ifs at h with hclosed
          cases hground hclosed
          obtain ⟨last, hlast, h⟩ := Option.bind_eq_some_iff.mp h
          obtain ⟨ts, hts, rfl⟩ := Option.map_eq_some_iff.mp h
          cases hlast
          rw [List.flatMap_cons, Piece.chars, lexFrom_literal hnext fun s hs =>
            hbare s (hs ▸ List.mem_cons_self), ih hrest hdelim hts]
          rfl

/-- The slots of a template hold its values. -/
lemma mem_lexTemplate {ps : List Piece} {s : LexState} {ts : List (Token ⊕ Literal)}
    (h : lexTemplate s ps = some ts) {l : Literal} : .inr l ∈ ts ↔ Piece.value l ∈ ps := by
  induction ps generalizing s ts with
  | nil =>
      obtain ⟨last, _, rfl⟩ := Option.map_eq_some_iff.mp h
      simp
  | cons p ps ih =>
      cases p with
      | chr c =>
          obtain ⟨ts, hts, rfl⟩ := Option.map_eq_some_iff.mp h
          simp [ih hts]
      | value l' =>
          unfold lexTemplate at h
          split_ifs at h with hclosed
          obtain ⟨last, hlast, h⟩ := Option.bind_eq_some_iff.mp h
          obtain ⟨ts, hts, rfl⟩ := Option.map_eq_some_iff.mp h
          simp [ih hts]

lemma readLiteral_eq_iff {l : Literal} :
    readLiteral l = literalTokens l ↔ ∀ s, l = .bare s → Text.isFloatName s = false := by
  cases l with
  | quoted v => simp [readLiteral, literalTokens]
  | bare s => cases hname : Text.isFloatName s <;> simp [readLiteral, literalTokens, hname]

lemma readSlots_eq_iff {ts : List (Token ⊕ Literal)} :
    readSlots ts = fillSlots ts ↔ ∀ s, .inr (.bare s) ∈ ts → Text.isFloatName s = false := by
  induction ts with
  | nil => simp [readSlots, fillSlots]
  | cons t ts ih =>
      rw [readSlots, fillSlots, List.flatMap_cons, List.flatMap_cons, ← readSlots, ← fillSlots]
      cases t with
      | inl t =>
          rw [Sum.elim_inl, Sum.elim_inl, List.append_cancel_left_eq, ih]
          simp
      | inr l =>
          have hlen : (readLiteral l).length = (literalTokens l).length := by
            cases l <;> simp [readLiteral, literalTokens]
          rw [Sum.elim_inr, Sum.elim_inr]
          constructor
          · intro happ
            obtain ⟨hl, hts⟩ := List.append_inj happ hlen
            intro s hs
            rcases List.mem_cons.mp hs with heq | hs
            · exact readLiteral_eq_iff.mp hl s (Sum.inr.inj heq).symm
            · exact ih.mp hts s hs
          · intro hnames
            rw [ih.mpr fun s hs => hnames s (List.mem_cons_of_mem _ hs),
              readLiteral_eq_iff.mpr fun s hs => hnames s (hs ▸ List.mem_cons_self)]

/-- **Values between delimiters** that are quoted or parse as numbers are confined exactly when
the template can be read around them and no bare number is written as a word. -/
theorem confined_iff_numerals {ps : List Piece} (hbare : BareNumbers ps)
    (hdelim : Delimited .ground ps) :
    Confined ps ↔
      Lexable ps ∧ ∀ s, Piece.value (.bare s) ∈ ps → Text.isFloatName s = false := by
  unfold Confined Lexable
  rw [lex_renderPieces]
  constructor
  · rintro ⟨ts, hts, hlex⟩
    rw [lexFrom_template hbare hdelim hts, Option.some.injEq, readSlots_eq_iff] at hlex
    exact ⟨by rw [hts]; rfl, fun s hs => hlex s ((mem_lexTemplate hts).mpr hs)⟩
  · rintro ⟨hlexable, hnames⟩
    obtain ⟨ts, hts⟩ := Option.isSome_iff_exists.mp hlexable
    refine ⟨ts, hts, ?_⟩
    rw [lexFrom_template hbare hdelim hts, Option.some.injEq, readSlots_eq_iff]
    exact fun s hs => hnames s ((mem_lexTemplate hts).mp hs)

end Sql
end Pawrly
