import Pawrly.Sql.Confinement

/-!
# Texts put together

A text spells its tokens when it is scanned into them and ends outside of literals, identifiers and
comments (`Spells`).  The tokens of texts put together at a delimiter are then those of the parts
(`Spells.append`), so that the tokens of a rendered expression follow from those of its operands.
-/

namespace Pawrly
namespace Sql

/-- The text has these tokens, also where a delimiter and more text follow. -/
structure Spells (text : String) (ts : List Token) : Prop where
  lex_eq : lex text = some ts
  closed : Closed text

/-- The text is empty or begins with a character that can only stand between tokens or be one by
itself. -/
def opensDelimited (text : String) : Bool :=
  match text.toList with
  | [] => true
  | c :: _ => isDelimiter c && !isWordChar c

lemma closed_finish {s : LexState} (h : s.closed = true) : ∃ last, s.finish = some last := by
  obtain ⟨last, hlast, -⟩ := LexState.step_blank h
  exact ⟨last, hlast⟩

/-- A closed text spells something. -/
lemma Closed.spells {text : String} (h : Closed text) : Spells text ((lex text).getD []) := by
  obtain ⟨last, hlast⟩ := closed_finish h
  refine ⟨?_, h⟩
  simp [lex, hlast]

lemma spells_iff {text : String} {ts : List Token} :
    Spells text ts ↔ ∃ s last, (scanChars .ground text.toList).2 = s ∧ s.closed = true ∧
      s.finish = some last ∧ (scanChars .ground text.toList).1 ++ last = ts := by
  constructor
  · rintro ⟨hlex, hclosed⟩
    obtain ⟨last, hlast⟩ := closed_finish hclosed
    refine ⟨_, last, rfl, hclosed, hlast, ?_⟩
    unfold lex at hlex
    simpa [hlast] using hlex
  · rintro ⟨s, last, rfl, hclosed, hlast, rfl⟩
    refine ⟨?_, hclosed⟩
    unfold lex
    simp [hlast]

/-- The text is scanned into these tokens and ends between tokens. -/
def Scans (text : String) (ts : List Token) : Prop :=
  scanChars .ground text.toList = (ts, .ground)

instance (text : String) (ts : List Token) : Decidable (Scans text ts) :=
  inferInstanceAs (Decidable (_ = _))

lemma Scans.spells {text : String} {ts : List Token} (h : Scans text ts) : Spells text ts :=
  spells_iff.mpr ⟨.ground, [], by rw [h], rfl, rfl, by rw [h, List.append_nil]⟩

lemma Scans.append {text text' : String} {ts ts' : List Token} (h : Scans text ts)
    (h' : Scans text' ts') : Scans (text ++ text') (ts ++ ts') := by
  unfold Scans
  rw [String.toList_append, scanChars_append, h, h']

/-- Scanning on behind a text, from a delimiter. -/
lemma Spells.scan {text : String} {ts : List Token} (h : Spells text ts) {rest : String}
    (hrest : opensDelimited rest = true) (hne : rest.toList ≠ []) :
    scanChars .ground (text.toList ++ rest.toList) =
      (ts ++ (scanChars .ground rest.toList).1, (scanChars .ground rest.toList).2) := by
  obtain ⟨s, last, hs, hclosed, hlast, rfl⟩ := spells_iff.mp h
  unfold opensDelimited at hrest
  cases hcs : rest.toList with
  | nil => exact absurd hcs hne
  | cons c cs =>
      simp only [hcs, Bool.and_eq_true, Bool.not_eq_true'] at hrest
      obtain ⟨last', hlast', hstep⟩ := LexState.step_delimiter hclosed hrest.1 hrest.2
      obtain rfl : last = last' := by simpa [hlast] using hlast'
      have hground : LexState.step .ground c = LexState.start c := rfl
      rw [scanChars_append, hs]
      simp only [scanChars, hstep, hground, List.append_assoc]

/-- **Texts put together**: the tokens are those of both. -/
lemma Spells.append {text text' : String} {ts ts' : List Token} (h : Spells text ts)
    (h' : Spells text' ts') (hdelim : opensDelimited text' = true) :
    Spells (text ++ text') (ts ++ ts') := by
  by_cases hne : text'.toList = []
  · obtain rfl : text' = "" := String.toList_eq_nil_iff.mp hne
    obtain rfl : ts' = [] := by simpa [lex, scanChars, LexState.finish] using h'.lex_eq
    simpa using h
  · obtain ⟨s, last, hs, hclosed, hlast, rfl⟩ := spells_iff.mp h'
    refine spells_iff.mpr ⟨s, last, ?_, hclosed, hlast, ?_⟩
    · rw [String.toList_append, h.scan hdelim hne, hs]
    · rw [String.toList_append, h.scan hdelim hne, List.append_assoc]

lemma Spells.scans {text rest : String} {ts ts' : List Token} (h : Spells text ts)
    (hrest : Scans rest ts') (hdelim : opensDelimited rest = true) (hne : rest.toList ≠ []) :
    Scans (text ++ rest) (ts ++ ts') := by
  unfold Scans
  rw [String.toList_append, h.scan hdelim hne, hrest]

/-- A text behind one that ends between tokens. -/
lemma Spells.after {text text' : String} {ts ts' : List Token} (h' : Spells text' ts')
    (h : Scans text ts) : Spells (text ++ text') (ts ++ ts') := by
  obtain ⟨s, last, hs, hclosed, hlast, rfl⟩ := spells_iff.mp h'
  refine spells_iff.mpr ⟨s, last, ?_, hclosed, hlast, ?_⟩
  · rw [String.toList_append, scanChars_append, h, hs]
  · rw [String.toList_append, scanChars_append, h, List.append_assoc]

lemma Closed.append {text text' : String} (h : Closed text) (h' : Closed text')
    (hdelim : opensDelimited text' = true) : Closed (text ++ text') :=
  (h.spells.append h'.spells hdelim).closed

lemma Closed.after {text text' : String} (h' : Closed text')
    (h : (scanChars .ground text.toList).2 = .ground) : Closed (text ++ text') :=
  (h'.spells.after (Prod.ext rfl h)).closed

/-- Texts with a comma between them. -/
lemma closed_join {texts : List String} (h : ∀ text ∈ texts, Closed text) :
    Closed (Text.join ", " texts) := by
  induction texts with
  | nil => decide
  | cons text texts ih =>
      have hrest := ih fun t ht => h t (List.mem_cons_of_mem _ ht)
      have hhead := h text List.mem_cons_self
      cases texts with
      | nil => exact hhead
      | cons text' texts =>
          rw [Text.join_cons _ _ (by simp)]
          have hcomma : Scans ", " [.symbol ','] := by decide
          have hbefore := hhead.spells.scans hcomma (by decide) (by decide)
          exact (hrest.spells.after hbefore).closed

/-! ## Identifiers -/

/-- The doubled quotes of a name stay inside its identifier. -/
lemma scanChars_escapedIdent (v text : List Char) :
    scanChars (.ident text) (v.flatMap fun a => if a = '"' then ['"', '"'] else [a]) =
      ([], .ident (v.reverse ++ text)) := by
  induction v generalizing text with
  | nil => rfl
  | cons a v ih =>
      rw [List.flatMap_cons, scanChars_append]
      by_cases ha : a = '"'
      · subst ha
        have hquotes : scanChars (.ident text) ['"', '"'] = ([], .ident ('"' :: text)) := rfl
        simp only [if_true, hquotes, ih, List.reverse_cons, List.append_assoc, List.nil_append,
          List.singleton_append]
      · have hone : scanChars (.ident text) [a] = ([], .ident (a :: text)) := by
          simp [scanChars, LexState.step, ha]
        simp only [if_neg ha, hone, ih, List.reverse_cons, List.append_assoc, List.nil_append,
          List.singleton_append]

lemma toList_quoteIdent (v : String) : (quoteIdent v).toList =
    '"' :: ((v.toList.flatMap fun a => if a = '"' then ['"', '"'] else [a]) ++ ['"']) := by
  unfold quoteIdent Text.replaceChar
  simp only [String.toList_append, String.toList_ofList]
  rfl

/-- A quoted name behind a text that opens it. -/
lemma spells_ident {before name : String} {ts : List Token}
    (h : scanChars .ground (before.toList ++ ['"']) = (ts, .ident [])) :
    Spells (before ++ quoteIdent name) (ts ++ [.ident name.toList]) := by
  have hchars : (before ++ quoteIdent name).toList = before.toList ++ ['"'] ++
      ((name.toList.flatMap fun a => if a = '"' then ['"', '"'] else [a]) ++ ['"']) := by
    rw [String.toList_append, toList_quoteIdent]
    simp
  refine spells_iff.mpr ⟨.identQuote (name.toList.reverse ++ []), _, ?_, rfl, rfl, ?_⟩
  · rw [hchars, scanChars_append, h, scanChars_append, scanChars_escapedIdent]
    rfl
  · rw [hchars, scanChars_append, h, scanChars_append, scanChars_escapedIdent]
    simp [scanChars, LexState.step]

/-! ## Columns -/

/-- The column is one of the two relations of a metric statement. -/
def Column.Outer (c : Column) : Prop := c.rel = aggAlias ∨ c.rel = axisAlias

/-- The tokens of a column. -/
def Column.tokens (c : Column) : List Token :=
  match c.rel with
  | .bare name => [.word name.toList, .symbol '.', .ident c.name.toList]
  | .quoted name => [.ident name.toList, .symbol '.', .ident c.name.toList]

lemma Column.Outer.spells {c : Column} (h : c.Outer) : Spells c.render c.tokens := by
  obtain ⟨rel, name⟩ := c
  rcases h with h | h
  · dsimp only at h
    subst h
    have hopen : scanChars .ground (("__agg" ++ ".").toList ++ ['"']) =
        ([.word "__agg".toList, .symbol '.'], .ident []) := by
      decide
    exact spells_ident hopen
  · dsimp only at h
    subst h
    have hopen : scanChars .ground (("__axis" ++ ".").toList ++ ['"']) =
        ([.word "__axis".toList, .symbol '.'], .ident []) := by
      decide
    exact spells_ident hopen

/-! ## The parts of a window -/

lemma spells_toString (n : ℕ) : Spells (toString n) [.number (toString n).toList] := by
  obtain ⟨-, s, hscan, hclosed, hfinish⟩ := readsAs_digits (Text.isDigits_toString n)
  exact spells_iff.mpr ⟨s, _, by rw [hscan], hclosed, hfinish, by rw [hscan]; rfl⟩

lemma PartTerm.closed {t : PartTerm} (h : t.col.Outer) : Closed t.render := by
  unfold PartTerm.render
  cases t.trunc with
  | none => exact h.spells.closed
  | some g =>
      dsimp only
      have hopen : (scanChars .ground ("DATE_TRUNC('" ++ g.asStr ++ "', ").toList).2 = .ground := by
        cases g <;> decide
      have hclose : Closed ")" := by decide
      exact (h.spells.closed.after hopen).append hclose (by decide)

lemma closed_partition {terms : List PartTerm} (h : ∀ t ∈ terms, t.col.Outer) :
    Closed (Text.join ", " (terms.map PartTerm.render)) := by
  refine closed_join fun text htext => ?_
  obtain ⟨t, ht, rfl⟩ := List.mem_map.mp htext
  exact t.closed (h t ht)

/-- `PARTITION BY` ends with a blank. -/
lemma scan_renderPartition {terms : List PartTerm} (h : ∀ t ∈ terms, t.col.Outer) :
    (scanChars .ground (renderPartition terms).toList).2 = .ground := by
  unfold renderPartition
  split_ifs
  · rfl
  · have hterms := @Closed.after "PARTITION BY " _ (closed_partition h) (by decide)
    rw [String.toList_append, hterms.spells.scan (by decide) (by decide)]
    show (scanChars .ground " ".toList).2 = .ground
    decide

end Sql
end Pawrly
