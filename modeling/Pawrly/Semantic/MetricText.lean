import Pawrly.Semantic.MetricTree

/-!
# The text of a metric

The rendered text of every kind of metric spells the tokens of its tree, given that the texts of its
operands do (`Prints`).  In a ratio, an offset and a share the operands stand between the
parentheses of a call; in a derived expression every reference stands between parentheses of its
own (`Prints.chain`).
-/

namespace Pawrly
namespace Semantic

open Sql OperatorGrammar

/-! ## Texts -/

/-- `cast / nullif`. -/
def ratioTokens (n d : List Token) : List Token :=
  callTokens "CAST" ++ n ++ asDouble ++ Token.symbol '/' :: (callTokens "NULLIF" ++ d ++ commaZero)

/-- `(a - b)`. -/
def differenceTokens (a b : List Token) : List Token :=
  Token.symbol '(' :: (a ++ Token.symbol '-' :: b ++ [Token.symbol ')'])

lemma scans_zero : Scans ", 0)" commaZero := by decide

lemma scans_over : Scans ") OVER (" [.symbol ')', .word "OVER".toList, .symbol '('] := by
  decide

lemma scans_close : Scans ")" [.symbol ')'] := by decide

lemma spells_ratio {n d : String} {tn td : List Token} (hn : Spells n tn) (hd : Spells d td) :
    Spells ("CAST(" ++ n ++ " AS DOUBLE) / NULLIF(" ++ d ++ ", 0)") (ratioTokens tn td) := by
  have hcast : Scans "CAST(" (callTokens "CAST") := by decide
  have hmiddle : Scans " AS DOUBLE) / NULLIF("
      (asDouble ++ Token.symbol '/' :: callTokens "NULLIF") := by
    decide
  have hnum := (hn.after hcast).scans hmiddle (by decide) (by decide)
  have hratio := (hd.after hnum).append scans_zero.spells (by decide)
  simpa [ratioTokens] using hratio

lemma spells_coalesce {text : String} {ts : List Token} (h : Spells text ts) :
    Spells ("COALESCE(" ++ text ++ ", 0)") (callTokens "COALESCE" ++ ts ++ commaZero) := by
  have hopen : Scans "COALESCE(" (callTokens "COALESCE") := by decide
  exact (h.after hopen).append scans_zero.spells (by decide)

lemma spells_difference {cur lag : String} {tc tl : List Token} (hc : Spells cur tc)
    (hl : Spells lag tl) :
    Spells ("(" ++ cur ++ " - " ++ lag ++ ")") (differenceTokens tc tl) := by
  have hopen : Scans "(" [.symbol '('] := by decide
  have hminus : Scans " - " [.symbol '-'] := by decide
  have hleft := (hc.after hopen).scans hminus (by decide) (by decide)
  have hdiff := (hl.after hleft).append scans_close.spells (by decide)
  simpa [differenceTokens] using hdiff

/-- A window behind its argument. -/
lemma spells_over {before : String} {w : WindowText} {ts : List Token} (h : Spells before ts)
    (hw : w.Outer) :
    Spells (before ++ ") OVER (" ++ w.render ++ ")") (ts ++ overTokens w) := by
  have hopen := h.scans scans_over (by decide) (by decide)
  have hover := (hw.spells.after hopen).append scans_close.spells (by decide)
  simpa [overTokens] using hover

/-! ## Trees of outer expressions -/

section

variable {L P : Type} [Preorder L] {G : Grammar Token L P} {F : Forms G}

/-- The text is an expression with this tree, also where a delimiter and more text follow. -/
structure Prints (F : Forms G) (e : MetricExpr) (t : Tree P Empty) : Prop where
  fits : G.fits t G.top
  spells : Spells e.render (G.words t)

lemma fits_column (F : Forms G) (c : Column) :
    G.fits (.leaf (F.column c) : Tree P Empty) G.atom :=
  (F.column_eq c).fits

lemma spells_column (F : Forms G) {c : Column} (h : c.Outer) :
    Spells c.render (G.words (.leaf (F.column c))) := by
  rw [(F.column_eq c).words]
  exact h.spells

lemma Prints.column {c : Column} (h : c.Outer) : Prints F (.column c) (.leaf (F.column c)) where
  fits := G.fits_mono (fits_column F c) F.atom_le
  spells := spells_column F h

lemma fits_ratio {n d : Tree P Empty} (hn : G.fits n G.top) (hd : G.fits d G.top) :
    G.fits (F.ratio n d) G.top :=
  F.divide_eq.fits (F.castDouble_eq.fits hn) (F.nullifZero_eq.fits hd)

lemma words_ratio (n d : Tree P Empty) :
    G.words (F.ratio n d) = ratioTokens (G.words n) (G.words d) := by
  rw [Forms.ratio, F.divide_eq.words, F.castDouble_eq.words, F.nullifZero_eq.words]
  rfl

lemma Prints.ratio {n d : MetricExpr} {tn td : Tree P Empty} (hn : Prints F n tn)
    (hd : Prints F d td) : Prints F (.ratio n d) (F.ratio tn td) where
  fits := fits_ratio hn.fits hd.fits
  spells := by
    rw [words_ratio]
    exact spells_ratio hn.spells hd.spells

/-! ## Windows -/

lemma fits_gapFilled (zeroFill : Bool) (c : Column) :
    G.fits (F.gapFilled zeroFill (.leaf (F.column c)) : Tree P Empty) G.atom := by
  unfold Forms.gapFilled
  split_ifs
  · exact F.coalesceZero_eq.fits (G.fits_mono (fits_column F c) F.atom_le)
  · exact fits_column F c

lemma spells_gapFilled (g : GapFilled) (h : g.col.Outer) :
    Spells g.render (G.words (F.gapFilled g.zeroFill (.leaf (F.column g.col)))) := by
  unfold GapFilled.render Forms.gapFilled
  split_ifs
  · rw [F.coalesceZero_eq.words]
    exact spells_coalesce (spells_column F h)
  · exact spells_column F h

lemma Prints.cumulative {fn : WindowAgg} {g : GapFilled} {partition : List PartTerm}
    {order : Column} {frame : Frame} (hcol : g.col.Outer)
    (hw : (WindowText.cumulative partition order frame).Outer) :
    Prints F (.cumulative fn g partition order frame)
      (F.cumulative fn g.zeroFill partition order frame (.leaf (F.column g.col))) where
  fits := G.fits_mono ((F.windowed_eq _ _).fits
    (G.fits_mono (fits_gapFilled g.zeroFill g.col) F.atom_le)) F.atom_le
  spells := by
    have hopen : Scans (windowFn fn ++ "(") (callTokens (windowFn fn)) := by
      cases fn <;> decide
    have hspells := spells_over ((spells_gapFilled (F := F) g hcol).after hopen) hw
    rw [Forms.cumulative, (F.windowed_eq _ _).words]
    simpa only [MetricExpr.render, WindowText.render, String.append_assoc] using hspells

lemma fits_lag {periods : ℕ} {w : WindowText} (c : Column) :
    G.fits (.one (F.lag periods w) (F.gapFilled true (.leaf (F.column c))) : Tree P Empty) G.atom :=
  (F.lag_eq _ _).fits (G.fits_mono (fits_gapFilled true c) F.atom_le)

lemma spells_lag {cur : GapFilled} {periods : ℕ} {partition : List PartTerm} {order : Column}
    (hcol : cur.col.Outer) (hfill : cur.zeroFill = true)
    (hw : (WindowText.lag partition order).Outer) :
    Spells (renderLag cur periods partition order) (G.words (.one (F.lag periods
      (.lag partition order)) (F.gapFilled true (.leaf (F.column cur.col))))) := by
  have hopen : Scans "LAG(" (callTokens "LAG") := by decide
  have hcomma : Scans ", " [.symbol ','] := by decide
  have hcur := spells_gapFilled (F := F) cur hcol
  rw [hfill] at hcur
  have harg := (hcur.after hopen).scans hcomma (by decide) (by decide)
  have hspells := spells_over ((spells_toString periods).after harg) hw
  rw [(F.lag_eq _ _).words]
  simpa [renderLag, WindowText.render, lagTokens, String.append_assoc] using hspells

lemma words_difference (a b : Tree P Empty) :
    G.words (.group (.two F.subtract a b)) = differenceTokens (G.words a) (G.words b) := by
  rw [Grammar.words_group, F.subtract_eq.words, F.opening_eq, F.closing_eq]
  simp [differenceTokens]

lemma Prints.offset {cur : GapFilled} {periods : ℕ} {partition : List PartTerm} {order : Column}
    {output : OffsetOutput} (hcol : cur.col.Outer) (hfill : cur.zeroFill = true)
    (hw : (WindowText.lag partition order).Outer) :
    Prints F (.offset cur periods partition order output)
      (F.offset periods partition order output (.leaf (F.column cur.col))) := by
  have hcur := spells_gapFilled (F := F) cur hcol
  rw [hfill] at hcur
  have hlag := @spells_lag _ _ _ G F cur periods _ _ hcol hfill hw
  have hdiff := spells_difference hcur hlag
  have hfitsLag := @fits_lag _ _ _ G F periods (.lag partition order) cur.col
  have hfitsDiff := F.subtract_eq.fits (fits_gapFilled (F := F) true cur.col) hfitsLag
  cases output with
  | value => exact ⟨G.fits_mono hfitsLag F.atom_le, hlag⟩
  | delta =>
      refine ⟨⟨F.atom_le, hfitsDiff⟩, ?_⟩
      rw [show F.offset periods partition order .delta (.leaf (F.column cur.col)) =
        .group (.two F.subtract _ _) from rfl, words_difference]
      exact hdiff
  | growth =>
      refine ⟨fits_ratio ⟨F.atom_le, hfitsDiff⟩ (G.fits_mono hfitsLag F.atom_le), ?_⟩
      rw [show F.offset periods partition order .growth (.leaf (F.column cur.col)) =
        F.ratio (.group (.two F.subtract _ _)) _ from rfl, words_ratio,
        words_difference]
      have htext : (MetricExpr.offset cur periods partition order .growth).render =
          "CAST(" ++ ("(" ++ cur.render ++ " - " ++ renderLag cur periods partition order ++ ")") ++
            " AS DOUBLE) / NULLIF(" ++ renderLag cur periods partition order ++ ", 0)" := by
        refine String.ext ?_
        simp [MetricExpr.render]
      rw [htext]
      exact spells_ratio hdiff hlag

lemma Prints.share {fn : WindowAgg} {c : Column} {partition : List PartTerm} (hcol : c.Outer)
    (hw : (WindowText.share partition).Outer) :
    Prints F (.share fn c partition) (F.share fn partition (.leaf (F.column c))) := by
  have hopen : Scans (windowFn fn ++ "(") (callTokens (windowFn fn)) := by
    cases fn <;> decide
  have hwindow := spells_over ((spells_column F hcol).after hopen) hw
  rw [← (F.windowed_eq fn (.share partition)).words] at hwindow
  have hfits := G.fits_mono (fits_column F c) F.atom_le
  constructor
  · exact fits_ratio hfits (G.fits_mono ((F.windowed_eq _ _).fits hfits) F.atom_le)
  · rw [show F.share fn partition (.leaf (F.column c)) = F.ratio _ _ from rfl, words_ratio]
    have hshare := spells_ratio (spells_column F hcol) hwindow
    have hclose : "), 0)" = ")" ++ ", 0)" := by decide
    simpa [MetricExpr.render, WindowText.render, hclose, String.append_assoc] using hshare

end

/-! ## Derived expressions -/

/-- The chain of a derived expression from its texts and its rendered references. -/
def chainExpr (tail : List Char) : List (List Char) → List MetricExpr → MetricExpr
  | before :: rest, sub :: subs =>
      .derivedToken (String.ofList before) sub (chainExpr tail rest subs)
  | _, _ => .derivedEnd (String.ofList tail)

lemma lex_after {text text' : String} {ts : List Token} (h : Scans text ts) :
    lex (text ++ text') = (lex text').map fun ts' => ts ++ ts' := by
  unfold lex
  rw [String.toList_append, scanChars_append, h]
  simp [Function.comp_def]

/-- Every reference between its parentheses is read by itself. -/
lemma chain_scans {tail : List Char} {befores : List (List Char)} {subs : List MetricExpr} {i : ℕ}
    {ts : List (Token ⊕ ℕ)} {w : ℕ → List Token} (hread : readSpans i befores tail = some ts)
    (hlen : subs.length = befores.length)
    (hsubs : ∀ (k : ℕ) sub, subs[k]? = some sub → Spells sub.render (w (i + k))) :
    lex (chainExpr tail befores subs).render =
        some (fill (fun k => .symbol '(' :: (w k ++ [.symbol ')'])) ts) ∧
      (scanChars .ground (chainExpr tail befores subs).render.toList).2 =
        (scanChars .ground tail).2 := by
  induction befores generalizing i subs ts with
  | nil =>
      obtain ⟨us, hus, rfl⟩ := Option.map_eq_some_iff.mp hread
      obtain rfl : subs = [] := List.length_eq_zero_iff.mp hlen
      simp [chainExpr, MetricExpr.render, hus]
  | cons before rest ih =>
      cases subs with
      | nil => cases hlen
      | cons sub subs =>
          unfold readSpans at hread
          split_ifs at hread with hclosed
          obtain ⟨tb, htb, hread⟩ := Option.bind_eq_some_iff.mp hread
          obtain ⟨us, hus, rfl⟩ := Option.map_eq_some_iff.mp hread
          have hsub : Spells sub.render (w i) := hsubs 0 sub rfl
          have hrest := @ih subs _ _ hus (by simpa using hlen) fun k s hs => by
            have hnext := hsubs (k + 1) s (by simpa using hs)
            rwa [show i + (k + 1) = i + 1 + k by omega] at hnext
          have hopen : Scans "(" [.symbol '('] := by decide
          have hclose : Scans ")" [.symbol ')'] := by decide
          have hbefore := (Spells.mk htb hclosed).scans hopen (by decide) (by decide)
          have hprefix := (hsub.after hbefore).scans hclose (by decide) (by decide)
          have hrender : (chainExpr tail (before :: rest) (sub :: subs)).render =
              String.ofList before ++ "(" ++ sub.render ++ ")" ++
                (chainExpr tail rest subs).render := rfl
          constructor
          · rw [hrender, lex_after hprefix, hrest.1, Option.map_some]
            simp [fill_append]
          · rw [hrender, String.toList_append, scanChars_append, hprefix]
            exact hrest.2

lemma mem_readSpans {tail : List Char} {befores : List (List Char)} {i k : ℕ}
    {ts : List (Token ⊕ ℕ)} (hread : readSpans i befores tail = some ts) (hk : .inr k ∈ ts) :
    i ≤ k ∧ k < i + befores.length := by
  induction befores generalizing i ts with
  | nil =>
      obtain ⟨us, -, rfl⟩ := Option.map_eq_some_iff.mp hread
      simp at hk
  | cons before rest ih =>
      unfold readSpans at hread
      split_ifs at hread
      obtain ⟨tb, -, hread⟩ := Option.bind_eq_some_iff.mp hread
      obtain ⟨us, hus, rfl⟩ := Option.map_eq_some_iff.mp hread
      rw [List.length_cons]
      rcases List.mem_append.mp hk with hk | hk
      · simp at hk
      · rcases List.mem_cons.mp hk with hk | hk
        · obtain rfl := Sum.inr.inj hk
          omega
        · have hbound := ih hus hk
          omega

section

variable {L P : Type} [Preorder L] {G : Grammar Token L P} {F : Forms G}

/-- **Derived expressions** keep their tree when every reference is put between parentheses. -/
lemma Prints.chain {tail : List Char} {befores : List (List Char)} {subs : List MetricExpr}
    {ts : List (Token ⊕ ℕ)} {D : Tree P ℕ} {t : ℕ → Tree P Empty}
    (hread : readSpans 0 befores tail = some ts) (hparse : G.Parses ts D)
    (hlen : subs.length = befores.length) (hclosed : (scanChars .ground tail).2.closed = true)
    (hsubs : ∀ (k : ℕ) sub, subs[k]? = some sub → Prints F sub (t k)) :
    Prints F (chainExpr tail befores subs) (D.subst fun k => .group (t k)) := by
  obtain ⟨hlex, hstate⟩ := chain_scans (w := fun k => G.words (t k)) hread hlen fun k sub hsub => by
    rw [Nat.zero_add]
    exact (hsubs k sub hsub).spells
  constructor
  · have hgroups : ∀ k ∈ D.holes, G.fits (.group (t k)) G.atom := by
      intro k hk
      have hmem := G.mem_yield_of_mem_holes hk
      rw [hparse.2] at hmem
      obtain ⟨-, hlt⟩ := mem_readSpans hread hmem
      have hsub := List.getElem?_eq_getElem (l := subs) (i := k) (by omega)
      exact G.fits_group (hsubs k _ hsub).fits
    exact G.fits_subst hgroups hparse.1
  · refine ⟨?_, by unfold Closed; rwa [hstate]⟩
    rw [hlex, G.words_subst, hparse.2]
    simp only [Grammar.words_group, F.opening_eq, F.closing_eq]

end

end Semantic
end Pawrly
