import Pawrly.Sql.Spelling
import Pawrly.Lib.OperatorGrammar
import Pawrly.Config.MetricExpansion

/-!
# The expression tree of a metric

What a metric is written for: the tree of its expression, in which every reference is replaced by
the tree of what it refers to and every measure stands under the filters of the path that leads to
it (`RefTree`).  The grammar of SQL expressions is a parameter with the productions that the
renderer relies on (`Forms`); a derived expression is read by it with a hole for each reference.

The renderer puts parentheses around the references of a derived expression, so a rendered text is
compared with its tree up to parentheses.
-/

namespace Pawrly
namespace Semantic

open Sql OperatorGrammar

/-! ## References -/

/-- A measure under the filters of a reference path. -/
structure Reference where
  member : String
  filters : Finset String
  deriving DecidableEq

/-- The reference of a member under a list of filters. -/
def Reference.of (member : String) (filters : List String) : Reference := ⟨member, filters.toFinset⟩

instance filter_trans : IsTrans String (fun x y => x ≤ y) := inferInstance

instance filter_antisymm : Std.Antisymm (fun x y : String => x ≤ y) := inferInstance

/-- The key of the leaf index. -/
def Reference.key (r : Reference) : String × List String := (r.member, r.filters.sort)

lemma leafKey_eq_sort (filters : List String) : leafKey filters = filters.toFinset.sort := by
  have hsorted : (leafKey filters).Pairwise (· ≤ ·) :=
    (List.pairwise_insertionSort (· ≤ ·) filters).sublist (List.dedup_sublist _)
  refine List.Perm.eq_of_pairwise' hsorted (Finset.pairwise_sort _ _) ?_
  refine (List.perm_ext_iff_of_nodup (List.nodup_dedup _) (Finset.sort_nodup _ _)).mpr fun f => ?_
  simp [List.mem_insertionSort]

lemma key_of (member : String) (filters : List String) :
    (Reference.of member filters).key = (member, leafKey filters) := by
  rw [leafKey_eq_sort]
  rfl

/-! ## Windows -/

/-- What stands inside `OVER (…)`. -/
inductive WindowText
  | cumulative (partition : List PartTerm) (order : Column) (frame : Frame)
  | lag (partition : List PartTerm) (order : Column)
  | share (partition : List PartTerm)

def WindowText.render : WindowText → String
  | cumulative partition order frame =>
      renderPartition partition ++ "ORDER BY " ++ order.render ++ " " ++ frame.render
  | lag partition order => renderPartition partition ++ "ORDER BY " ++ order.render
  | share partition =>
      if partition.isEmpty then ""
      else "PARTITION BY " ++ Text.join ", " (partition.map PartTerm.render)

def WindowText.tokens (w : WindowText) : List Token := (lex w.render).getD []

/-- The columns of the window are those of a metric statement. -/
def WindowText.Outer : WindowText → Prop
  | cumulative partition order _ => (∀ t ∈ partition, t.col.Outer) ∧ order.Outer
  | lag partition order => (∀ t ∈ partition, t.col.Outer) ∧ order.Outer
  | share partition => ∀ t ∈ partition, t.col.Outer

lemma closed_frame (f : Frame) : Closed f.render := by
  cases f with
  | unbounded => decide
  | trailing periods =>
      have hbetween := @Closed.after "ROWS BETWEEN " _
        (spells_toString (periods - 1)).closed (by decide)
      exact hbetween.append (by decide : Closed " PRECEDING AND CURRENT ROW") (by decide)

lemma closed_order {partition : List PartTerm} {order : Column}
    (hpartition : ∀ t ∈ partition, t.col.Outer) (horder : order.Outer) :
    Closed (renderPartition partition ++ "ORDER BY " ++ order.render) := by
  have hscan := scan_renderPartition hpartition
  refine horder.spells.closed.after ?_
  rw [String.toList_append, scanChars_append, hscan]
  show (scanChars .ground "ORDER BY ".toList).2 = .ground
  decide

/-- A window spells its tokens. -/
lemma WindowText.Outer.spells {w : WindowText} (h : w.Outer) : Spells w.render w.tokens := by
  refine Closed.spells ?_
  cases w with
  | cumulative partition order frame =>
      have horder := closed_order h.1 h.2
      have hspace : Closed (" " ++ frame.render) := (closed_frame frame).after (by decide)
      have happend := horder.append hspace (by unfold opensDelimited; simp; decide)
      simpa [WindowText.render, String.append_assoc] using happend
  | lag partition order => exact closed_order h.1 h.2
  | share partition =>
      show Closed (if partition.isEmpty then "" else _)
      split_ifs
      · decide
      · exact (closed_partition h).after (by decide)

/-! ## The grammar of SQL expressions -/

/-- The name of a function and the parenthesis that opens its arguments. -/
def callTokens (name : String) : List Token := [.word name.toList, .symbol '(']

/-- `AS DOUBLE)`. -/
def asDouble : List Token := [.word "AS".toList, .word "DOUBLE".toList, .symbol ')']

/-- `, 0)`. -/
def commaZero : List Token := [.symbol ',', .number ['0'], .symbol ')']

/-- `) OVER (window)`. -/
def overTokens (w : WindowText) : List Token :=
  [.symbol ')', .word "OVER".toList, .symbol '('] ++ w.tokens ++ [.symbol ')']

/-- `, periods) OVER (window)`. -/
def lagTokens (periods : ℕ) (w : WindowText) : List Token :=
  .symbol ',' :: .number (toString periods).toList :: overTokens w

/-- `FILTER (WHERE texts)`. -/
def filterTokens (texts : List String) : List Token :=
  [.word "FILTER".toList, .symbol '(', .word "WHERE".toList] ++
    (lex (Text.join " AND " texts)).getD [] ++ [.symbol ')']

/-- The productions that the renderer relies on; a `FILTER` stands behind an aggregate call. -/
structure Forms {L P : Type} [Preorder L] (G : Grammar Token L P) where
  column : Column → P
  castDouble : P
  nullifZero : P
  coalesceZero : P
  divide : P
  subtract : P
  windowed : WindowAgg → WindowText → P
  lag : ℕ → WindowText → P
  call : L
  filtered : List String → P
  atom_le : G.atom ≤ G.top
  opening_eq : G.opening = .symbol '('
  closing_eq : G.closing = .symbol ')'
  column_eq : ∀ c, G.Leaf (column c) c.tokens
  castDouble_eq : G.Around castDouble (callTokens "CAST") asDouble
  nullifZero_eq : G.Around nullifZero (callTokens "NULLIF") commaZero
  coalesceZero_eq : G.Around coalesceZero (callTokens "COALESCE") commaZero
  divide_eq : G.Infix divide (.symbol '/')
  subtract_eq : G.Infix subtract (.symbol '-')
  windowed_eq : ∀ fn w, G.Around (windowed fn w) (callTokens (windowFn fn)) (overTokens w)
  lag_eq : ∀ periods w, G.Around (lag periods w) (callTokens "LAG") (lagTokens periods w)
  filtered_eq : ∀ texts, G.Postfix (filtered texts) call (filterTokens texts)

namespace Forms

variable {L P : Type} [Preorder L] {G : Grammar Token L P} (F : Forms G) {ι κ : Type}

/-! ## The trees of the metric kinds -/

def ratio (num den : Tree P ι) : Tree P ι :=
  .two F.divide (.one F.castDouble num) (.one F.nullifZero den)

/-- A measure on the dense axis. -/
def gapFilled (zeroFill : Bool) (t : Tree P ι) : Tree P ι :=
  if zeroFill then .one F.coalesceZero t else t

def cumulative (fn : WindowAgg) (zeroFill : Bool) (partition : List PartTerm) (order : Column)
    (frame : Frame) (t : Tree P ι) : Tree P ι :=
  .one (F.windowed fn (.cumulative partition order frame)) (F.gapFilled zeroFill t)

def offset (periods : ℕ) (partition : List PartTerm) (order : Column) (output : OffsetOutput)
    (t : Tree P ι) : Tree P ι :=
  let cur := F.gapFilled true t
  let lag := .one (F.lag periods (.lag partition order)) cur
  match output with
  | .value => lag
  | .delta => .group (.two F.subtract cur lag)
  | .growth =>
      .two F.divide (.one F.castDouble (.group (.two F.subtract cur lag))) (.one F.nullifZero lag)

def share (fn : WindowAgg) (partition : List PartTerm) (t : Tree P ι) : Tree P ι :=
  .two F.divide (.one F.castDouble t) (.one F.nullifZero (.one (F.windowed fn (.share partition)) t))

lemma subst_ratio (n d : Tree P ι) (σ : ι → Tree P κ) :
    (F.ratio n d).subst σ = F.ratio (n.subst σ) (d.subst σ) := by
  simp [ratio]

lemma strip_ratio (n d : Tree P ι) : (F.ratio n d).strip = F.ratio n.strip d.strip := by
  simp [ratio]

lemma subst_gapFilled (zeroFill : Bool) (t : Tree P ι) (σ : ι → Tree P κ) :
    (F.gapFilled zeroFill t).subst σ = F.gapFilled zeroFill (t.subst σ) := by
  cases zeroFill <;> simp [gapFilled]

lemma subst_cumulative (fn : WindowAgg) (zeroFill : Bool) (partition : List PartTerm)
    (order : Column) (frame : Frame) (t : Tree P ι) (σ : ι → Tree P κ) :
    (F.cumulative fn zeroFill partition order frame t).subst σ =
      F.cumulative fn zeroFill partition order frame (t.subst σ) := by
  simp [cumulative, subst_gapFilled]

lemma subst_offset (periods : ℕ) (partition : List PartTerm) (order : Column)
    (output : OffsetOutput) (t : Tree P ι) (σ : ι → Tree P κ) :
    (F.offset periods partition order output t).subst σ =
      F.offset periods partition order output (t.subst σ) := by
  cases output <;> simp [offset, subst_gapFilled, Tree.subst]

lemma subst_share (fn : WindowAgg) (partition : List PartTerm) (t : Tree P ι)
    (σ : ι → Tree P κ) : (F.share fn partition t).subst σ = F.share fn partition (t.subst σ) := by
  simp [share]

/-! ## Their holes -/

lemma mem_holes_ratio {n d : Tree P ι} {i : ι} :
    i ∈ (F.ratio n d).holes ↔ i ∈ n.holes ∨ i ∈ d.holes := by
  simp [ratio]

lemma mem_holes_gapFilled {zeroFill : Bool} {t : Tree P ι} {i : ι} :
    i ∈ (F.gapFilled zeroFill t).holes ↔ i ∈ t.holes := by
  cases zeroFill <;> simp [gapFilled]

lemma mem_holes_cumulative {fn : WindowAgg} {zeroFill : Bool} {partition : List PartTerm}
    {order : Column} {frame : Frame} {t : Tree P ι} {i : ι} :
    i ∈ (F.cumulative fn zeroFill partition order frame t).holes ↔ i ∈ t.holes := by
  simp [cumulative, mem_holes_gapFilled]

lemma mem_holes_offset {periods : ℕ} {partition : List PartTerm} {order : Column}
    {output : OffsetOutput} {t : Tree P ι} {i : ι} :
    i ∈ (F.offset periods partition order output t).holes ↔ i ∈ t.holes := by
  cases output <;> simp [offset, mem_holes_gapFilled, Tree.mem_holes_group]

lemma mem_holes_share {fn : WindowAgg} {partition : List PartTerm} {t : Tree P ι} {i : ι} :
    i ∈ (F.share fn partition t).holes ↔ i ∈ t.holes := by
  simp [share]

end Forms

/-! ## Derived expressions -/

/-- The tokens of a text with references between its parts, counted from an index.  A reference is
an operand by itself, so it stands outside of literals, identifiers and comments. -/
def readSpans : ℕ → List (List Char) → List Char → Option (List (Token ⊕ ℕ))
  | _, [], tail => (lex (String.ofList tail)).map (List.map .inl)
  | i, before :: rest, tail =>
      if Closed (String.ofList before) then
        (lex (String.ofList before)).bind fun ts =>
          (readSpans (i + 1) rest tail).map fun us => ts.map .inl ++ .inr i :: us
      else none

/-- The tokens of a derived expression. -/
def readDerived (expr : String) : Option (List (Token ⊕ ℕ)) :=
  match (scanTokens [] none expr.toList).2 with
  | .closed tail => readSpans 0 ((scanTokens [] none expr.toList).1.map Prod.fst) tail
  | .unclosed => none

/-- The derived expression ends in a line comment. -/
def endsInComment (expr : String) : Bool :=
  match (scanTokens [] none expr.toList).2 with
  | .closed tail => (scanChars .ground tail).2 = .lineComment
  | .unclosed => false

/-! ## The tree of a reference -/

/-- The terms by which a cumulative window is partitioned. -/
def partitionTerms (window : CumulativeWindow) (partition : List PartTerm) (timeCol : Column) :
    List PartTerm :=
  match window with
  | .grainToDate grain => partition ++ [{ trunc := some grain, col := timeCol }]
  | _ => partition

def frameOf : CumulativeWindow → Frame
  | .trailing periods => .trailing periods
  | _ => .unbounded

section

variable {L P : Type} [Preorder L] {G : Grammar Token L P}

/-- The tree of a member under the filters of the path to it: a measure is a hole, and a metric its
expression with every reference replaced by the tree of what it refers to. -/
inductive RefTree (F : Forms G) (ctx : ExpandCtx) : String → List String → Tree P Reference → Prop
  | measure {member filters} (plain : isMetric member = false) :
      RefTree F ctx member filters (.hole (.of member filters))
  | ratio {name inherited metric num den n d} (dotFree : isMetric name = true)
      (metric_eq : ctx.cat.metric name = some metric) (kind_eq : metric.kind = .ratio num den)
      (num_tree : RefTree F ctx num.member
        (andFilter (andFilter inherited metric.filter) num.filter) n)
      (den_tree : RefTree F ctx den.member
        (andFilter (andFilter inherited metric.filter) den.filter) d) :
      RefTree F ctx name inherited (F.ratio n d)
  | derived {name inherited metric expr ts} {D : Tree P ℕ} {sub : ℕ → Tree P Reference}
      (dotFree : isMetric name = true) (metric_eq : ctx.cat.metric name = some metric)
      (kind_eq : metric.kind = .derived expr) (reads : readDerived expr = some ts)
      (parses : G.Parses ts D)
      (subs : ∀ (i : ℕ) sp, (scanTokens [] none expr.toList).1[i]? = some sp →
        RefTree F ctx (tokenOfBody sp.2).member
          (andFilter (andFilter inherited metric.filter) (tokenOfBody sp.2).filter) (sub i)) :
      RefTree F ctx name inherited (D.subst sub)
  | cumulative {name inherited metric measure window agg timeCol partition}
      (dotFree : isMetric name = true) (metric_eq : ctx.cat.metric name = some metric)
      (kind_eq : metric.kind = .cumulative measure window agg)
      (axis_eq : windowAxis ctx name = .ok (timeCol, partition)) :
      RefTree F ctx name inherited
        (F.cumulative agg (agg = .sum || agg = .avg) (partitionTerms window partition timeCol)
          timeCol (frameOf window) (.hole (.of measure (andFilter inherited metric.filter))))
  | offset {name inherited metric measure periods output timeCol partition}
      (dotFree : isMetric name = true) (metric_eq : ctx.cat.metric name = some metric)
      (kind_eq : metric.kind = .offset measure periods output)
      (axis_eq : windowAxis ctx name = .ok (timeCol, partition)) :
      RefTree F ctx name inherited
        (F.offset periods partition timeCol output
          (.hole (.of measure (andFilter inherited metric.filter))))
  | share {name inherited metric measure dims agg} (dotFree : isMetric name = true)
      (metric_eq : ctx.cat.metric name = some metric)
      (kind_eq : metric.kind = .share measure dims agg) :
      RefTree F ctx name inherited
        (F.share agg (dims.map fun d => { col := ⟨ctx.dimsAlias, d⟩ })
          (.hole (.of measure (andFilter inherited metric.filter))))

/-- The filters on the path decide which measures a tree holds, not whether there is a tree. -/
lemma RefTree.refilter {F : Forms G} {ctx : ExpandCtx} {member : String} {filters : List String}
    {t : Tree P Reference} (h : RefTree F ctx member filters t) (filters' : List String) :
    ∃ t', RefTree F ctx member filters' t' := by
  induction h generalizing filters' with
  | measure plain => exact ⟨_, .measure plain⟩
  | ratio dotFree metric_eq kind_eq _ _ ihn ihd =>
      obtain ⟨n, hn⟩ := ihn _
      obtain ⟨d, hd⟩ := ihd _
      exact ⟨_, .ratio dotFree metric_eq kind_eq hn hd⟩
  | @derived name inherited metric expr ts D sub dotFree metric_eq kind_eq reads parses _ ih =>
      have hsubs : ∀ i : ℕ, ∃ t', ∀ sp, (scanTokens [] none expr.toList).1[i]? = some sp →
          RefTree F ctx (tokenOfBody sp.2).member (andFilter (andFilter filters' metric.filter)
            (tokenOfBody sp.2).filter) t' := by
        intro i
        cases hsp : (scanTokens [] none expr.toList).1[i]? with
        | none => exact ⟨sub i, fun _ h => by cases h⟩
        | some sp =>
            obtain ⟨t', ht'⟩ := ih i sp hsp _
            exact ⟨t', fun _ h => by cases h; exact ht'⟩
      choose sub' hsub' using hsubs
      exact ⟨_, .derived dotFree metric_eq kind_eq reads parses hsub'⟩
  | cumulative dotFree metric_eq kind_eq axis_eq =>
      exact ⟨_, .cumulative dotFree metric_eq kind_eq axis_eq⟩
  | offset dotFree metric_eq kind_eq axis_eq =>
      exact ⟨_, .offset dotFree metric_eq kind_eq axis_eq⟩
  | share dotFree metric_eq kind_eq => exact ⟨_, .share dotFree metric_eq kind_eq⟩

end

end Semantic
end Pawrly
