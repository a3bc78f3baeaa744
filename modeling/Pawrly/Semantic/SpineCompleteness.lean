import Pawrly.Semantic.TimeAxis
import Pawrly.Semantic.RollupEquivalence
import Pawrly.Sql.Window
import Mathlib.Data.List.ProdSigma

/-!
# The rows of the dense time axis

A statement with a cumulative or offset metric reads its leaf aggregate through the axis: the
buckets between the first and the last one of the aggregate, each with every combination of the
other dimensions.  `spine_complete_iff` says when this gives one row for each bucket and
combination, and drops no row of the aggregate.
-/

namespace Pawrly

/-! ## Buckets -/

namespace Sql

open OuterJoin Semantic

/-- The value is a bucket of the grain. -/
def IsBucket (E : Engine) (g : TimeGrain) (v : Value) : Prop := v ≠ none ∧ E.trunc g v = v

/-- What the engine documents about its dates: truncation gives a bucket, which it leaves as it
is, and a series from one bucket to another steps through the buckets between them. -/
structure Engine.Dates (E : Engine) : Prop where
  trunc_trunc : ∀ g v, E.trunc g (E.trunc g v) = E.trunc g v
  series_nodup : ∀ g lo hi, (E.series g lo hi).Nodup
  series_none : ∀ g hi, E.series g none hi = []
  mem_series : ∀ g lo hi, IsBucket E g lo → IsBucket E g hi → ∀ b,
    b ∈ E.series g lo hi ↔ IsBucket E g b ∧ Value.le lo b = true ∧ Value.le b hi = true

/-- The first bucket of the aggregate. -/
def Axis.first (a : Axis) (rel : List (Row Datum)) : Value :=
  Value.minOf (rel.filterMap fun r => r a.timeMember)

/-- The last bucket of the aggregate. -/
def Axis.last (a : Axis) (rel : List (Row Datum)) : Value :=
  Value.maxOf (rel.filterMap fun r => r a.timeMember)

/-- A bucket of the grain between the first and the last of the aggregate. -/
structure Axis.Between (E : Engine) (a : Axis) (rel : List (Row Datum)) (b : Value) : Prop where
  bucket : IsBucket E a.grain b
  first : a.first rel ≠ none
  le_bucket : Value.le (a.first rel) b = true
  bucket_le : Value.le b (a.last rel) = true

/-- The calendar table, if one is declared, has a date in every bucket of the aggregate's
range. -/
def Axis.CalendarCovers (E : Engine) (a : Axis) (rel : List (Row Datum)) : Prop :=
  ∀ table column, a.spine = some (table, column) → ∀ b, a.Between E rel b →
    ∃ v ∈ E.calendar table column, E.trunc a.grain v = b

/-- Contents of the leaf aggregate of a statement with an axis: it is grouped by the dimensions,
and its time column is truncated to the grain. -/
structure LeafContents (E : Engine) (a : Axis) (dims : List String) where
  rows : List (Row Datum)
  keyed : (rows.map (keyOf dims)).Nodup
  truncated : ∀ r ∈ rows, E.trunc a.grain (r a.timeMember) = r a.timeMember

/-- The bucket of a row and its other dimensions. -/
def Axis.pairOf (a : Axis) (r : Row Datum) : Value × List Value :=
  (r a.timeMember, keyOf a.keys r)

/-- The statement returns one row for each bucket of the range and each combination of the other
dimensions, and every row of the aggregate is read by exactly one of them.  The caller's ordering
and limit apply to these rows. -/
structure SpineComplete (E : Engine) (m : MetricOuter) (a : Axis) (rel : List (Row Datum)) :
    Prop where
  nodup : ((m.project E rel).map a.pairOf).Nodup
  pairs : ∀ p, p ∈ (m.project E rel).map a.pairOf ↔
    a.Between E rel p.1 ∧ p.2 ∈ rel.map (keyOf a.keys)
  contributes : ((m.source E rel).filterMap fun e => e "__agg").Perm rel

section

variable {E : Engine} {a : Axis} {rel : List (Row Datum)}

/-- The bounds of an aggregate whose time column is truncated are buckets. -/
lemma Axis.bounds_bucket (htrunc : ∀ r ∈ rel, E.trunc a.grain (r a.timeMember) = r a.timeMember)
    (hfirst : a.first rel ≠ none) :
    IsBucket E a.grain (a.first rel) ∧ IsBucket E a.grain (a.last rel) := by
  have hmem : ∀ {d}, d ∈ rel.filterMap (fun r => r a.timeMember) →
      E.trunc a.grain (some d) = some d := by
    intro d hd
    obtain ⟨r, hr, heq⟩ := List.mem_filterMap.mp hd
    rw [← heq]
    exact htrunc r hr
  unfold Axis.first Value.minOf at hfirst
  unfold Axis.first Axis.last Value.minOf Value.maxOf
  generalize rel.filterMap (fun r => r a.timeMember) = ds at hfirst hmem
  obtain ⟨lo, hlo⟩ := Option.ne_none_iff_exists'.mp hfirst
  have hne : ds ≠ [] := by
    rintro rfl
    cases hlo
  obtain ⟨hi, hhi⟩ : ∃ hi, ds.max? = some hi := by
    cases hmax : ds.max? with
    | none => exact absurd (List.max?_eq_none_iff.mp hmax) hne
    | some hi => exact ⟨hi, rfl⟩
  rw [hlo, hhi]
  exact ⟨⟨by simp, hmem (List.min?_mem hlo)⟩, by simp, hmem (List.max?_mem hhi)⟩

/-- A row with a bucket lies between the bounds. -/
lemma Axis.between_of_mem (htrunc : ∀ r ∈ rel, E.trunc a.grain (r a.timeMember) = r a.timeMember)
    {r : Row Datum} (hr : r ∈ rel) (hbucket : r a.timeMember ≠ none) :
    a.Between E rel (r a.timeMember) := by
  obtain ⟨d, hd⟩ := Option.ne_none_iff_exists'.mp hbucket
  have hmem : d ∈ rel.filterMap fun r => r a.timeMember := List.mem_filterMap.mpr ⟨r, hr, hd⟩
  have hne : rel.filterMap (fun r => r a.timeMember) ≠ [] := List.ne_nil_of_mem hmem
  have hlo : ∃ lo, a.first rel = some lo ∧ lo ≤ d := by
    unfold Axis.first Value.minOf
    cases hmin : (rel.filterMap fun r => r a.timeMember).min? with
    | none => exact absurd (List.min?_eq_none_iff.mp hmin) hne
    | some lo => exact ⟨lo, rfl, (List.min?_eq_some_iff.mp hmin).2 d hmem⟩
  have hhi : ∃ hi, a.last rel = some hi ∧ d ≤ hi := by
    unfold Axis.last Value.maxOf
    cases hmax : (rel.filterMap fun r => r a.timeMember).max? with
    | none => exact absurd (List.max?_eq_none_iff.mp hmax) hne
    | some hi => exact ⟨hi, rfl, (List.max?_eq_some_iff.mp hmax).2 d hmem⟩
  obtain ⟨lo, hfirst, hle⟩ := hlo
  obtain ⟨hi, hlast, hge⟩ := hhi
  refine ⟨⟨hbucket, htrunc r hr⟩, by rw [hfirst]; simp, ?_, ?_⟩
  · rw [hfirst, hd]
    simpa [Value.le] using hle
  · rw [hlast, hd]
    simpa [Value.le] using hge

/-- The buckets of the axis lie between the bounds, and are all of these when the calendar has
them. -/
lemma Axis.mem_buckets (hE : E.Dates)
    (htrunc : ∀ r ∈ rel, E.trunc a.grain (r a.timeMember) = r a.timeMember) :
    (a.buckets E rel).Nodup ∧ (∀ b ∈ a.buckets E rel, a.Between E rel b) ∧
      ((∀ b, a.Between E rel b → b ∈ a.buckets E rel) ↔ a.CalendarCovers E rel) := by
  unfold Axis.buckets Axis.CalendarCovers
  rw [← Axis.first, ← Axis.last]
  cases hspine : a.spine with
  | none =>
      dsimp only
      refine ⟨hE.series_nodup _ _ _, fun b hb => ?_, ?_⟩
      · by_cases hfirst : a.first rel = none
        · rw [hfirst, hE.series_none] at hb
          cases hb
        · obtain ⟨hlo, hhi⟩ := a.bounds_bucket htrunc hfirst
          obtain ⟨hbucket, hle, hge⟩ := (hE.mem_series _ _ _ hlo hhi b).mp hb
          exact ⟨hbucket, hfirst, hle, hge⟩
      · refine ⟨fun _ _ _ h => (by cases h), fun _ b hb => ?_⟩
        obtain ⟨hlo, hhi⟩ := a.bounds_bucket htrunc hb.first
        exact (hE.mem_series _ _ _ hlo hhi b).mpr ⟨hb.bucket, hb.le_bucket, hb.bucket_le⟩
  | some spine =>
      obtain ⟨table, column⟩ := spine
      dsimp only
      refine ⟨List.nodup_dedup _, fun b hb => ?_, ?_⟩
      · rw [List.mem_dedup, List.mem_filter, List.mem_map] at hb
        obtain ⟨⟨v, _, rfl⟩, hin⟩ := hb
        simp only [Bool.and_eq_true] at hin
        obtain ⟨⟨⟨hfirst, hsome⟩, hle⟩, hge⟩ := hin
        exact ⟨⟨Option.isSome_iff_ne_none.mp hsome, hE.trunc_trunc _ _⟩,
          Option.isSome_iff_ne_none.mp hfirst, hle, hge⟩
      · constructor
        · intro h table' column' heq b hb
          cases heq
          have hmem := h b hb
          rw [List.mem_dedup, List.mem_filter, List.mem_map] at hmem
          obtain ⟨⟨v, hv, hvb⟩, _⟩ := hmem
          exact ⟨v, hv, hvb⟩
        · intro h b hb
          obtain ⟨v, hv, rfl⟩ := h table column rfl b hb
          rw [List.mem_dedup, List.mem_filter]
          refine ⟨List.mem_map_of_mem hv, ?_⟩
          simp only [Bool.and_eq_true]
          exact ⟨⟨⟨Option.isSome_iff_ne_none.mpr hb.first,
            Option.isSome_iff_ne_none.mpr hb.bucket.1⟩, hb.le_bucket⟩, hb.bucket_le⟩

/-! ## The join -/

/-- The buckets with every combination of the other dimensions. -/
def Axis.cells (E : Engine) (a : Axis) (rel : List (Row Datum)) : List (Value × List Value) :=
  a.buckets E rel ×ˢ (rel.map (keyOf a.keys)).dedup

lemma Axis.rows_eq (E : Engine) (a : Axis) (rel : List (Row Datum)) :
    a.rows E rel = (a.cells E rel).map fun p => a.row p.1 p.2 := by
  unfold Axis.rows Axis.cells
  change _ = ((a.buckets E rel).flatMap fun b => (rel.map (keyOf a.keys)).dedup.map (Prod.mk b)).map _
  rw [List.map_flatMap]
  refine List.flatMap_congr fun b _ => ?_
  rw [List.map_map]
  rfl

lemma lookup_zip_map {α β : Type} [BEq α] [LawfulBEq α] {l : List α} {f : α → β} {k : α}
    (hk : k ∈ l) : (l.zip (l.map f)).lookup k = some (f k) := by
  induction l with
  | nil => cases hk
  | cons x l ih =>
      rw [List.map_cons, List.zip_cons_cons, List.lookup_cons]
      by_cases hx : k = x
      · subst hx
        simp
      · rw [beq_eq_false_iff_ne.mpr hx]
        exact ih ((List.mem_cons.mp hk).resolve_left hx)

/-- An axis row has its bucket and its combination. -/
lemma Axis.pairOf_row (htime : a.timeMember ∉ a.keys) (b : Value) (r : Row Datum) :
    a.pairOf (a.row b (keyOf a.keys r)) = (b, keyOf a.keys r) := by
  unfold Axis.pairOf keyOf
  have hkeys : ∀ k ∈ a.keys, a.row b (a.keys.map r) k = r k := by
    intro k hk
    have hne : k ≠ a.timeMember := by
      rintro rfl
      exact htime hk
    rw [Axis.row, if_neg hne, lookup_zip_map hk]
    rfl
  rw [List.map_congr_left hkeys, Axis.row, if_pos rfl]

/-- The axis and the dimensions of a metric statement in spine mode. -/
structure MetricOuter.OnAxis (m : MetricOuter) (a : Axis) : Prop where
  axis : m.axis = some a
  time : a.timeMember ∈ m.dimensions
  keys : a.keys = m.dimensions.filter fun d => d ≠ a.timeMember
  items : ∃ rest, m.items = (m.dimensions.map fun d =>
    (MetricExpr.column ⟨axisAlias, d⟩, d)) ++ rest

variable {m : MetricOuter}

lemma MetricOuter.OnAxis.time_not_key (h : m.OnAxis a) : a.timeMember ∉ a.keys := by
  rw [h.keys]
  simp

/-- Rows with the same dimensions are those with the same bucket and combination. -/
lemma MetricOuter.OnAxis.keyOf_iff (h : m.OnAxis a) {r r' : Row Datum} :
    keyOf m.dimensions r = keyOf m.dimensions r' ↔ a.pairOf r = a.pairOf r' := by
  unfold keyOf Axis.pairOf keyOf
  rw [Prod.mk.injEq, List.map_inj_left, List.map_inj_left, h.keys]
  constructor
  · exact fun hall => ⟨hall _ h.time, fun d hd => hall d (List.mem_filter.mp hd).1⟩
  · rintro ⟨htime, hkeys⟩ d hd
    by_cases hdt : d = a.timeMember
    · rw [hdt, htime]
    · exact hkeys d (List.mem_filter.mpr ⟨hd, by simpa using hdt⟩)

lemma MetricOuter.OnAxis.pairs_nodup (h : m.OnAxis a)
    (hkeyed : (rel.map (keyOf m.dimensions)).Nodup) : (rel.map a.pairOf).Nodup := by
  rw [List.Nodup, List.pairwise_map] at hkeyed ⊢
  exact hkeyed.imp fun hne heq => hne (h.keyOf_iff.mpr heq)

/-- The row of the outer `FROM` for a cell: the axis row, with the row of the aggregate there. -/
def Axis.cellRow (a : Axis) (rel : List (Row Datum)) (p : Value × List Value) : OuterRow :=
  withRow a.pairOf rel "__agg" p (extend padding "__axis" (a.row p.1 p.2))

lemma Axis.pairOf_cell (htime : a.timeMember ∉ a.keys) {p : Value × List Value}
    (hp : p ∈ a.cells E rel) : a.pairOf (a.row p.1 p.2) = p := by
  obtain ⟨b, ks⟩ := p
  obtain ⟨_, hks⟩ := List.mem_product.mp hp
  obtain ⟨r, _, rfl⟩ := List.mem_map.mp (List.mem_dedup.mp hks)
  exact a.pairOf_row htime b r

/-- What is read off the axis in an outer row. -/
lemma eval_axis (x : Row Datum) :
    (fun d => (Column.mk axisAlias d).eval (extend padding "__axis" x)) = x := by
  funext d
  simp [Column.eval, axisAlias, RelName.name, extend]

/-- The outer `FROM` has one row for each cell. -/
lemma MetricOuter.OnAxis.source_eq (h : m.OnAxis a)
    (hkeyed : (rel.map (keyOf m.dimensions)).Nodup) :
    m.source E rel = (a.cells E rel).map (a.cellRow rel) := by
  have hon : ∀ e ∈ (a.rows E rel).map (extend padding "__axis"), ∀ r ∈ rel,
      (m.dimensions.all fun d => (Column.mk axisAlias d).eval e = r d) = true ↔
        a.pairOf r = a.pairOf fun d => (Column.mk axisAlias d).eval e := by
    intro e _ r _
    rw [List.all_eq_true, ← h.keyOf_iff, keyOf, keyOf, List.map_inj_left]
    simp only [decide_eq_true_eq]
    exact forall₂_congr fun _ _ => eq_comm
  unfold MetricOuter.source
  rw [h.axis]
  dsimp only
  rw [Axis.joined, left_keyed (h.pairs_nodup hkeyed) hon, Axis.rows_eq, List.map_map, List.map_map]
  refine List.map_congr_left fun p hp => ?_
  simp only [Function.comp_apply, eval_axis, a.pairOf_cell h.time_not_key hp]
  rfl

/-- A dimension of an output row is read off the axis. -/
lemma MetricOuter.OnAxis.outputRow_dim (h : m.OnAxis a) {d : String} (hd : d ∈ m.dimensions)
    (rows : List Placed) (cur : Placed) :
    m.outputRow E rows cur d = (Column.mk axisAlias d).eval cur.1 := by
  obtain ⟨rest, hitems⟩ := h.items
  have hfind : (m.items.find? fun item => item.2 = d) = some (.column ⟨axisAlias, d⟩, d) := by
    rw [hitems, List.find?_append, List.find?_map]
    have hdim : (m.dimensions.find? ((fun item : MetricExpr × String => decide (item.2 = d)) ∘
        fun d => (MetricExpr.column ⟨axisAlias, d⟩, d))) = some d := by
      cases hf : m.dimensions.find? ((fun item : MetricExpr × String => decide (item.2 = d)) ∘
          fun d => (MetricExpr.column ⟨axisAlias, d⟩, d)) with
      | none =>
          rw [List.find?_eq_none] at hf
          exact absurd (decide_eq_true rfl) (hf d hd)
      | some d' =>
          have hd' := List.find?_some hf
          simp only [Function.comp_apply, decide_eq_true_eq] at hd'
          rw [hd']
    rw [hdim]
    rfl
  rw [MetricOuter.outputRow, hfind]
  rfl

/-- The output rows stand at the cells, in their order. -/
lemma MetricOuter.OnAxis.project_pairs (h : m.OnAxis a)
    (hkeyed : (rel.map (keyOf m.dimensions)).Nodup) :
    (m.project E rel).map a.pairOf = a.cells E rel := by
  have hrow : ∀ rows (cur : Placed), a.pairOf (m.outputRow E rows cur) =
      a.pairOf fun d => (Column.mk axisAlias d).eval cur.1 := by
    intro rows cur
    rw [← h.keyOf_iff, keyOf, keyOf, List.map_inj_left]
    exact fun d hd => h.outputRow_dim hd rows cur
  have hcell : ∀ p ∈ a.cells E rel,
      (a.pairOf fun d => (Column.mk axisAlias d).eval (a.cellRow rel p)) = p := by
    intro p hp
    have haxis : (fun d => (Column.mk axisAlias d).eval (a.cellRow rel p)) =
        fun d => (Column.mk axisAlias d).eval (extend padding "__axis" (a.row p.1 p.2)) := by
      funext d
      have hne : axisAlias.name ≠ "__agg" := by decide
      unfold Column.eval Axis.cellRow
      rw [withRow_of_ne hne]
    rw [haxis, eval_axis, a.pairOf_cell h.time_not_key hp]
  unfold MetricOuter.project
  rw [List.map_map]
  simp only [Function.comp_def, hrow]
  have hindex : ∀ (f : OuterRow → Value × List Value) (es : List OuterRow),
      (es.zipIdx.map fun cur => f cur.1) = es.map f := by
    intro f es
    have hfst : (es.zipIdx.map Prod.fst).map f = es.map f := by rw [List.zipIdx_map_fst]
    rwa [List.map_map] at hfst
  rw [hindex fun e => a.pairOf fun d => (Column.mk axisAlias d).eval e, h.source_eq hkeyed,
    List.map_map]
  exact (List.map_congr_left hcell).trans (List.map_id _)

/-- The rows of the aggregate that the outer `FROM` reads are those at its cells. -/
lemma MetricOuter.OnAxis.source_agg (h : m.OnAxis a)
    (hkeyed : (rel.map (keyOf m.dimensions)).Nodup) :
    ((m.source E rel).filterMap fun e => e "__agg") =
      (a.cells E rel).filterMap (rowAt a.pairOf rel) := by
  rw [h.source_eq hkeyed, List.filterMap_map]
  refine List.filterMap_congr fun p _ => ?_
  exact withRow_self rfl

/-- The axis drops no row of the aggregate and has a row everywhere exactly when no bucket is
`NULL` and the calendar has no gap. -/
lemma MetricOuter.OnAxis.spineComplete_iff (h : m.OnAxis a) (hE : E.Dates)
    (C : LeafContents E a m.dimensions) :
    SpineComplete E m a C.rows ↔
      (∀ r ∈ C.rows, r a.timeMember ≠ none) ∧ a.CalendarCovers E C.rows := by
  obtain ⟨hnodup, hbetween, hcovers⟩ := a.mem_buckets hE C.truncated
  have hcells : (a.cells E C.rows).Nodup := hnodup.product (List.nodup_dedup _)
  have hmem : ∀ p, p ∈ a.cells E C.rows ↔
      p.1 ∈ a.buckets E C.rows ∧ p.2 ∈ C.rows.map (keyOf a.keys) := by
    rintro ⟨b, ks⟩
    unfold Axis.cells
    rw [List.mem_product, List.mem_dedup]
  have hperm : ((m.source E C.rows).filterMap fun e => e "__agg").Perm C.rows ↔
      ∀ r ∈ C.rows, r a.timeMember ∈ a.buckets E C.rows := by
    rw [h.source_agg C.keyed, filterMap_rowAt_perm_iff (h.pairs_nodup C.keyed) hcells]
    refine forall₂_congr fun r hr => ?_
    rw [hmem]
    exact and_iff_left (List.mem_map_of_mem hr)
  constructor
  · intro hcomplete
    refine ⟨fun r hr => (hbetween _ (hperm.mp hcomplete.contributes r hr)).bucket.1, ?_⟩
    rw [← hcovers]
    intro b hb
    -- the aggregate has a row, so its combination needs the bucket
    obtain ⟨r, hr⟩ : ∃ r, r ∈ C.rows := by
      by_contra hno
      have hnil : C.rows = [] := List.eq_nil_iff_forall_not_mem.mpr fun r hr => hno ⟨r, hr⟩
      exact hb.first (by rw [hnil]; rfl)
    have hpair := (hcomplete.pairs (b, keyOf a.keys r)).mpr ⟨hb, List.mem_map_of_mem hr⟩
    rw [h.project_pairs C.keyed, hmem] at hpair
    exact hpair.1
  · rintro ⟨hdated, hcalendar⟩
    have hall := hcovers.mpr hcalendar
    refine ⟨?_, fun p => ?_, hperm.mpr fun r hr => ?_⟩
    · rw [h.project_pairs C.keyed]
      exact hcells
    · rw [h.project_pairs C.keyed, hmem]
      exact and_congr_left fun _ => ⟨hbetween _, hall _⟩
    · exact hall _ (a.between_of_mem C.truncated hr (hdated r hr))

end

end Sql

namespace Semantic

open Sql OuterJoin PartialAggregate

/-! ## Compiled statements -/

variable {ord : SetOrder} {cat : SemanticCatalog} {q : SemanticQuery} {stmt : Stmt}

/-- A query with a cumulative or offset metric is compiled onto the axis. -/
lemma compileStmt_onAxis (hwindow : spineMode cat q = true)
    (h : compileStmt ord cat q = .ok stmt) :
    ∃ m inner a, stmt = .metric m inner ∧ m.OnAxis a := by
  cases compileStmt_compiled h with
  | @measures q' stmt hseg hno hm =>
      obtain ⟨extra, rfl⟩ := expandSegments_spec hseg
      obtain ⟨name, hname, _⟩ := List.any_eq_true.mp hwindow
      obtain ⟨hmem, hmetric⟩ := List.mem_filter.mp hname
      exact absurd hmetric (by simpa using List.any_eq_false.mp hno name hmem)
  | @metrics q' items st axis orders inner hseg hyes hproj hinner haxis horders =>
      obtain ⟨extra, rfl⟩ := expandSegments_spec hseg
      have hspine : spineMode cat { q with filters := q.filters ++ extra, segments := [] } =
          true := hwindow
      obtain ⟨hno, _⟩ | ⟨_, a, ha, rfl⟩ := haxis
      · rw [hspine] at hno
        cases hno
      · refine ⟨_, inner, a, rfl, ?_⟩
        unfold axisSql at ha
        split at ha
        · next member g hdims =>
            have htime : member ∈ q.dimensions := by
              have hmem : (member, g) ∈ timeDims
                  { q with filters := q.filters ++ extra, segments := [] } := by
                have : (expandCtx cat { q with
                    filters := q.filters ++ extra, segments := [] }).timeDims =
                    timeDims { q with filters := q.filters ++ extra, segments := [] } := rfl
                rw [← this, hdims]
                exact List.mem_cons_self
              exact timeDims_mem hmem
            have halias : (expandCtx cat { q with
                filters := q.filters ++ extra, segments := [] }).dimsAlias = axisAlias := by
              unfold expandCtx
              exact if_pos hspine
            dsimp only at ha
            split at ha
            · cases ha
              exact ⟨rfl, htime, rfl, items, by rw [halias]⟩
            · split at ha
              · cases ha
              · cases ha
                exact ⟨rfl, htime, rfl, items, by rw [halias]⟩
        · cases ha

/-! ## The leaf aggregate of one root -/

section

variable {ρ : Type*} {F : Functions} {S : Reader ρ} {root : String} {hasMeasures : Bool}
  {s : Select}

/-- A dimension of a group's row has the value of its expression on the first row. -/
lemma SinglePlan.outputRow_dim (p : SinglePlan ord cat q root hasMeasures s) {d : String}
    (hd : d ∈ q.dimensions) {e : SqlExpr}
    (he : dimensionItem cat q.timeZone (decide (1 < p.referenced.length)) d = .ok (e, d))
    {rows : List ρ} {r : ρ} (hr : rows.head? = some r) :
    s.outputRow F S rows d = e.value F S r := by
  have hname : ∀ member item,
      dimensionItem cat q.timeZone (decide (1 < p.referenced.length)) member = .ok item →
      item.2 = member := by
    intro member item h
    obtain ⟨_, _, h⟩ := Fallible.bind_eq_ok.mp h
    obtain ⟨_, _, heq⟩ := Fallible.bind_eq_ok.mp h
    cases heq
    rfl
  have hfind := find?_mapM id p.dimItems_eq hname d
  rw [find?_self hd, Option.bind_some, he] at hfind
  obtain ⟨_, _, he⟩ := Fallible.bind_eq_ok.mp he
  obtain ⟨_, hexpr, heq⟩ := Fallible.bind_eq_ok.mp he
  cases heq
  rw [Select.outputRow, p.items, List.find?_append, hfind]
  dsimp only [Except.toOption, Option.some_or, Option.bind_some]
  rw [groupValue_head F S rows fun agg arg filters heq =>
    resolveDimensionExpr_not_aggregate (heq ▸ hexpr), hr, Option.bind_some]

/-- The dimensions of a group's row are what its first row is grouped by. -/
lemma SinglePlan.keyOf_outputRow (p : SinglePlan ord cat q root hasMeasures s)
    {rows : List ρ} {r : ρ} (hr : rows.head? = some r) :
    keyOf q.dimensions (s.outputRow F S rows) = s.keyAt F S r := by
  have hnames : p.dimItems.map Prod.snd = q.dimensions := by
    rw [Fallible.map_of_mapM (k := id) p.dimItems_eq, List.map_id]
    intro member item h
    obtain ⟨_, _, h⟩ := Fallible.bind_eq_ok.mp h
    obtain ⟨_, _, heq⟩ := Fallible.bind_eq_ok.mp h
    cases heq
    rfl
  unfold keyOf Select.keyAt
  rw [p.groupBy, ← hnames, List.map_map, List.map_map]
  refine List.map_congr_left fun item hitem => ?_
  obtain ⟨d, hd, hturn⟩ := Fallible.mem_of_mapM p.dimItems_eq hitem
  obtain ⟨e, member⟩ := item
  have hmember : member = d := by
    obtain ⟨_, _, hturn⟩ := Fallible.bind_eq_ok.mp hturn
    obtain ⟨_, _, heq⟩ := Fallible.bind_eq_ok.mp hturn
    cases heq
    rfl
  subst hmember
  exact p.outputRow_dim hd hturn hr

/-- Every row of the relation is that of a group of rows with one key. -/
lemma SinglePlan.mem_relation (p : SinglePlan ord cat q root hasMeasures s)
    (hdims : q.dimensions ≠ []) {T : List ρ} :
    ((s.relation F S T).map (keyOf q.dimensions)).Nodup ∧
      ∀ row ∈ s.relation F S T, ∃ rows r, row = s.outputRow F S rows ∧ rows.head? = some r := by
  have hgroupBy : s.groupBy ≠ [] := by
    rw [p.groupBy, ne_eq, List.map_eq_nil_iff, Fallible.mapM_eq_nil_iff p.dimItems_eq]
    exact hdims
  unfold Select.relation Select.groups
  rw [if_neg hgroupBy]
  have hkey : ∀ k ∈ groupKeys (s.keyAt F S) (s.passing F S T), ∃ r,
      (group (s.keyAt F S) (s.passing F S T) k).head? = some r ∧ s.keyAt F S r = k := by
    intro k hk
    obtain ⟨r, _, hrk, hhead⟩ := exists_head_group hk
    exact ⟨r, hhead, hrk⟩
  constructor
  · rw [List.filter_map, List.map_map, List.map_map]
    refine List.Nodup.map_on ?_ ((groupKeys_nodup _ _).filter _)
    intro k hk k' hk' heq
    obtain ⟨r, hhead, rfl⟩ := hkey k (List.mem_filter.mp hk).1
    obtain ⟨r', hhead', rfl⟩ := hkey k' (List.mem_filter.mp hk').1
    simp only [Function.comp_apply] at heq
    rwa [p.keyOf_outputRow hhead, p.keyOf_outputRow hhead'] at heq
  · intro row hrow
    obtain ⟨g, hg, rfl⟩ := List.mem_map.mp hrow
    obtain ⟨k, hk, rfl⟩ := List.mem_map.mp (List.mem_filter.mp hg).1
    obtain ⟨r, hhead, _⟩ := hkey k hk
    exact ⟨_, r, rfl, hhead⟩

/-- The time column of a leaf aggregate is truncated. -/
lemma resolveDimensionExpr_trunc {model : SemanticModel} {q : SemanticQuery} {member : String}
    {g : TimeGrain} (hmem : (member, g) ∈ timeDims q) {alias? tz : Option String} {e : SqlExpr}
    (h : resolveDimensionExpr model member alias? tz = .ok e) : ∃ arg, e = .dateTrunc g arg := by
  obtain ⟨d, _, heq⟩ := List.mem_filterMap.mp hmem
  split at heq
  · next grainStr hsplit =>
      obtain ⟨g', hg', heq⟩ := Option.map_eq_some_iff.mp heq
      cases heq
      obtain ⟨⟨name, grain?⟩, hparts, h⟩ := Fallible.bind_eq_ok.mp h
      rw [dimensionParts, hsplit] at hparts
      cases hparts
      dsimp only at h
      split at h
      · cases h
      · rw [hg'] at h
        dsimp only at h
        obtain ⟨_, h⟩ := Fallible.ite_error_eq_ok.mp h
        obtain ⟨_, h⟩ := Fallible.ite_error_eq_ok.mp h
        cases h
        exact ⟨_, rfl⟩
  · cases heq

/-- What a `SELECT` with one time dimension computes is the content of a leaf aggregate, whatever
the rows of its tables. -/
def SinglePlan.leafContents (p : SinglePlan ord cat q root hasMeasures s) {E : Engine}
    (hE : E.Dates) (hF : F.trunc = E.trunc) {a : Axis}
    (htime : (a.timeMember, a.grain) ∈ timeDims q) (T : List ρ) :
    LeafContents E a q.dimensions where
  rows := s.relation F S T
  keyed := (p.mem_relation (List.ne_nil_of_mem (timeDims_mem htime))).1
  truncated := by
    intro row hrow
    have hmem := timeDims_mem htime
    obtain ⟨rows, r, rfl, hhead⟩ := (p.mem_relation (List.ne_nil_of_mem hmem)).2 row hrow
    obtain ⟨⟨e, member⟩, _, hturn⟩ := Fallible.exists_of_mapM p.dimItems_eq hmem
    obtain ⟨_, _, hrest⟩ := Fallible.bind_eq_ok.mp hturn
    obtain ⟨_, hexpr, heq⟩ := Fallible.bind_eq_ok.mp hrest
    cases heq
    obtain ⟨arg, rfl⟩ := resolveDimensionExpr_trunc htime hexpr
    rw [p.outputRow_dim hmem hturn hhead, SqlExpr.value, hF, hE.trunc_trunc]

end

/-- **When the dense axis is complete.**  Over every content of the leaf aggregate, a statement
with a cumulative or offset metric returns one row for each bucket of the range and each
combination of the other dimensions, and reads every row of the aggregate in exactly one of them,
exactly when no row of the aggregate has a `NULL` bucket and the declared calendar, if any, has
every bucket of the range. -/
theorem spine_complete_iff {E : Engine} (hE : E.Dates) (hwindow : spineMode cat q = true)
    (h : compileStmt ord cat q = .ok stmt) :
    ∃ m inner a, stmt = .metric m inner ∧ m.axis = some a ∧
      ∀ C : LeafContents E a m.dimensions, SpineComplete E m a C.rows ↔
        (∀ r ∈ C.rows, r a.timeMember ≠ none) ∧ a.CalendarCovers E C.rows := by
  obtain ⟨m, inner, a, rfl, haxis⟩ := compileStmt_onAxis hwindow h
  exact ⟨m, inner, a, rfl, haxis.axis, haxis.spineComplete_iff hE⟩

/-! ## Running revenue by day -/

/-- The multiples of a grain between two of them, in hours. -/
def hourSeries (g : TimeGrain) : Value → Value → List Value
  | some (.num lo), some (.num hi) =>
      let first : ℤ := lo.floor / grainHours g
      (List.range (hi.floor / grainHours g - first + 1).toNat).map fun i : ℕ =>
        some (.num ((first + (i : ℤ)) * grainHours g : ℤ))
  | _, _ => []

/-- Dates counted in hours, without a calendar. -/
def hourEngine : Engine where
  rel := fun _ => []
  scalar := fun _ => none
  trunc := hourFunctions.trunc
  series := hourSeries
  calendar := fun _ _ => []

lemma grainHours_pos (g : TimeGrain) : 0 < grainHours g := by cases g <;> decide

lemma hourEngine_bucket {g : TimeGrain} {v : Value} :
    IsBucket hourEngine g v ↔ ∃ k : ℤ, v = some (.num (k * grainHours g : ℤ)) := by
  have hpos := grainHours_pos g
  constructor
  · rintro ⟨hne, htrunc⟩
    match v with
    | none => exact absurd rfl hne
    | some (.text s) => cases htrunc
    | some (.num x) => exact ⟨x.floor / grainHours g, htrunc.symm⟩
  · rintro ⟨k, rfl⟩
    refine ⟨by simp, ?_⟩
    change some (Datum.num _) = _
    rw [Rat.floor_intCast, Int.mul_ediv_cancel _ (ne_of_gt hpos)]

lemma le_num_iff {a b : ℚ} : Value.le (some (.num a)) (some (.num b)) = true ↔ a ≤ b := by
  rw [Value.le, decide_eq_true_iff]
  exact Sum.Lex.inl_le_inl_iff

lemma hourEngine_dates : hourEngine.Dates where
  trunc_trunc := fun g v => hourFunctions.trunc_trunc g g v (by cases g <;> decide)
  series_nodup := by
    intro g lo hi
    have hpos := grainHours_pos g
    match lo, hi with
    | none, _ => exact List.nodup_nil
    | some (.text _), _ => exact List.nodup_nil
    | some (.num _), none => exact List.nodup_nil
    | some (.num _), some (.text _) => exact List.nodup_nil
    | some (.num lo), some (.num hi) =>
        refine List.Nodup.map (fun i j hij => ?_) List.nodup_range
        simp only [Option.some.injEq, Datum.num.injEq, Rat.intCast_inj] at hij
        have := Int.eq_of_mul_eq_mul_right (ne_of_gt hpos) hij
        omega
  series_none := fun _ _ => rfl
  mem_series := by
    intro g lo hi hlo hhi b
    have hpos := grainHours_pos g
    obtain ⟨k, rfl⟩ := hourEngine_bucket.mp hlo
    obtain ⟨l, rfl⟩ := hourEngine_bucket.mp hhi
    have hseries : hourEngine.series = hourSeries := rfl
    rw [hourEngine_bucket, hseries]
    simp only [hourSeries, Rat.floor_intCast, Int.mul_ediv_cancel _ (ne_of_gt hpos), List.mem_map,
      List.mem_range]
    constructor
    · rintro ⟨i, hi, rfl⟩
      refine ⟨⟨_, rfl⟩, ?_, ?_⟩
      · rw [le_num_iff, Rat.intCast_le_intCast]
        exact Int.mul_le_mul_of_nonneg_right (by omega) (le_of_lt hpos)
      · rw [le_num_iff, Rat.intCast_le_intCast]
        exact Int.mul_le_mul_of_nonneg_right (by omega) (le_of_lt hpos)
    · rintro ⟨⟨n, rfl⟩, hle, hge⟩
      rw [le_num_iff, Rat.intCast_le_intCast] at hle hge
      have hkn := Int.le_of_mul_le_mul_right hle hpos
      have hnl := Int.le_of_mul_le_mul_right hge hpos
      refine ⟨(n - k).toNat, by omega, ?_⟩
      rw [Int.toNat_of_nonneg (by omega), add_sub_cancel]

/-- Orders with a running revenue. -/
def runningCatalog : SemanticCatalog := SemanticCatalog.new
  [{ name := "orders"
     source := "shop.orders"
     dimensions := [{ name := "order_date", expr := "order_date", dataType := .time }]
     measures := [{ name := "revenue", agg := .sum, expr := "amount" }] }]
  [{ name := "running", kind := .cumulative "orders.revenue" .runningTotal .sum }]

def runningByDay : SemanticQuery where
  measures := ["running"]
  dimensions := ["orders.order_date.day"]

def dayAxis : Axis where
  timeMember := "orders.order_date.day"
  grain := .day
  spine := none
  keys := []

def runningOuter : MetricOuter where
  items := [(.column ⟨axisAlias, "orders.order_date.day"⟩, "orders.order_date.day"),
    (.cumulative .sum ⟨aggColumn "orders.revenue", true⟩ []
      ⟨axisAlias, "orders.order_date.day"⟩ .unbounded, "running")]
  axis := some dayAxis
  dimensions := ["orders.order_date.day"]
  orders := []
  limit := none

def runningInner : Select where
  items := [(.dateTrunc .day (.raw "order_date"), "orders.order_date.day"),
    (.aggregate .sum (.raw "amount") [], "orders.revenue")]
  source := { root := "orders", table := ⟨"shop", "orders"⟩, aliased := false }
  wheres := []
  groupBy := [.dateTrunc .day (.raw "order_date")]

lemma runningByDay_compiles : compileStmt .insertion runningCatalog runningByDay =
    .ok (.metric runningOuter (.select runningInner)) := by
  decide

/-- The revenue of a day. -/
def dayRow (day : Value) (revenue : ℚ) : Row Datum := fun name =>
  if name = "orders.order_date.day" then day
  else if name = "orders.revenue" then some (.num revenue)
  else none

/-- The revenue of the orders without a date. -/
def undated : LeafContents hourEngine dayAxis runningOuter.dimensions where
  rows := [dayRow none 5]
  keyed := List.nodup_singleton _
  truncated := by
    intro r hr
    rw [List.mem_singleton.mp hr]
    rfl

/-- The revenue of the orders without a date is in no output row. -/
lemma undated_dropped : ¬ SpineComplete hourEngine runningOuter dayAxis undated.rows := by
  intro h
  have hlen := h.contributes.length_eq
  revert hlen
  decide

/-- A statement on the axis may drop rows of its leaf aggregate. -/
theorem spine_complete_fails : ¬ ∀ (E : Engine), E.Dates → ∀ (ord : SetOrder)
    (cat : SemanticCatalog) (q : SemanticQuery) (m : MetricOuter) (inner : Stmt) (a : Axis),
    spineMode cat q = true → compileStmt ord cat q = .ok (.metric m inner) → m.axis = some a →
    ∀ C : LeafContents E a m.dimensions, SpineComplete E m a C.rows :=
  fun h => undated_dropped (h _ hourEngine_dates _ _ _ _ _ _ (by decide)
    runningByDay_compiles rfl undated)

/-- The first and the third day of 1970. -/
def firstAndThird : LeafContents hourEngine dayAxis runningOuter.dimensions where
  rows := [dayRow (some (.num 0)) 5, dayRow (some (.num 48)) 7]
  keyed := by decide
  truncated := by
    intro r hr
    rcases List.mem_cons.mp hr with rfl | hr
    · decide
    · rw [List.mem_singleton.mp hr]
      decide

/-- The day between them gets its row, and no revenue is lost. -/
theorem firstAndThird_complete :
    SpineComplete hourEngine runningOuter dayAxis firstAndThird.rows := by
  obtain ⟨m, inner, a, hstmt, haxis, hcomplete⟩ :=
    spine_complete_iff hourEngine_dates (by decide) runningByDay_compiles
  cases hstmt
  cases haxis
  refine (hcomplete firstAndThird).mpr ⟨fun r hr => ?_, fun table column heq => by cases heq⟩
  rcases List.mem_cons.mp hr with rfl | hr
  · decide
  · rw [List.mem_singleton.mp hr]
    decide

end Semantic
end Pawrly
