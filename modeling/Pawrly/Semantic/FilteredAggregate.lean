import Pawrly.Semantic.MetricText
import Pawrly.Semantic.Conjunction

/-!
# Filtered aggregates

The renderer puts `FILTER (WHERE …)` behind the text of a measure's aggregate, with `AND` between
the filters.  SQL gives such a clause to the last call in front of it, so the SQL of a `custom`
aggregate such as `SUM(a) / SUM(b)` is filtered only in part, and an `OR` at the top level of a
filter takes in its neighbours (`filtered_iff`).
-/

namespace Pawrly
namespace Semantic

open Sql OperatorGrammar

/-- The aggregate of a measure without its filters. -/
def aggregateText (agg : MeasureAgg) (expr : String) (alias? : Option String) : String :=
  renderAgg (qualify expr alias?).render agg

/-- The model that a member is prefixed with. -/
def ownerOf (member : String) : String := (Text.split '.' member).headD ""

/-- The aliases by which a scan qualifies the columns of a model. -/
def aliasesOf (model : String) : List (Option String) := [none, some model]

lemma render_aggSql (m : Measure) (alias? : Option String) (h : m.filters ≠ []) :
    (aggSql m alias?).render = aggregateText m.agg m.expr alias? ++ " FILTER (WHERE " ++
      Text.join " AND " m.filters ++ ")" := by
  have hempty : m.filters.isEmpty = false := by simpa using h
  simp only [aggSql, SqlExpr.render, hempty, Bool.false_eq_true, if_false, aggregateText]

section

variable {L P : Type} [Preorder L] {G : Grammar Token L P}

/-- The clause behind an aggregate is the conjunction of the filters, and it filters the whole
aggregate. -/
structure Filtered (F : Forms G) (model : String) (agg : MeasureAgg) (expr : String)
    (filters : List String) : Prop where
  ends : ∀ text ∈ filters, Closed text
  conjunctive : Conjunctive filters
  whole : ∀ alias? ∈ aliasesOf model, ∀ D, lex (aggregateText agg expr alias?) = some (G.words D) →
    G.fits D G.top → Spells (aggregateText agg expr alias?) (G.words D) ∧
      G.HasTree (G.words D ++ filterTokens filters) (.one (F.filtered filters) D)

/-- Every alternative of the filters contains one of each of them, and the aggregate is a single
call; neither the aggregate nor a filter ends in a line comment. -/
structure Filterable (F : Forms G) (model : String) (agg : MeasureAgg) (expr : String)
    (filters : List String) : Prop where
  ends : ∀ text ∈ filters, Closed text
  absorbed : OrsAbsorbed filters
  call : ∀ alias? ∈ aliasesOf model, ∀ D, lex (aggregateText agg expr alias?) = some (G.words D) →
    G.fits D G.top → Closed (aggregateText agg expr alias?) ∧ G.fits D F.call

/-- A filtered aggregate spells its tree. -/
lemma Filtered.spells {F : Forms G} {model : String} {m : Measure}
    (h : Filtered F model m.agg m.expr m.filters) (hne : m.filters ≠ []) {alias? : Option String}
    (halias : alias? ∈ aliasesOf model) {D : Tree P Empty} (hlex : lex (aggregateText m.agg m.expr alias?) = some (G.words D))
    (hfits : G.fits D G.top) : Spells (aggSql m alias?).render (G.words D ++ filterTokens m.filters) := by
  have hopen : Scans " FILTER (WHERE "
      [.word "FILTER".toList, .symbol '(', .word "WHERE".toList] := by
    decide
  have hjoin : Closed (Text.join " AND " m.filters) :=
    (closed_join_iff fun t ht => h.ends t (List.mem_of_mem_dropLast ht)).mpr
      (fun t ht => h.ends t (List.mem_of_getLast? ht)) hne
  have hbase := (h.whole alias? halias D hlex hfits).1.scans hopen (by decide) (by decide)
  have hclause := (hjoin.spells.after hbase).append scans_close.spells (by decide)
  rw [render_aggSql m alias? hne]
  simpa [filterTokens] using hclause

lemma filtered_iff {F : Forms G} {model : String} {agg : MeasureAgg} {expr : String}
    {filters : List String} :
    Filtered F model agg expr filters ↔ Filterable F model agg expr filters := by
  constructor
  · intro h
    refine ⟨h.ends, ?_, fun alias? halias D hlex hfits => ?_⟩
    · exact (conjunctive_iff fun t ht => h.ends t (List.mem_of_mem_dropLast ht)).mp h.conjunctive
    · obtain ⟨hspells, htree⟩ := h.whole alias? halias D hlex hfits
      refine ⟨hspells.closed, (F.filtered_eq filters).fits_iff.mp ?_⟩
      exact ⟨(F.filtered_eq filters).level, htree.fits.2⟩
  · intro h
    refine ⟨h.ends, ?_, fun alias? halias D hlex hfits => ?_⟩
    · exact (conjunctive_iff fun t ht => h.ends t (List.mem_of_mem_dropLast ht)).mpr h.absorbed
    · obtain ⟨hclosed, hcall⟩ := h.call alias? halias D hlex hfits
      have hnode := G.fits_mono ((F.filtered_eq filters).fits_iff.mpr hcall) F.atom_le
      rw [← (F.filtered_eq filters).words]
      exact ⟨⟨hlex, hclosed⟩, .of_fits hnode⟩

end

/-! ## Compiled measures -/

/-- The measure of a member, spelled out. -/
lemma measureOf_eq_some_iff {cat : SemanticCatalog} {member : String} {measure : Measure} :
    measureOf cat member = some measure ↔ ∃ modelName name model,
      Text.split '.' member = [modelName, name] ∧ modelName ≠ "" ∧
      cat.model modelName = some model ∧ findMeasure model name = some measure := by
  unfold measureOf modelForMember memberModel measureMemberName
  constructor
  · intro h
    split at h
    · next model hmodel =>
        obtain ⟨name, hname, hfind⟩ := Option.bind_eq_some_iff.mp h
        split at hname
        · next modelName name' hsplit =>
            cases hname
            obtain ⟨modelName', hmember, hmodel⟩ := Fallible.bind_eq_ok.mp hmodel
            rw [hsplit] at hmember
            dsimp only [List.head?_cons] at hmember
            split_ifs at hmember with hne
            cases hmember
            split at hmodel
            · next model' heq =>
                cases hmodel
                exact ⟨_, _, _, hsplit, hne, heq, hfind⟩
            · cases hmodel
        · cases hname
    · cases h
  · rintro ⟨modelName, name, model, hsplit, hne, hmodel, hfind⟩
    simp [hsplit, hne, hmodel, hfind, bind, Except.bind]

lemma ownerOf_model {cat : SemanticCatalog} {member : String} {model : SemanticModel}
    (h : modelForMember cat member = .ok model) : ownerOf member = model.name := by
  have hmember := (modelForMember_name h).1
  unfold memberModel at hmember
  unfold ownerOf
  cases hsplit : Text.split '.' member with
  | nil => exact absurd hsplit (Text.split_ne_nil _ _)
  | cons a as =>
      rw [hsplit] at hmember
      dsimp only [List.head?_cons] at hmember
      split_ifs at hmember
      cases hmember
      rfl

/-- Every measure of a query is computed in one of the compiled `SELECT`s. -/
lemma measure_selected {ord : SetOrder} {cat : SemanticCatalog} {q : SemanticQuery} {stmt : Stmt}
    (h : compileMeasures ord cat q = .ok stmt) {member : String} (hmember : member ∈ q.measures)
    {measure : Measure} (hmeasure : measureOf cat member = some measure) :
    ∃ s ∈ stmt.selects, ∃ alias? ∈ aliasesOf (ownerOf member),
      (aggSql measure alias?, member) ∈ s.items := by
  obtain ⟨model, hmodel⟩ := measureOf_model hmeasure
  have hitem : ∀ {joined item}, measureItem cat joined member = .ok item →
      ∃ alias? ∈ aliasesOf (ownerOf member), item = (aggSql measure alias?, member) := by
    intro joined item hturn
    obtain ⟨model', hmodel', hturn⟩ := Fallible.bind_eq_ok.mp hturn
    have howner := ownerOf_model hmodel'
    obtain ⟨e, he, heq⟩ := Fallible.bind_eq_ok.mp hturn
    cases heq
    unfold resolveMeasureExpr at he
    unfold measureOf at hmeasure
    rw [hmodel'] at hmeasure
    obtain ⟨name, hname, hfind⟩ := Option.bind_eq_some_iff.mp hmeasure
    rw [hname] at he
    dsimp only at he
    rw [hfind] at he
    cases he
    refine ⟨_, ?_, rfl⟩
    rw [howner]
    split_ifs
    · exact List.mem_cons_of_mem _ List.mem_cons_self
    · exact List.mem_cons_self
  obtain ⟨roots, hroots, ⟨hlen, l, rfl, ⟨p⟩⟩ | ⟨hlen, root, s, _, rfl, ⟨p⟩⟩⟩ :=
    compileMeasures_cases h
  · have howner := (modelForMember_name hmodel).1
    have hroot : model.name ∈ roots :=
      (mem_foldlM_pushModel hroots).mpr (.inr ⟨member, hmember, howner⟩)
    obtain ⟨s, hs⟩ := p.exists_cte hroot
    obtain ⟨root, _, hname, ⟨cp⟩⟩ := p.cte_plan hs
    obtain rfl := cteName_injective hname
    obtain ⟨item, hin, hturn⟩ := Fallible.exists_of_mapM cp.measureItems_eq
      (List.mem_filter.mpr ⟨hmember, ownedBy_iff.mpr howner⟩)
    obtain ⟨alias?, halias, rfl⟩ := hitem hturn
    refine ⟨s, List.mem_map_of_mem hs, alias?, halias, ?_⟩
    rw [cp.items]
    exact List.mem_append_right _ hin
  · obtain ⟨item, hin, hturn⟩ := Fallible.exists_of_mapM p.measureItems_eq hmember
    obtain ⟨alias?, halias, rfl⟩ := hitem hturn
    refine ⟨s, List.mem_singleton_self _, alias?, halias, ?_⟩
    rw [p.items]
    exact List.mem_append_right _ hin

end Semantic
end Pawrly
