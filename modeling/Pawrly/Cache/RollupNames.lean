import Pawrly.Cache.RollupCache
import Pawrly.Config.Validator
import Pawrly.Lib.Separated

/-!
# Names of rollups

The table, the manifest entry and the file of a rollup have the name `<model>__<preagg>`.  Validation
lets a model have the separator in its name and takes any name of a pre-aggregation, so two rollups
may have one name; `rollupsApart_iff` says when no two of a catalog do.
-/

namespace Pawrly
namespace Cache

open Semantic Sql Separated

/-- A name of a rollup reads as another one: the separator is taken one letter later, or at another
place where there is one. -/
def Overlaps (r r' : RollupMatch) : Prop :=
  (r'.model = r.model ++ "_" ∧ r.preagg = "_" ++ r'.preagg) ∨
    ∃ between, r'.model = r.model ++ "__" ++ between ∧ r.preagg = between ++ "__" ++ r'.preagg

/-- Rollups have tables of their own, and the table that answers a query is computed by the statement
of the rollup that covers it. -/
structure KeepsApart (cat : SemanticCatalog) (planned : RollupMatch → Bool) : Prop where
  names : ∀ r ∈ rollups cat, ∀ r' ∈ rollups cat, rollupTable r = rollupTable r' → r = r'
  served : ∀ q r, candidateRollup cat q = some r → ∀ statement,
    registerRollups cat planned (rollupTable r) = some statement →
      compilePreagg cat r.model r.preagg = .ok statement

lemma toList_rollupTable (r : RollupMatch) :
    (rollupTable r).toList = joined '_' r.model.toList r.preagg.toList := by
  simp [rollupTable, rollupTableName, joined]

lemma overlaps_iff {r r' : RollupMatch} :
    Overlaps r r' ↔ Shifted '_' r.model.toList r.preagg.toList r'.model.toList r'.preagg.toList := by
  simp only [Overlaps, ← String.toList_inj, String.toList_append]
  constructor
  · rintro (⟨hmodel, hpreagg⟩ | ⟨between, hmodel, hpreagg⟩)
    · rw [hmodel, hpreagg]
      exact .one _ _
    · rw [hmodel, hpreagg, List.append_assoc, List.append_assoc]
      exact .more _ _ _
  · intro h
    generalize r.model.toList = a, r.preagg.toList = b, r'.model.toList = c,
      r'.preagg.toList = d at h ⊢
    cases h with
    | one => exact .inl ⟨rfl, rfl⟩
    | more x => exact .inr ⟨String.ofList x, by simp, by simp⟩

/-- Two rollups have one name only if one of them overlaps the other. -/
lemma rollupTable_eq_iff {r r' : RollupMatch} :
    rollupTable r = rollupTable r' ↔ r = r' ∨ Overlaps r r' ∨ Overlaps r' r := by
  rw [← String.toList_inj, toList_rollupTable, toList_rollupTable, joined_eq_iff, overlaps_iff,
    overlaps_iff, String.toList_inj, String.toList_inj]
  cases r
  cases r'
  simp

lemma ne_of_overlaps {r r' : RollupMatch} (h : Overlaps r r') : r ≠ r' := by
  rintro rfl
  exact absurd (overlaps_iff.mp h).length_lt (lt_irrefl _)

/-- A model of a table of sales with one rollup of its revenue by status. -/
def salesModel (name table preagg : String) : SemanticModel where
  name := name
  source := table
  dimensions := [{ name := "status", expr := "status", dataType := .string }]
  measures := [{ name := "revenue", agg := .sum, expr := "amount" }]
  preAggregations := [{ name := preagg, dimensions := ["status"], measures := ["revenue"] }]

/-- Orders with a rollup of those of the EU, and the orders of the EU with a rollup of their own. -/
def overlappingConfig : Config.SemanticConfig where
  models := [salesModel "orders" "shop.orders" "eu__daily",
    salesModel "orders__eu" "shop.eu_orders" "daily"]

/-- The statement of the rollup of the orders of the EU. -/
def euStatement : Select where
  items := [(.raw "status", "status"), (.aggregate .sum (.raw "amount") [], "revenue")]
  source := { root := "orders__eu", table := ⟨"shop", "eu_orders"⟩, aliased := false }
  wheres := []
  groupBy := [.raw "status"]

lemma rollups_overlapping :
    rollups overlappingConfig.catalog = [⟨"orders", "eu__daily"⟩, ⟨"orders__eu", "daily"⟩] := by
  have hflat : (overlappingConfig.catalog.models.flatMap fun m =>
      m.preAggregations.map fun p => (⟨m.name, p.name⟩ : RollupMatch)) =
        [⟨"orders", "eu__daily"⟩, ⟨"orders__eu", "daily"⟩] := by decide
  rw [rollups, hflat]
  exact List.mergeSort_of_pairwise (by decide)

end Cache
end Pawrly
