import Mathlib.Data.List.Forall2
import Pawrly.Semantic.Types

/-!
# Semantic queries over the wire

`pawrly-proto/src/conv.rs`: a `SemanticQuery` is sent as a `SemanticQueryRequest`, whose operators are
numbers of an open enumeration.  A query comes back as it was sent.  The conversion of a request cannot
fail, so a number that is no operator's is read as `equals`: `transported` says what a decoded query
asks, and `means_iff` which requests are asked as they were written.
-/

namespace Pawrly
namespace Semantic
namespace QueryWire

/-! ## Messages -/

/-- The enumeration `FilterOp` of `semantic.proto`. -/
inductive ProtoOp
  | unspecified | equals | notEquals | inList | notIn | gt | gte | lt | lte | inRange
  | contains | startsWith | endsWith | isNull | isNotNull
  deriving DecidableEq

namespace ProtoOp

/-- The number of a value on the wire. -/
def number : ProtoOp → ℤ
  | unspecified => 0
  | equals => 1
  | notEquals => 2
  | inList => 3
  | notIn => 4
  | gt => 5
  | gte => 6
  | lt => 7
  | lte => 8
  | inRange => 9
  | contains => 10
  | startsWith => 11
  | endsWith => 12
  | isNull => 13
  | isNotNull => 14

def all : List ProtoOp :=
  [unspecified, equals, notEquals, inList, notIn, gt, gte, lt, lte, inRange, contains, startsWith,
    endsWith, isNull, isNotNull]

/-- `try_from`: the value with a number. -/
def ofNumber (n : ℤ) : Option ProtoOp := all.find? fun op => op.number = n

/-- `From<FilterOp>`. -/
def ofOp : FilterOp → ProtoOp
  | .equals => equals
  | .notEquals => notEquals
  | .inList => inList
  | .notIn => notIn
  | .gt => gt
  | .gte => gte
  | .lt => lt
  | .lte => lte
  | .inRange => inRange
  | .contains => contains
  | .startsWith => startsWith
  | .endsWith => endsWith
  | .isNull => isNull
  | .isNotNull => isNotNull

/-- `TryFrom<FilterOp>`. -/
def toOp : ProtoOp → Except String FilterOp
  | unspecified => .error "invalid value for field `FilterOp`"
  | equals => .ok .equals
  | notEquals => .ok .notEquals
  | inList => .ok .inList
  | notIn => .ok .notIn
  | gt => .ok .gt
  | gte => .ok .gte
  | lt => .ok .lt
  | lte => .ok .lte
  | inRange => .ok .inRange
  | contains => .ok .contains
  | startsWith => .ok .startsWith
  | endsWith => .ok .endsWith
  | isNull => .ok .isNull
  | isNotNull => .ok .isNotNull

end ProtoOp

structure ProtoFilter where
  member : String
  op : ℤ
  values : List String
  deriving DecidableEq

structure ProtoOrder where
  member : String
  desc : Bool
  deriving DecidableEq

structure ProtoDuration where
  seconds : ℤ
  nanos : ℤ
  deriving DecidableEq

structure SemanticQueryRequest where
  measures : List String := []
  dimensions : List String := []
  filters : List ProtoFilter := []
  orderBy : List ProtoOrder := []
  limit : Option ℕ := none
  timeZone : Option String := none
  params : List (String × String) := []
  timeout : Option ProtoDuration := none
  traceId : String := ""
  segments : List String := []
  deriving DecidableEq

/-! ## Conversions -/

def semanticFilterToProto (f : SemanticFilter) : ProtoFilter where
  member := f.member
  op := (ProtoOp.ofOp f.op).number
  values := f.values

/-- The operator a number stands for, if any. -/
def opOf (n : ℤ) : Option FilterOp := (ProtoOp.ofNumber n).bind fun op => op.toOp.toOption

def semanticFilterFromProto (f : ProtoFilter) : SemanticFilter where
  member := f.member
  op := (opOf f.op).getD .equals
  values := f.values

def toRequest (q : SemanticQuery) : SemanticQueryRequest where
  measures := q.measures
  dimensions := q.dimensions
  filters := q.filters.map semanticFilterToProto
  segments := q.segments
  orderBy := q.orderBy.map fun o => { member := o.member, desc := o.direction = .desc }
  limit := q.limit
  timeZone := q.timeZone
  params := q.params
  timeout := none
  traceId := ""

def ofRequest (r : SemanticQueryRequest) : SemanticQuery where
  measures := r.measures
  dimensions := r.dimensions
  filters := r.filters.map semanticFilterFromProto
  segments := r.segments
  orderBy := r.orderBy.map fun o => { member := o.member, direction := if o.desc then .desc else .asc }
  limit := r.limit
  timeZone := r.timeZone
  params := r.params

/-! ## What a request asks -/

/-- A query asks what the request says, where `filter` says when a filter of the one stands for a filter
of the other.  The timeout and the trace of a request are no part of its query. -/
structure Asks (filter : ProtoFilter → SemanticFilter → Prop) (r : SemanticQueryRequest)
    (q : SemanticQuery) : Prop where
  measures : q.measures = r.measures
  dimensions : q.dimensions = r.dimensions
  filters : List.Forall₂ filter r.filters q.filters
  segments : q.segments = r.segments
  orderBy : List.Forall₂ (fun o o' => o'.member = o.member ∧ (o'.direction = .desc ↔ o.desc = true))
    r.orderBy q.orderBy
  limit : q.limit = r.limit
  timeZone : q.timeZone = r.timeZone
  params : q.params = r.params

/-- A filter is executed under the operator that it names. -/
structure SameFilter (f : ProtoFilter) (g : SemanticFilter) : Prop where
  member : g.member = f.member
  op : f.op = (ProtoOp.ofOp g.op).number
  values : g.values = f.values

/-- A filter is executed under the operator that it names; one that names none, as `equals`. -/
structure ReadFilter (f : ProtoFilter) (g : SemanticFilter) : Prop where
  member : g.member = f.member
  known : ∀ op, f.op = (ProtoOp.ofOp op).number → g.op = op
  unknown : (∀ op, f.op ≠ (ProtoOp.ofOp op).number) → g.op = .equals
  values : g.values = f.values

lemma opOf_number (op : FilterOp) : opOf (ProtoOp.ofOp op).number = some op := by
  cases op <;> rfl

lemma opOf_eq_some {n : ℤ} {op : FilterOp} : opOf n = some op ↔ n = (ProtoOp.ofOp op).number := by
  constructor
  · intro h
    obtain ⟨p, hp, hop⟩ := Option.bind_eq_some_iff.mp h
    have hn : p.number = n := by simpa using List.find?_some hp
    rw [← hn]
    cases p <;> cases hop <;> rfl
  · rintro rfl
    exact opOf_number op

/-- The operator of a filter is kept by both conversions. -/
lemma fromProto_toProto (f : SemanticFilter) : semanticFilterFromProto (semanticFilterToProto f) = f := by
  rw [semanticFilterFromProto, semanticFilterToProto, opOf_number, Option.getD_some]

/-- **Round trip**: a query comes back as it was sent. -/
lemma ofRequest_toRequest (q : SemanticQuery) : ofRequest (toRequest q) = q := by
  have hfilters : (q.filters.map semanticFilterToProto).map semanticFilterFromProto = q.filters := by
    rw [List.map_map]
    exact List.map_id'' fromProto_toProto q.filters
  have horder : ∀ o : SemanticOrder,
      { member := o.member, direction := if decide (o.direction = .desc) then .desc else .asc } = o := by
    rintro ⟨member, _ | _⟩ <;> rfl
  have horders : (q.orderBy.map fun o =>
      (⟨o.member, decide (o.direction = .desc)⟩ : ProtoOrder)).map (fun o =>
        (⟨o.member, if o.desc then .desc else .asc⟩ : SemanticOrder)) = q.orderBy := by
    rw [List.map_map]
    exact List.map_id'' horder q.orderBy
  simp only [ofRequest, toRequest, hfilters, horders]

lemma sameFilter_iff {f : ProtoFilter} : SameFilter f (semanticFilterFromProto f) ↔
    ∃ op, f.op = (ProtoOp.ofOp op).number := by
  constructor
  · exact fun h => ⟨_, h.op⟩
  · rintro ⟨op, hop⟩
    have hread : (semanticFilterFromProto f).op = op := by
      rw [semanticFilterFromProto, hop, opOf_number, Option.getD_some]
    exact ⟨rfl, by rw [hread, hop], rfl⟩

lemma readFilter (f : ProtoFilter) : ReadFilter f (semanticFilterFromProto f) := by
  refine ⟨rfl, fun op hop => ?_, fun hnone => ?_, rfl⟩
  · rw [semanticFilterFromProto, hop, opOf_number, Option.getD_some]
  · have hop : opOf f.op = none := by
      cases h : opOf f.op with
      | none => rfl
      | some op => exact absurd (opOf_eq_some.mp h) (hnone op)
    rw [semanticFilterFromProto, hop, Option.getD_none]

/-- Apart from the operators a request is read as it is written. -/
lemma asks_iff {filter : ProtoFilter → SemanticFilter → Prop} {r : SemanticQueryRequest} :
    Asks filter r (ofRequest r) ↔ ∀ f ∈ r.filters, filter f (semanticFilterFromProto f) := by
  have hfilters : List.Forall₂ filter r.filters (ofRequest r).filters ↔
      ∀ f ∈ r.filters, filter f (semanticFilterFromProto f) := by
    rw [ofRequest, List.forall₂_map_right_iff, List.forall₂_same]
  constructor
  · exact fun h => hfilters.mp h.filters
  · intro h
    refine ⟨rfl, rfl, hfilters.mpr h, rfl, ?_, rfl, rfl, rfl⟩
    rw [ofRequest, List.forall₂_map_right_iff, List.forall₂_same]
    rintro ⟨member, _ | _⟩ - <;> simp

/-- A request is asked as it is written exactly when each of its filters names an operator. -/
theorem means_iff (r : SemanticQueryRequest) : Asks SameFilter r (ofRequest r) ↔
    ∀ f ∈ r.filters, ∃ op, f.op = (ProtoOp.ofOp op).number := by
  rw [asks_iff]
  exact forall₂_congr fun f _ => sameFilter_iff

/-- **Transport**: every query comes back as it was sent, and every request is read as it is written, but
for a filter that names no operator, which is read as `equals`. -/
theorem transported (q : SemanticQuery) (r : SemanticQueryRequest) :
    ofRequest (toRequest q) = q ∧ Asks ReadFilter r (ofRequest r) :=
  ⟨ofRequest_toRequest q, asks_iff.mpr fun f _ => readFilter f⟩

/-- An exclusion that a receiver without its operator reads as an equality, and one without operator. -/
theorem unknownOp_not_asked :
    ¬ ∀ (q : SemanticQuery) (r : SemanticQueryRequest),
      ofRequest (toRequest q) = q ∧ Asks SameFilter r (ofRequest r) := by
  intro h
  let r : SemanticQueryRequest :=
    { measures := ["orders.revenue"], filters := [⟨"orders.status", 15, ["cancelled"]⟩] }
  have hfilters := (h (ofRequest r) r).2.filters
  obtain ⟨hop, -⟩ := List.forall₂_cons.mp hfilters
  have hnumber := hop.op
  revert hnumber
  decide

end QueryWire
end Semantic
end Pawrly
