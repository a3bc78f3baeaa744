import Pawrly.Http.JsonPaths
import Pawrly.Http.OpenApi

/-!
# The evaluators of paths

A `$` path is read by `json_at_path`, by the sources of columns and by whoever wrote the rows path of
a synthesized table.  A column source knows field names only and keeps a `$` that stands in front of
one; a rows path is the name of a property with `$.` in front, whatever the name contains.
-/

namespace Pawrly
namespace Http

open Json

/-! ## Segments -/

/-- The text behind the leading `$`s. -/
def afterDollars (path : String) : String := Text.trimStartMatches "$" path

/-- The text behind the leading `$.`s. -/
def afterRoots (path : String) : String := Text.trimStartMatches "$." path

/-- The pieces between the dots that are not empty. -/
def dotSegments (s : String) : List String := (Text.split '.' s).filter (· ≠ "")

lemma pathSegments_eq (path : String) :
    pathSegments path = dotSegments (afterDollars (afterRoots path)) := rfl

lemma sourceKeys_eq (path : String) : sourceKeys path = dotSegments (afterRoots path) := rfl

lemma flatten_dotSegments (s : String) :
    ((dotSegments s).map String.toList).flatten = s.toList.filter fun c => c ≠ '.' := by
  rw [← Text.flatten_splitOn, dotSegments, Text.split]
  generalize s.toList.splitOn '.' = pieces
  induction pieces with
  | nil => rfl
  | cons piece pieces ih =>
      rw [List.map_cons, List.filter_cons]
      by_cases hpiece : piece = []
      · simpa [hpiece] using ih
      · have hne : String.ofList piece ≠ "" := fun h => hpiece (String.ofList_eq_empty_iff.mp h)
        simpa [hne] using ih

lemma dotSegment_spec {s segment : String} (h : segment ∈ dotSegments s) :
    segment ≠ "" ∧ '.' ∉ segment.toList := by
  obtain ⟨hsplit, hne⟩ := List.mem_filter.mp h
  obtain ⟨piece, hpiece, rfl⟩ := List.mem_map.mp hsplit
  refine ⟨by simpa using hne, ?_⟩
  rw [String.toList_ofList]
  exact Text.notMem_of_mem_splitOn hpiece

lemma dotSegments_singleton {s : String} (hne : s ≠ "") (hdot : '.' ∉ s.toList) :
    dotSegments s = [s] := by
  rw [dotSegments, Text.split, List.splitOn_eq_singleton hdot, List.map_singleton,
    String.ofList_toList, List.filter_singleton]
  simp [hne]

lemma trimStartScan_dollar (cs : List Char) :
    Text.trimStartScan ['$'] 0 cs = cs.dropWhile (· = '$') := by
  induction cs with
  | nil => rfl
  | cons c cs ih =>
      by_cases hc : c = '$'
      · subst hc
        simpa [Text.trimStartScan] using ih
      · have hprefix : List.isPrefixOf ['$'] (c :: cs) = false := by
          simp [List.isPrefixOf, Ne.symm hc]
        simp [Text.trimStartScan, hprefix, hc]

lemma toList_afterDollars (s : String) : (afterDollars s).toList = s.toList.dropWhile (· = '$') := by
  rw [afterDollars, Text.trimStartMatches, String.toList_ofList]
  exact trimStartScan_dollar s.toList

/-- Nothing is taken off a text that does not start with `$`. -/
lemma afterDollars_eq_self {s : String} (h : s.toList.head? ≠ some '$') : afterDollars s = s := by
  apply String.toList_inj.mp
  rw [toList_afterDollars]
  cases hs : s.toList with
  | nil => rfl
  | cons c cs =>
      have hc : c ≠ '$' := by
        rintro rfl
        rw [hs] at h
        exact h rfl
      simp [hc]

lemma afterRoots_eq_self {s : String} (h : ∀ cs, s.toList ≠ '$' :: '.' :: cs) :
    afterRoots s = s := by
  apply String.toList_inj.mp
  rw [afterRoots, Text.trimStartMatches, String.toList_ofList]
  show Text.trimStartScan ['$', '.'] 0 s.toList = _
  cases hs : s.toList with
  | nil => rfl
  | cons c cs =>
      have hprefix : List.isPrefixOf ['$', '.'] (c :: cs) = false := by
        rw [Bool.eq_false_iff]
        intro hpre
        obtain ⟨rest, hrest⟩ := List.isPrefixOf_iff_prefix.mp hpre
        exact h rest (hs.trans hrest.symm)
      rw [Text.trimStartScan, hprefix]
      rfl

/-- A root in front is taken off. -/
lemma afterRoots_root (p : String) : afterRoots ("$." ++ p) = afterRoots p := by
  have hlist : ("$." ++ p).toList = '$' :: '.' :: p.toList := by
    rw [String.toList_append]
    rfl
  rw [afterRoots, afterRoots, Text.trimStartMatches, Text.trimStartMatches, hlist]
  rfl

/-- A leading `$` is a character that the reader loses. -/
lemma dotSegments_afterDollars_ne {s : String} (h : s.toList.head? = some '$') :
    dotSegments (afterDollars s) ≠ dotSegments s := by
  intro heq
  have hchars := congrArg (fun l => (l.map String.toList).flatten.length) heq
  simp only [flatten_dotSegments, toList_afterDollars] at hchars
  cases hs : s.toList with
  | nil =>
      rw [hs] at h
      cases h
  | cons c cs =>
      rw [hs] at h hchars
      obtain rfl : c = '$' := Option.some.inj h
      have hle : ((cs.dropWhile (· = '$')).filter fun c => c ≠ '.').length ≤
          (cs.filter fun c => c ≠ '.').length :=
        ((List.dropWhile_sublist _).filter _).length_le
      simp at hchars hle
      omega

/-! ## A body with one path -/

/-- The value at the end of nested fields. -/
def nest : List String → Json → Json
  | [], v => v
  | part :: parts, v => .obj [(part, nest parts v)]

lemma walk_nest (parts : List String) (v : Json) : walk parts (nest parts v) = some v := by
  induction parts with
  | nil => rfl
  | cons part parts ih =>
      rw [walk, List.foldlM_cons]
      show ([(part, nest parts v)].lookup part).bind (walk parts) = _
      rw [List.lookup_cons_self]
      exact ih

lemma follow_nest (parts : List String) (v : Json) (steps : List Step) :
    follow (parts.map .key ++ steps) (nest parts v) = follow steps v := by
  induction parts with
  | nil => rfl
  | cons part parts ih =>
      show ((obj [(part, nest parts v)]).getKeyOrIndex part).bind
        (follow (parts.map .key ++ steps)) = _
      rw [getKeyOrIndex_obj, List.lookup_cons_self, Option.bind_some]
      exact ih

/-- Only the names of the fields lead to the null at their end. -/
lemma steps_of_follow_nest {parts : List String} {steps : List Step}
    (h : follow steps (nest parts .null) = some .null) : steps = parts.map .key := by
  induction parts generalizing steps with
  | nil =>
      cases steps with
      | nil => rfl
      | cons step steps =>
          cases step with
          | key name => cases h
          | index position => cases h
  | cons part parts ih =>
      cases steps with
      | nil => cases h
      | cons step steps =>
          cases step with
          | key name =>
              obtain ⟨c, hc, h⟩ := Option.bind_eq_some_iff.mp h
              have hlookup : [(part, nest parts .null)].lookup name = some c :=
                (getKeyOrIndex_obj _ name).symm.trans hc
              rw [OrderedMap.lookup_cons_if] at hlookup
              split_ifs at hlookup with hname
              · cases hlookup
                rw [List.map_cons, ih h]
                exact congrArg₂ List.cons (congrArg Step.key hname) rfl
              · cases hlookup
          | index position => cases h

/-- A path that reads the end of nested fields is spelled by their names. -/
lemma pathSegments_of_atPath_nest {path : String} {parts : List String}
    (h : (nest parts .null).atPath path = some .null) :
    pathSegments path = parts ∧ Bracketless path := by
  rw [atPath_eq] at h
  obtain ⟨steps, hsteps, hfollow⟩ := Option.bind_eq_some_iff.mp h
  obtain rfl := steps_of_follow_nest hfollow
  have hplain : Bracketless path := by
    by_contra hbracket
    obtain ⟨i, hi⟩ := exists_index hsteps hbracket
    obtain ⟨part, _, heq⟩ := List.mem_map.mp hi
    cases heq
  have hfields := steps_of_bracketless hplain hsteps
  refine ⟨?_, hplain⟩
  exact List.map_injective_iff.mpr (fun _ _ hkey => Step.key.inj hkey) hfields

/-! ## Column sources -/

/-- The source is the whole row, or names of fields behind one `$.`: no `$` in front of the first, no
brackets, no numbers. -/
def PlainSource (source : String) : Prop :=
  source = "$" ∨ ((afterRoots source).toList.head? ≠ some '$' ∧
    ∀ part ∈ sourceKeys source, '[' ∉ part.toList ∧ Text.parseUnsigned (2 ^ 64 - 1) part = none)

instance (source : String) : Decidable (PlainSource source) :=
  inferInstanceAs (Decidable (_ ∨ _))

/-- A field that is not a number is read alike. -/
lemma getKeyOrIndex_of_name {name : String} (h : Text.parseUnsigned (2 ^ 64 - 1) name = none)
    (v : Json) : v.getKeyOrIndex name = v.get? name := by
  cases v with
  | obj fields => exact getKeyOrIndex_obj fields name
  | arr items =>
      show (Text.parseUnsigned (2 ^ 64 - 1) name).bind (fun idx => items[idx]?) = none
      rw [h, Option.bind_none]
  | null | bool | num | str => rfl

lemma follow_keys {parts : List String}
    (h : ∀ part ∈ parts, Text.parseUnsigned (2 ^ 64 - 1) part = none) (v : Json) :
    follow (parts.map .key) v = walk parts v := by
  induction parts generalizing v with
  | nil => rfl
  | cons part parts ih =>
      obtain ⟨hpart, hparts⟩ := List.forall_mem_cons.mp h
      rw [walk, List.foldlM_cons]
      show (v.getKeyOrIndex part).bind (follow (parts.map .key)) = (v.get? part).bind (walk parts)
      rw [getKeyOrIndex_of_name hpart]
      exact Option.bind_congr fun w _ => ih hparts w

/-- A number is an index for one reader and a name for the other. -/
lemma walk_number_ne {pre post : List String} {part : String} {i : ℕ}
    (h : Text.parseUnsigned (2 ^ 64 - 1) part = some i) :
    follow ((pre ++ part :: post).map .key) (nest pre (.arr (List.replicate (i + 1) (nest post .null)))) ≠
      walk (pre ++ part :: post) (nest pre (.arr (List.replicate (i + 1) (nest post .null)))) := by
  have hread : follow ((pre ++ part :: post).map .key)
      (nest pre (.arr (List.replicate (i + 1) (nest post .null)))) = some .null := by
    rw [List.map_append, follow_nest]
    have hindex : (Json.arr (List.replicate (i + 1) (nest post .null))).getKeyOrIndex part =
        some (nest post .null) := by
      show (Text.parseUnsigned (2 ^ 64 - 1) part).bind
        (fun idx => (List.replicate (i + 1) (nest post .null))[idx]?) = _
      rw [h, Option.bind_some, List.getElem?_replicate, if_pos (Nat.lt_succ_self i)]
    show ((Json.arr _).getKeyOrIndex part).bind (follow (post.map .key)) = _
    rw [hindex, Option.bind_some]
    have hnest := follow_nest post .null []
    rwa [List.append_nil] at hnest
  have hwalk : walk (pre ++ part :: post)
      (nest pre (.arr (List.replicate (i + 1) (nest post .null)))) = none := by
    have hpre := walk_nest pre (.arr (List.replicate (i + 1) (nest post .null)))
    rw [walk] at hpre ⊢
    rw [List.foldlM_append, hpre]
    rfl
  rw [hread, hwalk]
  exact Option.some_ne_none _

/-- The two readers agree on every row exactly when the source is plain. -/
lemma pullSource_eq_atPath_iff {name source : String} {params : Params}
    (hdollar : source.toList.head? = some '$') :
    (∀ row, pullSource name source row params = row.atPath source) ↔ PlainSource source := by
  have hparam : source ≠ "param" := by
    rintro rfl
    revert hdollar
    decide
  by_cases hroot : source = "$"
  · subst hroot
    exact ⟨fun _ => .inl rfl, fun _ row => rfl⟩
  have hpull : ∀ row, pullSource name source row params = walk (sourceKeys source) row := by
    intro row
    rw [pullSource, if_neg hparam, if_neg hroot, if_pos hdollar]
  simp only [hpull]
  constructor
  · intro h
    refine .inr ?_
    obtain ⟨hsegments, hplain⟩ := pathSegments_of_atPath_nest
      ((h _).symm.trans (walk_nest (sourceKeys source) .null))
    refine ⟨?_, ?_⟩
    · intro hhead
      exact dotSegments_afterDollars_ne hhead hsegments
    · intro part hpart
      refine ⟨hplain part (hsegments ▸ hpart), ?_⟩
      cases hnumber : Text.parseUnsigned (2 ^ 64 - 1) part with
      | none => rfl
      | some i =>
          obtain ⟨pre, post, hsplit⟩ := List.append_of_mem hpart
          have hrow := h (nest pre (.arr (List.replicate (i + 1) (nest post .null))))
          rw [atPath_of_steps (pathSteps_of_bracketless hplain), fieldSteps, hsegments,
            hsplit] at hrow
          exact absurd hrow.symm (walk_number_ne hnumber)
  · rintro (hroot' | ⟨hhead, hparts⟩) row
    · exact absurd hroot' hroot
    · have hsegments : pathSegments source = sourceKeys source := by
        rw [pathSegments_eq, sourceKeys_eq, afterDollars_eq_self hhead]
      have hplain : Bracketless source := fun part hpart => (hparts part (hsegments ▸ hpart)).1
      rw [atPath_of_steps (pathSteps_of_bracketless hplain), fieldSteps, hsegments,
        follow_keys fun part hpart => (hparts part hpart).2]

/-! ## Rows paths -/

/-- The name of the property is a segment of its own. -/
def PlainProperty (p : String) : Prop :=
  p ≠ "" ∧ '.' ∉ p.toList ∧ '[' ∉ p.toList ∧ p.toList.head? ≠ some '$'

instance (p : String) : Decidable (PlainProperty p) := inferInstanceAs (Decidable (_ ∧ _))

/-- The path `$.p` reaches the property `p` of every object exactly when its name is plain. -/
lemma atPath_property_iff {p : String} :
    (∀ fields, (Json.obj fields).atPath ("$." ++ p) = fields.lookup p) ↔ PlainProperty p := by
  constructor
  · intro h
    have hread : (nest [p] .null).atPath ("$." ++ p) = some .null :=
      (h [(p, .null)]).trans List.lookup_cons_self
    obtain ⟨hsegments, hplain⟩ := pathSegments_of_atPath_nest hread
    have hmem : p ∈ pathSegments ("$." ++ p) := by
      rw [hsegments]
      exact List.mem_singleton_self p
    obtain ⟨hne, hdot⟩ := dotSegment_spec hmem
    refine ⟨hne, hdot, hplain p hmem, ?_⟩
    intro hhead
    have hroots : afterRoots p = p := by
      refine afterRoots_eq_self fun cs hcs => hdot ?_
      rw [hcs]
      exact List.mem_cons_of_mem _ List.mem_cons_self
    rw [pathSegments_eq, afterRoots_root, hroots] at hsegments
    exact dotSegments_afterDollars_ne hhead (hsegments.trans (dotSegments_singleton hne hdot).symm)
  · rintro ⟨hne, hdot, hbracket, hhead⟩ fields
    have hsegments : pathSegments ("$." ++ p) = [p] := by
      rw [pathSegments_eq, afterRoots_root, afterRoots_eq_self, afterDollars_eq_self hhead,
        dotSegments_singleton hne hdot]
      intro cs hcs
      rw [hcs] at hhead
      exact hhead rfl
    have hplain : Bracketless ("$." ++ p) := by
      intro segment hsegment
      rw [hsegments] at hsegment
      rwa [List.mem_singleton.mp hsegment]
    rw [atPath_of_steps (pathSteps_of_bracketless hplain), fieldSteps, hsegments]
    show ((obj fields).getKeyOrIndex p).bind some = _
    rw [getKeyOrIndex_obj, Option.bind_fun_some]

namespace OpenApi

/-- The rows of the response are wrapped under the property. -/
def Wraps (doc schema : Json) (p : String) : Prop :=
  isArraySchema schema = false ∧ isObject schema = true ∧
    ∃ props array, (schema.get? "properties").bind asObject? = some props ∧
      rowsArray doc props = some (p, array)

lemma classify_of_wraps {doc schema : Json} {p : String} (h : Wraps doc schema p)
    (table : String) : (classify doc schema table).1 = "$." ++ p := by
  obtain ⟨harray, hobject, props, array, hprops, hrows⟩ := h
  unfold classify
  rw [if_neg (by rw [harray]; decide), if_pos hobject, hprops, Option.bind_some, hrows]

end OpenApi

/-- Every source of a column and every synthesized rows path: the readers agree on all rows exactly
when the source is plain, and the rows path reaches the property in all responses exactly when its
name is. -/
theorem path_evaluators_iff {F : Type} {fmt : Formats F} {col : ResponseColumn} {source : String}
    (hexpr : col.expr = none) (hsource : col.source = some source)
    (hdollar : source.toList.head? = some '$') {params : Params} {doc schema : Json} {p : String}
    (hwraps : OpenApi.Wraps doc schema p) {table : String} :
    ((∀ row, pullValue fmt col params row = row.atPath source) ↔ PlainSource source) ∧
      ((∀ fields, (Json.obj fields).atPath (OpenApi.classify doc schema table).1 =
        fields.lookup p) ↔ PlainProperty p) := by
  constructor
  · have hpull : ∀ row, pullValue fmt col params row = pullSource col.name source row params := by
      intro row
      rw [pullValue, hexpr, hsource]
    simp only [hpull]
    exact pullSource_eq_atPath_iff hdollar
  · rw [OpenApi.classify_of_wraps hwraps]
    exact atPath_property_iff

/-- A response whose rows are wrapped under `data`, and a column below a field. -/
theorem path_evaluators_data :
    let schema := Json.obj [("properties", .obj [("data", .obj [("type", .str "array")])]),
      ("type", .str "object")]
    (∀ row, pullSource "id" "$.user.id" row .empty = row.atPath "$.user.id") ∧
      ∀ fields, (Json.obj fields).atPath (OpenApi.classify .null schema "t").1 =
        fields.lookup "data" := by
  intro schema
  have hwraps : OpenApi.Wraps .null schema "data" :=
    ⟨by decide, by decide, [("data", .obj [("type", .str "array")])],
      .obj [("type", .str "array")], rfl, by decide⟩
  have fmt : Formats Unit :=
    { asF64 := fun _ => none, parseF64 := fun _ => none
      truncate := fun _ => ⟨0, by decide⟩
      timestampMicros := fun _ => none, dateDays := fun _ => none
      epochText := fun _ _ => none, decodeBase64 := fun _ => none }
  have h := @path_evaluators_iff Unit fmt ⟨"id", "bigint", some "$.user.id", none⟩ "$.user.id"
    rfl rfl (by decide) .empty .null schema "data" hwraps "t"
  exact ⟨h.1.mpr (by decide), h.2.mpr (by decide)⟩

/-- A column source with an index, and rows under a property with a dot. -/
theorem path_evaluators_fail :
    let row := Json.obj [("a", .arr [.num "1"])]
    let response := Json.obj [("a.b", .arr [])]
    let schema := Json.obj [("properties", .obj [("a.b", .obj [("type", .str "array")])]),
      ("type", .str "object")]
    pullSource "a" "$.a[0]" row .empty ≠ row.atPath "$.a[0]" ∧
      OpenApi.Wraps .null schema "a.b" ∧
      response.atPath (OpenApi.classify .null schema "t").1 ≠ response.get? "a.b" := by
  intro row response schema
  refine ⟨by decide, ⟨by decide, by decide,
    [("a.b", .obj [("type", .str "array")])], .obj [("type", .str "array")], rfl,
    by decide⟩, by decide⟩

end Http
end Pawrly
