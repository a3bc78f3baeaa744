import Pawrly.Config.Variables
import Pawrly.Http.JsonPaths

/-!
# Overlays

`deep_merge` and the `from:` of a source (`pawrly-config/src/assemble.rs`).  What a merged value holds
at a path of names is told by the two values (`at_deepMerge_overlay`, `at_deepMerge_base`,
`at_deepMerge_source`), and merging the overlay again changes nothing.
-/

namespace Pawrly
namespace Config

open Http (Json)
open Http.Json (Ordered OrderedFields)

/-! ## Merging -/

mutual

/-- `deep_merge`: the overlay over the base. -/
def deepMerge : Json → Json → Json
  | .obj b, .obj o => .obj (mergeFields b o)
  | .obj _, .null => .null
  | .obj _, .bool v => .bool v
  | .obj _, .num text => .num text
  | .obj _, .str s => .str s
  | .obj _, .arr items => .arr items
  | .null, o => o
  | .bool _, o => o
  | .num _, o => o
  | .str _, o => o
  | .arr _, o => o

def mergeFields : List (String × Json) → List (String × Json) → List (String × Json)
  | b, [] => b
  | b, (k, ov) :: rest =>
      match b.lookup k with
      | some bv => mergeFields (OrderedMap.insertEntry k (deepMerge bv ov) b) rest
      | none => mergeFields (OrderedMap.insertEntry k ov b) rest

end

def isObject : Json → Bool
  | .obj _ => true
  | _ => false

/-- The value at a path of names. -/
def fieldAt (v : Json) : List String → Option Json
  | [] => some v
  | k :: p => (v.get? k).bind fun c => fieldAt c p

/-- At every prefix of a path the value holds an object or nothing. -/
def OpenTo (v : Json) (p : List String) : Prop :=
  ∀ q c, q <+: p → fieldAt v q = some c → isObject c = true

/-! ## One name -/

/-- What one name of a merged object holds. -/
def overlaid : Option Json → Json → Json
  | some bv, ov => deepMerge bv ov
  | none, ov => ov

lemma deepMerge_of_not_object {b o : Json} (h : isObject b = false ∨ isObject o = false) :
    deepMerge b o = o := by
  cases b <;> cases o <;> simp [isObject] at h <;> rw [deepMerge]

lemma mergeFields_cons (b rest : List (String × Json)) (k : String) (ov : Json) :
    mergeFields b ((k, ov) :: rest) =
      mergeFields (OrderedMap.insertEntry k (overlaid (b.lookup k) ov) b) rest := by
  rw [mergeFields]
  cases b.lookup k <;> rfl

lemma lookup_eq_none_of_lt {fields : List (String × Json)} {k : String}
    (h : ∀ e ∈ fields, k < e.1) : fields.lookup k = none := by
  rw [List.lookup_eq_none_iff]
  intro e he
  simpa using (h e he).ne

/-- A name of a merged object holds what the overlay has there over what the base has there. -/
lemma lookup_mergeFields {b o : List (String × Json)} (ho : o.Pairwise fun a b => a.1 < b.1)
    (k : String) :
    (mergeFields b o).lookup k =
      match o.lookup k with
      | some ov => some (overlaid (b.lookup k) ov)
      | none => b.lookup k := by
  induction o generalizing b with
  | nil => rw [mergeFields]; rfl
  | cons e rest ih =>
      obtain ⟨k', ov⟩ := e
      obtain ⟨hhead, htail⟩ := List.pairwise_cons.mp ho
      rw [mergeFields_cons, ih htail, OrderedMap.lookup_cons_if, OrderedMap.lookup_insertEntry]
      by_cases hk : k = k'
      · subst hk
        rw [lookup_eq_none_of_lt hhead, if_pos rfl, if_pos rfl]
      · rw [if_neg hk, if_neg hk]

lemma mergeFields_sorted {b o : List (String × Json)} (hb : b.Pairwise fun a b => a.1 < b.1) :
    (mergeFields b o).Pairwise fun a b => a.1 < b.1 := by
  induction o generalizing b with
  | nil => rwa [mergeFields]
  | cons e rest ih =>
      obtain ⟨k, ov⟩ := e
      rw [mergeFields_cons]
      exact ih (OrderedMap.insertEntry_sorted hb)

lemma fields_ext {l l' : List (String × Json)} (hl : l.Pairwise fun a b => a.1 < b.1)
    (hl' : l'.Pairwise fun a b => a.1 < b.1) (h : ∀ k, l.lookup k = l'.lookup k) : l = l' := by
  have heq : (⟨l, hl⟩ : OrderedMap String Json) = ⟨l', hl'⟩ := OrderedMap.ext_get? h
  exact congrArg OrderedMap.entries heq

@[simp] lemma get?_obj (fields : List (String × Json)) (k : String) :
    (Json.obj fields).get? k = fields.lookup k := rfl

lemma get?_deepMerge {b o : Json} (ho : o.Ordered) {k : String} :
    (deepMerge b o).get? k =
      match o.get? k with
      | some ov => some (if isObject b then overlaid (b.get? k) ov else ov)
      | none => if isObject b && isObject o then b.get? k else none := by
  by_cases hobj : isObject b = true ∧ isObject o = true
  · obtain ⟨hb, hoo⟩ := hobj
    cases b <;> simp [isObject] at hb
    cases o <;> simp [isObject] at hoo
    rename_i bf of'
    rw [deepMerge, get?_obj, lookup_mergeFields ho.1]
    rfl
  · have hnot : isObject b = false ∨ isObject o = false := by
      rwa [not_and_or, Bool.not_eq_true, Bool.not_eq_true] at hobj
    rw [deepMerge_of_not_object hnot]
    rcases hnot with hb | hoo
    · cases o.get? k <;> simp [hb]
    · cases o <;> simp [isObject] at hoo <;> simp [Json.get?, isObject]

/-! ## Paths -/

lemma ordered_get {v c : Json} {k : String} (h : v.Ordered) (hc : v.get? k = some c) : c.Ordered := by
  cases v with
  | obj fields => exact h.2.lookup hc
  | null | bool | num | str | arr => cases hc

/-- Where the overlay holds something that is no object, the merged value holds the same. -/
theorem at_deepMerge_overlay {b o v : Json} (ho : o.Ordered) {p : List String}
    (hv : fieldAt o p = some v) (hleaf : isObject v = false) : fieldAt (deepMerge b o) p = some v := by
  induction p generalizing b o with
  | nil =>
      cases hv
      rw [deepMerge_of_not_object (.inr hleaf)]
      rfl
  | cons k p ih =>
      obtain ⟨ov, hov, hp⟩ := Option.bind_eq_some_iff.mp hv
      rw [fieldAt, get?_deepMerge ho, hov]
      simp only [Option.bind_some]
      split_ifs with hb
      · cases hbk : b.get? k with
        | none => exact hp
        | some bv => exact ih (ordered_get ho hov) hp
      · exact hp

/-- Where the overlay holds nothing, and nothing but objects on the way, the merged value holds what
the base does. -/
theorem at_deepMerge_base {b o v : Json} (ho : o.Ordered) {p : List String}
    (hv : fieldAt b p = some v) (hnone : fieldAt o p = none) (hopen : OpenTo o p) :
    fieldAt (deepMerge b o) p = some v := by
  induction p generalizing b o with
  | nil => cases hnone
  | cons k p ih =>
      have hobj : isObject o = true := hopen [] o List.nil_prefix rfl
      obtain ⟨bv, hbv, hp⟩ := Option.bind_eq_some_iff.mp hv
      have hb : isObject b = true := by cases b <;> first | rfl | cases hbv
      rw [fieldAt, get?_deepMerge ho]
      cases hok : o.get? k with
      | none => simpa [hb, hobj, hbv] using hp
      | some ov =>
          simp only [hb, if_true, hbv, Option.bind_some, overlaid]
          refine ih (ordered_get ho hok) hp ?_ fun q c hq hc => ?_
          · simpa [fieldAt, hok] using hnone
          · refine hopen (k :: q) c (List.cons_prefix_cons.mpr ⟨rfl, hq⟩) ?_
            simpa [fieldAt, hok] using hc

/-- The merged value has no paths but those of the base and of the overlay. -/
theorem at_deepMerge_source {b o : Json} (ho : o.Ordered) {p : List String}
    (h : (fieldAt (deepMerge b o) p).isSome) : (fieldAt b p).isSome ∨ (fieldAt o p).isSome := by
  induction p generalizing b o with
  | nil => exact .inl rfl
  | cons k p ih =>
      rw [fieldAt, get?_deepMerge ho] at h
      cases hok : o.get? k with
      | none =>
          rw [hok] at h
          dsimp only at h
          split_ifs at h with hobj
          · exact .inl h
          · cases h
      | some ov =>
          rw [hok] at h
          simp only [Option.bind_some] at h
          split_ifs at h with hb
          · cases hbk : b.get? k with
            | none =>
                rw [hbk] at h
                exact .inr (by rwa [fieldAt, hok])
            | some bv =>
                rw [hbk] at h
                rcases ih (ordered_get ho hok) h with hp | hp
                · exact .inl (by simpa [fieldAt, hbk] using hp)
                · exact .inr (by simpa [fieldAt, hok] using hp)
          · exact .inr (by simpa [fieldAt, hok] using h)

/-! ## Merging again -/

/-- The fields of an object are in order. -/
def Sorted (v : Json) : Prop :=
  ∀ fields, v = .obj fields → fields.Pairwise fun a b => a.1 < b.1

lemma sorted_of_ordered {v : Json} (h : v.Ordered) : Sorted v := by
  rintro fields rfl
  exact h.1

lemma sorted_deepMerge {b o : Json} (hb : Sorted b) (ho : Sorted o) : Sorted (deepMerge b o) := by
  intro fields hfields
  cases b <;> cases o <;> rw [deepMerge] at hfields <;> cases hfields
  case obj.obj => exact mergeFields_sorted (hb _ rfl)
  all_goals exact ho _ rfl

/-- An overlay changes nothing where it changes nothing below each of its names. -/
lemma deepMerge_stable {r o : Json} (hr : Sorted r) (ho : Sorted o)
    (hnames : ∀ k ov, o.get? k = some ov → ∃ rv, r.get? k = some rv ∧ deepMerge rv ov = rv)
    (hleaf : isObject o = false → r = o) (hobj : isObject o = true → isObject r = true) :
    deepMerge r o = r := by
  cases hoo : isObject o with
  | false => rw [deepMerge_of_not_object (.inr hoo), hleaf hoo]
  | true =>
      have hrr := hobj hoo
      cases o <;> simp [isObject] at hoo
      cases r <;> simp [isObject] at hrr
      rename_i of' rf
      rw [deepMerge]
      have hrf := hr rf rfl
      refine congrArg Json.obj (fields_ext (mergeFields_sorted hrf) hrf fun k => ?_)
      rw [lookup_mergeFields (ho of' rfl)]
      cases hok : of'.lookup k with
      | none => rfl
      | some ov =>
          obtain ⟨rv, hrv, hstable⟩ := hnames k ov hok
          rw [get?_obj] at hrv
          simp only [hrv, overlaid, hstable]

lemma sizeOf_lookup {fields : List (String × Json)} {k : String} {c : Json}
    (h : fields.lookup k = some c) : sizeOf c < sizeOf fields := by
  induction fields with
  | nil => cases h
  | cons e fields ih =>
      obtain ⟨k', v⟩ := e
      rw [OrderedMap.lookup_cons_if] at h
      simp only [List.cons.sizeOf_spec, Prod.mk.sizeOf_spec]
      split_ifs at h with hk
      · cases h
        dsimp only
        omega
      · have hlt := ih h
        omega

lemma sizeOf_get {v c : Json} {k : String} (h : v.get? k = some c) : sizeOf c < sizeOf v := by
  cases v with
  | obj fields =>
      have hlt := sizeOf_lookup h
      rw [Json.obj.sizeOf_spec]
      omega
  | null | bool | num | str | arr => cases h

/-- Merging a value with itself changes nothing. -/
theorem deepMerge_self {v : Json} (hv : v.Ordered) : deepMerge v v = v :=
  deepMerge_stable (sorted_of_ordered hv) (sorted_of_ordered hv)
    (fun _ c hc => ⟨c, hc, deepMerge_self (ordered_get hv hc)⟩) (fun _ => rfl) id
termination_by sizeOf v
decreasing_by exact sizeOf_get hc

/-- Merging the overlay again changes nothing. -/
theorem deepMerge_again {b o : Json} (hb : b.Ordered) (ho : o.Ordered) :
    deepMerge (deepMerge b o) o = deepMerge b o := by
  have hb' := sorted_of_ordered hb
  have ho' := sorted_of_ordered ho
  refine deepMerge_stable (sorted_deepMerge hb' ho') ho' (fun k ov hov => ?_)
    (fun hleaf => deepMerge_of_not_object (.inr hleaf)) fun hobj => ?_
  · rw [get?_deepMerge ho, hov]
    refine ⟨_, rfl, ?_⟩
    split_ifs
    · cases hbk : b.get? k with
      | none => exact deepMerge_self (ordered_get ho hov)
      | some bv => exact deepMerge_again (ordered_get hb hbk) (ordered_get ho hov)
    · exact deepMerge_self (ordered_get ho hov)
  · cases b <;> cases o <;> rw [deepMerge] <;> exact hobj
termination_by sizeOf o
decreasing_by exact sizeOf_get hov

/-- A value that is an overlay over a base. -/
structure Overlays (b o r : Json) : Prop where
  overlay : ∀ p v, fieldAt o p = some v → isObject v = false → fieldAt r p = some v
  base : ∀ p v, fieldAt b p = some v → fieldAt o p = none → OpenTo o p → fieldAt r p = some v
  source : ∀ p, (fieldAt r p).isSome → (fieldAt b p).isSome ∨ (fieldAt o p).isSome
  again : deepMerge r o = r

theorem overlays_deepMerge {b o : Json} (hb : b.Ordered) (ho : o.Ordered) :
    Overlays b o (deepMerge b o) where
  overlay := fun _ _ hv hleaf => at_deepMerge_overlay ho hv hleaf
  base := fun _ _ hv hnone hopen => at_deepMerge_base ho hv hnone hopen
  source := fun _ h => at_deepMerge_source ho h
  again := deepMerge_again hb ho

/-! ## The `from:` of a source -/

/-- The files of a configuration: reading, YAML, and a path from a file. -/
structure Files where
  readToString : String → Except String String
  parseYaml : String → Except String {v : Json // v.Ordered}
  resolvePath : String → String → String

def sourceNameOf (src : Json) : String :=
  match src.get? "name" with
  | some (.str s) => s
  | _ => "<unnamed>"

/-- The body of a source that goes over the fragment. -/
def inlineBody (src : Json) : List (String × Json) :=
  match src with
  | .obj fields => fields.filter fun f => f.1 ≠ "from" && f.1 ≠ "name" && f.1 ≠ "kind"
  | _ => []

def reinsert (key : String) (v : Option Json) (fields : List (String × Json)) :
    List (String × Json) :=
  match v with
  | some v => OrderedMap.insertEntry key v fields
  | none => fields

/-- `expand_from`: the source with the fragment of its `from:` below it. -/
def expandFrom (files : Files) (src : Json) (origin : String) : Except ConfigError Json :=
  match src.get? "from" with
  | none => .ok src
  | some (.str fromStr) =>
      let path := files.resolvePath origin fromStr
      match files.readToString path with
      | .error msg => .error (.readFile path msg)
      | .ok raw =>
          match files.parseYaml raw with
          | .error e => .error (.yaml (path ++ ": " ++ e))
          | .ok ⟨.obj frag, _⟩ =>
              if (frag.lookup "name").isSome || (frag.lookup "kind").isSome then
                .error (.source (sourceNameOf src) "`from:` target must not set `name` or `kind`")
              else if (frag.lookup "from").isSome then
                .error (.source (sourceNameOf src)
                  "`from:` is not transitive: the target file may not itself contain `from:`")
              else
                match deepMerge (.obj frag) (.obj (inlineBody src)) with
                | .obj merged =>
                    .ok (.obj (reinsert "kind" (src.get? "kind")
                      (reinsert "name" (src.get? "name") merged)))
                | _ => .error (.yaml "`from:` merge produced a non-mapping")
          | .ok _ => .error (.yaml (path ++ ": `from:` target must be a mapping"))
  | some _ => .error (.source (sourceNameOf src) "`from:` must be a string path")

/-- The fragment that the `from:` of a source names. -/
def IsFragment (files : Files) (origin : String) (src fragment : Json) : Prop :=
  ∃ fromStr raw h, src.get? "from" = some (.str fromStr) ∧
    files.readToString (files.resolvePath origin fromStr) = .ok raw ∧
    files.parseYaml raw = .ok ⟨fragment, h⟩

/-- A source with its fragment: the identity is the inline one, inline values are kept, and so is what
the fragment alone has. -/
structure Expanded (fragment src src' : Json) : Prop where
  name : src'.get? "name" = src.get? "name"
  kind : src'.get? "kind" = src.get? "kind"
  inline : ∀ k p v, k ≠ "from" → fieldAt src (k :: p) = some v → isObject v = false →
    fieldAt src' (k :: p) = some v
  fragment : ∀ p v, fieldAt fragment p = some v → fieldAt src p = none → OpenTo src p →
    fieldAt src' p = some v

lemma lookup_reinsert (key k : String) (v : Option Json) (fields : List (String × Json)) :
    (reinsert key v fields).lookup k = if k = key ∧ v.isSome then v else fields.lookup k := by
  cases v with
  | none => simp [reinsert]
  | some v =>
      rw [reinsert, OrderedMap.lookup_insertEntry]
      simp

lemma lookup_inlineBody (fields : List (String × Json)) (k : String) :
    (inlineBody (.obj fields)).lookup k =
      if k = "from" ∨ k = "name" ∨ k = "kind" then none else fields.lookup k := by
  rw [inlineBody]
  induction fields with
  | nil => simp
  | cons e fields ih =>
      rw [OrderedMap.lookup_cons_if]
      by_cases hkeep : e.1 ≠ "from" ∧ e.1 ≠ "name" ∧ e.1 ≠ "kind"
      · rw [List.filter_cons_of_pos (by simpa [and_assoc] using hkeep), OrderedMap.lookup_cons_if, ih]
        by_cases hk : k = e.1
        · subst hk
          simp [hkeep]
        · simp [hk]
      · rw [List.filter_cons_of_neg (by simpa [and_assoc] using hkeep), ih]
        by_cases hk : k = e.1
        · subst hk
          have hthree : e.1 = "from" ∨ e.1 = "name" ∨ e.1 = "kind" := by
            by_contra hcon
            exact hkeep (by simpa [not_or] using hcon)
          simp [hthree]
        · simp [hk]

/-- Apart from the `from:`, an expanded source is the source over its fragment. -/
theorem expandFrom_get {files : Files} {src src' : Json} {origin : String} (hsrc : src.Ordered)
    (h : expandFrom files src origin = .ok src') (hfrom : src.get? "from" ≠ none) :
    ∃ fragment, IsFragment files origin src fragment ∧ isObject fragment = true ∧
      (∀ k ∈ ["name", "kind", "from"], fragment.get? k = none) ∧
      ∀ k, k ≠ "from" → src'.get? k = (deepMerge fragment src).get? k := by
  unfold expandFrom at h
  split at h
  · contradiction
  · rename_i fromStr hstr
    dsimp only at h
    split at h
    · cases h
    · rename_i raw hraw
      split at h
      · cases h
      · rename_i frag hordered hyaml
        split_ifs at h with hidentity htransitive
        obtain ⟨fields, rfl⟩ : ∃ fields, src = .obj fields := by
          cases src with
          | obj fields => exact ⟨fields, rfl⟩
          | null | bool | num | str | arr => cases hstr
        rw [deepMerge] at h
        dsimp only at h
        cases h
        simp only [Bool.or_eq_true, not_or, Bool.not_eq_true, Option.isSome_eq_false_iff,
          Option.isNone_iff_eq_none] at hidentity htransitive
        have habsent : ∀ k ∈ ["name", "kind", "from"], (Json.obj frag).get? k = none :=
          List.forall_mem_cons.mpr ⟨hidentity.1, List.forall_mem_cons.mpr
            ⟨hidentity.2, List.forall_mem_singleton.mpr htransitive⟩⟩
        refine ⟨.obj frag, ⟨fromStr, raw, hordered, hstr, hraw, hyaml⟩, rfl, habsent, fun k hk => ?_⟩
        have hbody : (inlineBody (.obj fields)).Pairwise fun a b => a.1 < b.1 :=
          hsrc.1.filter _
        rw [deepMerge]
        simp only [get?_obj, lookup_reinsert, lookup_mergeFields hbody, lookup_mergeFields hsrc.1,
          lookup_inlineBody]
        by_cases hkind : k = "kind"
        · subst hkind
          cases hv : fields.lookup "kind" <;> simp [hidentity.2, overlaid]
        · by_cases hname : k = "name"
          · subst hname
            cases hv : fields.lookup "name" <;> simp [hidentity.1, overlaid]
          · simp [hkind, hname, hk]
      · cases h
  · cases h

/-- An expanded source has the identity, the values and the fragment that it should. -/
theorem expandFrom_expanded {files : Files} {src src' : Json} {origin : String} (hsrc : src.Ordered)
    (h : expandFrom files src origin = .ok src') :
    (src.get? "from" = none ∧ src' = src) ∨
      ∃ fragment, IsFragment files origin src fragment ∧ Expanded fragment src src' := by
  by_cases hfrom : src.get? "from" = none
  · left
    unfold expandFrom at h
    rw [hfrom] at h
    cases h
    exact ⟨hfrom, rfl⟩
  · right
    obtain ⟨fragment, hfragment, hobj, habsent, hget⟩ := expandFrom_get hsrc h hfrom
    have hat : ∀ k p, k ≠ "from" →
        fieldAt src' (k :: p) = fieldAt (deepMerge fragment src) (k :: p) := fun k p hk => by
      rw [fieldAt, fieldAt, hget k hk]
    have hidentity : ∀ k ∈ ["name", "kind"], src'.get? k = src.get? k := fun k hk => by
      have hfrag : fragment.get? k = none := habsent k (by simp at hk ⊢; tauto)
      rw [hget k (by rintro rfl; simp at hk), get?_deepMerge hsrc, hobj, hfrag]
      cases src.get? k with
      | none => simp
      | some v => rfl
    refine ⟨fragment, hfragment, hidentity "name" (by simp), hidentity "kind" (by simp),
      fun k p v hk hv hleaf => ?_, fun p v hv hnone hopen => ?_⟩
    · rw [hat k p hk]
      exact at_deepMerge_overlay hsrc hv hleaf
    · cases p with
      | nil => cases hnone
      | cons k p =>
          have hk : k ≠ "from" := by
            rintro rfl
            rw [fieldAt, habsent "from" (by simp)] at hv
            cases hv
          rw [hat k p hk]
          exact at_deepMerge_base hsrc hv hnone hopen

/-- **Overlays**: a merged value is the overlay over the base, and a source with a `from:` is the inline
source over its fragment. -/
theorem overlay_laws {b o : Json} (hb : b.Ordered) (ho : o.Ordered) :
    Overlays b o (deepMerge b o) ∧
      ∀ (files : Files) (src src' : Json) (origin : String), src.Ordered →
        expandFrom files src origin = .ok src' →
        (src.get? "from" = none ∧ src' = src) ∨
          ∃ fragment, IsFragment files origin src fragment ∧ Expanded fragment src src' :=
  ⟨overlays_deepMerge hb ho, fun _ _ _ _ hsrc h => expandFrom_expanded hsrc h⟩

/-- A warehouse whose fragment is the file `warehouse.yaml`. -/
def warehouseFiles : Files where
  readToString := fun path => if path = "warehouse.yaml" then .ok "config: ..." else .error "not found"
  parseYaml := fun _ => .ok
    ⟨.obj [("config", .obj [("account", .str "acme"), ("schema", .str "PUBLIC")])], by decide⟩
  resolvePath := fun _ path => path

/-- The inline schema goes over the one of the fragment, the account stays. -/
theorem warehouse_overlays :
    Overlays (.obj [("account", .str "acme"), ("schema", .str "PUBLIC")])
        (.obj [("schema", .str "STAGING")])
        (deepMerge (.obj [("account", .str "acme"), ("schema", .str "PUBLIC")])
          (.obj [("schema", .str "STAGING")])) ∧
      ∃ fragment, Expanded fragment
        (.obj [("config", .obj [("schema", .str "STAGING")]), ("from", .str "warehouse.yaml"),
          ("kind", .str "snowflake"), ("name", .str "warehouse")])
        (.obj [("config", .obj [("account", .str "acme"), ("schema", .str "STAGING")]),
          ("kind", .str "snowflake"), ("name", .str "warehouse")]) := by
  have h := overlay_laws (b := .obj [("account", .str "acme"), ("schema", .str "PUBLIC")])
    (o := .obj [("schema", .str "STAGING")]) (by decide) (by decide)
  obtain ⟨hnone, -⟩ | ⟨fragment, -, hexpanded⟩ := h.2 warehouseFiles
    (.obj [("config", .obj [("schema", .str "STAGING")]), ("from", .str "warehouse.yaml"),
      ("kind", .str "snowflake"), ("name", .str "warehouse")])
    (.obj [("config", .obj [("account", .str "acme"), ("schema", .str "STAGING")]),
      ("kind", .str "snowflake"), ("name", .str "warehouse")]) "pawrly.yaml" (by decide) (by decide)
  · cases hnone
  · exact ⟨h.1, fragment, hexpanded⟩

end Config
end Pawrly
