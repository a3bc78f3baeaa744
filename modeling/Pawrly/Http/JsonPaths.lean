import Pawrly.Http.Json
import Pawrly.Lib.PathLens
import Mathlib.Data.List.TakeWhile

/-!
# Paths into JSON values

`json_at_path` and `set_json_at_path` as reading and writing along a path of steps (`PathLens`).  The
reader takes the bracket indices of a segment apart, the writer takes each segment as the name of a
field, so the two follow the same path exactly when no segment has a bracket; with one, the laws of
a lens hold only of a body that blocks the path or already has the leaf in both places
(`lensLaws_iff`).
-/

namespace Pawrly
namespace Http

/-! ## Steps -/

/-- A step of a path: a field, or a position of an array. -/
inductive Step
  | key (name : String)
  | index (position : ℕ)
  deriving DecidableEq

namespace Json

def child (v : Json) : Step → Option Json
  | .key name => v.getKeyOrIndex name
  | .index position => v.getIndex? position

def putChild (v : Json) : Step → Json → Option Json
  | .key name, c =>
      match v with
      | obj fields => some (obj (OrderedMap.insertEntry name c fields))
      | _ => none
  | .index _, _ => none

/-- Only the fields of objects are written; a missing field on the way starts as an empty object. -/
def access : PathLens.Access Json Step := ⟨child, putChild, obj []⟩

/-- The value that a path of steps leads to. -/
abbrev follow (steps : List Step) (v : Json) : Option Json := access.follow steps v

mutual

/-- The fields of each object are in the order of their names, as its map keeps them. -/
def Ordered : Json → Prop
  | arr items => OrderedItems items
  | obj fields => (fields.Pairwise fun a b => a.1 < b.1) ∧ OrderedFields fields
  | null | bool _ | num _ | str _ => True

def OrderedItems : List Json → Prop
  | [] => True
  | v :: vs => v.Ordered ∧ OrderedItems vs

def OrderedFields : List (String × Json) → Prop
  | [] => True
  | (_, v) :: fields => v.Ordered ∧ OrderedFields fields

end

mutual

def decOrdered : (v : Json) → Decidable v.Ordered
  | arr items => decOrderedItems items
  | obj fields =>
      have := decOrderedFields fields
      inferInstanceAs (Decidable ((fields.Pairwise fun a b => a.1 < b.1) ∧ OrderedFields fields))
  | null | bool _ | num _ | str _ => .isTrue trivial

def decOrderedItems : (items : List Json) → Decidable (OrderedItems items)
  | [] => .isTrue trivial
  | v :: vs =>
      have := decOrdered v
      have := decOrderedItems vs
      inferInstanceAs (Decidable (v.Ordered ∧ OrderedItems vs))

def decOrderedFields : (fields : List (String × Json)) → Decidable (OrderedFields fields)
  | [] => .isTrue trivial
  | (_, v) :: fields =>
      have := decOrdered v
      have := decOrderedFields fields
      inferInstanceAs (Decidable (v.Ordered ∧ OrderedFields fields))

end

instance (v : Json) : Decidable v.Ordered := decOrdered v

lemma OrderedItems.getElem? {items : List Json} (h : OrderedItems items) {i : ℕ} {v : Json}
    (hv : items[i]? = some v) : v.Ordered := by
  induction items generalizing i with
  | nil => cases hv
  | cons w items ih =>
      cases i with
      | zero =>
          cases hv
          exact h.1
      | succ i => exact ih h.2 hv

lemma OrderedFields.lookup {fields : List (String × Json)} (h : OrderedFields fields)
    {name : String} {v : Json} (hv : fields.lookup name = some v) : v.Ordered := by
  induction fields with
  | nil => cases hv
  | cons e fields ih =>
      rw [OrderedMap.lookup_cons_if] at hv
      split_ifs at hv
      · cases hv
        exact h.1
      · exact ih h.2 hv

@[simp] lemma getKeyOrIndex_obj (fields : List (String × Json)) (name : String) :
    (obj fields).getKeyOrIndex name = fields.lookup name := by
  unfold getKeyOrIndex
  have hget : (obj fields).get? name = fields.lookup name := rfl
  rw [hget]
  cases fields.lookup name <;> rfl

lemma getKeyOrIndex_eq_some {v c : Json} {name : String} (h : v.getKeyOrIndex name = some c) :
    (∃ fields, v = obj fields ∧ fields.lookup name = some c) ∨
      ∃ items i, v = arr items ∧ Text.parseUnsigned (2 ^ 64 - 1) name = some i ∧
        items[i]? = some c := by
  cases v with
  | obj fields => exact .inl ⟨fields, rfl, by simpa using h⟩
  | arr items =>
      obtain ⟨i, hi, hc⟩ := Option.bind_eq_some_iff.mp h
      exact .inr ⟨items, i, rfl, hi, hc⟩
  | null | bool | num | str => cases h

lemma Ordered.child {v c : Json} {step : Step} (h : v.Ordered) (hc : v.child step = some c) :
    c.Ordered := by
  cases step with
  | key name =>
      rcases getKeyOrIndex_eq_some hc with ⟨fields, rfl, hlookup⟩ | ⟨items, i, rfl, _, hget⟩
      · exact h.2.lookup hlookup
      · exact OrderedItems.getElem? h hget
  | index position =>
      cases v with
      | arr items => exact OrderedItems.getElem? h hc
      | null | bool | num | str | obj => cases hc

lemma putChild_eq_some {v v' c : Json} {step : Step} (h : v.putChild step c = some v') :
    ∃ name fields, step = .key name ∧ v = obj fields ∧
      v' = obj (OrderedMap.insertEntry name c fields) := by
  cases step with
  | key name =>
      cases v with
      | obj fields =>
          cases h
          exact ⟨name, fields, rfl, rfl, rfl⟩
      | null | bool | num | str | arr => cases h
  | index position => cases h

/-- Reading and writing one step obey the laws of a lens. -/
lemma access_lawful : access.Lawful Ordered where
  get_put := by
    intro s s' c i h
    obtain ⟨name, fields, rfl, rfl, rfl⟩ := putChild_eq_some h
    show (obj _).getKeyOrIndex name = some c
    rw [getKeyOrIndex_obj, OrderedMap.lookup_insertEntry, if_pos rfl]
  get_put_of_ne := by
    intro s s' c i j h hne
    obtain ⟨name, fields, rfl, rfl, rfl⟩ := putChild_eq_some h
    cases j with
    | key name' =>
        show (obj _).getKeyOrIndex name' = (obj fields).getKeyOrIndex name'
        rw [getKeyOrIndex_obj, getKeyOrIndex_obj, OrderedMap.lookup_insertEntry,
          if_neg fun heq => hne (congrArg Step.key heq)]
    | index position => rfl
  put_get := by
    intro s s' c i hs hget h
    obtain ⟨name, fields, rfl, rfl, rfl⟩ := putChild_eq_some h
    have hlookup : fields.lookup name = some c := by
      rw [← getKeyOrIndex_obj]
      exact hget
    rw [OrderedMap.insertEntry_of_lookup hs.1 hlookup]
  get_fresh := by
    intro i
    cases i with
    | key name => exact getKeyOrIndex_obj [] name
    | index position => rfl
  ok_get := fun hs hget => Ordered.child hs hget

/-! ## The reader -/

/-- The indices in the brackets behind a name; the fuel is the length of the text. -/
def bracketIndices : ℕ → List Char → Option (List ℕ)
  | fuel + 1, '[' :: stripped =>
      (Text.splitOnceChars ']' stripped).bind fun (inside, rest) =>
        (Text.parseUnsigned (2 ^ 64 - 1) (Text.trim (String.ofList inside))).bind fun idx =>
          (bracketIndices fuel rest).map (idx :: ·)
  | _, _ => some []

/-- The part of a segment before its first bracket. -/
def segmentKey (segment : String) : String := String.ofList (segment.toList.takeWhile (· ≠ '['))

/-- The steps of a segment, unless a bracket has no index in it. -/
def segmentSteps (segment : String) : Option (List Step) :=
  let rest := segment.toList.dropWhile (· ≠ '[')
  (bracketIndices rest.length rest).map fun indices =>
    (if segmentKey segment = "" then [] else [.key (segmentKey segment)]) ++ indices.map .index

/-- The steps of a path that the reader accepts. -/
def pathSteps (path : String) : Option (List Step) :=
  ((pathSegments path).mapM segmentSteps).map List.flatten

lemma walkIndices_eq (fuel : ℕ) (v : Json) (cs : List Char) :
    walkIndices fuel v cs =
      (bracketIndices fuel cs).bind fun indices => follow (indices.map .index) v := by
  fun_induction bracketIndices fuel cs generalizing v with
  | case1 fuel stripped ih =>
      rw [walkIndices]
      simp only [Option.bind_assoc]
      refine Option.bind_congr fun split _ => ?_
      obtain ⟨inside, rest⟩ := split
      dsimp only
      refine Option.bind_congr fun idx _ => ?_
      rw [Option.bind_map]
      show ((v.getIndex? idx).bind fun next => walkIndices fuel next rest) =
        (bracketIndices fuel rest).bind fun indices =>
          (v.getIndex? idx).bind (follow (indices.map .index))
      simp only [ih]
      cases v.getIndex? idx with
      | none => cases bracketIndices fuel rest <;> rfl
      | some next => rfl
  | case2 fuel cs hbracket =>
      unfold walkIndices
      split
      · exact absurd rfl (hbracket _ _ rfl)
      · rfl

lemma segmentKey_eq_empty {segment : String} :
    segmentKey segment = "" ↔ (segment.toList.takeWhile (· ≠ '[')).isEmpty = true := by
  rw [segmentKey, List.isEmpty_iff]
  exact String.ofList_eq_empty_iff

/-- A segment is read by its steps. -/
lemma segmentGet_eq (v : Json) (segment : String) :
    v.segmentGet segment = (segmentSteps segment).bind fun steps => follow steps v := by
  unfold segmentGet segmentSteps
  dsimp only
  rw [Option.bind_map]
  simp only [walkIndices_eq]
  by_cases hkey : segmentKey segment = ""
  · rw [if_pos (segmentKey_eq_empty.mp hkey), Option.bind_some]
    refine Option.bind_congr fun indices _ => ?_
    simp [hkey]
  · rw [if_neg fun hempty => hkey (segmentKey_eq_empty.mpr hempty)]
    show ((v.getKeyOrIndex (segmentKey segment)).bind fun current => _) = _
    cases hget : v.getKeyOrIndex (segmentKey segment) with
    | none =>
        rw [Option.bind_none]
        symm
        rw [Option.bind_eq_none_iff]
        intro indices _
        have hchild : access.get v (.key (segmentKey segment)) = none := hget
        simp [hkey, PathLens.Access.follow, hchild]
    | some current =>
        rw [Option.bind_some]
        refine Option.bind_congr fun indices _ => ?_
        have hchild : access.get v (.key (segmentKey segment)) = some current := hget
        simp [hkey, PathLens.Access.follow, hchild]

lemma foldlM_segmentGet (segments : List String) (v : Json) :
    segments.foldlM segmentGet v =
      (segments.mapM segmentSteps).bind fun steps => follow steps.flatten v := by
  induction segments generalizing v with
  | nil => rfl
  | cons segment segments ih =>
      rw [List.foldlM_cons, List.mapM_cons, segmentGet_eq]
      cases segmentSteps segment with
      | none => rfl
      | some steps =>
          show (follow steps v).bind (fun w => segments.foldlM segmentGet w) =
            ((segments.mapM segmentSteps).bind fun rest => some (steps :: rest)).bind _
          simp only [ih]
          cases segments.mapM segmentSteps with
          | none => cases follow steps v <;> rfl
          | some rest =>
              exact (PathLens.Access.follow_append steps rest.flatten v).symm

/-- `json_at_path` follows the steps of the path. -/
theorem atPath_eq (body : Json) (path : String) :
    body.atPath path = (pathSteps path).bind fun steps => follow steps body := by
  have hfold : (pathSegments path).foldlM segmentGet body =
      (pathSteps path).bind fun steps => follow steps body := by
    rw [foldlM_segmentGet, pathSteps, Option.bind_map]
    rfl
  unfold atPath
  split_ifs with hroot
  · subst hroot
    rw [← hfold]
    rfl
  · exact hfold

/-! ## The writer -/

/-- The segments of a path as names of fields. -/
def fieldSteps (path : String) : List Step := (pathSegments path).map .key

lemma setAt_eq (leaf : Json) (segments : List String) (v : Json) :
    setAt leaf segments v = access.write leaf (segments.map .key) v := by
  induction segments generalizing v with
  | nil => rfl
  | cons part rest ih =>
      show _ = (access.write leaf (rest.map .key) (((v.getKeyOrIndex part)).getD (obj []))).bind
        (v.putChild (.key part))
      rw [← ih]
      cases v with
      | obj fields =>
          rw [setAt, getKeyOrIndex_obj, Option.map_eq_bind]
          rfl
      | null | bool | num | str | arr =>
          exact (Option.bind_eq_none_iff.mpr fun _ _ => rfl).symm

/-- `set_json_at_path`, with the body that it leaves behind: the objects that are missing on the way
are put in while it descends. -/
def writePath (leaf : Json) : List String → Json → Bool × Json
  | [], _ => (true, leaf)
  | part :: rest, obj fields =>
      let written := writePath leaf rest ((fields.lookup part).getD (obj []))
      (written.1, obj (OrderedMap.insertEntry part written.2 fields))
  | _ :: _, v => (false, v)

def setJsonAtPath (root : Json) (path : String) (leaf : Json) : Bool × Json :=
  writePath leaf (pathSegments path) root

lemma ordered_empty : (obj []).Ordered := ⟨.nil, trivial⟩

lemma setAt_empty_isSome (leaf : Json) (segments : List String) :
    (setAt leaf segments (obj [])).isSome := by
  induction segments with
  | nil => rfl
  | cons part rest ih =>
      rw [setAt, List.lookup_nil, Option.getD_none, Option.isSome_map]
      exact ih

/-- A write that is blocked has changed nothing on its way. -/
lemma writePath_eq (leaf : Json) {segments : List String} {v : Json} (hv : v.Ordered) :
    writePath leaf segments v =
      match setAt leaf segments v with
      | some w => (true, w)
      | none => (false, v) := by
  induction segments generalizing v with
  | nil => rfl
  | cons part rest ih =>
      cases v with
      | obj fields =>
          rw [writePath, setAt]
          cases hlookup : fields.lookup part with
          | none =>
              rw [Option.getD_none, ih ordered_empty]
              obtain ⟨w, hw⟩ := Option.isSome_iff_exists.mp (setAt_empty_isSome leaf rest)
              rw [hw]
              rfl
          | some child =>
              rw [Option.getD_some, ih (hv.2.lookup hlookup)]
              cases setAt leaf rest child with
              | none =>
                  dsimp only [Option.map_none]
                  rw [OrderedMap.insertEntry_of_lookup hv.1 hlookup]
              | some w => rfl
      | null | bool | num | str | arr => rfl

/-! ## Brackets -/

/-- The segments of the path are names of fields as they stand. -/
def Bracketless (path : String) : Prop := ∀ segment ∈ pathSegments path, '[' ∉ segment.toList

instance (path : String) : Decidable (Bracketless path) :=
  inferInstanceAs (Decidable (∀ segment ∈ pathSegments path, '[' ∉ segment.toList))

lemma ne_empty_of_mem_pathSegments {path segment : String} (h : segment ∈ pathSegments path) :
    segment ≠ "" := by
  have hmem := (List.mem_filter.mp h).2
  simpa using hmem

lemma notMem_segmentKey (segment : String) : '[' ∉ (segmentKey segment).toList := by
  rw [segmentKey, String.toList_ofList]
  intro hmem
  have hne := List.mem_takeWhile_imp hmem
  simp at hne

lemma segmentKey_of_bracketless {segment : String} (h : '[' ∉ segment.toList) :
    segmentKey segment = segment := by
  have hall : segment.toList.takeWhile (· ≠ '[') = segment.toList := by
    rw [List.takeWhile_eq_self_iff]
    intro c hc
    rw [decide_eq_true_eq]
    rintro rfl
    exact h hc
  rw [segmentKey, hall, String.ofList_toList]

lemma segmentSteps_of_bracketless {segment : String} (h : '[' ∉ segment.toList)
    (hne : segment ≠ "") : segmentSteps segment = some [.key segment] := by
  have hrest : segment.toList.dropWhile (· ≠ '[') = [] := by
    rw [List.dropWhile_eq_nil_iff]
    intro c hc
    rw [decide_eq_true_eq]
    rintro rfl
    exact h hc
  unfold segmentSteps
  dsimp only
  rw [hrest, segmentKey_of_bracketless h, if_neg hne]
  rfl

/-- An accepted segment with a bracket has an index. -/
lemma exists_index_of_bracket {segment : String} (h : '[' ∈ segment.toList) {steps : List Step}
    (hsteps : segmentSteps segment = some steps) : ∃ i, .index i ∈ steps := by
  unfold segmentSteps at hsteps
  dsimp only at hsteps
  cases hrest : segment.toList.dropWhile (· ≠ '[') with
  | nil =>
      rw [List.dropWhile_eq_nil_iff] at hrest
      have hne := hrest '[' h
      simp at hne
  | cons c rest =>
      have hc : c = '[' := by
        have hnot := List.head?_dropWhile_not (fun c => decide (c ≠ '[')) segment.toList
        rw [hrest] at hnot
        simpa using hnot
      subst hc
      rw [hrest, List.length_cons, bracketIndices] at hsteps
      obtain ⟨indices, hindices, rfl⟩ := Option.map_eq_some_iff.mp hsteps
      obtain ⟨split, _, hindices⟩ := Option.bind_eq_some_iff.mp hindices
      obtain ⟨i, _, hindices⟩ := Option.bind_eq_some_iff.mp hindices
      obtain ⟨more, _, rfl⟩ := Option.map_eq_some_iff.mp hindices
      exact ⟨i, List.mem_append_right _ List.mem_cons_self⟩

/-- The names in the steps of a segment have no bracket. -/
lemma notMem_of_key_mem {segment name : String} {steps : List Step}
    (hsteps : segmentSteps segment = some steps) (h : .key name ∈ steps) :
    '[' ∉ name.toList := by
  obtain ⟨indices, _, rfl⟩ := Option.map_eq_some_iff.mp hsteps
  rcases List.mem_append.mp h with hkey | hindex
  · split_ifs at hkey
    · cases hkey
    · cases List.mem_singleton.mp hkey
      exact notMem_segmentKey segment
  · obtain ⟨i, _, heq⟩ := List.mem_map.mp hindex
    cases heq

variable {path : String} {steps : List Step}

/-- The steps of a path are those of its segments. -/
lemma exists_mapM (h : pathSteps path = some steps) :
    ∃ l, List.Forall₂ (fun segment s => segmentSteps segment = some s) (pathSegments path) l ∧
      l.flatten = steps := by
  have hmap : ∀ (segments : List String) (l : List (List Step)),
      segments.mapM segmentSteps = some l →
        List.Forall₂ (fun segment s => segmentSteps segment = some s) segments l := by
    intro segments
    induction segments with
    | nil =>
        intro l hl
        obtain rfl : [] = l := Option.some.inj hl
        exact .nil
    | cons segment segments ih =>
        intro l hl
        rw [List.mapM_cons] at hl
        obtain ⟨s, hs, hl⟩ := Option.bind_eq_some_iff.mp hl
        obtain ⟨rest, hrest, hl⟩ := Option.bind_eq_some_iff.mp hl
        obtain rfl : s :: rest = l := Option.some.inj hl
        exact List.Forall₂.cons hs (ih rest hrest)
  obtain ⟨l, hl, rfl⟩ := Option.map_eq_some_iff.mp h
  exact ⟨l, hmap _ l hl, rfl⟩

lemma pathSteps_of_bracketless (h : Bracketless path) :
    pathSteps path = some (fieldSteps path) := by
  have hmap : ∀ segments : List String, (∀ s ∈ segments, '[' ∉ s.toList ∧ s ≠ "") →
      segments.mapM segmentSteps = some (segments.map fun s => [.key s]) := by
    intro segments
    induction segments with
    | nil => exact fun _ => rfl
    | cons segment segments ih =>
        intro hall
        obtain ⟨⟨hbracket, hne⟩, hrest⟩ := List.forall_mem_cons.mp hall
        rw [List.mapM_cons, segmentSteps_of_bracketless hbracket hne, ih hrest]
        rfl
  have hflat : ∀ segments : List String,
      (segments.map fun s => [Step.key s]).flatten = segments.map .key := by
    intro segments
    induction segments with
    | nil => rfl
    | cons segment segments ih => rw [List.map_cons, List.flatten_cons, ih, List.map_cons,
        List.singleton_append]
  have hsegments := hmap (pathSegments path) fun s hs => ⟨h s hs, ne_empty_of_mem_pathSegments hs⟩
  rw [pathSteps, hsegments, Option.map_some, hflat, fieldSteps]

lemma steps_of_bracketless (h : Bracketless path) (hsteps : pathSteps path = some steps) :
    fieldSteps path = steps :=
  Option.some.inj ((pathSteps_of_bracketless h).symm.trans hsteps)

/-- With a bracket, the reader takes an index on its way. -/
lemma exists_index (hsteps : pathSteps path = some steps) (h : ¬ Bracketless path) :
    ∃ i, .index i ∈ steps := by
  obtain ⟨l, hl, rfl⟩ := exists_mapM hsteps
  unfold Bracketless at h
  push Not at h
  obtain ⟨segment, hmem, hbracket⟩ := h
  clear hsteps
  generalize pathSegments path = segments at hl hmem
  induction hl with
  | nil => cases hmem
  | @cons s steps segments l hs hl ih =>
      rcases List.mem_cons.mp hmem with rfl | hmem
      · obtain ⟨i, hi⟩ := exists_index_of_bracket hbracket hs
        exact ⟨i, List.mem_append_left _ hi⟩
      · obtain ⟨i, hi⟩ := ih hmem
        exact ⟨i, List.mem_append_right _ hi⟩

/-- The reader never looks for a name with a bracket. -/
lemma notMem_of_mem_steps (hsteps : pathSteps path = some steps) {name : String}
    (h : .key name ∈ steps) : '[' ∉ name.toList := by
  obtain ⟨l, hl, rfl⟩ := exists_mapM hsteps
  clear hsteps
  generalize pathSegments path = segments at hl
  induction hl with
  | nil => cases h
  | cons hs hl ih =>
      rcases List.mem_append.mp h with hkey | hrest
      · exact notMem_of_key_mem hs hkey
      · exact ih hrest

/-- The writer's path is not followed by the reader on its way to another place. -/
lemma not_fieldSteps_start (h : ¬ Bracketless path) {q : String} {qsteps : List Step}
    (hq : pathSteps q = some qsteps) : ¬ fieldSteps path <+: qsteps := by
  intro hpre
  unfold Bracketless at h
  push Not at h
  obtain ⟨segment, hmem, hbracket⟩ := h
  exact notMem_of_mem_steps hq (hpre.subset (List.mem_map_of_mem hmem)) hbracket

/-- What the reader follows of the writer's path, it follows of its own. -/
lemma prefix_steps_of_prefix_fieldSteps (hsteps : pathSteps path = some steps) {q : String}
    {qsteps : List Step} (hq : pathSteps q = some qsteps) (h : qsteps <+: fieldSteps path) :
    qsteps <+: steps := by
  obtain ⟨l, hl, rfl⟩ := exists_mapM hsteps
  have hkeys : ∀ name, .key name ∈ qsteps → '[' ∉ name.toList :=
    fun name hname => notMem_of_mem_steps hq hname
  have hne : ∀ segment ∈ pathSegments path, segment ≠ "" :=
    fun _ => ne_empty_of_mem_pathSegments
  unfold fieldSteps at h
  clear hsteps hq
  generalize pathSegments path = segments at hl h hne
  induction hl generalizing qsteps with
  | nil => exact h
  | @cons s steps segments l hs hl ih =>
      cases qsteps with
      | nil => exact List.nil_prefix
      | cons j qsteps =>
          obtain ⟨rfl, hrest⟩ := List.cons_prefix_cons.mp h
          obtain ⟨hs_ne, hne⟩ := List.forall_mem_cons.mp hne
          have hone := segmentSteps_of_bracketless (hkeys s List.mem_cons_self) hs_ne
          cases hone.symm.trans hs
          rw [List.flatten_cons, List.singleton_append, List.cons_prefix_cons]
          exact ⟨rfl, ih (fun name hname => hkeys name (List.mem_cons_of_mem _ hname)) hrest hne⟩

/-! ## The laws -/

/-- Something that is not an object stands where a field is to be written. -/
inductive Blocked : List String → Json → Prop
  | here {part : String} {rest : List String} {v : Json} :
      (∀ fields, v ≠ obj fields) → Blocked (part :: rest) v
  | child {part : String} {rest : List String} {fields : List (String × Json)} {c : Json} :
      fields.lookup part = some c → Blocked rest c → Blocked (part :: rest) (obj fields)

lemma blocked_obj {part : String} {rest : List String} {fields : List (String × Json)} :
    Blocked (part :: rest) (obj fields) ↔ ∃ c, fields.lookup part = some c ∧ Blocked rest c := by
  constructor
  · intro h
    cases h with
    | here hne => exact absurd rfl (hne fields)
    | child hlookup h => exact ⟨_, hlookup, h⟩
  · rintro ⟨c, hlookup, h⟩
    exact .child hlookup h

lemma not_blocked_empty (segments : List String) : ¬ Blocked segments (obj []) := by
  cases segments with
  | nil => nofun
  | cons part rest =>
      rw [blocked_obj]
      rintro ⟨c, hlookup, _⟩
      cases hlookup

/-- A write is refused exactly when it is blocked. -/
lemma setAt_eq_none_iff (leaf : Json) {segments : List String} {v : Json} :
    setAt leaf segments v = none ↔ Blocked segments v := by
  induction segments generalizing v with
  | nil =>
      constructor
      · intro h
        cases h
      · intro h
        cases h
  | cons part rest ih =>
      cases v with
      | obj fields =>
          rw [setAt, Option.map_eq_none_iff, ih, blocked_obj]
          cases fields.lookup part with
          | none => simp [not_blocked_empty]
          | some child => simp
      | null | bool | num | str | arr =>
          exact ⟨fun _ => .here (fun _ h => by cases h), fun _ => rfl⟩

/-- A write is refused and changes nothing, or it writes along the names of the segments. -/
lemma setJsonAtPath_cases {body : Json} (hbody : body.Ordered) (path : String) (leaf : Json) :
    (Blocked (pathSegments path) body ∧ setJsonAtPath body path leaf = (false, body)) ∨
      (¬ Blocked (pathSegments path) body ∧ ∃ w, access.write leaf (fieldSteps path) body = some w ∧
        setJsonAtPath body path leaf = (true, w)) := by
  rw [setJsonAtPath, writePath_eq leaf hbody, ← setAt_eq_none_iff leaf]
  cases hset : setAt leaf (pathSegments path) body with
  | none => exact .inl ⟨rfl, rfl⟩
  | some w =>
      rw [setAt_eq] at hset
      exact .inr ⟨Option.some_ne_none w, w, hset, rfl⟩

/-- The laws of a lens for writing a leaf at a path of a body. -/
structure LensLaws (body : Json) (path : String) (leaf : Json) : Prop where
  /-- What was written is read. -/
  written : (setJsonAtPath body path leaf).1 = true →
    (setJsonAtPath body path leaf).2.atPath path = some leaf
  /-- A path that is neither a prefix nor an extension reads what it read. -/
  others : (setJsonAtPath body path leaf).1 = true → ∀ {q : String} {steps qsteps : List Step},
    pathSteps path = some steps → pathSteps q = some qsteps → ¬ steps <+: qsteps →
      ¬ qsteps <+: steps → (setJsonAtPath body path leaf).2.atPath q = body.atPath q
  refused : (setJsonAtPath body path leaf).1 = false → (setJsonAtPath body path leaf).2 = body
  /-- Writing what was read changes nothing. -/
  same : ∀ v, body.atPath path = some v → (setJsonAtPath body path v).2 = body

lemma atPath_of_steps {q : String} {qsteps : List Step} (hq : pathSteps q = some qsteps)
    (v : Json) : v.atPath q = follow qsteps v := by
  rw [atPath_eq, hq, Option.bind_some]

/-- A write leaves the other paths alone, with brackets or without. -/
lemma follow_write_of_other {body w leaf : Json}
    (hwrite : access.write leaf (fieldSteps path) body = some w)
    (hsteps : pathSteps path = some steps) {q : String} {qsteps : List Step}
    (hq : pathSteps q = some qsteps) (hpq : ¬ steps <+: qsteps) (hqp : ¬ qsteps <+: steps) :
    follow qsteps w = follow qsteps body := by
  refine access_lawful.follow_write_of_not_prefix hwrite ?_
    fun h => hqp (prefix_steps_of_prefix_fieldSteps hsteps hq h)
  by_cases hplain : Bracketless path
  · obtain rfl := steps_of_bracketless hplain hsteps
    exact hpq
  · exact not_fieldSteps_start hplain hq

/-- With a bracket, the reader does not see what was written. -/
lemma follow_write_of_bracket {body w leaf : Json} (hplain : ¬ Bracketless path)
    (hwrite : access.write leaf (fieldSteps path) body = some w)
    (hsteps : pathSteps path = some steps) : follow steps w = follow steps body := by
  refine access_lawful.follow_write_of_not_prefix hwrite
    (not_fieldSteps_start hplain hsteps) ?_
  intro hpre
  obtain ⟨i, hi⟩ := exists_index hsteps hplain
  obtain ⟨segment, _, heq⟩ := List.mem_map.mp (hpre.subset hi)
  cases heq

/-- The laws hold of a path without brackets, of a body that blocks the path, and of one that
already has the leaf both where the path reads and where it writes. -/
theorem lensLaws_iff {body leaf : Json} (hbody : body.Ordered)
    (hsteps : pathSteps path = some steps) :
    LensLaws body path leaf ↔ Bracketless path ∨ Blocked (pathSegments path) body ∨
      (follow steps body = some leaf ∧ follow (fieldSteps path) body = some leaf) := by
  constructor
  · intro h
    by_cases hplain : Bracketless path
    · exact .inl hplain
    refine .inr ?_
    rcases setJsonAtPath_cases hbody path leaf with ⟨hblocked, _⟩ | ⟨_, w, hwrite, hset⟩
    · exact .inl hblocked
    refine .inr ?_
    have hread := h.written (congrArg Prod.fst hset)
    rw [hset] at hread
    have hold : follow steps body = some leaf := by
      rw [← follow_write_of_bracket hplain hwrite hsteps, ← atPath_of_steps hsteps]
      exact hread
    have hsame := h.same leaf ((atPath_of_steps hsteps body).trans hold)
    rw [hset] at hsame
    obtain rfl : w = body := hsame
    exact ⟨hold, access_lawful.follow_write hwrite⟩
  · intro h
    refine ⟨?_, ?_, ?_, ?_⟩
    · intro htrue
      rcases setJsonAtPath_cases hbody path leaf with ⟨_, hset⟩ | ⟨hfree, w, hwrite, hset⟩
      · rw [hset] at htrue
        cases htrue
      rw [hset, atPath_of_steps hsteps]
      rcases h with hplain | hblocked | ⟨hread, _⟩
      · obtain rfl := steps_of_bracketless hplain hsteps
        exact access_lawful.follow_write hwrite
      · exact absurd hblocked hfree
      · by_cases hplain : Bracketless path
        · obtain rfl := steps_of_bracketless hplain hsteps
          exact access_lawful.follow_write hwrite
        · rw [follow_write_of_bracket hplain hwrite hsteps, hread]
    · intro htrue q psteps qsteps hp hq hpq hqp
      rcases setJsonAtPath_cases hbody path leaf with ⟨_, hset⟩ | ⟨_, w, hwrite, hset⟩
      · rw [hset] at htrue
        cases htrue
      rw [hset, atPath_of_steps hq, atPath_of_steps hq]
      exact follow_write_of_other hwrite hp hq hpq hqp
    · intro hfalse
      rcases setJsonAtPath_cases hbody path leaf with ⟨_, hset⟩ | ⟨_, w, _, hset⟩
      · rw [hset]
      · rw [hset] at hfalse
        cases hfalse
    · intro v hv
      rw [atPath_of_steps hsteps] at hv
      rcases setJsonAtPath_cases hbody path v with ⟨_, hset⟩ | ⟨hfree, w, hwrite, hset⟩
      · rw [hset]
      rw [hset]
      refine access_lawful.write_follow hbody ?_ hwrite
      rcases h with hplain | hblocked | ⟨hread, hfield⟩
      · obtain rfl := steps_of_bracketless hplain hsteps
        exact hv
      · exact absurd hblocked hfree
      · cases hread.symm.trans hv
        exact hfield

/-- A cursor is written where the reader finds it. -/
theorem lensLaws_cursor : LensLaws (obj [("page", obj [("size", num "10")])]) "$.page.after"
    (str "c") := by
  have hordered : (obj [("page", obj [("size", num "10")])]).Ordered := by decide
  have hsteps : pathSteps "$.page.after" = some [.key "page", .key "after"] := by decide
  exact (lensLaws_iff hordered hsteps).mpr (.inl (by decide))

/-- A write at an index makes a field of that name, which the reader does not read. -/
theorem lensLaws_fails : ¬ LensLaws (obj [("a", arr [num "0"])]) "$.a[0]" (str "c") := by
  intro h
  have hread := h.written (by decide)
  have hold : (setJsonAtPath (obj [("a", arr [num "0"])]) "$.a[0]" (str "c")).2.atPath "$.a[0]" =
      some (num "0") := by decide
  cases hread.symm.trans hold

end Json

end Http
end Pawrly
