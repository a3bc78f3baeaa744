import Pawrly.Http.Json
import Pawrly.Lib.EffectfulLoop

/-!
# Walks over the strings of a JSON value

A walk visits the strings of a value in order, each of which it may replace; the visit that fails
ends it.  `run_walk` reduces it to a loop over the leaves, `walk_ok` says what a walk returns that
came to its end.
-/

namespace Pawrly
namespace Http
namespace Json

open EffectfulLoop

variable {σ ε : Type*}

/-! ## Walks -/

mutual

/-- Visit the strings of a value, in place. -/
def walk (visit : String → σ → σ × Except ε Json) : Json → σ → σ × Except ε Json
  | .str s, st => visit s st
  | .arr items, st =>
      let r := walkItems visit items st
      (r.1, r.2.map .arr)
  | .obj fields, st =>
      let r := walkFields visit fields st
      (r.1, r.2.map .obj)
  | .null, st => (st, .ok .null)
  | .bool b, st => (st, .ok (.bool b))
  | .num text, st => (st, .ok (.num text))

def walkItems (visit : String → σ → σ × Except ε Json) : List Json → σ → σ × Except ε (List Json)
  | [], st => (st, .ok [])
  | v :: vs, st =>
      match walk visit v st with
      | (st, .error e) => (st, .error e)
      | (st, .ok v) =>
          let r := walkItems visit vs st
          (r.1, r.2.map (v :: ·))

def walkFields (visit : String → σ → σ × Except ε Json) :
    List (String × Json) → σ → σ × Except ε (List (String × Json))
  | [], st => (st, .ok [])
  | (k, v) :: fields, st =>
      match walk visit v st with
      | (st, .error e) => (st, .error e)
      | (st, .ok v) =>
          let r := walkFields visit fields st
          (r.1, r.2.map ((k, v) :: ·))

end

mutual

/-- Read the strings of a value. -/
def foldStrings (f : String → σ → σ) : Json → σ → σ
  | .str s, st => f s st
  | .arr items, st => foldItems f items st
  | .obj fields, st => foldFields f fields st
  | .null, st => st
  | .bool _, st => st
  | .num _, st => st

def foldItems (f : String → σ → σ) : List Json → σ → σ
  | [], st => st
  | v :: vs, st => foldItems f vs (foldStrings f v st)

def foldFields (f : String → σ → σ) : List (String × Json) → σ → σ
  | [], st => st
  | (_, v) :: fields, st => foldFields f fields (foldStrings f v st)

end

/-! ## The strings of a value -/

mutual

/-- The strings of a value, in the order of a walk. -/
def leaves : Json → List String
  | .str s => [s]
  | .arr items => leavesOfItems items
  | .obj fields => leavesOfFields fields
  | .null => []
  | .bool _ => []
  | .num _ => []

def leavesOfItems : List Json → List String
  | [] => []
  | v :: vs => v.leaves ++ leavesOfItems vs

def leavesOfFields : List (String × Json) → List String
  | [] => []
  | (_, v) :: fields => v.leaves ++ leavesOfFields fields

end

mutual

/-- Replace each string of a value. -/
def mapStrings (f : String → Json) : Json → Json
  | .str s => f s
  | .arr items => .arr (mapItems f items)
  | .obj fields => .obj (mapFields f fields)
  | .null => .null
  | .bool b => .bool b
  | .num text => .num text

def mapItems (f : String → Json) : List Json → List Json
  | [] => []
  | v :: vs => v.mapStrings f :: mapItems f vs

def mapFields (f : String → Json) : List (String × Json) → List (String × Json)
  | [] => []
  | (k, v) :: fields => (k, v.mapStrings f) :: mapFields f fields

end

/-! ## Walks as loops -/

/-- What a walk does, without the value that it returns. -/
def effect {α : Type*} (r : σ × Except ε α) : σ × Except ε Unit := (r.1, r.2.map fun _ => ())

@[simp] lemma effect_fst {α : Type*} (r : σ × Except ε α) : (effect r).1 = r.1 := rfl

lemma effect_map {α β : Type*} (r : σ × Except ε α) (f : α → β) :
    effect (r.1, r.2.map f) = effect r := by
  obtain ⟨st, e | a⟩ := r <;> rfl

lemma effect_eq_error {α : Type*} {r : σ × Except ε α} {st : σ} {e : ε} :
    effect r = (st, .error e) ↔ r = (st, .error e) := by
  obtain ⟨st', e' | a⟩ := r <;> simp [effect, Except.map]

mutual

/-- A walk is the loop over the strings of the value. -/
theorem run_walk (visit : String → σ → σ × Except ε Json) : ∀ (v : Json) (st : σ),
    effect (walk visit v st) = runAll (fun st s => effect (visit s st)) st v.leaves
  | .str s, st => by
      rw [walk, leaves]
      rcases h : visit s st with ⟨st', e | v'⟩
      · simp only [runAll, h, effect, Except.map]
      · simp only [runAll, h, effect, Except.map]
  | .arr items, st => by
      rw [walk, leaves, ← run_walkItems visit items st]
      exact effect_map _ _
  | .obj fields, st => by
      rw [walk, leaves, ← run_walkFields visit fields st]
      exact effect_map _ _
  | .null, _ => by rw [walk, leaves]; rfl
  | .bool _, _ => by rw [walk, leaves]; rfl
  | .num _, _ => by rw [walk, leaves]; rfl

theorem run_walkItems (visit : String → σ → σ × Except ε Json) : ∀ (vs : List Json) (st : σ),
    effect (walkItems visit vs st) = runAll (fun st s => effect (visit s st)) st (leavesOfItems vs)
  | [], st => by rw [walkItems, leavesOfItems]; rfl
  | v :: vs, st => by
      rw [walkItems, leavesOfItems, runAll_append, ← run_walk visit v st]
      rcases walk visit v st with ⟨st', e | v'⟩
      · rfl
      · rw [effect_map, run_walkItems visit vs st']
        rfl

theorem run_walkFields (visit : String → σ → σ × Except ε Json) :
    ∀ (fields : List (String × Json)) (st : σ),
    effect (walkFields visit fields st) =
      runAll (fun st s => effect (visit s st)) st (leavesOfFields fields)
  | [], st => by rw [walkFields, leavesOfFields]; rfl
  | (k, v) :: fields, st => by
      rw [walkFields, leavesOfFields, runAll_append, ← run_walk visit v st]
      rcases walk visit v st with ⟨st', e | v'⟩
      · rfl
      · rw [effect_map, run_walkFields visit fields st']
        rfl

end

mutual

/-- A walk that came to its end has replaced each string as its visit says, where the visits do not
depend on the state. -/
theorem walk_ok {visit : String → σ → σ × Except ε Json} {f : String → Json} :
    ∀ {v out : Json} {st st' : σ},
    (∀ s ∈ v.leaves, ∀ st st' out, visit s st = (st', .ok out) → out = f s) →
    walk visit v st = (st', .ok out) → out = v.mapStrings f
  | .str s, out, st, st', hf, h => by
      rw [walk] at h
      rw [mapStrings]
      exact hf s (by rw [leaves]; exact List.mem_singleton_self s) st st' out h
  | .arr items, out, st, st', hf, h => by
      rw [walk] at h
      rw [leaves] at hf
      rcases hitems : walkItems visit items st with ⟨st₁, e | items'⟩
      · rw [hitems] at h
        cases h
      · rw [hitems] at h
        cases h
        rw [mapStrings, walkItems_ok hf hitems]
  | .obj fields, out, st, st', hf, h => by
      rw [walk] at h
      rw [leaves] at hf
      rcases hfields : walkFields visit fields st with ⟨st₁, e | fields'⟩
      · rw [hfields] at h
        cases h
      · rw [hfields] at h
        cases h
        rw [mapStrings, walkFields_ok hf hfields]
  | .null, _, _, _, _, h => by rw [walk] at h; cases h; rw [mapStrings]
  | .bool _, _, _, _, _, h => by rw [walk] at h; cases h; rw [mapStrings]
  | .num _, _, _, _, _, h => by rw [walk] at h; cases h; rw [mapStrings]

theorem walkItems_ok {visit : String → σ → σ × Except ε Json} {f : String → Json} :
    ∀ {vs out : List Json} {st st' : σ},
    (∀ s ∈ leavesOfItems vs, ∀ st st' out, visit s st = (st', .ok out) → out = f s) →
    walkItems visit vs st = (st', .ok out) → out = mapItems f vs
  | [], out, _, _, _, h => by rw [walkItems] at h; cases h; rw [mapItems]
  | v :: vs, out, st, st', hf, h => by
      rw [leavesOfItems] at hf
      rw [walkItems] at h
      rcases hv : walk visit v st with ⟨st₁, e | v'⟩
      · rw [hv] at h
        cases h
      · rw [hv] at h
        rcases hvs : walkItems visit vs st₁ with ⟨st₂, e | vs'⟩
        · simp only [hvs] at h
          cases h
        · simp only [hvs] at h
          cases h
          rw [mapItems, walk_ok (fun s hs => hf s (List.mem_append_left _ hs)) hv,
            walkItems_ok (fun s hs => hf s (List.mem_append_right _ hs)) hvs]

theorem walkFields_ok {visit : String → σ → σ × Except ε Json} {f : String → Json} :
    ∀ {fields out : List (String × Json)} {st st' : σ},
    (∀ s ∈ leavesOfFields fields, ∀ st st' out, visit s st = (st', .ok out) → out = f s) →
    walkFields visit fields st = (st', .ok out) → out = mapFields f fields
  | [], out, _, _, _, h => by rw [walkFields] at h; cases h; rw [mapFields]
  | (k, v) :: fields, out, st, st', hf, h => by
      rw [leavesOfFields] at hf
      rw [walkFields] at h
      rcases hv : walk visit v st with ⟨st₁, e | v'⟩
      · rw [hv] at h
        cases h
      · rw [hv] at h
        rcases hvs : walkFields visit fields st₁ with ⟨st₂, e | fields'⟩
        · simp only [hvs] at h
          cases h
        · simp only [hvs] at h
          cases h
          rw [mapFields, walk_ok (fun s hs => hf s (List.mem_append_left _ hs)) hv,
            walkFields_ok (fun s hs => hf s (List.mem_append_right _ hs)) hvs]

end

mutual

/-- The strings of a value whose strings were replaced by strings. -/
theorem leaves_mapStrings (f : String → String) : ∀ v : Json,
    (v.mapStrings fun s => .str (f s)).leaves = v.leaves.map f
  | .str s => by rw [mapStrings, leaves, leaves]; rfl
  | .arr items => by rw [mapStrings, leaves, leaves, leavesOfItems_map f items]
  | .obj fields => by rw [mapStrings, leaves, leaves, leavesOfFields_map f fields]
  | .null => by rw [mapStrings, leaves]; rfl
  | .bool _ => by rw [mapStrings, leaves]; rfl
  | .num _ => by rw [mapStrings, leaves]; rfl

theorem leavesOfItems_map (f : String → String) : ∀ vs : List Json,
    leavesOfItems (mapItems (fun s => .str (f s)) vs) = (leavesOfItems vs).map f
  | [] => by rw [mapItems, leavesOfItems]; rfl
  | v :: vs => by
      rw [mapItems, leavesOfItems, leavesOfItems, List.map_append, leaves_mapStrings f v,
        leavesOfItems_map f vs]

theorem leavesOfFields_map (f : String → String) : ∀ fields : List (String × Json),
    leavesOfFields (mapFields (fun s => .str (f s)) fields) = (leavesOfFields fields).map f
  | [] => by rw [mapFields, leavesOfFields]; rfl
  | (_, v) :: fields => by
      rw [mapFields, leavesOfFields, leavesOfFields, List.map_append, leaves_mapStrings f v,
        leavesOfFields_map f fields]

end

mutual

/-- Two replacements, one after the other, are one where they agree on the strings of the value. -/
theorem mapStrings_mapStrings {f : String → String} {g h : String → Json} : ∀ {v : Json},
    (∀ s ∈ v.leaves, g (f s) = h s) →
    (v.mapStrings fun s => .str (f s)).mapStrings g = v.mapStrings h
  | .str s, hs => by
      rw [mapStrings, mapStrings, mapStrings]
      exact hs s (by rw [leaves]; exact List.mem_singleton_self s)
  | .arr items, hs => by
      rw [leaves] at hs
      rw [mapStrings, mapStrings, mapStrings, mapItems_mapItems hs]
  | .obj fields, hs => by
      rw [leaves] at hs
      rw [mapStrings, mapStrings, mapStrings, mapFields_mapFields hs]
  | .null, _ => by rw [mapStrings, mapStrings, mapStrings]
  | .bool _, _ => by rw [mapStrings, mapStrings, mapStrings]
  | .num _, _ => by rw [mapStrings, mapStrings, mapStrings]

theorem mapItems_mapItems {f : String → String} {g h : String → Json} : ∀ {vs : List Json},
    (∀ s ∈ leavesOfItems vs, g (f s) = h s) →
    mapItems g (mapItems (fun s => .str (f s)) vs) = mapItems h vs
  | [], _ => by rw [mapItems, mapItems, mapItems]
  | v :: vs, hs => by
      rw [leavesOfItems] at hs
      rw [mapItems, mapItems, mapItems,
        mapStrings_mapStrings fun s hv => hs s (List.mem_append_left _ hv),
        mapItems_mapItems fun s hvs => hs s (List.mem_append_right _ hvs)]

theorem mapFields_mapFields {f : String → String} {g h : String → Json} :
    ∀ {fields : List (String × Json)}, (∀ s ∈ leavesOfFields fields, g (f s) = h s) →
    mapFields g (mapFields (fun s => .str (f s)) fields) = mapFields h fields
  | [], _ => by rw [mapFields, mapFields, mapFields]
  | (k, v) :: fields, hs => by
      rw [leavesOfFields] at hs
      rw [mapFields, mapFields, mapFields,
        mapStrings_mapStrings fun s hv => hs s (List.mem_append_left _ hv),
        mapFields_mapFields fun s hvs => hs s (List.mem_append_right _ hvs)]

end

mutual

/-- A reading walk is the fold over the strings of the value. -/
theorem foldStrings_eq (f : String → σ → σ) : ∀ (v : Json) (st : σ),
    foldStrings f v st = v.leaves.foldl (fun st s => f s st) st
  | .str s, st => by rw [foldStrings, leaves]; rfl
  | .arr items, st => by rw [foldStrings, leaves, foldItems_eq f items st]
  | .obj fields, st => by rw [foldStrings, leaves, foldFields_eq f fields st]
  | .null, _ => by rw [foldStrings, leaves]; rfl
  | .bool _, _ => by rw [foldStrings, leaves]; rfl
  | .num _, _ => by rw [foldStrings, leaves]; rfl

theorem foldItems_eq (f : String → σ → σ) : ∀ (vs : List Json) (st : σ),
    foldItems f vs st = (leavesOfItems vs).foldl (fun st s => f s st) st
  | [], st => by rw [foldItems, leavesOfItems]; rfl
  | v :: vs, st => by
      rw [foldItems, leavesOfItems, List.foldl_append, foldStrings_eq f v st, foldItems_eq f vs]

theorem foldFields_eq (f : String → σ → σ) : ∀ (fields : List (String × Json)) (st : σ),
    foldFields f fields st = (leavesOfFields fields).foldl (fun st s => f s st) st
  | [], st => by rw [foldFields, leavesOfFields]; rfl
  | (_, v) :: fields, st => by
      rw [foldFields, leavesOfFields, List.foldl_append, foldStrings_eq f v st,
        foldFields_eq f fields]

end

end Json
end Http
end Pawrly
