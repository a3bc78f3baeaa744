import Pawrly.Cache.Namespace

/-!
# Where namespaces live

`pawrly-engine/src/namespace.rs` and the start of the engine in `local.rs`: the namespace of the
configuration is sanitised, the one of a caller is checked, and both become a directory of the storage
root and the name of a catalog.  Only the second route keeps the reserved names apart
(`stays_below_iff`).
-/

namespace Pawrly
namespace Cache
namespace NamespacePaths

/-! ## Paths -/

/-- A path by its components. -/
abbrev DirPath := List String

/-- `Path::join`: an absolute path replaces the one before it. -/
def joinPath (root : DirPath) (seg : String) : DirPath :=
  if seg.toList.head? = some '/' then Text.split '/' seg else root ++ Text.split '/' seg

/-- The name of a direct child. -/
def PlainName (name : String) : Prop := name ≠ "" ∧ name ≠ "." ∧ name ≠ ".." ∧ '/' ∉ name.toList

def Child (root dir : DirPath) : Prop := ∃ name, PlainName name ∧ dir = root ++ [name]

def reservedNames : List String := [pawrlyCatalog, materializedSchema, systemSchema, "information_schema"]

/-! ## The namespace of a workspace -/

/-- A workspace: the bytes of its canonical path, the last component of the path, and whether it is
the Pawrly home. -/
structure Workspace where
  canonical : List UInt8
  fileName : Option String
  isHome : Bool

/-- `fnv1a_hex`. -/
def fnv1aHex (bytes : List UInt8) : String :=
  let hash := bytes.foldl (fun hash b => (hash ^^^ b.toNat) * 0x100000001b3 % 2 ^ 64) 0xcbf29ce484222325
  String.ofList ((List.range 16).map fun i => Nat.digitChar (hash / 16 ^ (15 - i) % 16))

/-- `cache_namespace`. -/
def cacheNamespace (explicit : Option String) (ws : Workspace) : String :=
  match explicit.filter fun ns => ns.toList.any Char.isAlphanum with
  | some ns => sanitizeSegment ns
  | none =>
      if ws.isHome then "default"
      else
        let dirname := ((ws.fileName.map sanitizeSegment).filter fun s => s ≠ "").getD "workspace"
        dirname ++ "-" ++ fnv1aHex ws.canonical

/-! ## The registry -/

/-- What is done to the directory of a store. -/
inductive Touch
  | probe (dir : DirPath)
  | create (dir : DirPath)
  | delete (dir : DirPath)
  deriving DecidableEq

def Touch.dir : Touch → DirPath
  | probe dir => dir
  | create dir => dir
  | delete dir => dir

/-- What the disk answers at a call. -/
structure Disk where
  hasManifest : DirPath → Bool
  creates : DirPath → Except String Unit
  deletes : DirPath → Except String Unit

/-- `NamespaceRegistry`, with the names of the memoized stores. -/
structure NamespaceRegistry where
  storageRoot : DirPath
  defaultNs : String
  extra : List String := []

/-- What a call leaves behind, does to the disk and returns. -/
abbrev Answer (α : Type) := NamespaceRegistry × List Touch × Except String α

namespace NamespaceRegistry

variable (r : NamespaceRegistry) (disk : Disk)

def dirOf (ns : String) : DirPath := joinPath r.storageRoot ns

/-- `None`, the empty name and the default one stand for the default store. -/
def normalize (ns : Option String) : Except String (Option String) :=
  match ns with
  | none => .ok none
  | some ns =>
      if ns = "" ∨ ns = r.defaultNs then .ok none
      else (validateNamespace ns).map fun _ => some ns

def openOrCreate (ns : String) : Answer DirPath :=
  if ns ∈ r.extra then (r, [], .ok (r.dirOf ns))
  else
    match disk.creates (r.dirOf ns) with
    | .error e => (r, [.create (r.dirOf ns)], .error ("namespace `" ++ ns ++ "` cache init: " ++ e))
    | .ok () => ({ r with extra := ns :: r.extra }, [.create (r.dirOf ns)], .ok (r.dirOf ns))

def openExisting (ns : String) : Answer (Option DirPath) :=
  let looked := if ns ∈ r.extra then [] else [Touch.probe (r.dirOf ns)]
  if ns ∈ r.extra ∨ disk.hasManifest (r.dirOf ns) then
    let (r, touches, dir) := r.openOrCreate disk ns
    (r, looked ++ touches, dir.map some)
  else (r, looked, .ok none)

def forWrite (ns : Option String) : Answer DirPath :=
  match r.normalize ns with
  | .error e => (r, [], .error e)
  | .ok none => (r, [], .ok (r.dirOf r.defaultNs))
  | .ok (some ns) => r.openOrCreate disk ns

def forRead (ns : Option String) : Answer (Option DirPath) :=
  match r.normalize ns with
  | .error e => (r, [], .error e)
  | .ok none => (r, [], .ok (some (r.dirOf r.defaultNs)))
  | .ok (some ns) => r.openExisting disk ns

def lookup (ns : String) : NamespaceRegistry × List Touch × Option DirPath :=
  if ns = r.defaultNs then (r, [], some (r.dirOf r.defaultNs))
  else
    match validateNamespace ns with
    | .error _ => (r, [], none)
    | .ok () =>
        let (r, touches, dir) := r.openExisting disk ns
        (r, touches, dir.toOption.join)

def remove (ns : String) : Answer Bool :=
  if ns = "" ∨ ns = r.defaultNs then
    (r, [], .error "cannot drop the default workspace namespace")
  else
    match validateNamespace ns with
    | .error e => (r, [], .error e)
    | .ok () =>
        let existed := decide (ns ∈ r.extra)
        let dir := r.dirOf ns
        let r := { r with extra := r.extra.filter (· ≠ ns) }
        if disk.hasManifest dir then
          match disk.deletes dir with
          | .error e => (r, [.probe dir, .delete dir], .error ("drop namespace `" ++ ns ++ "`: " ++ e))
          | .ok () => (r, [.probe dir, .delete dir], .ok true)
        else (r, [.probe dir], .ok existed)

end NamespaceRegistry

/-! ## The engine -/

/-- What the name of a catalog stands for. -/
inductive NamedCatalog
  | live
  | store (dir : DirPath)
  deriving DecidableEq

/-- An engine: its registry, and the catalogs that were registered, the last one first. -/
structure Engine where
  registry : NamespaceRegistry
  catalogs : List (String × NamedCatalog)

inductive NamespaceCall
  | forWrite (ns : Option String)
  | forRead (ns : Option String)
  | catalog (name : String)
  | remove (ns : String)

namespace Engine

/-- `LocalEngine::build`: the live catalog, then the one of the namespace. -/
def start (storage : DirPath) (explicit : Option String) (ws : Workspace) : Engine × List Touch :=
  let ns := cacheNamespace explicit ws
  let dir := joinPath storage ns
  ({ registry := { storageRoot := storage, defaultNs := ns }
     catalogs := [(ns, .store dir), (pawrlyCatalog, .live)] },
    [.create dir])

/-- `DynamicNamespaceCatalogs::catalog`. -/
def catalog (e : Engine) (disk : Disk) (name : String) : Engine × List Touch × Option NamedCatalog :=
  match e.catalogs.lookup name with
  | some c => (e, [], some c)
  | none =>
      let (r, touches, dir) := e.registry.lookup disk name
      ({ e with registry := r }, touches, dir.map .store)

def call (e : Engine) (disk : Disk) : NamespaceCall → Engine × List Touch
  | .forWrite ns =>
      let (r, touches, _) := e.registry.forWrite disk ns
      ({ e with registry := r }, touches)
  | .forRead ns =>
      let (r, touches, _) := e.registry.forRead disk ns
      ({ e with registry := r }, touches)
  | .catalog name =>
      let (e, touches, _) := e.catalog disk name
      (e, touches)
  | .remove ns =>
      let (r, touches, _) := e.registry.remove disk ns
      ({ e with registry := r }, touches)

/-- Calls one after the other, each on the disk as it finds it. -/
def run (calls : List (Disk × NamespaceCall)) (s : Engine × List Touch) : Engine × List Touch :=
  calls.foldl (fun s c => let (e, touches) := s.1.call c.1 c.2; (e, s.2 ++ touches)) s

end Engine

/-- Whatever is called, the engine stays in the children of its storage root, keeps its live store, and
resolves no reserved name to a store. -/
structure Confined (storage : DirPath) (explicit : Option String) (ws : Workspace) : Prop where
  paths : ∀ calls, ∀ t ∈ (Engine.run calls (Engine.start storage explicit ws)).2, Child storage t.dir
  keeps : ∀ calls dir, .delete dir ∈ (Engine.run calls (Engine.start storage explicit ws)).2 →
    dir ≠ joinPath storage (cacheNamespace explicit ws)
  catalogs : ∀ calls disk, ∀ name ∈ reservedNames, ∀ dir,
    ((Engine.run calls (Engine.start storage explicit ws)).1.catalog disk name).2.2 ≠
      some (.store dir)

/-! ## Names -/

/-- A character that is safe in a path. -/
def safeChar (c : Char) : Bool := c.isAlphanum || c = '_' || c = '-' || c = '.'

lemma safeChar_sanitize {s : String} {c : Char} (hc : c ∈ (sanitizeSegment s).toList) :
    safeChar c = true := by
  rw [sanitizeSegment, String.toList_map] at hc
  obtain ⟨d, -, rfl⟩ := List.mem_map.mp hc
  by_cases hd : safeChar d = true
  · have hsafe : (d.isAlphanum || d = '_' || d = '-' || d = '.') = true := hd
    rw [if_pos hsafe]
    exact hd
  · have hsafe : ¬ (d.isAlphanum || d = '_' || d = '-' || d = '.') = true := hd
    rw [if_neg hsafe]
    decide

/-- Safe characters with an alphanumeric one among them are the name of a child. -/
lemma plainName_of_safe {s : String} (hsafe : ∀ c ∈ s.toList, safeChar c = true) {c : Char}
    (hc : c ∈ s.toList) (halnum : c.isAlphanum = true) : PlainName s := by
  refine ⟨?_, ?_, ?_, fun hslash => absurd (hsafe '/' hslash) (by decide)⟩
  · rintro rfl
    simp at hc
  · rintro rfl
    obtain rfl : c = '.' := by simpa using hc
    exact absurd halnum (by decide)
  · rintro rfl
    obtain rfl : c = '.' := by simpa using hc
    exact absurd halnum (by decide)

lemma mem_sanitize {s : String} {c : Char} (hc : c ∈ s.toList) (halnum : c.isAlphanum = true) :
    c ∈ (sanitizeSegment s).toList := by
  rw [sanitizeSegment, String.toList_map]
  refine List.mem_map.mpr ⟨c, hc, ?_⟩
  rw [if_pos (by rw [halnum]; rfl)]

/-- A namespace that a caller may name. -/
lemma validateNamespace_ok {ns : String} (h : validateNamespace ns = .ok ()) :
    PlainName ns ∧ ns ∉ reservedNames := by
  unfold validateNamespace at h
  split_ifs at h with hform hreserved
  rw [Bool.or_eq_true, not_or, Bool.not_eq_true', Bool.not_eq_false, decide_eq_true_eq,
    Classical.not_not] at hform
  obtain ⟨hany, hclean⟩ := hform
  obtain ⟨c, hc, halnum⟩ := List.any_eq_true.mp hany
  refine ⟨plainName_of_safe (fun d hd => ?_) hc halnum, hreserved⟩
  rw [← hclean] at hd
  exact safeChar_sanitize hd

lemma isAlphanum_digitChar {n : ℕ} (h : n < 16) : (Nat.digitChar n).isAlphanum = true := by
  revert n
  decide

lemma fnv1aHex_alnum (bytes : List UInt8) {c : Char} (hc : c ∈ (fnv1aHex bytes).toList) :
    c.isAlphanum = true := by
  rw [fnv1aHex, String.toList_ofList] at hc
  obtain ⟨i, -, rfl⟩ := List.mem_map.mp hc
  exact isAlphanum_digitChar (Nat.mod_lt _ (by decide))

lemma fnv1aHex_ne (bytes : List UInt8) : (fnv1aHex bytes).toList ≠ [] := by
  rw [fnv1aHex, String.toList_ofList]
  simp

/-- The id of a workspace without a configured namespace. -/
lemma derived_plain (dirname : String) (hdirname : ∀ c ∈ dirname.toList, safeChar c = true)
    (bytes : List UInt8) : PlainName (dirname ++ "-" ++ fnv1aHex bytes) ∧
      dirname ++ "-" ++ fnv1aHex bytes ∉ reservedNames := by
  have hlist : (dirname ++ "-" ++ fnv1aHex bytes).toList =
      dirname.toList ++ '-' :: (fnv1aHex bytes).toList := by
    rw [String.toList_append, String.toList_append, List.append_assoc]
    rfl
  obtain ⟨c, hc⟩ := List.exists_mem_of_ne_nil _ (fnv1aHex_ne bytes)
  have halnum := fnv1aHex_alnum bytes hc
  constructor
  · refine plainName_of_safe (fun d hd => ?_) (c := c) (by rw [hlist]; simp [hc]) halnum
    rw [hlist] at hd
    rcases List.mem_append.mp hd with hd | hd
    · exact hdirname d hd
    · rcases List.mem_cons.mp hd with rfl | hd
      · decide
      · rw [safeChar, fnv1aHex_alnum bytes hd]
        rfl
  · intro hreserved
    have hdash : '-' ∈ (dirname ++ "-" ++ fnv1aHex bytes).toList := by
      rw [hlist]
      simp
    have hno : ∀ name ∈ reservedNames, '-' ∉ name.toList := by decide
    exact hno _ hreserved hdash

/-- The namespace of a workspace is the name of a child; it is reserved only when the configuration
says so. -/
lemma cacheNamespace_spec (explicit : Option String) (ws : Workspace) :
    PlainName (cacheNamespace explicit ws) ∧
      (cacheNamespace explicit ws ∈ reservedNames ↔
        ∃ ns, explicit = some ns ∧ ns.toList.any Char.isAlphanum = true ∧
          sanitizeSegment ns ∈ reservedNames) := by
  unfold cacheNamespace
  cases hexplicit : explicit.filter fun ns => ns.toList.any Char.isAlphanum with
  | some ns =>
      obtain ⟨rfl, hany⟩ := Option.filter_eq_some_iff.mp hexplicit
      obtain ⟨c, hc, halnum⟩ := List.any_eq_true.mp hany
      refine ⟨plainName_of_safe (fun d hd => safeChar_sanitize hd) (mem_sanitize hc halnum) halnum,
        fun h => ⟨ns, rfl, hany, h⟩, ?_⟩
      rintro ⟨ns', heq, -, h⟩
      cases heq
      exact h
  | none =>
      have hno : ¬ ∃ ns, explicit = some ns ∧ ns.toList.any Char.isAlphanum = true ∧
          sanitizeSegment ns ∈ reservedNames := by
        rintro ⟨ns, rfl, hany, -⟩
        rw [Option.filter_some, if_pos hany] at hexplicit
        cases hexplicit
      rw [iff_false_right hno]
      dsimp only
      split_ifs with hhome
      · exact ⟨plainName_of_safe (List.all_eq_true.mp (by decide)) (c := 'd') (by decide) (by decide),
          by decide⟩
      · refine derived_plain _ (fun c hc => ?_) _
        cases hname : (ws.fileName.map sanitizeSegment).filter fun s => s ≠ "" with
        | none =>
            rw [hname, Option.getD_none] at hc
            exact List.all_eq_true.mp (by decide) c hc
        | some name =>
            rw [hname, Option.getD_some] at hc
            obtain ⟨hmap, -⟩ := Option.filter_eq_some_iff.mp hname
            obtain ⟨raw, -, rfl⟩ := Option.map_eq_some_iff.mp hmap
            exact safeChar_sanitize hc

lemma joinPath_plain {root : DirPath} {name : String} (h : PlainName name) :
    joinPath root name = root ++ [name] := by
  have hslash := h.2.2.2
  have hhead : name.toList.head? ≠ some '/' := fun hhead => hslash (List.mem_of_mem_head? hhead)
  have hsplit := (Text.split_of_splitOnce_none (Text.splitOnce_eq_none_iff.mpr hslash)).1
  rw [joinPath, if_neg hhead, hsplit]

/-! ## Calls -/

/-- A call keeps the root and the default namespace, and touches only the directories of namespaces
that a caller may name; it deletes only another one than the default. -/
structure Proper (r r' : NamespaceRegistry) (touches : List Touch) : Prop where
  root : r'.storageRoot = r.storageRoot
  default : r'.defaultNs = r.defaultNs
  touched : ∀ t ∈ touches, ∃ ns, validateNamespace ns = .ok () ∧ t.dir = r.dirOf ns ∧
    ((∃ dir, t = .delete dir) → ns ≠ r.defaultNs)

namespace NamespaceRegistry

variable {r : NamespaceRegistry} {disk : Disk}

lemma proper_nil (r : NamespaceRegistry) : Proper r r [] := ⟨rfl, rfl, nofun⟩

lemma openOrCreate_proper {ns : String} (h : validateNamespace ns = .ok ()) :
    Proper r (r.openOrCreate disk ns).1 (r.openOrCreate disk ns).2.1 := by
  have htouch : ∀ t ∈ [Touch.create (r.dirOf ns)], ∃ ns, validateNamespace ns = .ok () ∧
      t.dir = r.dirOf ns ∧ ((∃ dir, t = .delete dir) → ns ≠ r.defaultNs) := by
    intro t ht
    rw [List.mem_singleton.mp ht]
    exact ⟨ns, h, rfl, by rintro ⟨dir, hdir⟩; cases hdir⟩
  unfold openOrCreate
  split_ifs with hmemo
  · exact proper_nil r
  · split
    · exact ⟨rfl, rfl, htouch⟩
    · exact ⟨rfl, rfl, htouch⟩

lemma openExisting_proper {ns : String} (h : validateNamespace ns = .ok ()) :
    Proper r (r.openExisting disk ns).1 (r.openExisting disk ns).2.1 := by
  have hopen : Proper r (r.openOrCreate disk ns).1 (r.openOrCreate disk ns).2.1 :=
    openOrCreate_proper h
  have hlooked : ∀ t ∈ (if ns ∈ r.extra then [] else [Touch.probe (r.dirOf ns)]),
      ∃ ns, validateNamespace ns = .ok () ∧ t.dir = r.dirOf ns ∧
        ((∃ dir, t = .delete dir) → ns ≠ r.defaultNs) := by
    intro t ht
    split_ifs at ht with hmemo
    · cases ht
    · rw [List.mem_singleton.mp ht]
      exact ⟨ns, h, rfl, by rintro ⟨dir, hdir⟩; cases hdir⟩
  unfold openExisting
  generalize (if ns ∈ r.extra then [] else [Touch.probe (r.dirOf ns)]) = looked at hlooked ⊢
  dsimp only
  split_ifs with hthere
  · refine ⟨hopen.root, hopen.default, fun t ht => ?_⟩
    rcases List.mem_append.mp ht with ht | ht
    · exact hlooked t ht
    · exact hopen.touched t ht
  · exact ⟨rfl, rfl, hlooked⟩

lemma normalize_some {ns : Option String} {name : String} (h : r.normalize ns = .ok (some name)) :
    validateNamespace name = .ok () := by
  cases ns with
  | none => cases h
  | some ns =>
      simp only [normalize] at h
      split_ifs at h with hdefault
      · cases h
      · cases hvalid : validateNamespace ns with
        | error e =>
            rw [hvalid] at h
            cases h
        | ok u =>
            rw [hvalid] at h
            cases h
            exact hvalid

lemma forWrite_proper (ns : Option String) :
    Proper r (r.forWrite disk ns).1 (r.forWrite disk ns).2.1 := by
  unfold forWrite
  split
  · exact proper_nil r
  · exact proper_nil r
  · rename_i name hname
    exact openOrCreate_proper (normalize_some hname)

lemma forRead_proper (ns : Option String) :
    Proper r (r.forRead disk ns).1 (r.forRead disk ns).2.1 := by
  unfold forRead
  split
  · exact proper_nil r
  · exact proper_nil r
  · rename_i name hname
    exact openExisting_proper (normalize_some hname)

lemma lookup_proper (ns : String) : Proper r (r.lookup disk ns).1 (r.lookup disk ns).2.1 := by
  unfold lookup
  split_ifs with hdefault
  · exact proper_nil r
  · split
    · exact proper_nil r
    · rename_i hvalid
      exact openExisting_proper hvalid

lemma remove_proper (ns : String) : Proper r (r.remove disk ns).1 (r.remove disk ns).2.1 := by
  unfold remove
  split_ifs with hdefault
  · exact proper_nil r
  · split
    · exact proper_nil r
    · rename_i hvalid
      rw [not_or] at hdefault
      have htouch : ∀ t ∈ [Touch.probe (r.dirOf ns), .delete (r.dirOf ns)],
          ∃ ns, validateNamespace ns = .ok () ∧ t.dir = r.dirOf ns ∧
            ((∃ dir, t = .delete dir) → ns ≠ r.defaultNs) := by
        intro t ht
        refine ⟨ns, hvalid, ?_, fun _ => hdefault.2⟩
        simp only [List.mem_cons, List.not_mem_nil, or_false] at ht
        rcases ht with rfl | rfl <;> rfl
      dsimp only
      split_ifs with hmanifest
      · split
        · exact ⟨rfl, rfl, htouch⟩
        · exact ⟨rfl, rfl, htouch⟩
      · refine ⟨rfl, rfl, fun t ht => htouch t ?_⟩
        rw [List.mem_singleton.mp ht]
        exact List.mem_cons_self

/-- A reserved name is looked up only as the default namespace. -/
lemma lookup_reserved {name : String} (hname : name ∈ reservedNames) (hne : name ≠ r.defaultNs) :
    (r.lookup disk name).2.2 = none := by
  unfold lookup
  rw [if_neg hne]
  cases hvalid : validateNamespace name with
  | error e => rfl
  | ok u => exact absurd hname (validateNamespace_ok hvalid).2

end NamespaceRegistry

namespace Engine

lemma call_proper (e : Engine) (disk : Disk) (c : NamespaceCall) :
    Proper e.registry (e.call disk c).1.registry (e.call disk c).2 ∧
      (e.call disk c).1.catalogs = e.catalogs := by
  cases c with
  | forWrite ns => exact ⟨NamespaceRegistry.forWrite_proper ns, rfl⟩
  | forRead ns => exact ⟨NamespaceRegistry.forRead_proper ns, rfl⟩
  | remove ns => exact ⟨NamespaceRegistry.remove_proper ns, rfl⟩
  | catalog name =>
      unfold call catalog
      dsimp only
      split
      · exact ⟨NamespaceRegistry.proper_nil _, rfl⟩
      · exact ⟨NamespaceRegistry.lookup_proper name, rfl⟩

/-- After any calls: the root, the default namespace and the registered catalogs are those of the start,
and every directory that was touched is one of a namespace. -/
structure Ran (storage : DirPath) (ns : String) (s : Engine × List Touch) : Prop where
  root : s.1.registry.storageRoot = storage
  default : s.1.registry.defaultNs = ns
  catalogs : s.1.catalogs = [(ns, .store (joinPath storage ns)), (pawrlyCatalog, .live)]
  touched : ∀ t ∈ s.2, ∃ name, PlainName name ∧ t.dir = storage ++ [name] ∧
    ((∃ dir, t = .delete dir) → name ≠ ns)

lemma ran_start (storage : DirPath) (explicit : Option String) (ws : Workspace) :
    Ran storage (cacheNamespace explicit ws) (start storage explicit ws) := by
  have hplain := (cacheNamespace_spec explicit ws).1
  refine ⟨rfl, rfl, rfl, fun t ht => ⟨_, hplain, ?_, ?_⟩⟩
  · rw [List.mem_singleton.mp ht]
    exact joinPath_plain hplain
  · rintro ⟨dir, rfl⟩
    cases List.mem_singleton.mp ht

lemma Ran.run {storage : DirPath} {ns : String} {s : Engine × List Touch} (h : Ran storage ns s)
    (calls : List (Disk × NamespaceCall)) : Ran storage ns (run calls s) := by
  induction calls generalizing s with
  | nil => exact h
  | cons c calls ih =>
      refine ih ?_
      obtain ⟨hproper, hcatalogs⟩ := call_proper s.1 c.1 c.2
      refine ⟨hproper.root.trans h.root, hproper.default.trans h.default, hcatalogs.trans h.catalogs,
        fun t ht => ?_⟩
      rcases List.mem_append.mp ht with ht | ht
      · exact h.touched t ht
      · obtain ⟨name, hvalid, hdir, hdelete⟩ := hproper.touched t ht
        have hplain := (validateNamespace_ok hvalid).1
        rw [h.default] at hdelete
        refine ⟨name, hplain, ?_, hdelete⟩
        rw [hdir, NamespaceRegistry.dirOf, h.root, joinPath_plain hplain]

end Engine

/-! ## Confinement -/

/-- **When namespaces are confined**: exactly when the configured namespace does not sanitise to a
reserved name. -/
theorem stays_below_iff (storage : DirPath) (explicit : Option String) (ws : Workspace) :
    Confined storage explicit ws ↔
      ∀ ns, explicit = some ns → ns.toList.any Char.isAlphanum = true →
        sanitizeSegment ns ∉ reservedNames := by
  have hran := fun calls => (Engine.ran_start storage explicit ws).run calls
  obtain ⟨hplain, hreserved⟩ := cacheNamespace_spec explicit ws
  constructor
  · rintro h ns hexplicit hany hname
    have hmem := hreserved.mpr ⟨ns, hexplicit, hany, hname⟩
    refine h.catalogs [] ⟨fun _ => false, fun _ => .ok (), fun _ => .ok ()⟩ _ hmem
      (joinPath storage (cacheNamespace explicit ws)) ?_
    rw [Engine.catalog, (hran []).catalogs, List.lookup_cons_self]
  · intro h
    have hfree : cacheNamespace explicit ws ∉ reservedNames := fun hmem => by
      obtain ⟨ns, hexplicit, hany, hname⟩ := hreserved.mp hmem
      exact h ns hexplicit hany hname
    refine ⟨fun calls t ht => ?_, fun calls dir hdir => ?_, fun calls disk name hname dir => ?_⟩
    · obtain ⟨name, hname, hdir, -⟩ := (hran calls).touched t ht
      exact ⟨name, hname, hdir⟩
    · obtain ⟨name, hname, hdir', hne⟩ := (hran calls).touched _ hdir
      rw [joinPath_plain hplain]
      rintro rfl
      have heq : [cacheNamespace explicit ws] = [name] := List.append_cancel_left hdir'
      exact hne ⟨_, rfl⟩ (List.head_eq_of_cons_eq heq).symm
    · have hne : name ≠ cacheNamespace explicit ws := fun heq => hfree (heq ▸ hname)
      have hnone := @NamespaceRegistry.lookup_reserved
        (Engine.run calls (Engine.start storage explicit ws)).1.registry disk _ hname
        (by rw [(hran calls).default]; exact hne)
      rw [Engine.catalog, (hran calls).catalogs, List.lookup_cons, beq_eq_false_iff_ne.mpr hne]
      by_cases hlive : name = pawrlyCatalog
      · rw [List.lookup_cons, beq_iff_eq.mpr hlive]
        rintro ⟨⟩
      · rw [List.lookup_cons, beq_eq_false_iff_ne.mpr hlive, List.lookup_nil]
        simp [hnone]

/-- A namespace `pawrly` takes the place of the live catalog. -/
theorem pawrly_not_confined :
    ¬ Confined ["cache"] (some "pawrly") { canonical := [], fileName := some "shop", isHome := false } := by
  intro h
  have hns : cacheNamespace (some "pawrly")
      { canonical := [], fileName := some "shop", isHome := false } = "pawrly" := by
    rw [← String.toList_inj]
    show (sanitizeSegment "pawrly").toList = _
    rw [sanitizeSegment, String.toList_map]
    decide
  refine h.catalogs [] ⟨fun _ => false, fun _ => .ok (), fun _ => .ok ()⟩ "pawrly" (by decide)
    (joinPath ["cache"] "pawrly") ?_
  rw [Engine.run, List.foldl_nil, Engine.start, hns]
  rfl

end NamespacePaths
end Cache
end Pawrly
