import Mathlib.Tactic.Common
import Mathlib.Order.Lattice
import Mathlib.Data.List.Nodup

/-!
# Ordered maps

A finite map as the list of its entries in strictly increasing order of the keys.  Two maps with
the same values are equal (`OrderedMap.ext_get?`), and walking through the entries is a function of
the map.
-/

namespace Pawrly

/-- A finite map, by its entries in the order of their keys. -/
structure OrderedMap (κ α : Type*) [LinearOrder κ] where
  entries : List (κ × α)
  sorted : entries.Pairwise fun a b => a.1 < b.1

namespace OrderedMap

variable {κ α : Type*} [LinearOrder κ]

def empty : OrderedMap κ α := ⟨[], .nil⟩

def get? (m : OrderedMap κ α) (k : κ) : Option α := m.entries.lookup k

def contains (m : OrderedMap κ α) (k : κ) : Bool := (m.get? k).isSome

/-- Put an entry at its place, over an entry with the same key. -/
def insertEntry (k : κ) (v : α) : List (κ × α) → List (κ × α)
  | [] => [(k, v)]
  | e :: es =>
      if k < e.1 then (k, v) :: e :: es
      else if k = e.1 then (k, v) :: es
      else e :: insertEntry k v es

lemma mem_insertEntry {k : κ} {v : α} {es : List (κ × α)} {e : κ × α}
    (h : e ∈ insertEntry k v es) : e = (k, v) ∨ e ∈ es := by
  induction es with
  | nil => exact .inl (List.mem_singleton.mp h)
  | cons e' es ih =>
      unfold insertEntry at h
      split_ifs at h with hlt heq
      · exact List.mem_cons.mp h
      · rcases List.mem_cons.mp h with rfl | hmem
        · exact .inl rfl
        · exact .inr (List.mem_cons_of_mem _ hmem)
      · rcases List.mem_cons.mp h with rfl | hmem
        · exact .inr List.mem_cons_self
        · exact (ih hmem).imp_right (List.mem_cons_of_mem _)

/-- The place of an entry does not depend on its value. -/
lemma exists_insertEntry (k : κ) (es : List (κ × α)) :
    ∃ l l', ∀ v, insertEntry k v es = l ++ (k, v) :: l' := by
  induction es with
  | nil => exact ⟨[], [], fun _ => rfl⟩
  | cons e es ih =>
      obtain ⟨l, l', h⟩ := ih
      by_cases hlt : k < e.1
      · exact ⟨[], e :: es, fun v => by simp [insertEntry, hlt]⟩
      · by_cases heq : k = e.1
        · exact ⟨[], es, fun v => by simp [insertEntry, heq]⟩
        · exact ⟨e :: l, l', fun v => by simp [insertEntry, hlt, heq, h v]⟩

lemma insertEntry_sorted {k : κ} {v : α} {es : List (κ × α)}
    (h : es.Pairwise fun a b => a.1 < b.1) :
    (insertEntry k v es).Pairwise fun a b => a.1 < b.1 := by
  induction es with
  | nil => exact List.pairwise_singleton _ _
  | cons e es ih =>
      obtain ⟨hhead, htail⟩ := List.pairwise_cons.mp h
      unfold insertEntry
      split_ifs with hlt heq
      · refine List.pairwise_cons.mpr ⟨fun b hb => ?_, h⟩
        rcases List.mem_cons.mp hb with rfl | hmem
        · exact hlt
        · exact lt_trans hlt (hhead b hmem)
      · exact List.pairwise_cons.mpr ⟨fun b hb => (heq ▸ hhead b hb : k < b.1), htail⟩
      · refine List.pairwise_cons.mpr ⟨fun b hb => ?_, ih htail⟩
        rcases mem_insertEntry hb with rfl | hmem
        · exact lt_of_le_of_ne (not_lt.mp hlt) fun h => heq h.symm
        · exact hhead b hmem

def insert (m : OrderedMap κ α) (k : κ) (v : α) : OrderedMap κ α :=
  ⟨insertEntry k v m.entries, insertEntry_sorted m.sorted⟩

/-- `entry(k).or_insert(v)`. -/
def insertNew (m : OrderedMap κ α) (k : κ) (v : α) : OrderedMap κ α :=
  if m.contains k then m else m.insert k v

/-- Insert the entries of a list one after the other. -/
def extend (m : OrderedMap κ α) (l : List (κ × α)) : OrderedMap κ α :=
  l.foldl (fun m e => m.insert e.1 e.2) m

/-- Drop the entry of a key. -/
def erase (m : OrderedMap κ α) (k : κ) : OrderedMap κ α :=
  ⟨m.entries.filter fun e => e.1 ≠ k, m.sorted.filter _⟩

/-! ## Looking up -/

@[simp] lemma get?_empty (k : κ) : (empty : OrderedMap κ α).get? k = none := rfl

lemma lookup_cons_if (k : κ) (e : κ × α) (es : List (κ × α)) :
    (e :: es).lookup k = if k = e.1 then some e.2 else es.lookup k := by
  rw [List.lookup_cons]
  split_ifs with h
  · rw [beq_iff_eq.mpr h]
  · rw [beq_eq_false_iff_ne.mpr h]

lemma lookup_insertEntry (k k' : κ) (v : α) (es : List (κ × α)) :
    (insertEntry k v es).lookup k' = if k' = k then some v else es.lookup k' := by
  induction es with
  | nil =>
      rw [insertEntry, lookup_cons_if]
  | cons e es ih =>
      unfold insertEntry
      by_cases hlt : k < e.1
      · rw [if_pos hlt, lookup_cons_if]
      · rw [if_neg hlt]
        by_cases heq : k = e.1
        · rw [if_pos heq, lookup_cons_if, lookup_cons_if]
          dsimp only
          split_ifs with hk hk'
          · rfl
          · exact absurd (hk'.trans heq.symm) hk
          · rfl
        · rw [if_neg heq, lookup_cons_if, lookup_cons_if, ih]
          split_ifs with hk hk'
          · exact absurd (hk'.symm.trans hk) heq
          · rfl
          · rfl
          · rfl

/-- Putting the value that is there changes nothing. -/
lemma insertEntry_of_lookup {k : κ} {v : α} {es : List (κ × α)}
    (hsorted : es.Pairwise fun a b => a.1 < b.1) (h : es.lookup k = some v) :
    insertEntry k v es = es := by
  induction es with
  | nil => cases h
  | cons e es ih =>
      obtain ⟨hhead, htail⟩ := List.pairwise_cons.mp hsorted
      rw [lookup_cons_if] at h
      unfold insertEntry
      split_ifs at h with heq
      · cases h
        rw [if_neg (heq ▸ lt_irrefl _), if_pos heq, heq]
      · have hrest := ih htail h
        have hlt : ¬ k < e.1 := by
          intro hlt
          -- the keys behind the first one are larger, and `k` is among them
          obtain ⟨e', he', hk⟩ : ∃ e' ∈ es, e'.1 = k := by
            have hmem : (k, v) ∈ insertEntry k v es := by
              obtain ⟨l, l', hinsert⟩ := exists_insertEntry (α := α) k es
              rw [hinsert]
              exact List.mem_append_right _ List.mem_cons_self
            exact ⟨(k, v), hrest ▸ hmem, rfl⟩
          exact absurd (hlt.trans ((hhead e' he').trans_eq hk)) (lt_irrefl k)
        rw [if_neg hlt, if_neg heq, hrest]

lemma get?_insert (m : OrderedMap κ α) (k k' : κ) (v : α) :
    (m.insert k v).get? k' = if k' = k then some v else m.get? k' :=
  lookup_insertEntry k k' v m.entries

@[simp] lemma get?_insert_self (m : OrderedMap κ α) (k : κ) (v : α) :
    (m.insert k v).get? k = some v := by
  rw [get?_insert, if_pos rfl]

lemma get?_insert_of_ne (m : OrderedMap κ α) {k k' : κ} (h : k' ≠ k) (v : α) :
    (m.insert k v).get? k' = m.get? k' := by
  rw [get?_insert, if_neg h]

lemma get?_insertNew (m : OrderedMap κ α) (k k' : κ) (v : α) :
    (m.insertNew k v).get? k' = if k' = k then some ((m.get? k).getD v) else m.get? k' := by
  unfold insertNew contains
  cases hk : m.get? k with
  | none => rw [Option.isSome_none, if_neg (by decide), get?_insert, Option.getD_none]
  | some w =>
      rw [Option.isSome_some, if_pos rfl, Option.getD_some]
      split_ifs with h
      · rw [h, hk]
      · rfl

/-- A key that the list has gets one of its values there, another keeps its value. -/
lemma get?_extend (m : OrderedMap κ α) (l : List (κ × α)) (k : κ) :
    (k ∉ l.map Prod.fst ∧ (m.extend l).get? k = m.get? k) ∨
      ∃ v, (k, v) ∈ l ∧ (m.extend l).get? k = some v := by
  induction l generalizing m with
  | nil => exact .inl ⟨by simp, rfl⟩
  | cons e l ih =>
      rcases ih (m.insert e.1 e.2) with ⟨hmem, hget⟩ | ⟨v, hv, hget⟩
      · by_cases hk : k = e.1
        · refine .inr ⟨e.2, hk ▸ List.mem_cons_self, ?_⟩
          rw [extend, List.foldl_cons]
          exact hget.trans (by rw [hk, get?_insert_self])
        · refine .inl ⟨?_, ?_⟩
          · rw [List.map_cons, List.mem_cons, not_or]
            exact ⟨hk, hmem⟩
          · rw [extend, List.foldl_cons]
            exact hget.trans (get?_insert_of_ne m hk e.2)
      · exact .inr ⟨v, List.mem_cons_of_mem _ hv, hget⟩

/-- The entries are the keys with their values. -/
lemma mem_entries {m : OrderedMap κ α} {k : κ} {v : α} :
    (k, v) ∈ m.entries ↔ m.get? k = some v := by
  obtain ⟨es, hsorted⟩ := m
  unfold get?
  dsimp only
  induction es with
  | nil => simp
  | cons e es ih =>
      obtain ⟨hhead, htail⟩ := List.pairwise_cons.mp hsorted
      obtain ⟨k', v'⟩ := e
      rw [List.mem_cons, ih htail, lookup_cons_if, Prod.mk.injEq]
      split_ifs with hk
      · subst hk
        have hnone : es.lookup k ≠ some v := fun hv =>
          absurd (hhead _ ((ih htail).mpr hv)) (lt_irrefl k)
        rw [Option.some.injEq]
        constructor
        · rintro (⟨_, rfl⟩ | hv)
          · rfl
          · exact absurd hv hnone
        · rintro rfl
          exact .inl ⟨rfl, rfl⟩
      · exact or_iff_right fun h => hk h.1

lemma entries_nodup (m : OrderedMap κ α) : (m.entries.map Prod.fst).Nodup := by
  rw [List.Nodup, List.pairwise_map]
  exact m.sorted.imp fun h => ne_of_lt h

/-- Two maps with the same values are equal. -/
@[ext] theorem ext_get? {m m' : OrderedMap κ α} (h : ∀ k, m.get? k = m'.get? k) : m = m' := by
  have hmem : ∀ e, e ∈ m.entries ↔ e ∈ m'.entries := by
    rintro ⟨k, v⟩
    rw [mem_entries, mem_entries, h]
  have hperm : m.entries.Perm m'.entries :=
    (List.perm_ext_iff_of_nodup m.entries_nodup.of_map m'.entries_nodup.of_map).mpr hmem
  have heq := hperm.eq_of_pairwise (fun a b _ _ hab hba => absurd (lt_trans hab hba) (lt_irrefl _))
    m.sorted m'.sorted
  cases m
  cases m'
  cases heq
  rfl

lemma get?_erase (m : OrderedMap κ α) (k k' : κ) :
    (m.erase k).get? k' = if k' = k then none else m.get? k' := by
  apply Option.ext
  intro v
  rw [← mem_entries]
  show (k', v) ∈ m.entries.filter (fun e => e.1 ≠ k) ↔ _
  rw [List.mem_filter, mem_entries]
  by_cases h : k' = k
  · simp [h]
  · simp [h]

@[simp] lemma get?_erase_self (m : OrderedMap κ α) (k : κ) : (m.erase k).get? k = none := by
  rw [get?_erase, if_pos rfl]

lemma get?_erase_of_ne (m : OrderedMap κ α) {k k' : κ} (h : k' ≠ k) :
    (m.erase k).get? k' = m.get? k' := by
  rw [get?_erase, if_neg h]

lemma contains_iff {m : OrderedMap κ α} {k : κ} : m.contains k = true ↔ ∃ v, m.get? k = some v :=
  Option.isSome_iff_exists

end OrderedMap

end Pawrly
