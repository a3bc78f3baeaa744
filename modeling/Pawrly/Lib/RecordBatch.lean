import Mathlib.Algebra.GroupWithZero.Nat
import Mathlib.Data.List.Basic
import Mathlib.Tactic.Common

/-!
# Record batches

Columns of nullable cells under a schema.  A batch carries that its columns have the types of its
fields and as many cells as it has rows; `tryNew` builds one from columns that are checked for both.
Selecting columns keeps the rows: `Selects` is what each way of doing so has in common, and carries
over to the cells of a column over several batches (`columnOf_selects`).
-/

namespace RecordBatch

universe u v

/-- A field of a schema; its cells may be null. -/
structure Field (τ : Type u) where
  name : String
  type : τ
  deriving DecidableEq

/-- A column of cells of one type. -/
structure Column {τ : Type u} (Val : τ → Type v) where
  type : τ
  cells : List (Option (Val type))

/-- A schema, and a column for each of its fields. -/
structure Batch {τ : Type u} (Val : τ → Type v) where
  schema : List (Field τ)
  columns : List (Column Val)
  numRows : ℕ
  types : columns.map Column.type = schema.map Field.type
  lengths : ∀ c ∈ columns, c.cells.length = numRows

/-- Why columns do not make a batch. -/
inductive BatchError (τ : Type u)
  | columnCount (columns fields : ℕ)
  | noRowCount
  | rowCount
  | columnType (index : ℕ) (expected found : τ)
  deriving DecidableEq

variable {τ : Type u} [DecidableEq τ] {Val : τ → Type v}

/-- The first column whose type is not that of its field, from an index on. -/
def firstMismatch : ℕ → List (Column Val) → List (Field τ) → Option (ℕ × τ × τ)
  | i, c :: columns, f :: fields =>
      if c.type = f.type then firstMismatch (i + 1) columns fields else some (i, f.type, c.type)
  | _, _, _ => none

lemma types_of_firstMismatch {i : ℕ} {columns : List (Column Val)} {fields : List (Field τ)}
    (hlength : columns.length = fields.length) (h : firstMismatch i columns fields = none) :
    columns.map Column.type = fields.map Field.type := by
  induction columns generalizing i fields with
  | nil =>
      cases fields with
      | nil => rfl
      | cons f fields => cases hlength
  | cons c columns ih =>
      cases fields with
      | nil => cases hlength
      | cons f fields =>
          unfold firstMismatch at h
          split_ifs at h with htype
          rw [List.map_cons, List.map_cons, htype, ih (Nat.succ.inj hlength) h]

lemma firstMismatch_of_types {i : ℕ} {columns : List (Column Val)} {fields : List (Field τ)}
    (h : columns.map Column.type = fields.map Field.type) :
    firstMismatch i columns fields = none := by
  induction columns generalizing i fields with
  | nil => simp [firstMismatch]
  | cons c columns ih =>
      cases fields with
      | nil => simp at h
      | cons f fields =>
          rw [List.map_cons, List.map_cons, List.cons.injEq] at h
          rw [firstMismatch, if_pos h.1]
          exact ih h.2

/-- The row count that is given, or the length of the first column. -/
def rowCountOf (rowCount : Option ℕ) (columns : List (Column Val)) : Option ℕ :=
  rowCount.or (columns.head?.map fun c => c.cells.length)

/-- `RecordBatch::try_new_with_options`, with the row count of the options. -/
def tryNew (schema : List (Field τ)) (columns : List (Column Val)) (rowCount : Option ℕ) :
    Except (BatchError τ) (Batch Val) :=
  if hlength : columns.length = schema.length then
    match rowCountOf rowCount columns with
    | none => .error .noRowCount
    | some n =>
        if hrows : ∀ c ∈ columns, c.cells.length = n then
          match hmatch : firstMismatch 0 columns schema with
          | some (i, expected, found) => .error (.columnType i expected found)
          | none => .ok
              { schema := schema
                columns := columns
                numRows := n
                types := types_of_firstMismatch hlength hmatch
                lengths := hrows }
        else .error .rowCount
  else .error (.columnCount columns.length schema.length)

/-- What `tryNew` makes has the schema and the columns it was given. -/
lemma tryNew_eq_ok {schema : List (Field τ)} {columns : List (Column Val)} {rowCount : Option ℕ}
    {batch : Batch Val} :
    tryNew schema columns rowCount = .ok batch ↔
      batch.schema = schema ∧ batch.columns = columns ∧
        rowCountOf rowCount columns = some batch.numRows := by
  unfold tryNew
  constructor
  · intro h
    split_ifs at h with hlength
    split at h
    · cases h
    · rename_i n hn
      split_ifs at h with hrows
      split at h
      · cases h
      · cases h
        exact ⟨rfl, rfl, hn⟩
  · obtain ⟨schema', columns', n, htypes, hrows⟩ := batch
    rintro ⟨rfl, rfl, hn⟩
    have hlength : columns'.length = schema'.length := by
      simpa using congrArg List.length htypes
    dsimp only at hn
    rw [dif_pos hlength, hn]
    dsimp only
    rw [dif_pos hrows]
    split
    · rename_i h
      rw [firstMismatch_of_types htypes] at h
      cases h
    · rfl

/-- Columns of the types of the fields and of one length make a batch. -/
lemma tryNew_isOk_iff {schema : List (Field τ)} {columns : List (Column Val)} {n : ℕ}
    (hrows : ∀ c ∈ columns, c.cells.length = n) :
    (∃ batch, tryNew schema columns none = .ok batch) ↔
      columns ≠ [] ∧ columns.map Column.type = schema.map Field.type := by
  constructor
  · rintro ⟨batch, h⟩
    obtain ⟨rfl, rfl, hn⟩ := tryNew_eq_ok.mp h
    refine ⟨?_, batch.types⟩
    intro hnil
    rw [hnil] at hn
    cases hn
  · rintro ⟨hne, htypes⟩
    obtain ⟨c, columns, rfl⟩ := List.exists_cons_of_ne_nil hne
    have hn : rowCountOf none (c :: columns) = some n :=
      congrArg some (hrows c List.mem_cons_self)
    exact ⟨⟨schema, c :: columns, n, htypes, hrows⟩, tryNew_eq_ok.mpr ⟨rfl, rfl, hn⟩⟩

/-! ## Selected columns -/

/-- The elements at the indices, if each is an index. -/
def select {α : Type*} (xs : List α) (indices : List ℕ) : Option (List α) :=
  indices.mapM fun i => xs[i]?

section Select

variable {α β : Type*} {xs ys : List α} {indices : List ℕ}

lemma select_nil (xs : List α) : select xs [] = some [] := by
  simp [select]

lemma select_cons (xs : List α) (i : ℕ) (indices : List ℕ) :
    select xs (i :: indices) = xs[i]?.bind fun x => (select xs indices).map (x :: ·) := by
  unfold select
  rw [List.mapM_cons]
  cases xs[i]? <;> cases indices.mapM (fun i => xs[i]?) <;> rfl

lemma select_of_lt (h : ∀ i ∈ indices, i < xs.length) : ∃ ys, select xs indices = some ys := by
  induction indices with
  | nil => exact ⟨[], select_nil xs⟩
  | cons i indices ih =>
      obtain ⟨ys, hys⟩ := ih fun j hj => h j (List.mem_cons_of_mem _ hj)
      have hi : i < xs.length := h i List.mem_cons_self
      refine ⟨xs[i] :: ys, ?_⟩
      rw [select_cons, List.getElem?_eq_getElem hi, hys]
      rfl

lemma lt_of_select (h : select xs indices = some ys) : ∀ i ∈ indices, i < xs.length := by
  induction indices generalizing ys with
  | nil => simp
  | cons i indices ih =>
      rw [select_cons, Option.bind_eq_some_iff] at h
      obtain ⟨x, hx, h⟩ := h
      obtain ⟨zs, hzs, _⟩ := Option.map_eq_some_iff.mp h
      intro j hj
      rcases List.mem_cons.mp hj with rfl | hmem
      · exact (List.getElem?_eq_some_iff.mp hx).1
      · exact ih hzs j hmem

lemma select_map (f : α → β) (xs : List α) (indices : List ℕ) :
    select (xs.map f) indices = (select xs indices).map (List.map f) := by
  induction indices with
  | nil => rw [select_nil, select_nil]; rfl
  | cons i indices ih =>
      rw [select_cons, select_cons, List.getElem?_map, ih]
      cases xs[i]? with
      | none => rfl
      | some x => cases select xs indices <;> rfl

/-- What stands at a place of the selection. -/
lemma getElem?_of_select (h : select xs indices = some ys) (j : ℕ) :
    ys[j]? = indices[j]?.bind fun i => xs[i]? := by
  induction indices generalizing ys j with
  | nil =>
      rw [select_nil] at h
      cases h
      simp
  | cons i indices ih =>
      rw [select_cons, Option.bind_eq_some_iff] at h
      obtain ⟨x, hx, h⟩ := h
      obtain ⟨zs, hzs, rfl⟩ := Option.map_eq_some_iff.mp h
      cases j with
      | zero => simp [hx]
      | succ j => simpa using ih hzs j

lemma mem_of_select (h : select xs indices = some ys) {y : α} (hy : y ∈ ys) : y ∈ xs := by
  obtain ⟨j, hj⟩ := List.mem_iff_getElem?.mp hy
  rw [getElem?_of_select h, Option.bind_eq_some_iff] at hj
  obtain ⟨i, _, hi⟩ := hj
  exact List.mem_of_getElem? hi

lemma length_of_select (h : select xs indices = some ys) : ys.length = indices.length := by
  induction indices generalizing ys with
  | nil =>
      rw [select_nil] at h
      cases h
      rfl
  | cons i indices ih =>
      rw [select_cons, Option.bind_eq_some_iff] at h
      obtain ⟨x, _, h⟩ := h
      obtain ⟨zs, hzs, rfl⟩ := Option.map_eq_some_iff.mp h
      simpa using ih hzs

end Select

/-- The second batch has the selected columns of the first, and its rows. -/
structure Selects (indices : List ℕ) (batch batch' : Batch Val) : Prop where
  schema : select batch.schema indices = some batch'.schema
  columns : select batch.columns indices = some batch'.columns
  numRows : batch'.numRows = batch.numRows

omit [DecidableEq τ] in
lemma types_of_select {batch : Batch Val} {indices : List ℕ} {fields : List (Field τ)}
    {columns : List (Column Val)} (hfields : select batch.schema indices = some fields)
    (hcolumns : select batch.columns indices = some columns) :
    columns.map Column.type = fields.map Field.type := by
  have htypes : select (batch.columns.map Column.type) indices =
      select (batch.schema.map Field.type) indices := congrArg (select · indices) batch.types
  rw [select_map, select_map, hcolumns, hfields] at htypes
  exact Option.some.inj htypes

/-- The selected columns make a batch, if a column is selected or the number of rows is given. -/
lemma tryNew_of_select {batch : Batch Val} {indices : List ℕ} {fields : List (Field τ)}
    {columns : List (Column Val)} {rowCount : Option ℕ}
    (hfields : select batch.schema indices = some fields)
    (hcolumns : select batch.columns indices = some columns)
    (hcount : rowCount = some batch.numRows ∨ rowCount = none ∧ indices ≠ []) :
    ∃ batch', tryNew fields columns rowCount = .ok batch' ∧ Selects indices batch batch' := by
  have hlengths : ∀ c ∈ columns, c.cells.length = batch.numRows :=
    fun c hc => batch.lengths c (mem_of_select hcolumns hc)
  have hrows : rowCountOf rowCount columns = some batch.numRows := by
    rcases hcount with rfl | ⟨rfl, hne⟩
    · rfl
    · have hlength := length_of_select hcolumns
      cases columns with
      | nil => exact absurd (List.length_eq_zero_iff.mp hlength.symm) hne
      | cons c columns => exact congrArg some (hlengths c List.mem_cons_self)
  let selected : Batch Val :=
    ⟨fields, columns, batch.numRows, types_of_select hfields hcolumns, hlengths⟩
  exact ⟨selected, tryNew_eq_ok.mpr ⟨rfl, rfl, hrows⟩, hfields, hcolumns, rfl⟩

/-- Without a column there is no number of rows. -/
lemma tryNew_nil (fields : List (Field τ)) (batch : Batch Val) :
    tryNew fields [] none ≠ .ok batch := by
  intro h
  cases (tryNew_eq_ok.mp h).2.2

/-- `RecordBatch::project`, which keeps the number of rows. -/
def Batch.project (batch : Batch Val) (indices : List ℕ) : Option (Batch Val) :=
  match hfields : select batch.schema indices, hcolumns : select batch.columns indices with
  | some fields, some columns => some
      { schema := fields
        columns := columns
        numRows := batch.numRows
        types := types_of_select hfields hcolumns
        lengths := fun c hc => batch.lengths c (mem_of_select hcolumns hc) }
  | _, _ => none

omit [DecidableEq τ] in
lemma project_of_lt {batch : Batch Val} {indices : List ℕ}
    (h : ∀ i ∈ indices, i < batch.schema.length) :
    ∃ batch', batch.project indices = some batch' ∧ Selects indices batch batch' := by
  have hlength : batch.columns.length = batch.schema.length := by
    simpa using congrArg List.length batch.types
  obtain ⟨fields, hfields⟩ := select_of_lt h
  obtain ⟨columns, hcolumns⟩ := @select_of_lt _ batch.columns _ (by rwa [hlength])
  unfold Batch.project
  split
  · rename_i fields' columns' hfields' hcolumns'
    exact ⟨_, rfl, hfields', hcolumns', rfl⟩
  · rename_i hno
    exact absurd hcolumns (hno fields columns hfields)

/-- `slice` from the first row: at most `n` rows. -/
def Batch.slice (batch : Batch Val) (n : ℕ) : Batch Val where
  schema := batch.schema
  columns := batch.columns.map fun c => ⟨c.type, c.cells.take n⟩
  numRows := min n batch.numRows
  types := by rw [List.map_map]; exact batch.types
  lengths := by
    intro c hc
    obtain ⟨d, hd, rfl⟩ := List.mem_map.mp hc
    rw [List.length_take, batch.lengths d hd]

/-! ## Several batches -/

/-- The number of rows of all batches. -/
def rowCount (batches : List (Batch Val)) : ℕ := (batches.map Batch.numRows).sum

/-- The cells of a column over all batches. -/
def columnOf (batches : List (Batch Val)) (i : ℕ) : List (Σ t, Option (Val t)) :=
  batches.flatMap fun batch =>
    (batch.columns[i]?).elim [] fun c => c.cells.map (Sigma.mk c.type)

section Batches

variable {indices : List ℕ} {batches batches' : List (Batch Val)}

omit [DecidableEq τ] in
lemma rowCount_selects (h : List.Forall₂ (Selects indices) batches batches') :
    rowCount batches' = rowCount batches := by
  unfold rowCount
  induction h with
  | nil => rfl
  | cons hsel _ ih =>
      rw [List.map_cons, List.map_cons, List.sum_cons, List.sum_cons, ih, hsel.numRows]

omit [DecidableEq τ] in
lemma columnOf_selects (h : List.Forall₂ (Selects indices) batches batches') {i j : ℕ}
    (hj : indices[j]? = some i) : columnOf batches' j = columnOf batches i := by
  unfold columnOf
  induction h with
  | nil => rfl
  | cons hsel _ ih =>
      rw [List.flatMap_cons, List.flatMap_cons, ih, getElem?_of_select hsel.columns, hj]
      rfl

end Batches

end RecordBatch
