import Mathlib.Data.List.Basic
import Mathlib.Tactic.Common

/-!
# Comma separated values

The format of RFC 4180, over all characters: records end with a line break, fields are separated by
commas, and a field that has a quote, a comma or a line break in it stands in quotes, with its own
quotes doubled.  A reader takes the text character by character; it takes a line feed alone for a line
break as well.  Reading what was written gives the records back (`parse_write`), as long as each has a
field: without one, a record is an empty line, which reads as one empty field.
-/

namespace Csv

/-! ## Writing -/

/-- The characters that a field does not hold outside quotes. -/
def isSpecial (c : Char) : Bool := c = '"' || c = ',' || c = '\n' || c = '\r'

/-- A field with its quotes doubled. -/
def doubleQuotes (cell : List Char) : List Char :=
  cell.flatMap fun c => if c = '"' then ['"', '"'] else [c]

def writeCell (cell : List Char) : List Char :=
  if cell.any isSpecial then '"' :: doubleQuotes cell ++ ['"'] else cell

def writeRow : List (List Char) → List Char
  | [] => ['\n']
  | [cell] => writeCell cell ++ ['\n']
  | cell :: cells => writeCell cell ++ ',' :: writeRow cells

/-- Records, each with its line break. -/
def write (rows : List (List (List Char))) : List Char := rows.flatMap writeRow

/-! ## Reading -/

/-- Where a reader stands: before a record or a further field, in a field, in a quoted one, behind a
quote of it, or behind a carriage return. -/
inductive Place
  | record
  | field
  | plain
  | quoted
  | closed
  | cr
  deriving DecidableEq

/-- A reader, with the field, the record and the records it has read. -/
structure Reader where
  place : Place := .record
  cell : List Char := []
  row : List (List Char) := []
  rows : List (List (List Char)) := []
  deriving DecidableEq

namespace Reader

/-- A comma ends a field. -/
def endCell (r : Reader) : Reader :=
  { place := .field, cell := [], row := r.row ++ [r.cell], rows := r.rows }

/-- A line break ends a record. -/
def endRow (r : Reader) : Reader :=
  { place := .record, cell := [], row := [], rows := r.rows ++ [r.row ++ [r.cell]] }

def push (r : Reader) (place : Place) (c : Char) : Reader :=
  { r with place := place, cell := r.cell ++ [c] }

/-- Outside quotes, a comma and a line break separate; a quote stands at the start of a field or
behind one only. -/
def outside (r : Reader) (c : Char) : Option Reader :=
  if c = ',' then some r.endCell
  else if c = '\n' then some r.endRow
  else if c = '\r' then some { r with place := .cr }
  else if c = '"' then
    match r.place with
    | .record | .field => some { r with place := .quoted }
    | .closed => some (r.push .quoted '"')
    | _ => none
  else if r.place = .closed then none
  else some (r.push .plain c)

def step (r : Reader) (c : Char) : Option Reader :=
  match r.place with
  | .quoted => if c = '"' then some { r with place := .closed } else some (r.push .quoted c)
  | .cr => if c = '\n' then some r.endRow else none
  | _ => r.outside c

/-- The end of the text ends the record that was begun. -/
def finish (r : Reader) : Option (List (List (List Char))) :=
  match r.place with
  | .record => some r.rows
  | .quoted | .cr => none
  | _ => some r.endRow.rows

def run (r : Reader) (cs : List Char) : Option Reader := cs.foldlM step r

end Reader

/-- The records of a text. -/
def parse (cs : List Char) : Option (List (List (List Char))) :=
  (Reader.run {} cs).bind Reader.finish

/-! ## Round trip -/

namespace Reader

variable {r : Reader} {cell : List Char}

lemma run_cons {r' : Reader} {c : Char} (h : r.step c = some r') (cs : List Char) :
    r.run (c :: cs) = r'.run cs := by
  rw [run, List.foldlM_cons, h]
  rfl

lemma run_append {r' : Reader} {as : List Char} (h : r.run as = some r') (bs : List Char) :
    r.run (as ++ bs) = r'.run bs := by
  unfold run at h ⊢
  rw [List.foldlM_append, h]
  rfl

/-- In quotes, the doubled text of a field is the field. -/
lemma run_doubleQuotes (hplace : r.place = .quoted) :
    r.run (doubleQuotes cell) = some { r with cell := r.cell ++ cell } := by
  induction cell generalizing r with
  | nil => simp [doubleQuotes, run]
  | cons c cell ih =>
      have hcons : doubleQuotes (c :: cell) =
          (if c = '"' then ['"', '"'] else [c]) ++ doubleQuotes cell := List.flatMap_cons
      have hread : r.run (if c = '"' then ['"', '"'] else [c]) = some (r.push .quoted c) := by
        by_cases hc : c = '"'
        · subst hc
          simp [run, step, outside, push, hplace]
        · simp [hc, run, step, push, hplace]
      rw [hcons, run_append hread, ih rfl]
      simp [push, hplace]

/-- Outside quotes, a text without special characters is the field. -/
lemma run_plain (hplace : r.place = .plain) (hcell : ∀ c ∈ cell, isSpecial c = false) :
    r.run cell = some { r with cell := r.cell ++ cell } := by
  induction cell generalizing r with
  | nil => simp [run]
  | cons c cell ih =>
      obtain ⟨hc, hcell⟩ := List.forall_mem_cons.mp hcell
      have hstep : r.step c = some (r.push .plain c) := by
        simp only [isSpecial, Bool.or_eq_false_iff, decide_eq_false_iff_not] at hc
        simp [step, hplace, outside, hc]
      rw [run_cons hstep, ih rfl hcell]
      simp [push, hplace]

/-- A field is over where a comma or a line break can follow it. -/
def Ends (r : Reader) : Prop := r.place ≠ .quoted ∧ r.place ≠ .cr

lemma step_comma (h : r.Ends) : r.step ',' = some r.endCell := by
  obtain ⟨hquoted, hcr⟩ := h
  unfold step
  split
  · contradiction
  · contradiction
  · rfl

lemma step_newline (h : r.Ends) : r.step '\n' = some r.endRow := by
  obtain ⟨hquoted, hcr⟩ := h
  unfold step
  split
  · contradiction
  · contradiction
  · rfl

/-- A reader before a field. -/
def Before (r : Reader) : Prop := (r.place = .record ∨ r.place = .field) ∧ r.cell = []

/-- A field that was written is read. -/
lemma run_writeCell (h : r.Before) :
    ∃ place, r.run (writeCell cell) = some { r with place := place, cell := cell } ∧
      Ends { r with place := place, cell := cell } := by
  obtain ⟨hplace, hempty⟩ := h
  unfold writeCell
  by_cases hspecial : cell.any isSpecial = true
  · have hopen : r.step '"' = some { r with place := .quoted } := by
      rcases hplace with hplace | hplace <;> simp [step, outside, hplace]
    have hclose : ({ r with place := .quoted, cell := cell } : Reader).run ['"'] =
        some { r with place := .closed, cell := cell } := by
      simp [run, step]
    refine ⟨.closed, ?_, by simp, by simp⟩
    rw [if_pos hspecial, List.cons_append, run_cons hopen,
      run_append (run_doubleQuotes rfl), ← hclose]
    simp [hempty]
  · rw [if_neg hspecial]
    cases cell with
    | nil =>
        refine ⟨r.place, ?_, ?_⟩
        · show some r = _
          rw [← hempty]
        · rcases hplace with hplace | hplace <;> simp [Ends, hplace]
    | cons c cell =>
        simp only [List.any_eq_true, not_exists, not_and, Bool.not_eq_true] at hspecial
        obtain ⟨hc, hcell⟩ := List.forall_mem_cons.mp hspecial
        have hstep : r.step c = some (r.push .plain c) := by
          simp only [isSpecial, Bool.or_eq_false_iff, decide_eq_false_iff_not] at hc
          rcases hplace with hplace | hplace <;> simp [step, outside, hplace, hc]
        refine ⟨.plain, ?_, by simp, by simp⟩
        rw [run_cons hstep, run_plain rfl hcell]
        simp [push, hempty]

/-- A record that was written is read. -/
lemma run_writeRow {cells : List (List Char)} (hne : cells ≠ []) (h : r.Before) :
    r.run (writeRow cells) =
      some { place := .record, cell := [], row := [], rows := r.rows ++ [r.row ++ cells] } := by
  induction cells generalizing r with
  | nil => contradiction
  | cons cell cells ih =>
      obtain ⟨place, hcell, hends⟩ := @run_writeCell r cell h
      cases cells with
      | nil =>
          rw [writeRow, run_append hcell, run_cons (step_newline hends)]
          simp [run, endRow]
      | cons cell' cells =>
          rw [writeRow, run_append hcell, run_cons (step_comma hends),
            ih (by simp) ⟨.inr rfl, rfl⟩]
          · simp [endCell]
          · simp

end Reader

/-- What was written is read. -/
theorem parse_write {rows : List (List (List Char))} (h : ∀ row ∈ rows, row ≠ []) :
    parse (write rows) = some rows := by
  have hrun : ∀ (r : Reader), r.place = .record → r.cell = [] → r.row = [] →
      r.run (write rows) = some { r with rows := r.rows ++ rows } := by
    induction rows with
    | nil => intro r _ _ _; simp [write, Reader.run]
    | cons row rows ih =>
        intro r hplace hcell hrow
        obtain ⟨hne, hrows⟩ := List.forall_mem_cons.mp h
        have hread := Reader.run_writeRow hne ⟨.inl hplace, hcell⟩
        rw [write, List.flatMap_cons, Reader.run_append hread]
        have hrest := ih hrows { rows := r.rows ++ [r.row ++ row] } rfl rfl rfl
        rw [write] at hrest
        rw [hrest]
        simp [hplace, hcell, hrow]
  rw [parse, hrun {} rfl rfl rfl]
  simp [Reader.finish]

/-- A record without a field reads as one empty field. -/
example : parse (write [[]]) = some [[[]]] := by decide

end Csv
