import Pawrly.Sql.Statements

/-!
# The parts of a `SELECT` in its text

A statement with one `SELECT` is cut at its keywords outside of parentheses: the expressions of its
list, its `FROM`, the conditions of its `WHERE` and its `LIMIT` (`readSelect`).  A name in quotes that
are not doubled in it is read as an identifier, which is the name exactly when it has no quote
(`lexFrom_rawIdent`, `lexFrom_rawIdent_inv`).
-/

namespace Pawrly
namespace Sql

/-! ## Cutting tokens -/

/-- The parentheses open behind a token. -/
def depthAfter (depth : ℕ) : Token → ℕ
  | .symbol '(' => depth + 1
  | .symbol ')' => depth - 1
  | _ => depth

/-- The tokens before the first one outside of parentheses that is asked for, and those behind it. -/
def cutAt (p : Token → Bool) : ℕ → List Token → List Token × Option (List Token)
  | _, [] => ([], none)
  | depth, t :: ts =>
      if depth = 0 && p t then ([], some ts)
      else
        let cut := cutAt p (depthAfter depth t) ts
        (t :: cut.1, cut.2)

/-- The tokens between those outside of parentheses that are asked for. -/
def splitTop (p : Token → Bool) : ℕ → List Token → List (List Token)
  | _, [] => [[]]
  | depth, t :: ts =>
      if depth = 0 && p t then [] :: splitTop p 0 ts
      else (splitTop p (depthAfter depth t) ts).modifyHead (t :: ·)

/-- The parts of a `SELECT`. -/
structure SelectText where
  items : List (List Token)
  source : List Token
  conditions : List (List Token)
  limit : Option (List Token)

def isComma (t : Token) : Bool := t = .symbol ','

/-- What stands behind `FROM`. -/
def readSource (items : List Token) (rest : List Token) : SelectText :=
  match cutAt (Token.isWord "WHERE") 0 rest with
  | (source, some conditions) =>
      let cut := cutAt (Token.isWord "LIMIT") 0 conditions
      { items := splitTop isComma 0 items
        source := source
        conditions := splitTop (Token.isWord "AND") 0 cut.1
        limit := cut.2 }
  | (_, none) =>
      let cut := cutAt (Token.isWord "LIMIT") 0 rest
      { items := splitTop isComma 0 items
        source := cut.1
        conditions := []
        limit := cut.2 }

/-- The parts of a statement that is one `SELECT`. -/
def readSelect : List Token → Option SelectText
  | t :: ts =>
      if t.isWord "SELECT" && !ts.contains semicolon then
        match cutAt (Token.isWord "FROM") 0 ts with
        | (items, some rest) => some (readSource items rest)
        | (_, none) => none
      else none
  | [] => none

lemma exists_of_readSelect {t : Token} {ts : List Token} {select : SelectText}
    (h : readSelect (t :: ts) = some select) :
    ∃ items rest, cutAt (Token.isWord "FROM") 0 ts = (items, some rest) ∧
      readSource items rest = select := by
  rw [readSelect] at h
  split_ifs at h
  split at h
  · rename_i items rest hcut
    exact ⟨items, rest, hcut, Option.some.inj h⟩
  · cases h

/-- The list of a statement is that of its source. -/
lemma readSource_items (items rest : List Token) :
    (readSource items rest).items = splitTop isComma 0 items := by
  unfold readSource
  split <;> rfl

/-! ## Tokens without parentheses -/

/-- The token is no parenthesis and none that is asked for. -/
def passes (p : Token → Bool) (t : Token) : Bool :=
  !p t && t ≠ .symbol '(' && t ≠ .symbol ')'

lemma not_of_passes {p : Token → Bool} {ts : List Token} (h : ∀ t ∈ ts, passes p t = true) :
    ∀ t ∈ ts, p t = false := by
  intro t ht
  have hpasses := h t ht
  simp only [passes, Bool.and_eq_true, Bool.not_eq_true'] at hpasses
  exact hpasses.1.1

lemma depthAfter_of_passes {p : Token → Bool} {t : Token} (h : passes p t = true) (depth : ℕ) :
    depthAfter depth t = depth := by
  simp only [passes, Bool.and_eq_true, decide_eq_true_eq] at h
  unfold depthAfter
  split
  · exact absurd rfl h.1.2
  · exact absurd rfl h.2
  · rfl

lemma cutAt_append {p : Token → Bool} {pre : List Token} (h : ∀ t ∈ pre, passes p t = true)
    (ts : List Token) : cutAt p 0 (pre ++ ts) = (pre ++ (cutAt p 0 ts).1, (cutAt p 0 ts).2) := by
  induction pre with
  | nil => rfl
  | cons t pre ih =>
      have hp : p t = false := not_of_passes h t List.mem_cons_self
      rw [List.forall_mem_cons] at h
      rw [List.cons_append, cutAt, hp, Bool.and_false, if_neg Bool.false_ne_true,
        depthAfter_of_passes h.1, ih h.2]
      rfl

lemma splitTop_append {p : Token → Bool} {pre : List Token} (h : ∀ t ∈ pre, passes p t = true)
    (ts : List Token) :
    splitTop p 0 (pre ++ ts) = (splitTop p 0 ts).modifyHead (pre ++ ·) := by
  induction pre with
  | nil =>
      show splitTop p 0 ts = (splitTop p 0 ts).modifyHead fun segment => segment
      cases splitTop p 0 ts <;> rfl
  | cons t pre ih =>
      have hp : p t = false := not_of_passes h t List.mem_cons_self
      rw [List.forall_mem_cons] at h
      rw [List.cons_append, splitTop, hp, Bool.and_false, if_neg Bool.false_ne_true,
        depthAfter_of_passes h.1, ih h.2, List.modifyHead_modifyHead]
      rfl

lemma splitTop_ne_nil (p : Token → Bool) (depth : ℕ) (ts : List Token) :
    splitTop p depth ts ≠ [] := by
  induction ts generalizing depth with
  | nil => exact List.cons_ne_nil _ _
  | cons t ts ih =>
      rw [splitTop]
      split_ifs
      · exact List.cons_ne_nil _ _
      · rw [Ne, List.modifyHead_eq_nil_iff]
        exact ih _

@[simp] lemma cutAt_hit {p : Token → Bool} {t : Token} (h : p t = true) (ts : List Token) :
    cutAt p 0 (t :: ts) = ([], some ts) := by
  simp [cutAt, h]

@[simp] lemma splitTop_hit {p : Token → Bool} {t : Token} (h : p t = true) (ts : List Token) :
    splitTop p 0 (t :: ts) = [] :: splitTop p 0 ts := by
  simp [splitTop, h]

/-- What follows a text that ends between tokens. -/
lemma lexFrom_scans {text : String} {ts : List Token} (h : Scans text ts) (rest : List Char) :
    lexFrom .ground (text.toList ++ rest) = (lexFrom .ground rest).map fun ts' => ts ++ ts' := by
  rw [lexFrom_append, h]

/-! ## Names in quotes -/

/-- A name with its quotes doubled. -/
def escapedIdent (name : List Char) : List Char :=
  name.flatMap fun a => if a = '"' then ['"', '"'] else [a]

lemma escapedIdent_quote (name : List Char) :
    escapedIdent ('"' :: name) = '"' :: '"' :: escapedIdent name := rfl

lemma escapedIdent_cons {c : Char} (hc : c ≠ '"') (name : List Char) :
    escapedIdent (c :: name) = c :: escapedIdent name := by
  simp [escapedIdent, hc]

/-- An identifier ends where no further quote follows. -/
lemma lexFrom_identQuote (text : List Char) {cs : List Char} (h : cs.head? ≠ some '"') :
    lexFrom (.identQuote text) cs =
      (lexFrom .ground cs).map fun ts => .ident text.reverse :: ts := by
  cases cs with
  | nil => rfl
  | cons c cs =>
      have hc : c ≠ '"' := fun hc => h (by rw [hc]; rfl)
      have hstep : LexState.step (.identQuote text) c = LexState.emit (.ident text.reverse) c := by
        simp [LexState.step, hc]
      rw [lexFrom_cons, lexFrom_cons, hstep, Option.map_map]
      rfl

/-- An identifier that has begun is read to the first quote that is not doubled. -/
lemma exists_of_lexFrom_ident {cs : List Char} :
    (∀ {text ts}, lexFrom (.ident text) cs = some ts →
      ∃ v rest ts', cs = escapedIdent v ++ '"' :: rest ∧ ts = .ident (text.reverse ++ v) :: ts' ∧
        lexFrom .ground rest = some ts') ∧
    ∀ {text ts}, lexFrom (.identQuote text) cs = some ts →
      ∃ v rest ts', '"' :: cs = escapedIdent v ++ '"' :: rest ∧
        ts = .ident (text.reverse ++ v) :: ts' ∧ lexFrom .ground rest = some ts' := by
  induction cs with
  | nil =>
      refine ⟨nofun, fun h => ⟨[], [], [], rfl, ?_, rfl⟩⟩
      cases h
      rw [List.append_nil]
      rfl
  | cons c cs ih =>
      obtain ⟨ihident, ihquote⟩ := ih
      by_cases hc : c = '"'
      · subst hc
        constructor
        · intro text ts h
          have hstep : LexState.step (.ident text) '"' = ([], .identQuote text) := by
            simp [LexState.step]
          rw [lexFrom_cons, hstep] at h
          exact ihquote (by simpa using h)
        · intro text ts h
          have hstep : LexState.step (.identQuote text) '"' = ([], .ident ('"' :: text)) := by
            simp [LexState.step]
          rw [lexFrom_cons, hstep] at h
          obtain ⟨v, rest, ts', rfl, rfl, hrest⟩ := ihident (by simpa using h)
          exact ⟨'"' :: v, rest, ts', by rw [escapedIdent_quote]; rfl, by simp, hrest⟩
      · constructor
        · intro text ts h
          have hstep : LexState.step (.ident text) c = ([], .ident (c :: text)) := by
            simp [LexState.step, hc]
          rw [lexFrom_cons, hstep] at h
          obtain ⟨v, rest, ts', rfl, rfl, hrest⟩ := ihident (by simpa using h)
          exact ⟨c :: v, rest, ts', by rw [escapedIdent_cons hc]; rfl, by simp, hrest⟩
        · intro text ts h
          rw [lexFrom_identQuote text (by simpa using hc)] at h
          obtain ⟨ts', hts', rfl⟩ := Option.map_eq_some_iff.mp h
          exact ⟨[], c :: cs, ts', rfl, by rw [List.append_nil], hts'⟩

/-- Quotes before a doubled text are too many for the text itself. -/
lemma replicate_escaped_ne {name rest rest' : List Char} (hrest : rest.head? ≠ some '"') (k : ℕ) :
    List.replicate (k + 1) '"' ++ escapedIdent name ++ '"' :: rest' ≠ name ++ '"' :: rest := by
  induction name generalizing k with
  | nil =>
      intro h
      rw [List.replicate_succ, List.cons_append, List.cons_append, List.nil_append,
        List.cons.injEq] at h
      refine hrest ?_
      rw [← h.2]
      cases k <;> rfl
  | cons c name ih =>
      by_cases hc : c = '"'
      · subst hc
        intro h
        refine ih (k + 1) ?_
        rw [escapedIdent_quote, List.replicate_succ, List.cons_append, List.cons_append,
          List.cons_append, List.cons.injEq] at h
        rw [← h.2, List.replicate_succ', List.replicate_succ']
        simp
      · rw [List.replicate_succ]
        intro h
        exact hc (List.cons.inj h).1.symm

/-- A doubled text is the text itself only without quotes. -/
lemma notMem_of_escaped {name rest rest' : List Char} (hrest : rest.head? ≠ some '"')
    (h : escapedIdent name ++ '"' :: rest' = name ++ '"' :: rest) : '"' ∉ name := by
  induction name with
  | nil => exact List.not_mem_nil
  | cons c name ih =>
      by_cases hc : c = '"'
      · subst hc
        rw [escapedIdent_quote, List.cons_append, List.cons_append, List.cons_append,
          List.cons.injEq] at h
        exact absurd h.2 (replicate_escaped_ne hrest 0)
      · rw [escapedIdent_cons hc, List.cons_append, List.cons_append, List.cons.injEq] at h
        intro hmem
        rcases List.mem_cons.mp hmem with hmem | hmem
        · exact hc hmem.symm
        · exact ih h.2 hmem

/-- **A name between quotes** is read as the name only if it has none itself. -/
lemma lexFrom_rawIdent_inv {name rest : List Char} (hrest : rest.head? ≠ some '"') {ts : List Token}
    (h : lexFrom .ground ('"' :: name ++ '"' :: rest) = some ts) :
    ∃ v ts', ts = .ident v :: ts' ∧ (v = name → '"' ∉ name) := by
  have hopen : LexState.step .ground '"' = ([], .ident []) := by decide
  rw [List.cons_append, lexFrom_cons, hopen] at h
  obtain ⟨v, rest', ts', hcs, rfl, -⟩ := exists_of_lexFrom_ident.1 (by simpa using h)
  refine ⟨v, ts', rfl, ?_⟩
  rintro rfl
  exact notMem_of_escaped hrest hcs.symm

lemma escapedIdent_eq_self {name : List Char} (h : '"' ∉ name) : escapedIdent name = name := by
  induction name with
  | nil => rfl
  | cons c name ih =>
      rw [List.mem_cons, not_or] at h
      rw [escapedIdent_cons (Ne.symm h.1), ih h.2]

/-- A name without quotes between quotes. -/
lemma lexFrom_rawIdent {name rest : List Char} (hname : '"' ∉ name) (hrest : rest.head? ≠ some '"') :
    lexFrom .ground ('"' :: name ++ '"' :: rest) =
      (lexFrom .ground rest).map fun ts => .ident name :: ts := by
  have hopen : LexState.step .ground '"' = ([], .ident []) := by decide
  have hname' : scanChars (.ident []) name = ([], .ident (name.reverse ++ [])) := by
    conv_lhs => rw [← escapedIdent_eq_self hname]
    exact scanChars_escapedIdent name []
  have hclose : LexState.step (.ident (name.reverse ++ [])) '"' =
      ([], .identQuote (name.reverse ++ [])) := by simp [LexState.step]
  rw [List.cons_append, lexFrom_cons, hopen, lexFrom_append, hname', lexFrom_cons, hclose,
    lexFrom_identQuote _ hrest]
  simp [Function.comp_def]

end Sql
end Pawrly
