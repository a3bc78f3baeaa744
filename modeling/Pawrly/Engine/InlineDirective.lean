import Pawrly.Config.Loader
import Pawrly.Engine.Materialize
import Pawrly.Lib.Separated
import Pawrly.Sql.SelectText

/-!
# The directive of a query

`parse_inline_materialize` takes the name out of the comment `-- pawrly: materialize <name>` at the head
of a query, and `query` reads the table of that name back (`pawrly-engine/src/local.rs`).  The keyword
is only looked for as the beginning of a text, the lines are put together again with plain newlines, and
the name is put in quotes as it is: `recognised_iff` and `refers_iff` say what follows.
-/

namespace Pawrly
namespace Engine
namespace InlineDirective

open Cache (materializedSchema)

/-! ## What is asked for -/

/-- The lines of a text, with an empty one behind a newline at its end. -/
def pieces (sql : String) : List (List Char) := sql.toList.splitOn '\n'

/-- The text without one of its lines. -/
def withoutLine (sql : String) (i : ℕ) : List Char := ['\n'].intercalate ((pieces sql).eraseIdx i)

def Blank (cs : List Char) : Prop := ∀ c ∈ cs, Text.isWhitespace c = true

def IsWord (cs : List Char) : Prop := cs ≠ [] ∧ ∀ c ∈ cs, Text.isWhitespace c = false

/-- A line of a block of comments. -/
def IsComment (line : List Char) : Prop :=
  Blank line ∨ ∃ w rest, Blank w ∧ line = w ++ ("--".toList ++ rest)

/-- A comment with the keyword, and what stands behind it. -/
def Keyword (line args : List Char) : Prop :=
  (∀ c ∈ args.getLast?, Text.isWhitespace c = false) ∧
    ∃ w₁ w₂ w₃ w₄, Blank w₁ ∧ Blank w₂ ∧ Blank w₃ ∧ Blank w₄ ∧
      line = w₁ ++ ("--".toList ++ (w₂ ++ ("pawrly:".toList ++ (w₃ ++ ("materialize".toList ++
        (args ++ w₄))))))

/-- `-- pawrly: materialize <name>`. -/
def IsDirective (line name : List Char) : Prop :=
  IsWord name ∧ ∃ w, w ≠ [] ∧ Blank w ∧ Keyword line (w ++ name)

/-- A line of the leading block of comments is the directive. -/
def DirectiveAt (sql : String) (i : ℕ) (name : String) : Prop :=
  ∃ line, (pieces sql)[i]? = some line ∧ IsDirective line name.toList ∧
    ∀ l ∈ (pieces sql).take i, IsComment l

/-- The directive is found where there is one, with its name and the rest of the text. -/
def Recognised (sql : String) : Prop :=
  ∀ name body, parseInlineMaterialize sql = some (name, body) ↔
    ∃ i, DirectiveAt sql i name ∧ body.toList = withoutLine sql i

/-- The statement that reads a table back. -/
def readSql (name : String) : String :=
  "SELECT * FROM " ++ materializedSchema ++ ".\"" ++ name ++ "\""

/-- The table that a qualified name stands for; only a name without quotes is in lower case. -/
def tableOf : List Sql.Token → Option (List Char × List Char)
  | [.word schema, .symbol '.', .ident table] => some (schema.map Char.toLower, table)
  | [.word schema, .symbol '.', .word table] => some (schema.map Char.toLower, table.map Char.toLower)
  | [.ident schema, .symbol '.', .ident table] => some (schema, table)
  | [.ident schema, .symbol '.', .word table] => some (schema, table.map Char.toLower)
  | _ => none

/-- The statement gives all columns and all rows of the table. -/
def Refers (name : String) : Prop :=
  ∃ select, (Sql.lex (readSql name)).bind Sql.readSelect = some select ∧
    select.items = [[.symbol '*']] ∧
    tableOf select.source = some (materializedSchema.toList, name.toList) ∧
    select.conditions = [] ∧ select.limit = none

/-- The path of the data file. -/
def filePath (root name : String) : String :=
  Config.joinPath (Config.joinPath (Config.joinPath (Config.joinPath root "data") materializedSchema) name)
    "part-000000.parquet"

/-- The names on a path (`Path::components`). -/
def segments (path : String) : List String :=
  (Text.split '/' path).filter fun part => part ≠ "" && part ≠ "."

/-! ## Blanks -/

lemma Blank.append {as bs : List Char} (ha : Blank as) (hb : Blank bs) : Blank (as ++ bs) :=
  List.forall_mem_append.mpr ⟨ha, hb⟩

lemma dropWhile_blank {as : List Char} (h : Blank as) : as.dropWhile Text.isWhitespace = [] :=
  List.dropWhile_eq_nil_iff.mpr h

/-- Blanks at the end of a line do not count. -/
lemma trimBoth_append {cs w : List Char} (h : Blank w) :
    Text.trimBoth Text.isWhitespace (cs ++ w) = Text.trimBoth Text.isWhitespace cs := by
  have hw : Blank w.reverse := fun c hc => h c (List.mem_reverse.mp hc)
  unfold Text.trimBoth
  rw [List.dropWhile_append]
  split_ifs with hcs
  · rw [dropWhile_blank h, List.isEmpty_iff.mp hcs]
  · rw [List.reverse_append, List.dropWhile_append_of_pos hw]

lemma trim_append {cs w : List Char} (h : Blank w) :
    Text.trim (String.ofList (cs ++ w)) = Text.trim (String.ofList cs) := by
  rw [Text.trim_eq, Text.trim_eq, String.toList_ofList, String.toList_ofList, trimBoth_append h]

lemma trim_blank {cs : List Char} (h : Blank cs) : Text.trim (String.ofList cs) = "" := by
  have htrim := @trim_append [] cs h
  rw [List.nil_append] at htrim
  exact htrim

/-- A trimmed text ends with another character. -/
lemma last_trim (s : String) : ∀ c ∈ (Text.trim s).toList.getLast?, Text.isWhitespace c = false := by
  intro c hc
  rw [Text.trim, String.toList_ofList, List.getLast?_reverse] at hc
  have hnot := List.head?_dropWhile_not Text.isWhitespace
    (s.toList.dropWhile Text.isWhitespace).reverse
  rw [Option.mem_def.mp hc] at hnot
  simpa using hnot

/-- Trimming takes the blanks away on both sides of a text. -/
lemma trim_eq_iff {s t : String} (hne : t ≠ "")
    (hhead : ∀ c ∈ t.toList.head?, Text.isWhitespace c = false)
    (hlast : ∀ c ∈ t.toList.getLast?, Text.isWhitespace c = false) :
    Text.trim s = t ↔ ∃ as bs, Blank as ∧ Blank bs ∧ s.toList = as ++ t.toList ++ bs := by
  have htrim := @Text.trimBoth_eq_iff Text.isWhitespace s.toList t.toList
    (fun h => hne (String.toList_eq_nil_iff.mp h)) hhead hlast
  refine Iff.trans ?_ htrim
  rw [Text.trim_eq]
  constructor
  · intro h
    rw [← h, String.toList_ofList]
  · intro h
    rw [h, String.ofList_toList]

/-! ## Lines -/

/-- What the scan takes a line for: what stands behind the keyword, if it is a comment with it. -/
def lineArgs (line : String) : Option String :=
  (Text.stripPrefix "--" (Text.trim line)).bind materializeArgs

/-- A text whose beginning is a word that has no blank at its ends. -/
lemma trim_word {s word rest : String} (hword : word ≠ "")
    (hhead : ∀ c ∈ word.toList.head?, Text.isWhitespace c = false)
    (h : Text.stripPrefix word (Text.trim s) = some rest) :
    ∃ as bs, Blank as ∧ Blank bs ∧ s.toList = as ++ (word.toList ++ (rest.toList ++ bs)) := by
  have htext := Text.stripPrefix_eq_some.mp h
  have hne : word.toList ≠ [] := fun hnil => hword (String.toList_eq_nil_iff.mp hnil)
  obtain ⟨c, cs, hcs⟩ := List.exists_cons_of_ne_nil hne
  have htrim : Text.trim s ≠ "" := by
    intro hnil
    rw [hnil, hcs] at htext
    exact absurd htext.symm (List.cons_ne_nil _ _)
  have hfirst : ∀ c ∈ (Text.trim s).toList.head?, Text.isWhitespace c = false := by
    rw [htext, hcs]
    rw [hcs] at hhead
    exact hhead
  obtain ⟨as, bs, has, hbs, hs⟩ := (trim_eq_iff htrim hfirst (last_trim s)).mp rfl
  refine ⟨as, bs, has, hbs, ?_⟩
  rw [hs, htext]
  simp only [List.append_assoc]

/-- The other direction, for what has no blank at its end. -/
lemma stripPrefix_trim {s word rest : String} (hword : word ≠ "")
    (hhead : ∀ c ∈ word.toList.head?, Text.isWhitespace c = false)
    (hlast : ∀ c ∈ (word.toList ++ rest.toList).getLast?, Text.isWhitespace c = false)
    {as bs : List Char} (has : Blank as) (hbs : Blank bs)
    (h : s.toList = as ++ (word.toList ++ (rest.toList ++ bs))) :
    Text.stripPrefix word (Text.trim s) = some rest := by
  have hne : word.toList ≠ [] := fun hnil => hword (String.toList_eq_nil_iff.mp hnil)
  obtain ⟨c, cs, hcs⟩ := List.exists_cons_of_ne_nil hne
  have htrim : Text.trim s = word ++ rest := by
    refine (trim_eq_iff ?_ ?_ ?_).mpr ⟨as, bs, has, hbs, ?_⟩
    · intro hnil
      have htext : word.toList ++ rest.toList = [] := by rw [← String.toList_append, hnil]; rfl
      exact hne (List.append_eq_nil_iff.mp htext).1
    · rw [String.toList_append, hcs]
      rw [hcs] at hhead
      exact hhead
    · rwa [String.toList_append]
    · rw [h, String.toList_append]
      simp only [List.append_assoc]
  rw [Text.stripPrefix_eq_some, htrim, String.toList_append]

/-- What ends with a word and then its arguments has no blank at its end. -/
lemma last_word {word args : List Char} (pre : List Char) (hne : word ≠ [])
    (hword : ∀ c ∈ word.getLast?, Text.isWhitespace c = false)
    (hargs : ∀ c ∈ args.getLast?, Text.isWhitespace c = false) :
    ∀ c ∈ (pre ++ (word ++ args)).getLast?, Text.isWhitespace c = false := by
  intro c hc
  rw [List.getLast?_append, List.getLast?_append] at hc
  cases hlast : args.getLast? with
  | some d =>
      rw [hlast] at hc
      exact hargs c (by rw [hlast]; exact hc)
  | none =>
      obtain ⟨d, hd⟩ := Option.isSome_iff_exists.mp (List.getLast?_isSome.mpr hne)
      rw [hlast, hd] at hc
      exact hword c (by rw [hd]; exact hc)

lemma lineArgs_iff (line args : String) :
    lineArgs line = some args ↔ Keyword line.toList args.toList := by
  have hdash : ∀ c ∈ "--".toList.head?, Text.isWhitespace c = false := by simp; decide
  have hpawrly : ∀ c ∈ "pawrly:".toList.head?, Text.isWhitespace c = false := by simp; decide
  have hkeyword : ∀ c ∈ "materialize".toList.head?, Text.isWhitespace c = false := by simp; decide
  have hlastKeyword : ∀ c ∈ "materialize".toList.getLast?, Text.isWhitespace c = false := by
    simp; decide
  unfold lineArgs materializeArgs
  constructor
  · intro h
    obtain ⟨comment, hcomment, h⟩ := Option.bind_eq_some_iff.mp h
    obtain ⟨rest, hrest, h⟩ := Option.bind_eq_some_iff.mp h
    obtain ⟨w₁, v₁, hw₁, hv₁, hline⟩ := trim_word (by simp) hdash hcomment
    obtain ⟨w₂, v₂, hw₂, hv₂, hcomment⟩ := trim_word (by simp) hpawrly hrest
    obtain ⟨w₃, v₃, hw₃, hv₃, hrest⟩ := trim_word (by simp) hkeyword h
    refine ⟨?_, w₁, w₂, w₃, v₃ ++ (v₂ ++ v₁), hw₁, hw₂, hw₃, hv₃.append (hv₂.append hv₁), ?_⟩
    · intro c hc
      refine last_trim rest c ?_
      rw [Text.stripPrefix_eq_some.mp h, List.getLast?_append, Option.mem_def.mp hc]
      rfl
    · rw [hline, hcomment, hrest]
      simp only [List.append_assoc]
  · rintro ⟨hlast, w₁, w₂, w₃, w₄, hw₁, hw₂, hw₃, hw₄, hline⟩
    have hend := fun pre => @last_word "materialize".toList args.toList pre (by simp) hlastKeyword hlast
    obtain ⟨rest, hrest⟩ : ∃ rest : String,
        rest.toList = w₃ ++ ("materialize".toList ++ args.toList) := ⟨_, String.toList_ofList⟩
    obtain ⟨comment, hcomment⟩ : ∃ comment : String,
        comment.toList = w₂ ++ ("pawrly:".toList ++ rest.toList) := ⟨_, String.toList_ofList⟩
    have hlastRest := hend ("pawrly:".toList ++ w₃)
    have hlastComment := hend ("--".toList ++ (w₂ ++ ("pawrly:".toList ++ w₃)))
    rw [List.append_assoc, ← hrest] at hlastRest
    rw [List.append_assoc, List.append_assoc, List.append_assoc, ← hrest, ← hcomment] at hlastComment
    refine Option.bind_eq_some_iff.mpr ⟨comment, ?_, Option.bind_eq_some_iff.mpr ⟨rest, ?_, ?_⟩⟩
    · refine stripPrefix_trim (by simp) hdash hlastComment hw₁ hw₄ ?_
      rw [hline, hcomment, hrest]
      simp only [List.append_assoc]
    · refine @stripPrefix_trim _ _ _ (by simp) hpawrly hlastRest w₂ [] hw₂ nofun ?_
      rw [hcomment, List.append_nil]
    · refine @stripPrefix_trim _ _ _ (by simp) hkeyword (hend []) w₃ [] hw₃ nofun ?_
      rw [hrest, List.append_nil]

lemma blank_iff (line : String) : Blank line.toList ↔ Text.trim line = "" := by
  constructor
  · intro h
    have htrim := trim_blank h
    rwa [String.ofList_toList] at htrim
  · intro h
    obtain ⟨before, after, hline, hbefore, hafter⟩ := Sql.trim_spec line
    rw [h, String.toList_empty, List.append_nil] at hline
    rw [hline]
    exact Blank.append hbefore hafter

/-- Every text ends in blanks, if in none. -/
lemma exists_blank_end (cs : List Char) : ∃ body w, cs = body ++ w ∧ Blank w ∧
    ∀ c ∈ body.getLast?, Text.isWhitespace c = false := by
  refine ⟨(cs.reverse.dropWhile Text.isWhitespace).reverse,
    (cs.reverse.takeWhile Text.isWhitespace).reverse, ?_, ?_, ?_⟩
  · rw [← List.reverse_append, List.takeWhile_append_dropWhile, List.reverse_reverse]
  · exact fun c hc => List.mem_takeWhile_imp (List.mem_reverse.mp hc)
  · intro c hc
    rw [List.getLast?_reverse] at hc
    have hnot := List.head?_dropWhile_not Text.isWhitespace cs.reverse
    rw [Option.mem_def.mp hc] at hnot
    simpa using hnot

/-- A line is a comment by what is left of it between blanks. -/
lemma isComment_iff (line : String) : IsComment line.toList ↔
    Text.trim line = "" ∨ (Text.stripPrefix "--" (Text.trim line)).isSome = true := by
  have hdash : ∀ c ∈ "--".toList.head?, Text.isWhitespace c = false := by simp; decide
  rw [IsComment, blank_iff]
  refine or_congr_right ?_
  constructor
  · rintro ⟨w, rest, hw, hline⟩
    have hlastDash : ∀ c ∈ "--".toList.getLast?, Text.isWhitespace c = false := by simp; decide
    obtain ⟨body, v, rfl, hv, hbody⟩ := exists_blank_end rest
    obtain ⟨comment, rfl⟩ : ∃ comment : String, comment.toList = body := ⟨_, String.toList_ofList⟩
    have hlast := @last_word "--".toList comment.toList [] (by simp) hlastDash hbody
    rw [stripPrefix_trim (by simp) hdash hlast hw hv hline]
    rfl
  · intro hsome
    obtain ⟨rest, hrest⟩ := Option.isSome_iff_exists.mp hsome
    obtain ⟨w, v, hw, -, hline⟩ := trim_word (by simp) hdash hrest
    exact ⟨w, _, hw, hline⟩

lemma Keyword.unique {line args args' : List Char} (h : Keyword line args)
    (h' : Keyword line args') : args = args' := by
  have hargs : ∀ args, Keyword line args → lineArgs (String.ofList line) = some (String.ofList args) := by
    intro args hargs
    rwa [lineArgs_iff, String.toList_ofList, String.toList_ofList]
  have heq := hargs args h
  rw [hargs args' h', Option.some.injEq, String.ofList_inj] at heq
  exact heq.symm

lemma Keyword.comment {line args : List Char} (h : Keyword line args) : IsComment line := by
  obtain ⟨-, w₁, w₂, w₃, w₄, hw₁, -, -, -, hline⟩ := h
  exact .inr ⟨w₁, _, hw₁, hline⟩

/-! ## The scan -/

/-- The first comment with the keyword in a leading block of comments. -/
def FirstKeyword (ls : List (List Char)) (i : ℕ) (args : List Char) : Prop :=
  (∃ line, ls[i]? = some line ∧ Keyword line args) ∧
    ∀ l ∈ ls.take i, IsComment l ∧ ∀ args, ¬ Keyword l args

lemma firstKeyword_zero (line : List Char) (ls : List (List Char)) (args : List Char) :
    FirstKeyword (line :: ls) 0 args ↔ Keyword line args := by
  simp [FirstKeyword]

lemma firstKeyword_succ (line : List Char) (ls : List (List Char)) (i : ℕ) (args : List Char) :
    FirstKeyword (line :: ls) (i + 1) args ↔
      (IsComment line ∧ ∀ args, ¬ Keyword line args) ∧ FirstKeyword ls i args := by
  simp only [FirstKeyword, List.getElem?_cons_succ, List.take_succ_cons, List.forall_mem_cons]
  tauto

variable {line : String} {ls : List String} {k : ℕ}

lemma directiveAt_token (h : ¬ IsComment line.toList) : directiveAt k (line :: ls) = none := by
  rw [isComment_iff, not_or, Option.not_isSome_iff_eq_none] at h
  rw [directiveAt, if_neg h.1, h.2]

lemma directiveAt_comment (h : IsComment line.toList) (hnone : lineArgs line = none) :
    directiveAt k (line :: ls) = directiveAt (k + 1) ls := by
  rw [directiveAt]
  split_ifs with hblank
  · rfl
  · obtain ⟨comment, hcomment⟩ :=
      Option.isSome_iff_exists.mp (((isComment_iff line).mp h).resolve_left hblank)
    rw [lineArgs, hcomment, Option.bind_some] at hnone
    rw [hcomment]
    dsimp only
    rw [hnone]

lemma directiveAt_keyword {args : String} (h : lineArgs line = some args) :
    directiveAt k (line :: ls) = (firstWord args).map fun name => (k, name) := by
  obtain ⟨comment, hcomment, hargs⟩ := Option.bind_eq_some_iff.mp h
  have hblank : Text.trim line ≠ "" := by
    intro hnil
    have hempty : Text.stripPrefix "--" "" = none := by decide
    rw [hnil, hempty] at hcomment
    cases hcomment
  rw [directiveAt, if_neg hblank, hcomment]
  dsimp only
  rw [hargs]

/-- The scan stops at the first comment with the keyword. -/
lemma directiveAt_eq_some_iff (n : ℕ) (name : String) : directiveAt k ls = some (n, name) ↔
    ∃ i args, FirstKeyword (ls.map String.toList) i args ∧
      firstWord (String.ofList args) = some name ∧ n = k + i := by
  induction ls generalizing k with
  | nil => simp [directiveAt, FirstKeyword]
  | cons line ls ih =>
      have hkeyword : ∀ args, Keyword line.toList args ↔ lineArgs line = some (String.ofList args) := by
        intro args
        rw [lineArgs_iff, String.toList_ofList]
      rw [List.map_cons]
      by_cases hcomment : IsComment line.toList
      · cases hargs : lineArgs line with
        | some args =>
            rw [directiveAt_keyword hargs, Option.map_eq_some_iff]
            constructor
            · rintro ⟨name', hname, hpair⟩
              obtain ⟨rfl, rfl⟩ := Prod.mk.inj hpair
              refine ⟨0, args.toList, ?_, by rwa [String.ofList_toList], rfl⟩
              rwa [firstKeyword_zero, hkeyword, String.ofList_toList]
            · rintro ⟨i, args', hfirst, hname, rfl⟩
              cases i with
              | zero =>
                  rw [firstKeyword_zero, hkeyword, hargs, Option.some.injEq] at hfirst
                  exact ⟨name, by rw [hfirst, hname], rfl⟩
              | succ i =>
                  rw [firstKeyword_succ] at hfirst
                  exact absurd ((lineArgs_iff line args).mp hargs) (hfirst.1.2 _)
        | none =>
            have hnot : ∀ args, ¬ Keyword line.toList args := by
              intro args h
              rw [hkeyword, hargs] at h
              cases h
            rw [directiveAt_comment hcomment hargs, ih]
            constructor
            · rintro ⟨i, args, hfirst, hname, rfl⟩
              exact ⟨i + 1, args, (firstKeyword_succ _ _ _ _).mpr ⟨⟨hcomment, hnot⟩, hfirst⟩, hname,
                by omega⟩
            · rintro ⟨i, args, hfirst, hname, rfl⟩
              cases i with
              | zero => exact absurd ((firstKeyword_zero _ _ _).mp hfirst) (hnot args)
              | succ i =>
                  exact ⟨i, args, ((firstKeyword_succ _ _ _ _).mp hfirst).2, hname, by omega⟩
      · rw [directiveAt_token hcomment]
        refine iff_of_false (by simp) ?_
        rintro ⟨i, args, hfirst, -, -⟩
        cases i with
        | zero => exact hcomment ((firstKeyword_zero _ _ _).mp hfirst).comment
        | succ i => exact hcomment ((firstKeyword_succ _ _ _ _).mp hfirst).1.1

/-- There is one first comment with the keyword, if there is any. -/
lemma FirstKeyword.unique {ls : List (List Char)} {i j : ℕ} {args args' : List Char}
    (h : FirstKeyword ls i args) (h' : FirstKeyword ls j args') : i = j ∧ args = args' := by
  have hlt : ∀ {i j args args'}, FirstKeyword ls i args → FirstKeyword ls j args' → ¬ i < j := by
    rintro i j args args' ⟨⟨line, hline, hkeyword⟩, -⟩ ⟨-, hnone⟩ hij
    have hmem : line ∈ ls.take j :=
      List.mem_of_getElem? ((List.getElem?_take_of_lt hij).trans hline)
    exact (hnone line hmem).2 args hkeyword
  obtain rfl : i = j := by
    have h₁ := hlt h h'
    have h₂ := hlt h' h
    omega
  obtain ⟨⟨line, hline, hkeyword⟩, -⟩ := h
  obtain ⟨⟨line', hline', hkeyword'⟩, -⟩ := h'
  rw [hline, Option.some.injEq] at hline'
  subst hline'
  exact ⟨rfl, hkeyword.unique hkeyword'⟩

/-! ## The lines that the scan sees -/

/-- A line without the carriage return at its end. -/
def dropReturn (line : List Char) : List Char :=
  if line.getLast? = some '\r' then line.dropLast else line

lemma toList_stripReturn (line : List Char) :
    ((Text.stripSuffix "\r" (String.ofList line)).getD (String.ofList line)).toList =
      dropReturn line := by
  have hsuffix : ("\r".toList.isSuffixOf line = true) ↔ line.getLast? = some '\r' := by
    rw [List.isSuffixOf_iff_suffix, List.getLast?_eq_some_iff]
    exact exists_congr fun _ => eq_comm
  have htext : (String.ofList line).toList = line := String.toList_ofList
  unfold Text.stripSuffix dropReturn
  rw [htext]
  by_cases h : line.getLast? = some '\r'
  · rw [if_pos (hsuffix.mpr h), if_pos h, Option.getD_some, String.toList_ofList,
      List.dropLast_eq_take]
    rfl
  · rw [if_neg (hsuffix.not.mpr h), if_neg h, Option.getD_none, String.toList_ofList]

lemma dropReturn_append (line : List Char) : ∃ w, Blank w ∧ line = dropReturn line ++ w := by
  unfold dropReturn
  split_ifs with h
  · exact ⟨['\r'], by simp [Blank]; decide, (List.dropLast_append_getLast? _ h).symm⟩
  · exact ⟨[], nofun, (List.append_nil _).symm⟩

lemma trim_dropReturn (line : List Char) :
    Text.trim (String.ofList (dropReturn line)) = Text.trim (String.ofList line) := by
  obtain ⟨w, hw, hline⟩ := dropReturn_append line
  conv_rhs => rw [hline]
  exact (trim_append hw).symm

lemma keyword_dropReturn (line args : List Char) :
    Keyword (dropReturn line) args ↔ Keyword line args := by
  have hkeyword : ∀ line, Keyword line args ↔
      lineArgs (String.ofList line) = some (String.ofList args) := by
    intro line
    rw [lineArgs_iff, String.toList_ofList, String.toList_ofList]
  rw [hkeyword, hkeyword, lineArgs, lineArgs, trim_dropReturn]

lemma isComment_dropReturn (line : List Char) : IsComment (dropReturn line) ↔ IsComment line := by
  have hcomment := fun line => isComment_iff (String.ofList line)
  simp only [String.toList_ofList] at hcomment
  rw [hcomment, hcomment, trim_dropReturn]

lemma isDirective_dropReturn (line name : List Char) :
    IsDirective (dropReturn line) name ↔ IsDirective line name := by
  simp only [IsDirective, keyword_dropReturn]

/-- The lines, as texts. -/
def scanned (sql : String) : List (List Char) :=
  (pieces sql).dropLast.map dropReturn ++
    if (pieces sql).getLast? = some [] then [] else (pieces sql).getLast?.toList

lemma exists_pieces (sql : String) : ∃ init last, pieces sql = init ++ [last] :=
  ⟨_, _, (List.dropLast_append_getLast (List.splitOn_ne_nil '\n' sql.toList)).symm⟩

lemma scanned_eq {sql : String} {init : List (List Char)} {last : List Char}
    (h : pieces sql = init ++ [last]) :
    scanned sql = init.map dropReturn ++ if last = [] then [] else [last] := by
  simp only [scanned, h, List.dropLast_concat, List.getLast?_concat, Option.some.injEq,
    Option.toList_some]

lemma toList_lines (sql : String) : (lines sql).map String.toList = scanned sql := by
  obtain ⟨init, last, hpieces⟩ := exists_pieces sql
  have hsplit : (Text.split '\n' sql).reverse =
      String.ofList last :: (init.map String.ofList).reverse := by
    have hmap : Text.split '\n' sql = (pieces sql).map String.ofList := rfl
    rw [hmap, hpieces, List.map_append, List.reverse_append]
    rfl
  rw [lines, hsplit, scanned_eq hpieces]
  dsimp only
  rw [List.reverse_reverse, List.map_append, List.map_map, List.map_map]
  congr 1
  · exact List.map_congr_left fun line _ => toList_stripReturn line
  · by_cases hlast : last = []
    · rw [if_pos hlast, if_pos (by rw [hlast])]
      rfl
    · have hne : String.ofList last ≠ "" := by
        intro h
        exact hlast (by rw [← @String.toList_ofList last, h]; rfl)
      rw [if_neg hlast, if_neg hne, List.map_singleton, String.toList_ofList]

lemma not_keyword_nil (args : List Char) : ¬ Keyword [] args := by
  rintro ⟨-, w₁, w₂, w₃, w₄, -, -, -, -, h⟩
  simp at h

lemma firstKeyword_map {f : List Char → List Char}
    (hkeyword : ∀ l args, Keyword (f l) args ↔ Keyword l args)
    (hcomment : ∀ l, IsComment (f l) ↔ IsComment l) (ls ls' : List (List Char)) (i : ℕ)
    (args : List Char) : FirstKeyword (ls.map f ++ ls') i args ↔ FirstKeyword (ls ++ ls') i args := by
  induction ls generalizing i with
  | nil => rfl
  | cons l ls ih =>
      rw [List.map_cons, List.cons_append, List.cons_append]
      cases i with
      | zero => rw [firstKeyword_zero, firstKeyword_zero, hkeyword]
      | succ i => simp only [firstKeyword_succ, ih, hcomment, hkeyword]

/-- An empty line at the end is no comment with the keyword. -/
lemma firstKeyword_append_nil (ls : List (List Char)) (i : ℕ) (args : List Char) :
    FirstKeyword (ls ++ [[]]) i args ↔ FirstKeyword ls i args := by
  induction ls generalizing i with
  | nil =>
      cases i with
      | zero => simp [FirstKeyword, not_keyword_nil]
      | succ i => simp [FirstKeyword]
  | cons l ls ih =>
      rw [List.cons_append]
      cases i with
      | zero => rw [firstKeyword_zero, firstKeyword_zero]
      | succ i => rw [firstKeyword_succ, firstKeyword_succ, ih]

/-- Which line the scan stops at does not depend on how the lines end. -/
lemma firstKeyword_scanned (sql : String) (i : ℕ) (args : List Char) :
    FirstKeyword (scanned sql) i args ↔ FirstKeyword (pieces sql) i args := by
  obtain ⟨init, last, hpieces⟩ := exists_pieces sql
  rw [scanned_eq hpieces, hpieces, firstKeyword_map keyword_dropReturn isComment_dropReturn]
  split_ifs with hlast
  · rw [List.append_nil, hlast, firstKeyword_append_nil]
  · rfl

/-! ## The words behind the keyword -/

lemma firstWord_none {args : List Char} (h : Blank args) : firstWord (String.ofList args) = none := by
  rw [firstWord, String.toList_ofList, dropWhile_blank h]
  rfl

lemma firstWord_word {w name : List Char} (hw : Blank w) (hname : IsWord name) :
    firstWord (String.ofList (w ++ name)) = some (String.ofList name) := by
  have hdrop : (w ++ name).dropWhile Text.isWhitespace = name := by
    rw [List.dropWhile_append_of_pos hw]
    obtain ⟨c, cs, rfl⟩ := List.exists_cons_of_ne_nil hname.1
    rw [List.dropWhile_cons_of_neg (by simp [hname.2 c List.mem_cons_self])]
  have htake : name.takeWhile (fun c => !Text.isWhitespace c) = name := by
    rw [List.takeWhile_eq_self_iff]
    intro c hc
    simp [hname.2 c hc]
  rw [firstWord, String.toList_ofList, hdrop, htake, if_neg hname.1]

/-- Words behind the keyword have a first one. -/
lemma firstWord_some {args : List Char} (hne : args ≠ [])
    (hlast : ∀ c ∈ args.getLast?, Text.isWhitespace c = false) :
    ∃ name, firstWord (String.ofList args) = some name := by
  obtain ⟨c, hc⟩ := Option.isSome_iff_exists.mp (List.getLast?_isSome.mpr hne)
  have hdrop : args.dropWhile Text.isWhitespace ≠ [] := by
    intro hnil
    have hblank := List.dropWhile_eq_nil_iff.mp hnil c (List.mem_of_getLast? hc)
    exact Bool.false_ne_true ((hlast c hc).symm.trans hblank)
  have hhead := List.head?_dropWhile_not Text.isWhitespace args
  obtain ⟨d, ds, hds⟩ := List.exists_cons_of_ne_nil hdrop
  rw [hds] at hhead
  have hd : Text.isWhitespace d = false := by simpa using hhead
  rw [firstWord, String.toList_ofList, hds, List.takeWhile_cons_of_pos (by simp [hd]),
    if_neg (List.cons_ne_nil _ _)]
  exact ⟨_, rfl⟩

/-! ## The text that is left -/

lemma parseInlineMaterialize_eq_some_iff (sql name body : String) :
    parseInlineMaterialize sql = some (name, body) ↔
      ∃ i args, FirstKeyword (pieces sql) i args ∧ firstWord (String.ofList args) = some name ∧
        body.toList = ['\n'].intercalate ((scanned sql).eraseIdx i) := by
  have hbody : ∀ i, (Text.join "\n" ((lines sql).eraseIdx i)).toList =
      ['\n'].intercalate ((scanned sql).eraseIdx i) := by
    intro i
    rw [Text.join, String.toList_intercalate, ← toList_lines, List.eraseIdx_map]
    rfl
  rw [parseInlineMaterialize, Option.map_eq_some_iff]
  constructor
  · rintro ⟨⟨n, name'⟩, hd, hpair⟩
    obtain ⟨rfl, rfl⟩ := Prod.mk.inj hpair
    obtain ⟨i, args, hfirst, hname, rfl⟩ := (directiveAt_eq_some_iff n name').mp hd
    rw [toList_lines, firstKeyword_scanned] at hfirst
    rw [Nat.zero_add]
    exact ⟨i, args, hfirst, hname, hbody i⟩
  · rintro ⟨i, args, hfirst, hname, hrest⟩
    rw [← firstKeyword_scanned, ← toList_lines] at hfirst
    have hd : directiveAt 0 (lines sql) = some (i, name) :=
      (directiveAt_eq_some_iff i name).mpr ⟨i, args, hfirst, hname, (Nat.zero_add i).symm⟩
    refine ⟨(i, name), hd, Prod.ext rfl ?_⟩
    rw [← String.toList_inj, hrest]
    exact hbody i

/-- The other lines end in plain newlines, and there is none at the end of the last of them. -/
structure PlainRest (sql : String) (i : ℕ) : Prop where
  returns : ∀ j line, j ≠ i → j + 1 < (pieces sql).length → (pieces sql)[j]? = some line →
    line.getLast? ≠ some '\r'
  newline : (pieces sql).getLast? = some [] → (pieces sql).length = 2

lemma map_dropReturn_iff (ls : List (List Char)) :
    ls.map dropReturn = ls ↔ ∀ l ∈ ls, l.getLast? ≠ some '\r' := by
  have hid : ls.map dropReturn = ls.map id ↔ ∀ l ∈ ls, dropReturn l = id l := List.map_inj_left
  rw [List.map_id] at hid
  rw [hid]
  refine forall₂_congr fun l _ => ?_
  unfold dropReturn
  split_ifs with h
  · refine iff_of_false (fun heq => ?_) (not_not.mpr h)
    have hlength : l.dropLast.length = l.length := congrArg List.length heq
    rw [List.length_dropLast] at hlength
    have hne : l ≠ [] := by
      rintro rfl
      cases h
    have hpos := List.length_pos_of_ne_nil hne
    omega
  · exact iff_of_true rfl h

lemma newline_notMem {sql : String} {l : List Char} (h : l ∈ pieces sql) : '\n' ∉ l :=
  Separated.notMem_of_mem_splitOn h

lemma newline_notMem_dropReturn {l : List Char} (h : '\n' ∉ l) : '\n' ∉ dropReturn l := by
  obtain ⟨w, -, hl⟩ := dropReturn_append l
  intro hmem
  rw [hl] at h
  exact h (List.mem_append_left _ hmem)

lemma newline_notMem_scanned {sql : String} {l : List Char} (h : l ∈ scanned sql) : '\n' ∉ l := by
  obtain ⟨init, last, hpieces⟩ := exists_pieces sql
  have hfree : ∀ l ∈ init ++ [last], '\n' ∉ l := fun l hl => newline_notMem (hpieces ▸ hl)
  rw [List.forall_mem_append, List.forall_mem_singleton] at hfree
  rw [scanned_eq hpieces] at h
  rcases List.mem_append.mp h with h | h
  · obtain ⟨l', hl', rfl⟩ := List.mem_map.mp h
    exact newline_notMem_dropReturn (hfree.1 l' hl')
  · split_ifs at h
    · cases h
    · rw [List.mem_singleton.mp h]
      exact hfree.2

/-- Lines are put together as they were, if they end in plain newlines. -/
lemma intercalate_map_iff {ls tail : List (List Char)} (hls : ∀ l ∈ ls, '\n' ∉ l)
    (htail : ∀ l ∈ tail, '\n' ∉ l) :
    ['\n'].intercalate (ls.map dropReturn ++ tail) = ['\n'].intercalate (ls ++ tail) ↔
      ∀ l ∈ ls, l.getLast? ≠ some '\r' := by
  rw [← map_dropReturn_iff]
  by_cases hnil : ls ++ tail = []
  · obtain ⟨rfl, rfl⟩ := List.append_eq_nil_iff.mp hnil
    exact iff_of_true rfl rfl
  · have hmap : ∀ l ∈ ls.map dropReturn ++ tail, '\n' ∉ l := by
      refine List.forall_mem_append.mpr ⟨?_, htail⟩
      intro l hl
      obtain ⟨l', hl', rfl⟩ := List.mem_map.mp hl
      exact newline_notMem_dropReturn (hls l' hl')
    have hne : ls.map dropReturn ++ tail ≠ [] := by simpa using hnil
    rw [Separated.intercalate_inj hne hnil hmap (List.forall_mem_append.mpr ⟨hls, htail⟩),
      List.append_left_inj]

/-- The lines are put together to the text without the directive exactly then. -/
lemma intercalate_scanned_iff {sql : String} {i : ℕ} {args : List Char}
    (h : FirstKeyword (pieces sql) i args) :
    ['\n'].intercalate ((scanned sql).eraseIdx i) = withoutLine sql i ↔ PlainRest sql i := by
  obtain ⟨init, last, hpieces⟩ := exists_pieces sql
  obtain ⟨line, hline, hkeyword⟩ := h.1
  have hfree : ∀ l ∈ init ++ [last], '\n' ∉ l := fun l hl => newline_notMem (hpieces ▸ hl)
  have hinit : ∀ l ∈ init.eraseIdx i, '\n' ∉ l := fun l hl =>
    hfree l (List.mem_append_left _ (List.mem_of_mem_eraseIdx hl))
  have hlast : '\n' ∉ last := hfree last (List.mem_append_right _ List.mem_cons_self)
  have hreturns : (∀ j line, j ≠ i → j + 1 < (pieces sql).length → (pieces sql)[j]? = some line →
      line.getLast? ≠ some '\r') ↔ ∀ l ∈ init.eraseIdx i, l.getLast? ≠ some '\r' := by
    rw [hpieces]
    constructor
    · intro hall l hl
      obtain ⟨j, hji, hj⟩ := List.mem_eraseIdx_iff_getElem?.mp hl
      obtain ⟨hlt, -⟩ := List.getElem?_eq_some_iff.mp hj
      exact hall j l hji (by simpa using hlt) (by rwa [List.getElem?_append_left hlt])
    · intro hall j l hji hlt hj
      have hlt : j < init.length := by simpa using hlt
      rw [List.getElem?_append_left hlt] at hj
      exact hall l (List.mem_eraseIdx_iff_getElem?.mpr ⟨j, hji, hj⟩)
  have hrest : PlainRest sql i ↔ (∀ l ∈ init.eraseIdx i, l.getLast? ≠ some '\r') ∧
      (last = [] → init.length = 1) := by
    have hnewline : ((pieces sql).getLast? = some [] → (pieces sql).length = 2) ↔
        (last = [] → init.length = 1) := by
      simp [hpieces]
    exact ⟨fun h => ⟨hreturns.mp h.returns, hnewline.mp h.newline⟩,
      fun h => ⟨hreturns.mpr h.1, hnewline.mpr h.2⟩⟩
  rw [withoutLine, scanned_eq hpieces, hrest, hpieces]
  rw [hpieces] at hline
  by_cases hlt : i < init.length
  · rw [List.eraseIdx_append_of_lt_length (by rwa [List.length_map]), List.eraseIdx_map,
      List.eraseIdx_append_of_lt_length hlt]
    by_cases hnil : last = []
    · rw [if_pos hnil, hnil, List.append_nil]
      -- a newline at the end of the text is lost, with the line before it if there is one
      by_cases hothers : init.eraseIdx i = []
      · have hlength := congrArg List.length hothers
        rw [List.length_eraseIdx_of_lt hlt, List.length_nil] at hlength
        rw [hothers]
        refine iff_of_true rfl ⟨nofun, fun _ => ?_⟩
        omega
      · have hlength := List.length_pos_of_ne_nil hothers
        rw [List.length_eraseIdx_of_lt hlt] at hlength
        refine iff_of_false (fun heq => ?_) fun h => ?_
        · have hmap : ∀ l ∈ (init.eraseIdx i).map dropReturn, '\n' ∉ l := by
            intro l hl
            obtain ⟨l', hl', rfl⟩ := List.mem_map.mp hl
            exact newline_notMem_dropReturn (hinit l' hl')
          have hconcat : ∀ l ∈ init.eraseIdx i ++ [[]], '\n' ∉ l :=
            List.forall_mem_append.mpr ⟨hinit, by simp⟩
          rw [Separated.intercalate_inj (by simpa using hothers) (by simp) hmap hconcat] at heq
          have hlengths := congrArg List.length heq
          simp at hlengths
        · have hone := h.2 rfl
          omega
    · rw [if_neg hnil, intercalate_map_iff hinit (List.forall_mem_singleton.mpr hlast)]
      simp [hnil]
  · have hi : i = init.length := by
      have hlength := (List.getElem?_eq_some_iff.mp hline).1
      rw [List.length_append, List.length_singleton] at hlength
      omega
    subst hi
    rw [List.getElem?_concat_length, Option.some.injEq] at hline
    subst hline
    have hne : last ≠ [] := by
      rintro rfl
      exact not_keyword_nil args hkeyword
    have hsame : init.eraseIdx init.length = init := List.eraseIdx_of_length_le le_rfl
    have herase : ∀ l : List Char, [l].eraseIdx 0 = [] := fun _ => rfl
    rw [hsame] at hinit ⊢
    rw [if_neg hne, List.eraseIdx_append_of_length_le (by rw [List.length_map]), List.length_map,
      Nat.sub_self, herase, List.eraseIdx_append_of_length_le le_rfl, Nat.sub_self, herase,
      intercalate_map_iff hinit (List.forall_mem_nil _)]
    simp [hne]

lemma not_isDirective_nil (name : List Char) : ¬ IsDirective [] name := by
  rintro ⟨-, w, -, -, hkeyword⟩
  exact not_keyword_nil _ hkeyword

/-- A line that the scan sees is one of the text, but for the way it ends. -/
lemma exists_piece {sql : String} {m : ℕ} {l : List Char} (h : (scanned sql)[m]? = some l) :
    ∃ l', (pieces sql)[m]? = some l' ∧ ∀ name, IsDirective l name ↔ IsDirective l' name := by
  obtain ⟨init, last, hpieces⟩ := exists_pieces sql
  rw [scanned_eq hpieces] at h
  rw [hpieces]
  by_cases hlt : m < init.length
  · rw [List.getElem?_append_left (by rwa [List.length_map]), List.getElem?_map] at h
    obtain ⟨l', hl', rfl⟩ := Option.map_eq_some_iff.mp h
    exact ⟨l', by rwa [List.getElem?_append_left hlt], isDirective_dropReturn l'⟩
  · have hle : init.length ≤ m := Nat.le_of_not_lt hlt
    rw [List.getElem?_append_right (by rwa [List.length_map]), List.length_map] at h
    refine ⟨l, ?_, fun _ => Iff.rfl⟩
    rw [List.getElem?_append_right hle]
    split_ifs at h with hnil
    · cases h
    · exact h

/-- A directive is among the lines that the scan sees. -/
lemma length_of_directive {sql : String} {j : ℕ} {line name : List Char}
    (hline : (pieces sql)[j]? = some line) (h : IsDirective line name) :
    j < (scanned sql).length := by
  obtain ⟨init, last, hpieces⟩ := exists_pieces sql
  have hlength : j < (pieces sql).length := (List.getElem?_eq_some_iff.mp hline).1
  rw [hpieces, List.length_append, List.length_singleton] at hlength
  rw [scanned_eq hpieces, List.length_append, List.length_map]
  split_ifs with hnil
  · have hne : j ≠ init.length := by
      rintro rfl
      rw [hpieces, List.getElem?_concat_length, hnil, Option.some.injEq] at hline
      exact not_isDirective_nil name (hline ▸ h)
    rw [List.length_nil]
    omega
  · rwa [List.length_singleton]

/-- Where leaving out one line gives what leaving out a later one does, the lines between them differ
in the way they end only; so one is the directive if the other is. -/
lemma directive_of_intercalate {sql : String} {i j : ℕ} {name : List Char} {line line' : List Char}
    (hline : (pieces sql)[i]? = some line) (hline' : (pieces sql)[j]? = some line')
    (hdirective : IsDirective line' name) (hij : i < j)
    (heq : ['\n'].intercalate ((scanned sql).eraseIdx i) = withoutLine sql j) :
    IsDirective line name := by
  have hj : j < (pieces sql).length := (List.getElem?_eq_some_iff.mp hline').1
  have hscanned : j < (scanned sql).length := length_of_directive hline' hdirective
  have hfree : ∀ l ∈ (pieces sql).eraseIdx j, '\n' ∉ l := fun l hl =>
    newline_notMem (List.mem_of_mem_eraseIdx hl)
  have hfree' : ∀ l ∈ (scanned sql).eraseIdx i, '\n' ∉ l := fun l hl =>
    newline_notMem_scanned (List.mem_of_mem_eraseIdx hl)
  have hne : (pieces sql).eraseIdx j ≠ [] := by
    rw [← List.length_pos_iff, List.length_eraseIdx_of_lt hj]
    omega
  have hne' : (scanned sql).eraseIdx i ≠ [] := by
    rw [← List.length_pos_iff, List.length_eraseIdx_of_lt (hij.trans hscanned)]
    omega
  rw [withoutLine, Separated.intercalate_inj hne' hne hfree' hfree] at heq
  -- from the later line back to the first one
  have hback : ∀ k < j, i ≤ k → (∃ l, (pieces sql)[k + 1]? = some l ∧ IsDirective l name) →
      ∃ l, (pieces sql)[k]? = some l ∧ IsDirective l name := by
    rintro k hkj hik ⟨l, hl, hname⟩
    have hk : (scanned sql)[k + 1]? = (pieces sql)[k]? := by
      rw [← List.getElem?_eraseIdx_of_ge hik, heq, List.getElem?_eraseIdx_of_lt hkj]
    obtain ⟨l', hl'⟩ : ∃ l', (pieces sql)[k]? = some l' :=
      ⟨_, List.getElem?_eq_getElem (hkj.trans hj)⟩
    obtain ⟨l'', hl'', hsame⟩ := exists_piece (hk.trans hl')
    rw [hl, Option.some.injEq] at hl''
    subst hl''
    exact ⟨l', hl', (hsame name).mpr hname⟩
  have hfirst : ∃ l, (pieces sql)[i]? = some l ∧ IsDirective l name :=
    Nat.decreasingInduction' hback hij.le ⟨line', hline', hdirective⟩
  obtain ⟨l, hl, hname⟩ := hfirst
  rw [hline, Option.some.injEq] at hl
  rwa [hl]

/-! ## The directive -/

/-- Every line of a leading block of comments with the keyword is behind the first one. -/
lemma exists_first {ls : List (List Char)} {j : ℕ} {line args : List Char} (hline : ls[j]? = some line)
    (hkeyword : Keyword line args) (hcomments : ∀ l ∈ ls.take j, IsComment l) :
    ∃ i args, FirstKeyword ls i args ∧ i ≤ j := by
  induction ls generalizing j with
  | nil => cases hline
  | cons l ls ih =>
      by_cases hl : ∃ args, Keyword l args
      · obtain ⟨args', hargs'⟩ := hl
        exact ⟨0, args', (firstKeyword_zero _ _ _).mpr hargs', Nat.zero_le j⟩
      · rw [not_exists] at hl
        cases j with
        | zero =>
            obtain rfl : l = line := Option.some.inj hline
            exact absurd hkeyword (hl args)
        | succ j =>
            rw [List.take_succ_cons, List.forall_mem_cons] at hcomments
            obtain ⟨i, args', hfirst, hle⟩ := ih hline hcomments.2
            exact ⟨i + 1, args', (firstKeyword_succ _ _ _ _).mpr ⟨⟨hcomments.1, hl⟩, hfirst⟩,
              Nat.succ_le_succ hle⟩

/-- The first comment with the keyword is the directive, and what else there is does not matter; or
nothing stands behind the keyword, and there is no directive at all. -/
def OneDirective (sql : String) : Prop :=
  ∀ i args, FirstKeyword (pieces sql) i args →
    (args = [] ∧ ∀ j name, ¬ DirectiveAt sql j name) ∨
    ∃ name, DirectiveAt sql i name ∧ PlainRest sql i ∧
      ∀ j name', DirectiveAt sql j name' → name' = name ∧ withoutLine sql j = withoutLine sql i

lemma DirectiveAt.words {sql name : String} {i : ℕ} {args : List Char} (h : DirectiveAt sql i name)
    (hfirst : FirstKeyword (pieces sql) i args) :
    args ≠ [] ∧ firstWord (String.ofList args) = some name := by
  obtain ⟨line, hline, ⟨hname, w, -, hw, hkeyword⟩, -⟩ := h
  obtain ⟨⟨line', hline', hkeyword'⟩, -⟩ := hfirst
  rw [hline, Option.some.injEq] at hline'
  subst hline'
  rw [hkeyword'.unique hkeyword, firstWord_word hw hname, String.ofList_toList]
  exact ⟨fun hnil => hname.1 (List.append_eq_nil_iff.mp hnil).2, rfl⟩

lemma DirectiveAt.exists_first {sql name : String} {j : ℕ} (h : DirectiveAt sql j name) :
    ∃ i args, FirstKeyword (pieces sql) i args ∧ i ≤ j := by
  obtain ⟨line, hline, ⟨-, w, -, -, hkeyword⟩, hcomments⟩ := h
  exact InlineDirective.exists_first hline hkeyword hcomments

/-- Leaving out the line that the scan stops at gives what leaving out a directive does only if it is
one itself. -/
lemma directiveAt_first {sql name : String} {i j : ℕ} {args : List Char}
    (hfirst : FirstKeyword (pieces sql) i args) (h : DirectiveAt sql j name) (hij : i ≤ j)
    (heq : ['\n'].intercalate ((scanned sql).eraseIdx i) = withoutLine sql j) :
    DirectiveAt sql i name := by
  rcases hij.eq_or_lt with rfl | hij
  · exact h
  · obtain ⟨line', hline', hdirective, -⟩ := h
    obtain ⟨⟨line, hline, -⟩, hcomments⟩ := hfirst
    exact ⟨line, hline, directive_of_intercalate hline hline' hdirective hij heq,
      fun l hl => (hcomments l hl).1⟩

lemma recognised_iff (sql : String) : Recognised sql ↔ OneDirective sql := by
  constructor
  · intro h i args hfirst
    by_cases hargs : args = []
    · left
      refine ⟨hargs, fun j name hname => ?_⟩
      have hparse : parseInlineMaterialize sql =
          some (name, String.ofList (withoutLine sql j)) :=
        (h name _).mpr ⟨j, hname, String.toList_ofList⟩
      obtain ⟨i', args', hfirst', hword, -⟩ := (parseInlineMaterialize_eq_some_iff _ _ _).mp hparse
      obtain ⟨-, rfl⟩ := hfirst.unique hfirst'
      rw [hargs, firstWord_none (List.forall_mem_nil _)] at hword
      cases hword
    · right
      have hlast : ∀ c ∈ args.getLast?, Text.isWhitespace c = false := by
        obtain ⟨⟨line, -, hkeyword⟩, -⟩ := hfirst
        exact hkeyword.1
      obtain ⟨name, hword⟩ := firstWord_some hargs hlast
      have hleft : parseInlineMaterialize sql =
          some (name, String.ofList (['\n'].intercalate ((scanned sql).eraseIdx i))) :=
        (parseInlineMaterialize_eq_some_iff _ _ _).mpr
          ⟨i, args, hfirst, hword, String.toList_ofList⟩
      obtain ⟨j, hname, heq⟩ := (h name _).mp hleft
      rw [String.toList_ofList] at heq
      have hij : i ≤ j := by
        obtain ⟨i', args', hfirst', hle⟩ := hname.exists_first
        obtain ⟨rfl, -⟩ := hfirst.unique hfirst'
        exact hle
      have hfirstName := directiveAt_first hfirst hname hij heq
      -- the scan gives one name and one text, so all directives have these
      have hsame : ∀ k name', DirectiveAt sql k name' → name' = name ∧
          withoutLine sql k = ['\n'].intercalate ((scanned sql).eraseIdx i) := by
        intro k name' hk
        have hright := (h name' (String.ofList (withoutLine sql k))).mpr ⟨k, hk, String.toList_ofList⟩
        rw [hleft, Option.some.injEq, Prod.mk.injEq, String.ofList_inj] at hright
        exact ⟨hright.1.symm, hright.2.symm⟩
      have hplain := (hsame i name hfirstName).2
      refine ⟨name, hfirstName, (intercalate_scanned_iff hfirst).mp hplain.symm, ?_⟩
      intro k name' hk
      rw [hplain]
      exact hsame k name' hk
  · intro h name body
    rw [parseInlineMaterialize_eq_some_iff]
    constructor
    · rintro ⟨i, args, hfirst, hword, hbody⟩
      rcases h i args hfirst with ⟨hargs, -⟩ | ⟨name', hname', hplain, -⟩
      · rw [hargs, firstWord_none (List.forall_mem_nil _)] at hword
        cases hword
      · obtain rfl : name' = name := by
          have hword' := (hname'.words hfirst).2
          rwa [hword, Option.some.injEq, eq_comm] at hword'
        exact ⟨i, hname', by rw [hbody, intercalate_scanned_iff hfirst |>.mpr hplain]⟩
    · rintro ⟨j, hname, hbody⟩
      obtain ⟨i, args, hfirst, -⟩ := hname.exists_first
      rcases h i args hfirst with ⟨-, hnone⟩ | ⟨name', hname', hplain, hsame⟩
      · exact absurd hname (hnone j name)
      · obtain ⟨rfl, hrest⟩ := hsame j name hname
        refine ⟨i, args, hfirst, (hname'.words hfirst).2, ?_⟩
        rw [hbody, hrest, intercalate_scanned_iff hfirst |>.mpr hplain]
/-! ## Reading the table back -/

/-- The tokens before the name. -/
def readTokens : List Sql.Token :=
  [.word "SELECT".toList, .symbol '*', .word "FROM".toList, .word materializedSchema.toList,
    .symbol '.']

lemma lex_readSql (name : String) : Sql.lex (readSql name) =
    (Sql.lexFrom .ground ('"' :: name.toList ++ ['"'])).map fun ts => readTokens ++ ts := by
  have hscan : Sql.scanChars .ground "SELECT * FROM materialized.\"".toList =
      (readTokens, .ident []) := by decide
  have hopen : Sql.LexState.step .ground '"' = ([], .ident []) := by decide
  have htext : (readSql name).toList =
      "SELECT * FROM materialized.\"".toList ++ (name.toList ++ ['"']) := by
    have hliteral : "SELECT * FROM ".toList ++ materializedSchema.toList ++ ".\"".toList =
        "SELECT * FROM materialized.\"".toList := by decide
    rw [← hliteral]
    simp [readSql]
  have hlex : Sql.lex (readSql name) = Sql.lexFrom .ground (readSql name).toList := rfl
  rw [hlex, htext, Sql.lexFrom_append, hscan, List.cons_append, Sql.lexFrom_cons, hopen]
  simp

/-- A statement that begins so reads from what begins with the qualified name. -/
lemma source_of_readSelect {v : List Char} {ts : List Sql.Token} {select : Sql.SelectText}
    (h : Sql.readSelect (readTokens ++ .ident v :: ts) = some select) :
    ∃ rest, select.source = .word materializedSchema.toList :: .symbol '.' :: .ident v :: rest := by
  obtain ⟨items, rest, hcut, rfl⟩ := Sql.exists_of_readSelect h
  have hfrom : Sql.cutAt (Sql.Token.isWord "FROM") 0 (.symbol '*' :: .word "FROM".toList ::
      .word materializedSchema.toList :: .symbol '.' :: .ident v :: ts) = ([.symbol '*'],
        some (.word materializedSchema.toList :: .symbol '.' :: .ident v :: ts)) := rfl
  obtain ⟨rfl, hrest⟩ := Prod.mk.inj (hfrom.symm.trans hcut)
  obtain rfl := Option.some.inj hrest
  have hcut : ∀ keyword ∈ ["WHERE", "LIMIT"], (Sql.cutAt (Sql.Token.isWord keyword) 0
      (.word materializedSchema.toList :: .symbol '.' :: .ident v :: ts)).1 =
        .word materializedSchema.toList :: .symbol '.' :: .ident v ::
          (Sql.cutAt (Sql.Token.isWord keyword) 0 ts).1 := by
    intro keyword hkeyword
    simp only [List.mem_cons, List.not_mem_nil, or_false] at hkeyword
    rcases hkeyword with rfl | rfl <;> rfl
  rw [Sql.readSource]
  split
  · rename_i source conditions hsource
    have hwhere := hcut "WHERE" (by simp)
    rw [hsource] at hwhere
    exact ⟨_, hwhere⟩
  · exact ⟨_, hcut "LIMIT" (by simp)⟩

/-- The statement reads the table when its name has no quotes. -/
lemma refers_iff (name : String) : Refers name ↔ '"' ∉ name.toList := by
  constructor
  · rintro ⟨select, hread, -, htable, -, -⟩
    obtain ⟨ts, hlex, hselect⟩ := Option.bind_eq_some_iff.mp hread
    rw [lex_readSql] at hlex
    obtain ⟨ts', hname, rfl⟩ := Option.map_eq_some_iff.mp hlex
    obtain ⟨v, rest, rfl, hv⟩ := Sql.lexFrom_rawIdent_inv (by simp) hname
    obtain ⟨others, hsource⟩ := source_of_readSelect hselect
    rw [hsource] at htable
    cases others with
    | nil => exact hv (Prod.mk.inj (Option.some.inj htable)).2
    | cons t others => cases htable
  · intro h
    have hname := @Sql.lexFrom_rawIdent name.toList [] h (by simp)
    have hlex : Sql.lex (readSql name) = some (readTokens ++ [.ident name.toList]) := by
      rw [lex_readSql, hname]
      rfl
    refine ⟨{ items := [[.symbol '*']]
              source := [.word materializedSchema.toList, .symbol '.', .ident name.toList]
              conditions := []
              limit := none }, ?_, rfl, ?_, rfl, rfl⟩
    · rw [hlex]
      rfl
    · have hlower : materializedSchema.toList.map Char.toLower = materializedSchema.toList := by decide
      show some (materializedSchema.toList.map Char.toLower, name.toList) = _
      rw [hlower]

/-! ## The path of the data file -/

lemma segments_append (as bs : List Char) :
    segments (String.ofList (as ++ '/' :: bs)) =
      segments (String.ofList as) ++ segments (String.ofList bs) := by
  rw [segments, Text.split_ofList_append, List.filter_append]
  rfl

/-- A name without slashes is one more name on the path. -/
lemma segments_joinPath (base : String) {name : String} (hne : name ≠ "") (hdot : name ≠ ".")
    (hslash : '/' ∉ name.toList) : segments (Config.joinPath base name) = segments base ++ [name] := by
  have hname : segments name = [name] := by
    have hsplit : Text.split '/' name = [name] := by
      rw [Text.split, List.splitOn_eq_singleton hslash, List.map_singleton, String.ofList_toList]
    rw [segments, hsplit]
    simp [hne, hdot]
  have hempty : segments "" = [] := by decide
  have hslashed : ∀ text : String, segments (text ++ "/" ++ name) = segments text ++ [name] := by
    intro text
    have htext : text ++ "/" ++ name = String.ofList (text.toList ++ '/' :: name.toList) := by
      rw [← String.toList_inj, String.toList_append, String.toList_append, String.toList_ofList]
      simp
    rw [htext, segments_append, String.ofList_toList, String.ofList_toList, hname]
  have hrelative : name.toList.head? ≠ some '/' := fun h => hslash (List.mem_of_mem_head? h)
  unfold Config.joinPath
  rw [if_neg hrelative]
  split_ifs with hbase
  · rw [Bool.or_eq_true, decide_eq_true_eq, decide_eq_true_eq] at hbase
    rcases hbase with rfl | hlast
    · rw [String.empty_append, hname, hempty, List.nil_append]
    · obtain ⟨init, hinit⟩ := List.getLast?_eq_some_iff.mp hlast
      have htext : base = String.ofList init ++ "/" := by
        rw [← String.toList_inj, hinit, String.toList_append, String.toList_ofList]
        rfl
      have hbase : segments base = segments (String.ofList init) := by
        have hchars : base = String.ofList (init ++ '/' :: []) := by
          rw [← hinit, String.ofList_toList]
        rw [hchars, segments_append]
        exact List.append_nil _
      rw [hbase, htext, hslashed]
  · exact hslashed base

lemma name_of_validate {name : String} (h : Materialize.validateMaterializedName name = .ok ()) :
    name ≠ "" ∧ name ≠ "." ∧ '/' ∉ name.toList := by
  unfold Materialize.validateMaterializedName at h
  split_ifs at h with hbad
  rw [not_or, not_or] at hbad
  obtain ⟨hne, -, hchars⟩ := hbad
  rw [List.any_eq_true, not_exists] at hchars
  refine ⟨hne, ?_, fun hmem => hchars '/' ⟨hmem, by decide⟩⟩
  rintro rfl
  exact hchars '.' ⟨by simp, by decide⟩

lemma segments_filePath (root : String) {name : String}
    (h : Materialize.validateMaterializedName name = .ok ()) :
    segments (filePath root name) = segments root ++ Cache.dataRel ⟨materializedSchema, name⟩ := by
  obtain ⟨hne, hdot, hslash⟩ := name_of_validate h
  rw [filePath, segments_joinPath _ (by decide) (by decide) (by decide),
    segments_joinPath _ hne hdot hslash, segments_joinPath _ (by decide) (by decide) (by decide),
    segments_joinPath _ (by decide) (by decide) (by decide)]
  simp [Cache.dataRel]

/-- **The directive of a query** and the table that it names: the text is recognised and the name is
taken where the first comment with the keyword is the directive, and the table is read back where its
name has no quotes.  Its file always lies at the data path of the table. -/
theorem inlineMaterialize_iff (sql root name : String) :
    (Recognised sql ↔ OneDirective sql) ∧
      ((Materialize.validateMaterializedName name = .ok () → Refers name ∧
          segments (filePath root name) = segments root ++ Cache.dataRel ⟨materializedSchema, name⟩) ↔
        (Materialize.validateMaterializedName name = .ok () → '"' ∉ name.toList)) := by
  refine ⟨recognised_iff sql, forall_congr' fun h => ?_⟩
  rw [refers_iff, and_iff_left (segments_filePath root h)]

/-- A longer word is taken for the keyword, with its last letter for the name; and the name of one table
can be the text of another, with an alias. -/
theorem looseDirective_fails :
    ¬ Recognised "-- pawrly: materialized t\nSELECT 1" ∧
      Materialize.validateMaterializedName "a\"AS\"b" = .ok () ∧ ¬ Refers "a\"AS\"b" := by
  refine ⟨fun h => ?_, rfl, ?_⟩
  · have hparse : parseInlineMaterialize "-- pawrly: materialized t\nSELECT 1" =
        some ("d", "SELECT 1") := by decide
    obtain ⟨i, ⟨line, hline, hdirective, -⟩, -⟩ := (h "d" "SELECT 1").mp hparse
    have hpieces : pieces "-- pawrly: materialized t\nSELECT 1" =
        ["-- pawrly: materialized t".toList, "SELECT 1".toList] := by decide
    obtain ⟨hname, w, hne, hblank, hkeyword⟩ := hdirective
    have hargs : lineArgs (String.ofList line) = some (String.ofList (w ++ "d".toList)) := by
      rwa [lineArgs_iff, String.toList_ofList, String.toList_ofList]
    have hmem := List.mem_of_getElem? hline
    rw [hpieces, List.mem_cons, List.mem_singleton] at hmem
    rcases hmem with rfl | rfl
    · have hfound : lineArgs (String.ofList "-- pawrly: materialized t".toList) = some "d t" := by
        decide
      have hwords : "d t".toList = w ++ "d".toList := by
        rw [← @String.toList_ofList (w ++ "d".toList), ← Option.some.inj (hfound.symm.trans hargs)]
      cases w with
      | nil => exact hne rfl
      | cons c w =>
          obtain rfl : 'd' = c := (List.cons.inj hwords).1
          exact absurd (hblank 'd' List.mem_cons_self) (by decide)
    · have hnone : lineArgs (String.ofList "SELECT 1".toList) = none := by decide
      rw [hnone] at hargs
      cases hargs
  · rintro ⟨select, hread, -, htable, -⟩
    have hother : ((Sql.lex (readSql "a\"AS\"b")).bind Sql.readSelect).map Sql.SelectText.source =
        some [.word materializedSchema.toList, .symbol '.', .ident "a".toList, .word "AS".toList,
          .ident "b".toList] := by decide
    rw [hread, Option.map_some, Option.some.injEq] at hother
    rw [hother] at htable
    cases htable

end InlineDirective
end Engine
end Pawrly
