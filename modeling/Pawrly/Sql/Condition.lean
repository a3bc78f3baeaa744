import Pawrly.Sql.Token
import Pawrly.Lib.NormalForm
import Mathlib.Order.Lattice
import Mathlib.Data.List.Forall2

/-!
# Reading a SQL condition

The compiler writes lists of conditions with `AND` between their texts.  What such a text means
depends on the precedence of the operators inside the conditions, so it is read here token by
token: `OR` binds loosest, then `AND`, and everything else (comparisons, `NOT`, calls, whatever
stands in parentheses or between `CASE` and `END`, both halves of a `BETWEEN`) is part of an
operand.  Operands are opaque: a row gives each of them a truth value.

`conjunctive_iff` says when the joined text means the conjunction of its parts.
-/

namespace Pawrly
namespace Sql

open NormalForm

/-! ## Truth values -/

/-- The truth values of SQL. -/
inductive Truth
  | no
  | unknown
  | yes
  deriving DecidableEq

namespace Truth

/-- `AND`. -/
def and : Truth → Truth → Truth
  | no, _ => no
  | _, no => no
  | yes, yes => yes
  | _, _ => unknown

/-- `OR`. -/
def or : Truth → Truth → Truth
  | yes, _ => yes
  | _, yes => yes
  | no, no => no
  | _, _ => unknown

def allOf (vs : List Truth) : Truth := vs.foldr and yes

def anyOf (vs : List Truth) : Truth := vs.foldr or no

def rank : Truth → ℕ
  | no => 0
  | unknown => 1
  | yes => 2

instance : LinearOrder Truth :=
  LinearOrder.lift' rank fun a b h => by cases a <;> cases b <;> first | rfl | cases h

instance : BoundedOrder Truth where
  top := yes
  bot := no
  le_top a := by cases a <;> decide
  bot_le a := by cases a <;> decide

instance : Nontrivial Truth := ⟨no, yes, by decide⟩

lemma and_eq_inf (a b : Truth) : a.and b = a ⊓ b := by
  cases a <;> cases b <;> rfl

lemma or_eq_sup (a b : Truth) : a.or b = a ⊔ b := by
  cases a <;> cases b <;> rfl

lemma allOf_eq_conj (vs : List Truth) : allOf vs = conj vs := by
  induction vs with
  | nil => rfl
  | cons v vs ih => rw [conj_cons, ← ih, ← and_eq_inf]; rfl

lemma anyOf_eq_disj (vs : List Truth) : anyOf vs = disj vs := by
  induction vs with
  | nil => rfl
  | cons v vs ih => rw [disj_cons, ← ih, ← or_eq_sup]; rfl

end Truth

/-! ## Reading -/

/-- The tokens of an operand. -/
abbrev Operand := List Token

/-- What an opening token waits for. -/
inductive Closer
  | paren
  | bracket
  | brace
  | caseEnd
  deriving DecidableEq

def opens (t : Token) : Option Closer :=
  if t = .symbol '(' then some .paren
  else if t = .symbol '[' then some .bracket
  else if t = .symbol '\x7b' then some .brace
  else if t.isWord "CASE" then some .caseEnd
  else none

def closes (t : Token) : Option Closer :=
  if t = .symbol ')' then some .paren
  else if t = .symbol ']' then some .bracket
  else if t = .symbol '\x7d' then some .brace
  else if t.isWord "END" then some .caseEnd
  else none

/-- The open brackets after a token; `none` when it closes what is not open. -/
def nest (open_ : List Closer) (t : Token) : Option (List Closer) :=
  match opens t with
  | some c => some (c :: open_)
  | none =>
      match closes t with
      | none => some open_
      | some c =>
          match open_ with
          | [] => none
          | c' :: rest => if c = c' then some rest else none

/-- Read the alternatives of a condition.  `open_` are the open brackets, `between` says that the
next top-level `AND` belongs to a `BETWEEN`, `cur` is the operand read so far (in reverse). -/
def readTokens (open_ : List Closer) (between : Bool) (cur : Operand) :
    List Token → Option (List (List Operand))
  | [] => if open_.isEmpty && !between && !cur.isEmpty then some [[cur.reverse]] else none
  | t :: ts =>
      if open_.isEmpty && t.isWord "OR" then
        if between || cur.isEmpty then none
        else (readTokens [] false [] ts).map fun D => [cur.reverse] :: D
      else if open_.isEmpty && t.isWord "AND" && !between then
        if cur.isEmpty then none
        else (readTokens [] false [] ts).map (merge [[cur.reverse]])
      else
        let between :=
          if open_.isEmpty && t.isWord "AND" then false
          else if open_.isEmpty && t.isWord "BETWEEN" then true
          else between
        match nest open_ t with
        | none => none
        | some open_ => readTokens open_ between (t :: cur) ts

/-- The normal form of a condition text; `none` when it is not a condition. -/
def readCondition (text : String) : Option (List (List Operand)) :=
  (lex text).bind (readTokens [] false [])

/-- The truth value of a condition text, given the values of its operands. -/
def denote (ν : Operand → Truth) (text : String) : Option Truth :=
  (readCondition text).map fun D => Truth.anyOf (D.map fun d => Truth.allOf (d.map ν))

lemma denote_eq (ν : Operand → Truth) (text : String) :
    denote ν text = (readCondition text).map (value ν) := by
  unfold denote value altValue
  simp only [Truth.anyOf_eq_disj, Truth.allOf_eq_conj]

lemma readTokens_ne_nil {open_ : List Closer} {between : Bool} {cur : Operand}
    {ts : List Token} {D : List (List Operand)}
    (h : readTokens open_ between cur ts = some D) : D ≠ [] := by
  induction ts generalizing open_ between cur D with
  | nil =>
      unfold readTokens at h
      split_ifs at h
      cases h
      simp
  | cons t ts ih =>
      unfold readTokens at h
      split_ifs at h
      · obtain ⟨D', _, rfl⟩ := Option.map_eq_some_iff.mp h
        simp
      · obtain ⟨D', _, rfl⟩ := Option.map_eq_some_iff.mp h
        exact merge_ne_nil (by simp)
      all_goals
        dsimp only at h
        split at h
        · cases h
        · exact ih h

lemma readCondition_ne_nil {text : String} {D : List (List Operand)}
    (h : readCondition text = some D) : D ≠ [] := by
  obtain ⟨ts, _, h⟩ := Option.bind_eq_some_iff.mp h
  exact readTokens_ne_nil h

lemma merge_merge_singleton (x : Operand) {D B : List (List Operand)} (hD : D ≠ []) :
    merge (merge [[x]] D) B = merge [[x]] (merge D B) := by
  match D, B, hD with
  | [d], [], _ => simp [merge]
  | [d], b :: B, _ => simp [merge]
  | d :: d' :: D, B, _ => simp [merge]

/-- Reading on past a top-level `AND` fuses the two normal forms. -/
theorem readTokens_and {open_ : List Closer} {between : Bool} {cur : Operand}
    {ts ts' : List Token} {A B : List (List Operand)}
    (hA : readTokens open_ between cur ts = some A) (hB : readTokens [] false [] ts' = some B) :
    readTokens open_ between cur (ts ++ andToken :: ts') = some (merge A B) := by
  have hor : andToken.isWord "OR" = false := by decide
  have hand : andToken.isWord "AND" = true := by decide
  induction ts generalizing open_ between cur A with
  | nil =>
      unfold readTokens at hA
      split_ifs at hA with hend
      cases hA
      simp only [Bool.and_eq_true, Bool.not_eq_true'] at hend
      obtain ⟨⟨hopen, hbetween⟩, hcur⟩ := hend
      rw [List.nil_append]
      unfold readTokens
      simp only [hopen, hor, hand, hbetween, hcur, hB, Bool.and_false, Bool.false_eq_true,
        if_false, Bool.and_self, Bool.not_false, if_true, Option.map_some]
  | cons t ts ih =>
      rw [List.cons_append]
      unfold readTokens at hA ⊢
      split_ifs at hA ⊢ with h1 h2 h3 h4
      · obtain ⟨D, hD, rfl⟩ := Option.map_eq_some_iff.mp hA
        rw [ih hD, Option.map_some, merge_cons_of_ne_nil (readTokens_ne_nil hD)]
      · obtain ⟨D, hD, rfl⟩ := Option.map_eq_some_iff.mp hA
        rw [ih hD, Option.map_some, merge_merge_singleton _ (readTokens_ne_nil hD)]
      all_goals
        dsimp only at hA ⊢
        split at hA
        · cases hA
        · exact ih hA

/-! ## Joined conditions -/

/-- The texts with `AND` between them read as the fusion of their normal forms. -/
lemma readCondition_join {texts : List String} {Cs : List (List (List Operand))}
    (hne : texts ≠ []) (hclosed : ∀ t ∈ texts.dropLast, Closed t)
    (hread : List.Forall₂ (fun t C => readCondition t = some C) texts Cs) :
    readCondition (Text.join " AND " texts) = some (mergeAll Cs) := by
  induction hread with
  | nil => exact absurd rfl hne
  | @cons t C texts Cs hC hrest ih =>
      cases hrest with
      | nil => simpa [mergeAll] using hC
      | @cons t' C' texts Cs hC' hrest =>
          have ih' := ih (by simp) fun x hx => hclosed x (by simp [hx])
          have ht : Closed t := hclosed t (by simp)
          obtain ⟨ts, hts, hA⟩ := Option.bind_eq_some_iff.mp hC
          obtain ⟨ts', hts', hB⟩ := Option.bind_eq_some_iff.mp ih'
          have hjoin : Text.join " AND " (t :: t' :: texts) =
              t ++ " AND " ++ Text.join " AND " (t' :: texts) := String.intercalate_cons_cons
          rw [hjoin, readCondition, lex_and ht hts, hts', Option.map_some, Option.bind_some,
            readTokens_and hA hB]
          rfl

/-- The joined text ends as its last part does. -/
lemma closed_join_iff {texts : List String} (hclosed : ∀ t ∈ texts.dropLast, Closed t) :
    (texts ≠ [] → Closed (Text.join " AND " texts)) ↔ ∀ t ∈ texts.getLast?, Closed t := by
  induction texts with
  | nil => simp
  | cons t texts ih =>
      match texts, ih with
      | [], _ => simp [Text.join]
      | t' :: texts, ih =>
          have hjoin : Text.join " AND " (t :: t' :: texts) =
              t ++ " AND " ++ Text.join " AND " (t' :: texts) := String.intercalate_cons_cons
          have ht : Closed t := hclosed t (by simp)
          rw [hjoin, closed_and ht, List.getLast?_cons_cons,
            ← ih fun x hx => hclosed x (by simp [hx])]
          simp

/-- The joined text has, for all values of the operands, the truth value of the conjunction of
its parts, each read on its own.  An empty list is no clause at all. -/
def Conjunctive (texts : List String) : Prop :=
  texts ≠ [] → ∀ (ν : Operand → Truth) (vs : List Truth),
    List.Forall₂ (fun t v => denote ν t = some v) texts vs →
    denote ν (Text.join " AND " texts) = some (Truth.allOf vs)

/-- Each alternative that the joined text leaves contains, operand by operand, an alternative of
every condition. -/
def OrsAbsorbed (texts : List String) : Prop :=
  ∀ Cs, List.Forall₂ (fun t C => readCondition t = some C) texts Cs → Absorbed Cs

/-- Conditions with a value on a row have a normal form with that value. -/
lemma readConditions_of_denote {ν : Operand → Truth} {texts : List String} {vs : List Truth}
    (h : List.Forall₂ (fun t v => denote ν t = some v) texts vs) :
    ∃ Cs, List.Forall₂ (fun t C => readCondition t = some C) texts Cs ∧
      vs = Cs.map (value ν) := by
  induction h with
  | nil => exact ⟨[], .nil, rfl⟩
  | cons hv _ ih =>
      rw [denote_eq] at hv
      obtain ⟨C, hC, rfl⟩ := Option.map_eq_some_iff.mp hv
      obtain ⟨Cs, hCs, rfl⟩ := ih
      exact ⟨C :: Cs, .cons hC hCs, rfl⟩

lemma denote_of_readConditions (ν : Operand → Truth) {texts : List String}
    {Cs : List (List (List Operand))}
    (h : List.Forall₂ (fun t C => readCondition t = some C) texts Cs) :
    List.Forall₂ (fun t v => denote ν t = some v) texts (Cs.map (value ν)) := by
  rw [List.forall₂_map_right_iff]
  refine h.imp fun t C hC => ?_
  rw [denote_eq, hC, Option.map_some]

lemma normalForms_ne_nil {texts : List String} {Cs : List (List (List Operand))}
    (h : List.Forall₂ (fun t C => readCondition t = some C) texts Cs) : ∀ C ∈ Cs, C ≠ [] := by
  induction h with
  | nil => intro C hC; cases hC
  | cons hC _ ih =>
      intro D hD
      rcases List.mem_cons.mp hD with rfl | hD
      · exact readCondition_ne_nil hC
      · exact ih D hD

/-- **Joining conditions with `AND`**: the joined text is the conjunction of its parts, for all
values of their operands, exactly when every alternative it leaves contains one of each
part. -/
theorem conjunctive_iff {texts : List String} (hclosed : ∀ t ∈ texts.dropLast, Closed t) :
    Conjunctive texts ↔ OrsAbsorbed texts := by
  by_cases hne : texts = []
  · subst hne
    refine ⟨fun _ Cs hCs => ?_, fun _ h => absurd rfl h⟩
    cases hCs
    intro m hm
    cases hm
  have hforms : ∀ Cs, List.Forall₂ (fun t C => readCondition t = some C) texts Cs →
      Cs ≠ [] ∧ ∀ ν, denote ν (Text.join " AND " texts) = some (value ν (mergeAll Cs)) := by
    intro Cs hCs
    refine ⟨?_, fun ν => ?_⟩
    · rintro rfl
      cases hCs
      exact hne rfl
    · rw [denote_eq, readCondition_join hne hclosed hCs, Option.map_some]
  constructor
  · intro hconj Cs hCs
    obtain ⟨hCsne, hjoin⟩ := hforms Cs hCs
    refine (mergeAll_value_iff (α := Truth) hCsne (normalForms_ne_nil hCs)).mp fun ν => ?_
    have hval := hconj hne ν _ (denote_of_readConditions ν hCs)
    rw [hjoin ν, Truth.allOf_eq_conj] at hval
    exact Option.some.inj hval
  · intro habs _ ν vs hvs
    obtain ⟨Cs, hCs, rfl⟩ := readConditions_of_denote hvs
    obtain ⟨hCsne, hjoin⟩ := hforms Cs hCs
    rw [hjoin ν, Truth.allOf_eq_conj,
      (mergeAll_value_iff hCsne (normalForms_ne_nil hCs)).mpr (habs Cs hCs) ν]

/-- Conditions without a top-level `OR` are conjoined. -/
theorem conjunctive_of_no_or {texts : List String} (hclosed : ∀ t ∈ texts.dropLast, Closed t)
    (h : ∀ t ∈ texts, ∀ C, readCondition t = some C → C.length = 1) : Conjunctive texts := by
  rw [conjunctive_iff hclosed]
  intro Cs hCs
  have hsingle : ∃ ds : List (List Operand), Cs = ds.map fun d => [d] := by
    clear hclosed
    induction hCs with
    | nil => exact ⟨[], rfl⟩
    | @cons t C texts Cs hC _ ih =>
        obtain ⟨ds, rfl⟩ := ih fun t' ht' => h t' (List.mem_cons_of_mem _ ht')
        obtain ⟨d, rfl⟩ := List.length_eq_one_iff.mp (h t List.mem_cons_self C hC)
        exact ⟨d :: ds, rfl⟩
  obtain ⟨ds, rfl⟩ := hsingle
  exact absorbed_singletons ds

/-- A single condition is left as it is. -/
lemma orsAbsorbed_singleton (t : String) : OrsAbsorbed [t] := by
  intro Cs hCs
  cases hCs with
  | cons hC hrest =>
      cases hrest
      intro m hm C hC'
      rw [List.mem_singleton] at hC'
      subst hC'
      exact ⟨m, hm, List.Subset.refl m⟩

example : denote (fun o => if o = [.word ['a']] then .yes else .no) "a OR b AND c" =
    some .yes := by
  decide

end Sql
end Pawrly
