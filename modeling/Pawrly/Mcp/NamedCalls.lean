import Pawrly.Engine.CallRoundTrip
import Pawrly.Http.Columns

/-!
# Calls with named arguments

`call_function` takes the arguments of a function by name: `order_function_args` lists them up to the
last one that has a value, and the call is rendered, read and bound by position.  `namedCall_iff` says
when it is accepted for the right arguments and binds each to its value, or to its default.
-/

namespace Pawrly
namespace Mcp

open Config
open Http (Json)
open Engine Engine.FunctionCall
open Sql (lex)

/-! ## Ordering -/

/-- The value of an argument, if it has one. -/
def provided (named : Option (List (String × Json))) (name : String) : Option Json :=
  named.bind fun fields => fields.lookup name

/-- The text of a value. -/
def argText : Json → String
  | .str s => s
  | other => other.print

/-- `rposition`: the index of the last element that meets the condition. -/
def rposition {α : Type*} (p : α → Bool) : List α → Option ℕ
  | [] => none
  | a :: as =>
      match rposition p as with
      | some i => some (i + 1)
      | none => if p a then some 0 else none

/-- The argument of a call: the value or the default. -/
def orderedArg (named : Option (List (String × Json))) (arg : FunctionArg) :
    Except String CallArg :=
  match provided named arg.name with
  | some v => .ok (CallArg.make (argText v) arg.type)
  | none =>
      match arg.default with
      | some d => .ok (CallArg.make d arg.type)
      | none => .error ("missing required argument `" ++ arg.name ++ "`")

/-- `order_function_args`. -/
def orderFunctionArgs (f : FunctionDef) (named : Option (List (String × Json))) :
    Except String (List CallArg) :=
  match rposition (fun a => (provided named a.name).isSome) f.args with
  | none => .ok []
  | some last => (f.args.take (last + 1)).mapM (orderedArg named)

/-! ## What a call should do -/

/-- The names are those of arguments, and what is required is there. -/
structure Acceptable (f : FunctionDef) (named : Option (List (String × Json))) : Prop where
  known : ∀ fields, named = some fields → ∀ e ∈ fields, e.1 ∈ f.args.map FunctionArg.name
  complete : ∀ arg ∈ f.args, arg.required = true → arg.default = none →
    (provided named arg.name).isSome = true

/-- What an argument is to be bound to: its value, or its default if it has none or null. -/
def Expected (arg : FunctionArg) (value : Option Json) (bound : Option String) : Prop :=
  match value with
  | none | some .null =>
      match arg.default with
      | some d => ∃ s, bound = some s ∧ SameFor arg.type d s
      | none => bound = none
  | some v => ∃ s, bound = some s ∧ SameFor arg.type (argText v) s

/-- A call by name is accepted when its arguments are, and then its text is read as the call, which
binds every argument as expected. -/
structure NamedCall (D : Floats) (factorWord : List Char → Bool) (f : FunctionDef)
    (named : Option (List (String × Json))) : Prop where
  accepted : (∃ args, orderFunctionArgs f named = .ok args) ↔ Acceptable f named
  bound : ∀ args, orderFunctionArgs f named = .ok args →
    ∃ call, (lex (renderCallSql f.ns f.name args)).bind (parseCall factorWord) = some call ∧
      call.ns = f.ns.toList ∧ call.name = f.name.toList ∧
        ∃ bound, FunctionCall.bindArgs f (call.args.map (planArg D)) = .ok bound ∧
          ∀ arg ∈ f.args, Expected arg (provided named arg.name) (bound.get? arg.name)

/-! ## The arguments up to the last value -/

section

variable {named : Option (List (String × Json))}

/-- The arguments up to the last that has a value. -/
def upToLast (named : Option (List (String × Json))) : List FunctionArg → List FunctionArg
  | [] => []
  | a :: args =>
      if (a :: args).any fun b => (provided named b.name).isSome then a :: upToLast named args
      else []

/-- The arguments without a value before one that has a value. -/
def skipped (named : Option (List (String × Json))) (args : List FunctionArg) : List FunctionArg :=
  (upToLast named args).filter fun a => (provided named a.name).isNone

lemma rposition_eq_none {α : Type*} {p : α → Bool} {l : List α} :
    rposition p l = none ↔ l.any p = false := by
  induction l with
  | nil => simp [rposition]
  | cons a l ih =>
      rw [rposition, List.any_cons, Bool.or_eq_false_iff, ← ih]
      cases rposition p l with
      | none => cases p a <;> simp
      | some i => simp

lemma take_rposition (args : List FunctionArg) :
    (match rposition (fun a => (provided named a.name).isSome) args with
      | none => []
      | some last => args.take (last + 1)) = upToLast named args := by
  induction args with
  | nil => rfl
  | cons a args ih =>
      rw [upToLast, rposition]
      cases hlast : rposition (fun a => (provided named a.name).isSome) args with
      | some i =>
          have hany : ((a :: args).any fun b => (provided named b.name).isSome) = true := by
            rw [List.any_cons, Bool.or_eq_true]
            refine .inr (Bool.not_eq_false _ ▸ fun hnone => ?_)
            rw [rposition_eq_none.mpr hnone] at hlast
            cases hlast
          rw [hlast] at ih
          rw [if_pos hany, ← ih]
          rfl
      | none =>
          have hnone := rposition_eq_none.mp hlast
          rw [List.any_cons, hnone, Bool.or_false]
          cases hprovided : (provided named a.name).isSome with
          | true =>
              rw [hlast] at ih
              simp [← ih]
          | false => rfl

lemma orderFunctionArgs_eq (f : FunctionDef) (named : Option (List (String × Json))) :
    orderFunctionArgs f named = (upToLast named f.args).mapM (orderedArg named) := by
  rw [orderFunctionArgs, ← take_rposition]
  cases rposition (fun a => (provided named a.name).isSome) f.args <;> rfl

/-- The arguments after the last that has a value have none. -/
lemma upToLast_append (named : Option (List (String × Json))) (args : List FunctionArg) :
    ∃ rest, args = upToLast named args ++ rest ∧ ∀ a ∈ rest, provided named a.name = none := by
  induction args with
  | nil => exact ⟨[], rfl, List.forall_mem_nil _⟩
  | cons a args ih =>
      rw [upToLast]
      split_ifs with hany
      · obtain ⟨rest, hrest, hnone⟩ := ih
        exact ⟨rest, congrArg (a :: ·) hrest, hnone⟩
      · refine ⟨a :: args, rfl, fun b hb => ?_⟩
        by_contra hsome
        exact hany (List.any_eq_true.mpr ⟨b, hb, Option.isSome_iff_ne_none.mpr hsome⟩)

/-- The text of an argument in a call. -/
def orderedText (named : Option (List (String × Json))) (arg : FunctionArg) : String :=
  match provided named arg.name with
  | some v => argText v
  | none => arg.default.getD ""

lemma orderedArg_eq_ok {arg : FunctionArg} {b : CallArg} :
    orderedArg named arg = .ok b ↔
      (provided named arg.name = none → arg.default ≠ none) ∧
        CallArg.make (orderedText named arg) arg.type = b := by
  unfold orderedArg orderedText
  cases provided named arg.name with
  | some v => simp
  | none => cases arg.default <;> simp

lemma forall₂_map_iff {α β : Type*} {P : α → Prop} {g : α → β} {l : List α} {r : List β} :
    List.Forall₂ (fun a b => P a ∧ g a = b) l r ↔ (∀ a ∈ l, P a) ∧ r = l.map g := by
  induction l generalizing r with
  | nil => simp
  | cons a l ih =>
      cases r with
      | nil => simp
      | cons b r =>
          rw [List.forall₂_cons, ih, List.forall_mem_cons, List.map_cons, List.cons.injEq]
          constructor
          · rintro ⟨⟨ha, rfl⟩, hl, rfl⟩
            exact ⟨⟨ha, hl⟩, rfl, rfl⟩
          · rintro ⟨⟨ha, hl⟩, rfl, rfl⟩
            exact ⟨⟨ha, rfl⟩, hl, rfl⟩

lemma callArgs_prefix (g : FunctionArg → String) (args rest : List FunctionArg) :
    callArgs (args.map g) (args ++ rest) = args.map fun a => CallArg.make (g a) a.type := by
  induction args with
  | nil => rfl
  | cons a args ih => exact congrArg (CallArg.make (g a) a.type :: ·) ih

/-- The texts of the arguments in order. -/
def orderedTexts (f : FunctionDef) (named : Option (List (String × Json))) : List String :=
  (upToLast named f.args).map (orderedText named)

/-- The arguments are ordered when each that is skipped has a default. -/
lemma orderFunctionArgs_eq_ok {f : FunctionDef} {args : List CallArg} :
    orderFunctionArgs f named = .ok args ↔
      (∀ a ∈ skipped named f.args, a.default ≠ none) ∧
        args = callArgs (orderedTexts f named) f.args := by
  obtain ⟨rest, hrest, -⟩ := upToLast_append named f.args
  have hskipped : (∀ a ∈ skipped named f.args, a.default ≠ none) ↔
      ∀ a ∈ upToLast named f.args, provided named a.name = none → a.default ≠ none := by
    simp only [skipped, List.mem_filter, Option.isNone_iff_eq_none, and_imp]
  have hcall := callArgs_prefix (orderedText named) (upToLast named f.args) rest
  rw [← hrest] at hcall
  rw [orderFunctionArgs_eq, Fallible.mapM_eq_ok_iff, hskipped, orderedTexts, hcall]
  simp only [orderedArg_eq_ok]
  exact forall₂_map_iff

end

/-! ## Bound arguments -/

section

variable {D : Floats} {factorWord : List Char → Bool} {f : FunctionDef}
  {named : Option (List (String × Json))}

/-- The namespace can be read, no argument is null, unless that is its default, and the numbers are kept,
those of the skipped arguments' defaults too. -/
structure Bindable (D : Floats) (factorWord : List Char → Bool) (f : FunctionDef)
    (named : Option (List (String × Json))) : Prop where
  factor : factorWord f.ns.toList = false
  null : ∀ a ∈ f.args, provided named a.name = some .null → a.default = some "null"
  keeps : ∀ a ∈ f.args, ∀ v, provided named a.name = some v → v ≠ .null →
    KeepsNumber D (argText v) a.type
  defaults : ∀ a ∈ skipped named f.args, ∀ d, a.default = some d → KeepsNumber D d a.type

lemma literalValue_null (type : String) :
    literalValue (planArg D (CallArg.make "null" type).parsed) = some (some "null") := by
  have hbare : isSafeBareLiteral "null" = false := by decide
  have hquoted : (CallArg.make "null" type).quoted = true := by
    simp only [CallArg.make, hbare, Bool.not_false, Bool.or_true]
  have hparsed : (CallArg.make "null" type).parsed = .string "null".toList := if_pos hquoted
  rw [hparsed]
  simp only [planArg, literalValue, scalarToString, String.ofList_toList]

lemma sameFor_null {type d : String} : SameFor type d "null" ↔ d = "null" := by
  constructor
  · rintro (h | ⟨-, ⟨hsome, hsame⟩ | ⟨hsome, hsame⟩⟩)
    · exact h.symm
    · have hnull : booleanOf "null" = none := by decide
      rw [← hsame, hnull] at hsome
      cases hsome
    · have hnull : numberOf "null" = none := by decide
      rw [← hsame, hnull] at hsome
      cases hsome
  · exact fun h => .inl h.symm

/-- What an argument up to the last value is bound to is expected when its text survives. -/
lemma expected_iff {a : FunctionArg} {s : String}
    (hs : literalValue (planArg D (CallArg.make (orderedText named a) a.type).parsed) =
      some (some s)) (hdefault : provided named a.name = none → a.default ≠ none) :
    Expected a (provided named a.name) (some s) ↔
      (provided named a.name = some .null → a.default = some "null") ∧
        (∀ v, provided named a.name = some v → v ≠ .null → KeepsNumber D (argText v) a.type) ∧
          (provided named a.name = none → ∀ d, a.default = some d → KeepsNumber D d a.type) := by
  obtain ⟨s', hs', hkeeps⟩ := sameFor_iff D (orderedText named a) a.type
  rw [hs] at hs'
  cases hs'
  unfold orderedText at hs hkeeps
  unfold Expected
  cases hvalue : provided named a.name with
  | none =>
      obtain ⟨d, hd⟩ := Option.ne_none_iff_exists'.mp (hdefault hvalue)
      rw [hvalue, hd] at hkeeps
      simp only [hd]
      simpa using hkeeps
  | some v =>
      rw [hvalue] at hs hkeeps
      by_cases hnull : v = .null
      · subst hnull
        have htext : argText .null = "null" := by decide
        dsimp only at hs
        rw [htext, literalValue_null] at hs
        cases hs
        cases a.default with
        | none => simp
        | some d => simp [sameFor_null]
      · have hother : (match some v with
            | none | some .null =>
              match a.default with
              | some d => ∃ t, some s = some t ∧ SameFor a.type d t
              | none => some s = none
            | some v => ∃ t, some s = some t ∧ SameFor a.type (argText v) t) ↔
              SameFor a.type (argText v) s := by
          cases v with
          | null => exact absurd rfl hnull
          | bool | num | str | arr | obj => simp
        rw [hother]
        simpa [hnull] using hkeeps

/-- An argument that is not listed has no value, and its default or nothing is what is expected. -/
lemma expected_default {a : FunctionArg} (hnone : provided named a.name = none) :
    Expected a (provided named a.name) a.default := by
  rw [hnone, Expected]
  cases a.default with
  | none => rfl
  | some d => exact ⟨d, rfl, .inl rfl⟩

/-- The listed arguments are bound to what their literals are read as, the others to their defaults. -/
lemma bindArgs_ordered (hdeclared : Declared f) (haccept : Acceptable f named) :
    ∃ bound, FunctionCall.bindArgs f (plannedArgs D f (orderedTexts f named)) = .ok bound ∧
      (∀ a ∈ upToLast named f.args, ∃ s, bound.get? a.name = some s ∧
        literalValue (planArg D (CallArg.make (orderedText named a) a.type).parsed) =
          some (some s)) ∧
      ∀ a ∈ f.args, a ∉ upToLast named f.args →
        provided named a.name = none ∧ bound.get? a.name = a.default := by
  obtain ⟨rest, hrest, hnone⟩ := upToLast_append named f.args
  have hlength : (orderedTexts f named).length = (upToLast named f.args).length := List.length_map _
  have hlen : (orderedTexts f named).length ≤ f.args.length := by
    rw [hlength]
    conv_rhs => rw [hrest, List.length_append]
    omega
  have hdrop : f.args.drop (orderedTexts f named).length = rest := by
    rw [hlength]
    exact (congrArg (List.drop _) hrest).trans List.drop_left
  have hmissing : NothingMissing f (orderedTexts f named) := by
    rw [NothingMissing, hdrop]
    intro a ha
    by_contra hnot
    rw [not_or, not_not, Bool.not_eq_false] at hnot
    have hmem : a ∈ f.args := hrest ▸ List.mem_append_right _ ha
    have hsome := haccept.complete a hmem hnot.2 hnot.1
    rw [hnone a ha] at hsome
    cases hsome
  obtain ⟨bound, hok, hfound⟩ := bindArgs_ok (D := D) hlen hdeclared.distinct hmissing
  have hdefaults := bindArgs_rest hlen hdeclared.distinct hok
  rw [hdrop] at hdefaults
  refine ⟨bound, hok, ?_, ?_⟩
  · intro a ha
    obtain ⟨i, hi⟩ := List.mem_iff_getElem?.mp ha
    obtain ⟨s, hs, -⟩ := sameFor_iff D (orderedText named a) a.type
    have hvalue : (orderedTexts f named)[i]? = some (orderedText named a) := by
      rw [orderedTexts, List.getElem?_map, hi]
      rfl
    have hparam : f.args[i]? = some a := by
      rw [hrest, List.getElem?_append_left (List.getElem?_eq_some_iff.mp hi).1, hi]
    exact ⟨s, hfound i _ a s hvalue hparam hs, hs⟩
  · intro a ha hnot
    rw [hrest] at ha
    have hmem : a ∈ rest := (List.mem_append.mp ha).resolve_left hnot
    exact ⟨hnone a hmem, hdefaults a hmem⟩

/-- The text of an acceptable call is read and bound as expected exactly when it is bindable. -/
lemma bound_iff_bindable (hdeclared : Declared f) (hgap : ∀ a ∈ skipped named f.args, a.default ≠ none)
    (haccept : Acceptable f named) :
    (∃ call, (lex (renderCallSql f.ns f.name (callArgs (orderedTexts f named) f.args))).bind
        (parseCall factorWord) = some call ∧ call.ns = f.ns.toList ∧ call.name = f.name.toList ∧
          ∃ bound, FunctionCall.bindArgs f (call.args.map (planArg D)) = .ok bound ∧
            ∀ arg ∈ f.args, Expected arg (provided named arg.name) (bound.get? arg.name)) ↔
      Bindable D factorWord f named := by
  have hread := @read_call factorWord f (orderedTexts f named) hdeclared
  obtain ⟨bound, hok, hlisted, hrest⟩ := bindArgs_ordered (D := D) hdeclared haccept
  have hdefault : ∀ a ∈ upToLast named f.args, provided named a.name = none → a.default ≠ none :=
    fun a ha hnone => hgap a (List.mem_filter.mpr ⟨ha, Option.isNone_iff_eq_none.mpr hnone⟩)
  have hargs : ∀ a ∈ upToLast named f.args, a ∈ f.args := by
    obtain ⟨rest, happend, -⟩ := upToLast_append named f.args
    exact fun a ha => happend ▸ List.mem_append_left _ ha
  constructor
  · rintro ⟨call, hcall, -, -, bound', hbound, hexpected⟩
    have hfactor : factorWord f.ns.toList = false := by
      by_contra hword
      rw [hread, if_pos (Bool.eq_true_of_not_eq_false hword)] at hcall
      cases hcall
    rw [hread, if_neg (by rw [hfactor]; exact Bool.false_ne_true)] at hcall
    cases hcall
    obtain rfl : bound = bound' := Except.ok.inj (hok.symm.trans hbound)
    have hall : ∀ a ∈ upToLast named f.args,
        (provided named a.name = some .null → a.default = some "null") ∧
          (∀ v, provided named a.name = some v → v ≠ .null → KeepsNumber D (argText v) a.type) ∧
            (provided named a.name = none → ∀ d, a.default = some d → KeepsNumber D d a.type) := by
      intro a ha
      obtain ⟨s, hs, hliteral⟩ := hlisted a ha
      have hvalue := hexpected a (hargs a ha)
      rw [hs] at hvalue
      exact (expected_iff hliteral (hdefault a ha)).mp hvalue
    have hmem : ∀ a ∈ f.args, ∀ v, provided named a.name = some v → a ∈ upToLast named f.args := by
      intro a ha v hv
      by_contra hnot
      rw [(hrest a ha hnot).1] at hv
      cases hv
    refine ⟨hfactor, ?_, ?_, ?_⟩
    · exact fun a ha hnull => (hall a (hmem a ha _ hnull)).1 hnull
    · exact fun a ha v hv hne => (hall a (hmem a ha v hv)).2.1 v hv hne
    · intro a ha
      obtain ⟨hup, hnone⟩ := List.mem_filter.mp ha
      exact (hall a hup).2.2 (Option.isNone_iff_eq_none.mp hnone)
  · intro h
    rw [hread, if_neg (by rw [h.factor]; exact Bool.false_ne_true)]
    refine ⟨_, rfl, rfl, rfl, bound, hok, fun a ha => ?_⟩
    by_cases hup : a ∈ upToLast named f.args
    · obtain ⟨s, hs, hliteral⟩ := hlisted a hup
      rw [hs]
      refine (expected_iff hliteral (hdefault a hup)).mpr ⟨h.null a ha, h.keeps a ha, ?_⟩
      exact fun hnone => h.defaults a
        (List.mem_filter.mpr ⟨hup, Option.isNone_iff_eq_none.mpr hnone⟩)
    · obtain ⟨hnone, hget⟩ := hrest a ha hup
      rw [hget]
      exact expected_default hnone

end

end Mcp
end Pawrly
