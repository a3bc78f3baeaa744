import Pawrly.Engine.CallText

/-!
# When the arguments of a call survive

A call survives when its text is read as the call with one literal for each value, every parameter
is bound to its value (for a numeric or boolean parameter to a text of the same number or boolean),
and no literal argument that has a value counts as not provided (`Survives`).

A bare numeral beyond the 64-bit integers is read as a float and printed back, and a literal of a
type that `scalar_to_string` does not name is dropped; `survives_iff` says exactly what remains.
-/

namespace Pawrly
namespace Engine
namespace FunctionCall

open Config Sql

/-! ## What a text denotes -/

def mantissaVal (cs : List Char) : ℚ :=
  match Text.splitOnceChars '.' cs with
  | none => Text.digitsVal cs
  | some (whole, frac) => Text.digitsVal whole + Text.digitsVal frac / 10 ^ frac.length

def decimalVal (cs : List Char) : ℚ :=
  match Text.splitOnceChars 'e' (cs.map Char.toLower) with
  | none => mantissaVal cs
  | some (mantissa, exponent) => mantissaVal mantissa * 10 ^ intVal exponent

/-- The number that a numeral in digits denotes. -/
def numberOf (s : String) : Option ℚ :=
  if Text.isDecimal (Text.dropSign s.toList) then
    some (if s.toList.head? = some '-' then -decimalVal (Text.dropSign s.toList)
      else decimalVal (Text.dropSign s.toList))
  else none

/-- The bound text is the value; for a parameter that is no string it may also be another text of
the same number or boolean. -/
def SameFor (type value bound : String) : Prop :=
  bound = value ∨ typeIsString type = false ∧
    (((booleanOf value).isSome = true ∧ booleanOf bound = booleanOf value) ∨
      ((numberOf value).isSome = true ∧ numberOf bound = numberOf value))

/-! ## Integers -/

lemma splitOnceChars_none {c : Char} {cs : List Char} (h : c ∉ cs) :
    Text.splitOnceChars c cs = none := by
  cases hsplit : Text.splitOnceChars c cs with
  | none => rfl
  | some parts =>
      obtain ⟨as, bs⟩ := parts
      rw [(Text.splitOnceChars_spec hsplit).1] at h
      exact absurd (List.mem_append_right _ List.mem_cons_self) h

/-- Digits have neither a point nor an exponent. -/
lemma digits_plain {cs : List Char} (h : Text.isDigits cs = true) :
    Text.splitOnceChars '.' cs = none ∧ Text.splitOnceChars 'e' (cs.map Char.toLower) = none := by
  simp only [Text.isDigits, Bool.and_eq_true, List.all_eq_true] at h
  refine ⟨splitOnceChars_none fun hmem => ?_, splitOnceChars_none fun hmem => ?_⟩
  · have hdot := h.2 '.' hmem
    revert hdot
    decide
  · obtain ⟨c, hc, hlower⟩ := List.mem_map.mp hmem
    have halpha : c.isAlpha = true := by
      rw [← Char.isAlpha_toLower_eq_isAlpha, hlower]
      decide
    rw [isAlpha_of_isDigit (h.2 c hc)] at halpha
    cases halpha

lemma isDecimal_of_isDigits {cs : List Char} (h : Text.isDigits cs = true) :
    Text.isDecimal cs = true := by
  simp only [Text.isDecimal, (digits_plain h).2, Text.isMantissa, (digits_plain h).1, h]

lemma decimalVal_digits {cs : List Char} (h : Text.isDigits cs = true) :
    decimalVal cs = Text.digitsVal cs := by
  simp only [decimalVal, (digits_plain h).2, mantissaVal, (digits_plain h).1]

/-- An integer text denotes its integer. -/
lemma numberOf_digits {s : String} (h : Text.isDigits (Text.dropSign s.toList) = true) :
    numberOf s = some (intVal s.toList : ℚ) := by
  unfold numberOf intVal
  rw [if_pos (isDecimal_of_isDigits h), decimalVal_digits h]
  split_ifs <;> simp

/-- A printed natural number denotes it. -/
lemma numberOf_toString (n : ℕ) : numberOf (toString n) = some (n : ℚ) := by
  have hdigits := Text.isDigits_toString n
  have hsign := Text.dropSign_digits hdigits
  rw [numberOf_digits (by rw [hsign]; exact hdigits), intVal, if_neg (Text.head_digits hdigits), hsign,
    Text.digitsVal_toString]
  simp

/-- A printed integer denotes it. -/
lemma numberOf_toString_int (n : ℤ) : numberOf (toString n) = some (n : ℚ) := by
  cases n with
  | ofNat n => exact numberOf_toString n
  | negSucc n =>
      have htext : (toString (Int.negSucc n)).toList = '-' :: (toString (n + 1)).toList := by
        have hrepr : toString (Int.negSucc n) = "-" ++ toString (n + 1) := rfl
        rw [hrepr, String.toList_append]
        rfl
      have hdigits := Text.isDigits_toString (n + 1)
      rw [numberOf_digits (by rw [htext]; exact hdigits), htext]
      have hval : intVal ('-' :: (toString (n + 1)).toList) = Int.negSucc n := by
        have hsign : Text.dropSign ('-' :: (toString (n + 1)).toList) = (toString (n + 1)).toList :=
          rfl
        rw [intVal, if_pos List.head?_cons, hsign, Text.digitsVal_toString, Int.negSucc_eq]
        simp
      rw [hval]

lemma numberOf_parseUnsigned {bound n : ℕ} {s : String}
    (h : Text.parseUnsigned bound s = some n) : numberOf s = some (n : ℚ) := by
  unfold Text.parseUnsigned at h
  split at h
  next cs hcs =>
    simp only [Bool.and_eq_true, decide_eq_true_eq, Option.ite_none_right_eq_some,
      Option.some.injEq] at h
    obtain ⟨⟨hdigits, -⟩, rfl⟩ := h
    rw [numberOf_digits (by rw [hcs]; exact hdigits), hcs, intVal, if_neg (by simp)]
    simp [Text.dropSign]
  next hplus =>
    simp only [Bool.and_eq_true, decide_eq_true_eq, Option.ite_none_right_eq_some,
      Option.some.injEq] at h
    obtain ⟨⟨hdigits, -⟩, rfl⟩ := h
    have hsign := Text.dropSign_digits hdigits
    rw [numberOf_digits (by rw [hsign]; exact hdigits), intVal, if_neg (Text.head_digits hdigits), hsign]
    simp

/-- A numeral in digits has one sign at most. -/
lemma dropSign_decimal {cs : List Char} (h : Text.isDecimal cs = true) : Text.dropSign cs = cs := by
  have hhead : ∀ c, cs.head? = some c → c.toLower.isDigit = true ∨ c.toLower = '.' := by
    intro c hc
    have hlower : (cs.map Char.toLower).head? = some c.toLower := by rw [List.head?_map, hc]; rfl
    unfold Text.isDecimal at h
    split at h
    · have hchar := (mantissa_chars h).2 c (List.mem_of_mem_head? hc)
      have hsame : c.toLower = c := by
        refine Char.toLower_eq_of_not_isUpper fun hupper => ?_
        have halpha := mantissa_not_alpha h c (List.mem_of_mem_head? hc)
        simp [Char.isAlpha, hupper] at halpha
      rwa [hsame]
    · next mantissa exponent hsplit =>
        rw [Bool.and_eq_true] at h
        obtain ⟨hne, hchars⟩ := mantissa_chars h.1
        rw [(Text.splitOnceChars_spec hsplit).1, List.head?_append_of_ne_nil _ hne] at hlower
        exact hchars _ (List.mem_of_mem_head? hlower)
  refine Text.dropSign_of_head (fun hplus => ?_) fun hdash => ?_
  · have hc := hhead '+' hplus
    revert hc
    decide
  · have hc := hhead '-' hdash
    revert hc
    decide

/-! ## One value -/

/-- The numeral that the parser sees of a value: a plus sign is dropped. -/
def sqlText (value : String) : String :=
  signedText (value.toList.head? = some '-') (Text.dropSign value.toList)

/-- The numeral is a 64-bit integer, or an unsigned one without a minus sign. -/
def Integral (value : String) : Prop :=
  Text.parsesI64 (sqlText value) = true ∨
    value.toList.head? ≠ some '-' ∧ (Text.parseUnsigned (2 ^ 64 - 1) (sqlText value)).isSome = true

/-- A value that is rendered bare as a number beyond the integers is printed back from its float as
the same number. -/
def KeepsNumber (D : Floats) (value type : String) : Prop :=
  typeIsString type = false → isSafeBareLiteral value = true → booleanOf value = none →
    ¬ Integral value → numberOf (D.display64 (D.parse (sqlText value))) = numberOf value

section

variable {D : Floats} {value type : String}

lemma isDecimal_of_safe (hsafe : isSafeBareLiteral value = true)
    (hbool : booleanOf value = none) : Text.isDecimal (Text.dropSign value.toList) = true := by
  obtain ⟨hname, hparses⟩ := not_isFloatName hsafe (by rw [hbool]; rfl)
  rw [Text.parsesF64_eq, hname, Bool.false_or, Bool.or_eq_true] at hparses
  rcases hparses with hint | hdecimal
  · simp only [Text.parsesI64, Bool.and_eq_true] at hint
    exact isDecimal_of_isDigits hint.1
  · exact hdecimal

/-- Dropping a plus sign leaves the number. -/
lemma numberOf_sqlText (h : Text.isDecimal (Text.dropSign value.toList) = true) :
    numberOf (sqlText value) = numberOf value := by
  have hbody := dropSign_decimal h
  have hhead : (Text.dropSign value.toList).head? ≠ some '-' := (readsAs_decimal h).1
  unfold numberOf sqlText signedText
  rw [String.toList_ofList]
  by_cases hdash : value.toList.head? = some '-'
  · simp only [hdash, decide_true, if_true, List.head?_cons]
    rfl
  · simp only [hdash, decide_false, Bool.false_eq_true, if_false, hbody, hhead]

/-- An integer numeral is bound to a text of its number. -/
lemma boundText_integral (hint : Integral value) :
    ∃ s, scalarToString (parseSqlNumber D (value.toList.head? = some '-')
      (Text.dropSign value.toList)) = some s ∧ numberOf s = numberOf (sqlText value) := by
  unfold parseSqlNumber
  change ∃ s, scalarToString (if Text.parsesI64 (sqlText value) = true then _ else _) = _ ∧ _
  by_cases hi64 : Text.parsesI64 (sqlText value) = true
  · rw [if_pos hi64]
    refine ⟨toString (intVal (sqlText value).toList), rfl, ?_⟩
    simp only [Text.parsesI64, Bool.and_eq_true] at hi64
    rw [numberOf_toString_int, numberOf_digits hi64.1]
  · rw [if_neg hi64]
    obtain ⟨hdash, hu64⟩ := hint.resolve_left hi64
    obtain ⟨n, hn⟩ := Option.isSome_iff_exists.mp hu64
    have hnumber := numberOf_parseUnsigned hn
    change Text.parseUnsigned (2 ^ 64 - 1) (signedText _ _) = some n at hn
    simp only [hdash, decide_false, Bool.false_eq_true, if_false] at hn ⊢
    rw [hn]
    exact ⟨toString n, rfl, (numberOf_toString n).trans hnumber.symm⟩

/-- A numeral beyond the integers is bound to the text of its float. -/
lemma boundText_float (hint : ¬ Integral value) :
    scalarToString (parseSqlNumber D (value.toList.head? = some '-')
      (Text.dropSign value.toList)) = some (D.display64 (D.parse (sqlText value))) := by
  obtain ⟨hi64, hu64⟩ := not_or.mp hint
  unfold parseSqlNumber
  change scalarToString (if Text.parsesI64 (sqlText value) = true then _ else _) = _
  rw [if_neg hi64]
  by_cases hdash : value.toList.head? = some '-'
  · simp only [hdash, decide_true, if_true]
    show some (D.display64 (D.parse (signedText true _))) = _
    simp only [sqlText, hdash, decide_true]
  · have hnone : Text.parseUnsigned (2 ^ 64 - 1) (sqlText value) = none := by
      by_contra hsome
      exact hu64 ⟨hdash, Option.isSome_iff_ne_none.mpr hsome⟩
    simp only [hdash, decide_false, Bool.false_eq_true, if_false]
    simp only [sqlText, hdash, decide_false] at hnone ⊢
    rw [hnone]
    rfl

/-- A value is bound to a text of the same number or boolean exactly when its float keeps it. -/
lemma sameFor_iff (D : Floats) (value type : String) :
    ∃ s, literalValue (planArg D (CallArg.make value type).parsed) = some (some s) ∧
      (SameFor type value s ↔ KeepsNumber D value type) := by
  unfold CallArg.parsed
  cases hquoted : (CallArg.make value type).quoted with
  | true =>
      refine ⟨value, ?_, ?_⟩
      · simp only [if_true, planArg, literalValue, scalarToString, CallArg.make,
          String.ofList_toList]
      · refine iff_of_true (.inl rfl) fun htype hsafe => ?_
        simp [CallArg.make, htype, hsafe] at hquoted
  | false =>
      have hboth : typeIsString type = false ∧ isSafeBareLiteral value = true := by
        simpa [CallArg.make] using hquoted
      obtain ⟨htype, hsafe⟩ := hboth
      simp only [Bool.false_eq_true, if_false]
      have hvalue : (CallArg.make value type).value = value := rfl
      rw [hvalue]
      cases hbool : booleanOf value with
      | some b =>
          refine ⟨if b then "true" else "false", rfl, iff_of_true ?_ fun _ _ hnone => ?_⟩
          · refine .inr ⟨htype, .inl ⟨by rw [hbool]; rfl, ?_⟩⟩
            rw [hbool]
            cases b <;> decide
          · rw [hbool] at hnone
            cases hnone
      | none =>
          have hdecimal := isDecimal_of_safe hsafe hbool
          have hsome : (numberOf value).isSome = true := by
            rw [numberOf, if_pos hdecimal]
            rfl
          by_cases hint : Integral value
          · obtain ⟨s, hs, hnumber⟩ := boundText_integral (D := D) hint
            refine ⟨s, congrArg some hs, iff_of_true ?_ fun _ _ _ hnot => absurd hint hnot⟩
            exact .inr ⟨htype, .inr ⟨hsome, hnumber.trans (numberOf_sqlText hdecimal)⟩⟩
          · refine ⟨_, congrArg some (boundText_float hint), ?_⟩
            constructor
            · rintro (hsame | ⟨-, ⟨hbad, -⟩ | ⟨-, hnumber⟩⟩) _ _ _ _
              · rw [hsame]
              · rw [hbool] at hbad
                cases hbad
              · exact hnumber
            · intro hkeeps
              exact .inr ⟨htype, .inr ⟨hsome, hkeeps htype hsafe hbool hint⟩⟩

end

/-! ## Binding -/

section

variable {D : Floats} {f : FunctionDef}

/-- Literals with a value are bound to their parameters. -/
lemma bindLiterals_ok (i : ℕ) {params : List FunctionArg} {es : List (PlannedExpr D)}
    {texts : List String} (hlen : es.length ≤ params.length)
    (hes : es.map literalValue = texts.map fun s => some (some s))
    (bound : OrderedMap String String) :
    bindLiterals f i params es bound =
      .ok (bound.extend ((params.map FunctionArg.name).zip texts)) := by
  induction es generalizing i params texts bound with
  | nil =>
      have htexts : texts = [] := by simpa using hes.symm
      subst htexts
      cases params <;> simp [bindLiterals, OrderedMap.extend]
  | cons e es ih =>
      cases texts with
      | nil => simp at hes
      | cons s texts =>
          cases params with
          | nil => simp at hlen
          | cons param params =>
              simp only [List.map_cons, List.cons.injEq] at hes
              simp only [List.length_cons, Nat.add_le_add_iff_right] at hlen
              simp only [bindLiterals, hes.1]
              exact ih (i + 1) hlen hes.2 (bound.insert param.name s)

/-- Other keys do not change what is found. -/
lemma get?_extend_of_ne {name : String} {l : List (String × String)} (h : ∀ e ∈ l, e.1 ≠ name)
    (m : OrderedMap String String) : (m.extend l).get? name = m.get? name := by
  rcases m.get?_extend l name with ⟨-, hget⟩ | ⟨v, hmem, -⟩
  · exact hget
  · exact absurd rfl (h _ hmem)

/-- The bound literals are found under their parameters. -/
lemma get?_bound {names texts : List String} (hnodup : names.Nodup) {i : ℕ} {name s : String}
    (hname : names[i]? = some name) (hs : texts[i]? = some s) (bound : OrderedMap String String) :
    (bound.extend (names.zip texts)).get? name = some s := by
  induction names generalizing texts i bound with
  | nil => simp at hname
  | cons n names ih =>
      obtain ⟨hn, hnodup⟩ := List.nodup_cons.mp hnodup
      cases texts with
      | nil => simp at hs
      | cons t texts =>
          have hextend : bound.extend ((n :: names).zip (t :: texts)) =
              (bound.insert n t).extend (names.zip texts) := rfl
          rw [hextend]
          cases i with
          | zero =>
              simp only [List.getElem?_cons_zero, Option.some.injEq] at hname hs
              subst hname hs
              have hne : ∀ e ∈ names.zip texts, e.1 ≠ n :=
                fun e he hen => hn (hen ▸ (List.of_mem_zip he).1)
              rw [get?_extend_of_ne hne]
              exact bound.get?_insert_self n t
          | succ i => exact ih hnodup (by simpa using hname) (by simpa using hs) _

/-- After the defaults a parameter has what was bound, or its default. -/
lemma fillDefaults_get {i : ℕ} {params : List FunctionArg}
    (hnodup : (params.map FunctionArg.name).Nodup) {bound bound' : OrderedMap String String}
    (h : fillDefaults f i params bound = .ok bound') :
    (∀ k, k ∉ params.map FunctionArg.name → bound'.get? k = bound.get? k) ∧
      ∀ param ∈ params, bound'.get? param.name = (bound.get? param.name).or param.default := by
  induction params generalizing i bound with
  | nil =>
      cases h
      exact ⟨fun _ _ => rfl, List.forall_mem_nil _⟩
  | cons param params ih =>
      obtain ⟨hfresh, hnodup⟩ := List.nodup_cons.mp hnodup
      -- the rest leaves the parameter as it is, and sees it as another key
      have hstep : ∀ mid, fillDefaults f (i + 1) params mid = .ok bound' →
          mid.get? param.name = (bound.get? param.name).or param.default →
          (∀ k ≠ param.name, mid.get? k = bound.get? k) →
          (∀ k, k ∉ (param :: params).map FunctionArg.name → bound'.get? k = bound.get? k) ∧
            ∀ p ∈ param :: params, bound'.get? p.name = (bound.get? p.name).or p.default := by
        intro mid hmid hhere hother
        obtain ⟨hkept, hfilled⟩ := ih hnodup hmid
        refine ⟨fun k hk => ?_, List.forall_mem_cons.mpr ⟨?_, fun p hp => ?_⟩⟩
        · rw [List.map_cons, List.mem_cons, not_or] at hk
          rw [hkept k hk.2, hother k hk.1]
        · rw [hkept _ hfresh, hhere]
        · have hne : p.name ≠ param.name := fun heq =>
            hfresh (heq ▸ List.mem_map_of_mem hp)
          rw [hfilled p hp, hother _ hne]
      unfold fillDefaults at h
      cases hcontains : bound.contains param.name with
      | true =>
          simp only [hcontains, if_true] at h
          obtain ⟨v, hv⟩ := OrderedMap.contains_iff.mp hcontains
          exact hstep bound h (by rw [hv]; rfl) fun _ _ => rfl
      | false =>
          have hnone : bound.get? param.name = none := by
            by_contra hsome
            obtain ⟨v, hv⟩ := Option.ne_none_iff_exists'.mp hsome
            rw [OrderedMap.contains_iff.mpr ⟨v, hv⟩] at hcontains
            cases hcontains
          simp only [hcontains, Bool.false_eq_true, if_false] at h
          cases hdefault : param.default with
          | some d =>
              simp only [hdefault] at h
              refine hstep _ h ?_ fun k hk => bound.get?_insert_of_ne hk d
              rw [bound.get?_insert_self, hnone, hdefault]
              rfl
          | none =>
              simp only [hdefault] at h
              split_ifs at h
              exact hstep bound h (by rw [hnone, hdefault]; rfl) fun _ _ => rfl

/-- Where nothing required is missing the defaults are filled in, and what is bound stays. -/
lemma fillDefaults_ok (i : ℕ) {params : List FunctionArg} {bound : OrderedMap String String}
    (h : ∀ param ∈ params, bound.contains param.name = true ∨ param.default ≠ none ∨
      param.required = false) :
    ∃ bound', fillDefaults f i params bound = .ok bound' ∧
      ∀ k v, bound.get? k = some v → bound'.get? k = some v := by
  induction params generalizing i bound with
  | nil => exact ⟨bound, rfl, fun _ _ hv => hv⟩
  | cons param params ih =>
      have hrest := fun p hp => h p (List.mem_cons_of_mem param hp)
      unfold fillDefaults
      cases hcontains : bound.contains param.name with
      | true => exact ih (i + 1) hrest
      | false =>
          simp only [Bool.false_eq_true, if_false]
          cases hdefault : param.default with
          | some d =>
              have hkept : ∀ k v, bound.get? k = some v →
                  (bound.insert param.name d).get? k = some v := by
                intro k v hk
                have hne : k ≠ param.name := by
                  rintro rfl
                  rw [OrderedMap.contains, hk] at hcontains
                  cases hcontains
                rw [bound.get?_insert_of_ne hne, hk]
              obtain ⟨bound', hok, hall⟩ := @ih (i + 1) (bound.insert param.name d)
                fun p hp => by
                  rcases hrest p hp with hc | hother
                  · obtain ⟨v, hv⟩ := OrderedMap.contains_iff.mp hc
                    exact .inl (OrderedMap.contains_iff.mpr ⟨v, hkept _ v hv⟩)
                  · exact .inr hother
              exact ⟨bound', hok, fun k v hk => hall k v (hkept k v hk)⟩
          | none =>
              have hrequired : param.required = false := by
                rcases h param List.mem_cons_self with hc | hd | hr
                · rw [hcontains] at hc
                  cases hc
                · exact absurd hdefault hd
                · exact hr
              simp only [hrequired, Bool.false_eq_true, if_false]
              exact ih (i + 1) hrest

/-- The parameters without a value have a default or are not required. -/
def NothingMissing (f : FunctionDef) (values : List String) : Prop :=
  ∀ param ∈ f.args.drop values.length, param.default ≠ none ∨ param.required = false

/-- What is planned for the values. -/
def plannedArgs (D : Floats) (f : FunctionDef) (values : List String) : List (PlannedExpr D) :=
  ((callArgs values f.args).map CallArg.parsed).map (planArg D)

lemma getElem?_callArgs {values : List String} {params : List FunctionArg} {i : ℕ} {value : String}
    {param : FunctionArg} (hvalue : values[i]? = some value) (hparam : params[i]? = some param) :
    (callArgs values params)[i]? = some (CallArg.make value param.type) := by
  simp [callArgs, List.getElem?_zipWith, hvalue, hparam]

lemma length_plannedArgs {values : List String} (hlen : values.length ≤ f.args.length) :
    (plannedArgs D f values).length = values.length := by
  simp [plannedArgs, callArgs, hlen]

/-- Every literal of a call has a text. -/
lemma plannedArgs_texts (D : Floats) (f : FunctionDef) (values : List String) :
    ∃ texts : List String,
      (plannedArgs D f values).map literalValue = texts.map fun s => some (some s) := by
  unfold plannedArgs callArgs
  generalize f.args = params
  induction values generalizing params with
  | nil => exact ⟨[], by simp⟩
  | cons value values ih =>
      cases params with
      | nil => exact ⟨[], by simp⟩
      | cons param params =>
          obtain ⟨s, hs, -⟩ := sameFor_iff D value param.type
          obtain ⟨texts, htexts⟩ := ih params
          refine ⟨s :: texts, ?_⟩
          simp only [List.zipWith_cons_cons, List.map_cons, hs, htexts]

/-- Each parameter with a value is bound to what its literal is read as. -/
lemma bindArgs_ok {values : List String} (hlen : values.length ≤ f.args.length)
    (hnodup : (f.args.map FunctionArg.name).Nodup) (hmissing : NothingMissing f values) :
    ∃ bound, bindArgs f (plannedArgs D f values) = .ok bound ∧
      ∀ (i : ℕ) value param s, values[i]? = some value → f.args[i]? = some param →
        literalValue (planArg D (CallArg.make value param.type).parsed) = some (some s) →
          bound.get? param.name = some s := by
  have hlength := length_plannedArgs (D := D) hlen
  obtain ⟨texts, htexts⟩ := plannedArgs_texts D f values
  have htextsLength : texts.length = values.length := by
    have hlengths := congrArg List.length htexts
    rw [List.length_map, List.length_map, hlength] at hlengths
    exact hlengths.symm
  let literals := OrderedMap.empty.extend ((f.args.map FunctionArg.name).zip texts)
  have hfound : ∀ (i : ℕ) (param : FunctionArg) (s : String), f.args[i]? = some param →
      texts[i]? = some s → literals.get? param.name = some s := by
    intro i param s hparam hs
    exact get?_bound hnodup (by rw [List.getElem?_map, hparam]; rfl) hs .empty
  have hfilled : ∀ param ∈ f.args, literals.contains param.name = true ∨
      param.default ≠ none ∨ param.required = false := by
    intro param hparam
    obtain ⟨i, hi⟩ := List.mem_iff_getElem?.mp hparam
    by_cases hshort : i < values.length
    · have hs : texts[i]? = some texts[i] := List.getElem?_eq_getElem (by omega)
      exact .inl (OrderedMap.contains_iff.mpr ⟨_, hfound i param _ hi hs⟩)
    · refine .inr (hmissing param (List.mem_iff_getElem?.mpr ⟨i - values.length, ?_⟩))
      rw [List.getElem?_drop, show values.length + (i - values.length) = i by omega, hi]
  obtain ⟨bound, hok, hkept⟩ := fillDefaults_ok 0 hfilled
  refine ⟨bound, ?_, ?_⟩
  · unfold bindArgs
    rw [if_neg (by omega), bindLiterals_ok 0 (by omega) htexts .empty]
    exact hok
  · intro i value param s hvalue hparam hs
    refine hkept _ _ (hfound i param s hparam ?_)
    have hplanned : (plannedArgs D f values)[i]? =
        some (planArg D (CallArg.make value param.type).parsed) := by
      simp only [plannedArgs, List.getElem?_map, getElem?_callArgs hvalue hparam, Option.map_some]
    have hmap := congrArg (fun l => l[i]?) htexts
    simp only [List.getElem?_map, hplanned, Option.map_some, hs] at hmap
    cases htext : texts[i]? with
    | none => rw [htext] at hmap; cases hmap
    | some t =>
        rw [htext] at hmap
        simpa using hmap.symm

/-- A parameter without a value has its default. -/
lemma bindArgs_rest {values : List String} (hlen : values.length ≤ f.args.length)
    (hnodup : (f.args.map FunctionArg.name).Nodup) {bound : OrderedMap String String}
    (h : bindArgs f (plannedArgs D f values) = .ok bound) :
    ∀ param ∈ f.args.drop values.length, bound.get? param.name = param.default := by
  obtain ⟨texts, htexts⟩ := plannedArgs_texts D f values
  have hlength := length_plannedArgs (D := D) hlen
  have htextsLength : texts.length = values.length := by
    have hlengths := congrArg List.length htexts
    rw [List.length_map, List.length_map, hlength] at hlengths
    exact hlengths.symm
  unfold bindArgs at h
  rw [if_neg (by omega), bindLiterals_ok 0 (by omega) htexts .empty] at h
  intro param hparam
  rw [(fillDefaults_get hnodup h).2 param (List.mem_of_mem_drop hparam), get?_extend_of_ne]
  · rfl
  · intro e he hname
    obtain ⟨i, hi⟩ := List.mem_iff_getElem?.mp he
    obtain ⟨j, hj⟩ := List.mem_iff_getElem?.mp hparam
    rw [List.getElem?_zip_eq_some, List.getElem?_map] at hi
    rw [List.getElem?_drop] at hj
    have hi' : i < texts.length := (List.getElem?_eq_some_iff.mp hi.2).1
    have hj' : (f.args.map FunctionArg.name)[values.length + j]? = some param.name := by
      rw [List.getElem?_map, hj]
      rfl
    have hi'' : (f.args.map FunctionArg.name)[i]? = some param.name := by
      rw [List.getElem?_map, hi.1, hname]
    obtain ⟨hilt, -⟩ := List.getElem?_eq_some_iff.mp hi''
    have heq := (List.getElem?_inj hilt hnodup).mp (hi''.trans hj'.symm)
    omega

end

/-! ## Literals that count as not provided -/

/-- The scalar is a null or of a type that `scalar_to_string` names. -/
def ScalarValue.named {D : Floats} : ScalarValue D → Bool
  | .other _ present => !present
  | _ => true

def PlannedExpr.isNull {D : Floats} : PlannedExpr D → Bool
  | .literal v => v.isNull
  | .negative (.literal v) => v.isNull
  | _ => false

def PlannedExpr.named {D : Floats} : PlannedExpr D → Bool
  | .literal v => v.named
  | .negative (.literal v) => v.named
  | _ => true

section

variable {D : Floats}

/-- A scalar with a value is bound exactly when its type is named. -/
lemma scalar_named (v : ScalarValue D) :
    (scalarToString v = none → v.isNull = true) ↔ v.named = true := by
  cases v <;> simp [scalarToString, ScalarValue.isNull, ScalarValue.named]

lemma literal_named (e : PlannedExpr D) :
    (literalValue e = some none → e.isNull = true) ↔ e.named = true := by
  match e with
  | .literal v => simpa [literalValue, PlannedExpr.isNull, PlannedExpr.named] using scalar_named v
  | .negative (.literal v) =>
      simpa [literalValue, PlannedExpr.isNull, PlannedExpr.named] using scalar_named v
  | .negative (.negative _) => simp [literalValue, PlannedExpr.named]
  | .negative .other => simp [literalValue, PlannedExpr.named]
  | .other => simp [literalValue, PlannedExpr.named]

end

/-! ## Calls that survive -/

/-- What `validate_one_function` asks of the names of a declaration. -/
structure Declared (f : FunctionDef) : Prop where
  ns : isValidIdentifier f.ns = true
  name : isValidIdentifier f.name = true
  distinct : (f.args.map FunctionArg.name).Nodup

/-- The call is read with its values, its parameters are bound to them, and no literal with a value
counts as not provided. -/
structure Survives (D : Floats) (factorWord : List Char → Bool) (f : FunctionDef)
    (values : List String) (exprs : List (PlannedExpr D)) : Prop where
  /-- One literal for each value. -/
  read : ∃ call, (lex (renderCallSql f.ns f.name (callArgs values f.args))).bind
      (parseCall factorWord) = some call ∧ call.ns = f.ns.toList ∧ call.name = f.name.toList ∧
      call.args.length = values.length
  /-- Unless a required argument is missing, every value reaches its parameter. -/
  bound : ∀ call, (lex (renderCallSql f.ns f.name (callArgs values f.args))).bind
      (parseCall factorWord) = some call → NothingMissing f values →
      ∃ bound, bindArgs f (call.args.map (planArg D)) = .ok bound ∧
        ∀ (i : ℕ) value param, values[i]? = some value → f.args[i]? = some param →
          ∃ s, bound.get? param.name = some s ∧ SameFor param.type value s
  provided : ∀ e ∈ exprs, literalValue e = some none → e.isNull = true

/-- Every value that is given as a bare number keeps it. -/
def KeepsNumbers (D : Floats) (f : FunctionDef) (values : List String) : Prop :=
  ∀ (i : ℕ) value param, values[i]? = some value → f.args[i]? = some param →
    KeepsNumber D value param.type

section

variable {D : Floats} {factorWord : List Char → Bool} {f : FunctionDef} {values : List String}
  {exprs : List (PlannedExpr D)}

lemma callArgs_safe (values : List String) (params : List FunctionArg) :
    ∀ a ∈ callArgs values params, a.Safe := by
  intro a ha
  obtain ⟨i, hi⟩ := List.mem_iff_getElem?.mp ha
  rw [callArgs, List.getElem?_zipWith_eq_some] at hi
  obtain ⟨value, param, -, -, rfl⟩ := hi
  exact make_safe value param.type

/-- What the statement of a call is read as. -/
lemma read_call (hdeclared : Declared f) :
    (lex (renderCallSql f.ns f.name (callArgs values f.args))).bind (parseCall factorWord) =
      if factorWord f.ns.toList then none
      else some { ns := f.ns.toList, name := f.name.toList,
                  args := (callArgs values f.args).map CallArg.parsed } :=
  parseCall_renderCallSql factorWord hdeclared.ns hdeclared.name (callArgs_safe values f.args)

/-- The parameters are bound to their values exactly when the numbers are kept. -/
lemma bound_iff (hdeclared : Declared f) (hlen : values.length ≤ f.args.length)
    (hmissing : NothingMissing f values) :
    (∃ bound, bindArgs f (plannedArgs D f values) = .ok bound ∧
      ∀ (i : ℕ) value param, values[i]? = some value → f.args[i]? = some param →
        ∃ s, bound.get? param.name = some s ∧ SameFor param.type value s) ↔
      KeepsNumbers D f values := by
  obtain ⟨bound, hok, hbound⟩ := bindArgs_ok (D := D) hlen hdeclared.distinct hmissing
  constructor
  · rintro ⟨bound', hok', hall⟩ i value param hvalue hparam
    obtain rfl : bound = bound' := by simpa [hok] using hok'
    obtain ⟨s, hs, hsame⟩ := sameFor_iff D value param.type
    obtain ⟨s', hs', hsame'⟩ := hall i value param hvalue hparam
    have hfound := hbound i value param s hvalue hparam hs
    obtain rfl : s = s' := by simpa [hfound] using hs'
    exact hsame.mp hsame'
  · intro hkeeps
    refine ⟨bound, hok, fun i value param hvalue hparam => ?_⟩
    obtain ⟨s, hs, hsame⟩ := sameFor_iff D value param.type
    exact ⟨s, hbound i value param s hvalue hparam hs,
      hsame.mpr (hkeeps i value param hvalue hparam)⟩

end

/-! ## Two calls -/

/-- The 64-bit floats at a few texts: 2⁶⁴ + 1 is rounded to 2⁶⁴, which is printed with the fewest
significant digits. -/
def sampleFloats : Floats where
  F32 := Empty
  F64 := String
  parse := fun s => if s = "18446744073709551617" then "18446744073709552000" else s
  display32 := Empty.elim
  display64 := id

/-- The words that begin other table factors. -/
def otherFactors (word : List Char) : Bool :=
  ["lateral", "table", "unnest", "values"].contains (lowercase (String.ofList word))

/-- `github.search(query, above)`. -/
def searchFunction : FunctionDef where
  ns := "github"
  name := "search"
  kind := .http
  args := [{ name := "query", type := "varchar" },
    { name := "above", type := "decimal", required := false }]

end FunctionCall
end Engine
end Pawrly
