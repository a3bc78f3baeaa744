import Pawrly.Config.Variables

/-!
# The types of resolved variables

What a block was checked for when it was read (`Checked`), and what the raw strings of the stores are
coerced to, give a value of the declared type (`resolved_of_type`).
-/

namespace Pawrly
namespace Config

open Http (Json)

/-! ## What a declaration was checked for -/

/-- A value is of the type of a declaration. -/
def VariableDef.Holds (d : VariableDef) (v : Json) : Prop :=
  match d.kind, d.varType with
  | .secret, _ => ∃ s, v = .str s
  | .var, .string => ∃ s, v = .str s
  | .var, .integer => ∃ text, v = .num text ∧ isInteger text = true
  | .var, .number => ∃ text, v = .num text
  | .var, .boolean => ∃ b, v = .bool b
  | .var, .enum => v ∈ d.choices

/-- A declaration has passed its checks: its default is a value of its type. -/
structure VariableDef.Checked (d : VariableDef) : Prop where
  secret : d.kind = .secret → d.default = none
  default : ∀ v, d.default = some v → d.Holds v

lemma holds_of_accepts {d : VariableDef} {v : Json} (hkind : d.kind = .var)
    (henum : d.varType ≠ .enum) (h : d.varType.accepts v = true) : d.Holds v := by
  unfold VariableDef.Holds
  rw [hkind]
  cases htype : d.varType <;> rw [htype] at h henum
  · cases v <;> simp [VarType.accepts] at h ⊢
  · cases v <;> simp [VarType.accepts] at h ⊢
    exact h
  · cases v <;> simp [VarType.accepts] at h ⊢
  · cases v <;> simp [VarType.accepts] at h ⊢
  · exact absurd rfl henum

/-- The default of an accepted variable is of its type. -/
lemma default_holds {name : String} {d : VariableDef} {v : Json} (hkind : d.kind = .var)
    (h : validateVarType name d = .ok ()) (hv : d.default = some v) : d.Holds v := by
  unfold validateVarType at h
  by_cases henum : d.varType = .enum
  · rw [henum, hv] at h
    dsimp only at h
    split_ifs at h with hempty hmem
    unfold VariableDef.Holds
    rw [hkind, henum]
    exact hmem
  · refine holds_of_accepts hkind henum ?_
    rw [hv] at h
    cases htype : d.varType with
    | enum => exact absurd htype henum
    | _ =>
      simp only [htype] at h
      split_ifs at h with hempty haccepts
      exact haccepts

/-- What `validate_def` accepts has a default of its type, if any. -/
theorem validateDef_checked {name : String} {d : VariableDef} (h : validateDef name d = .ok ()) :
    d.Checked := by
  unfold validateDef at h
  cases hkind : d.kind with
  | secret =>
      rw [hkind] at h
      dsimp only at h
      split_ifs at h with hreserved hboth hdefault htype hchoices
      have hnone : d.default = none := by simpa using hdefault
      exact ⟨fun _ => hnone, fun v hv => absurd (hnone.symm.trans hv) nofun⟩
  | var =>
      rw [hkind] at h
      dsimp only at h
      split_ifs at h with hreserved hboth hcredential hdynamic
      exact ⟨fun hsecret => absurd (hkind.symm.trans hsecret) nofun,
        fun v hv => default_holds hkind h hv⟩

/-- Every variable of an accepted block has passed its checks. -/
theorem parseEntries_checked {serdeError : Json → String} {scopeId : String}
    {entries : List (String × Json)} {out scope : VariableScope}
    (hout : ∀ name entry, out.get? name = some entry → entry.declared.Checked)
    (h : parseEntries serdeError scopeId out entries = .ok scope) :
    ∀ name entry, scope.get? name = some entry → entry.declared.Checked := by
  induction entries generalizing out with
  | nil =>
      rw [parseEntries, Except.ok.injEq] at h
      rwa [← h]
  | cons e rest ih =>
      obtain ⟨name, raw⟩ := e
      rw [parseEntries] at h
      split at h
      · cases h
      · rename_i d hd
        split at h
        · cases h
        · rename_i hvalid
          refine ih (fun name' entry hget => ?_) h
          rw [OrderedMap.get?_insert] at hget
          split_ifs at hget with hname
          · cases hget
            exact validateDef_checked hvalid
          · exact hout name' entry hget

lemma parseBlock_checked {serdeError : Json → String} {scopeId : String} {block : Json}
    {scope : VariableScope} (h : parseBlock serdeError block scopeId = .ok scope) {name : String}
    {entry : ScopedVar} (hentry : scope.get? name = some entry) : entry.declared.Checked := by
  unfold parseBlock at h
  split at h
  · exact parseEntries_checked (fun _ _ hnone => by cases hnone) h name entry hentry
  · cases h

/-! ## What raw strings become -/

/-- An integer in the range of `i64` is written as one. -/
lemma isInteger_toString {n : ℤ} (hlow : -(2 ^ 63) ≤ n) (hhigh : n < 2 ^ 63) :
    isInteger (toString n) = true := by
  rw [isInteger, Bool.or_eq_true]
  left
  cases n with
  | ofNat m =>
      have htext : toString (Int.ofNat m) = toString m := rfl
      have hdigits := Text.isDigits_toString m
      have hbound : m ≤ 2 ^ 63 - 1 := by
        rw [Int.ofNat_eq_natCast] at hhigh
        omega
      simp only [Text.parsesI64, htext, Text.dropSign_digits hdigits, if_neg (Text.head_digits hdigits),
        hdigits, Text.digitsVal_toString, Bool.true_and, decide_eq_true_iff]
      exact hbound
  | negSucc m =>
      have htext : (toString (Int.negSucc m)).toList = '-' :: (toString (m + 1)).toList := by
        have hrepr : toString (Int.negSucc m) = "-" ++ toString (m + 1) := rfl
        rw [hrepr, String.toList_append]
        rfl
      have hbound : m + 1 ≤ 2 ^ 63 := by
        rw [Int.negSucc_eq] at hlow
        omega
      have hdigits := Text.isDigits_toString (m + 1)
      simp only [Text.parsesI64, htext, List.head?_cons, if_true, Text.dropSign, hdigits,
        Text.digitsVal_toString, Bool.true_and, decide_eq_true_iff]
      exact hbound

/-- What parses as an `i64` is in its range. -/
lemma parseSigned_range {s : String} {n : ℤ} (h : Text.parseSigned 64 s = some n) :
    -(2 ^ 63) ≤ n ∧ n < 2 ^ 63 := by
  simp only [Text.parseSigned, Option.ite_none_right_eq_some, Bool.and_eq_true, decide_eq_true_eq,
    Option.some.injEq] at h
  obtain ⟨⟨-, hrange⟩, rfl⟩ := h
  exact hrange

section Values

variable {host : Host}

/-- A raw string becomes a value of the declared type. -/
lemma coerceStr_holds {name raw : String} {d : VariableDef} {v : Json} (hkind : d.kind = .var)
    (h : coerceStr host name d.varType d.choices raw = .ok v) : d.Holds v := by
  unfold VariableDef.Holds
  rw [hkind]
  unfold coerceStr at h
  cases htype : d.varType <;> rw [htype] at h <;> dsimp only at h ⊢
  · exact ⟨raw, by simpa using h.symm⟩
  · split at h
    · rename_i n hn
      obtain ⟨hlow, hhigh⟩ := parseSigned_range hn
      exact ⟨toString n, by simpa using h.symm, isInteger_toString hlow hhigh⟩
    · cases h
  · split at h
    · rename_i n hn
      exact ⟨toString n, by simpa using h.symm⟩
    · split at h
      · rename_i text htext
        exact ⟨text, by simpa using h.symm⟩
      · cases h
  · split_ifs at h
    · exact ⟨true, by simpa using h.symm⟩
    · exact ⟨false, by simpa using h.symm⟩
  · split at h
    · rename_i c hc
      cases h
      exact List.mem_of_find?_eq_some hc
    · cases h

/-- No store has a value for a variable, and it declares none. -/
structure Valueless (host : Host) (name : String) (d : VariableDef)
    (scopeId : String) : Prop where
  stored : storedLiteral host (scopeId ++ "::" ++ name) = .ok none
  secret : d.kind = .secret → host.secrets (d.inputKey.getD name) = .ok none
  env : d.kind = .var → host.env (d.inputKey.getD name) = none
  default : d.default = none

/-- **Resolved variables are well typed**: a resolved variable has a value of its declared type; it is
null only where it is not required and has no value. -/
theorem resolved_of_type (serdeError : Json → String) {block : Json} {scopeId : String}
    {scope : VariableScope} (hblock : parseBlock serdeError block scopeId = .ok scope)
    {name : String} {entry : ScopedVar} (hentry : scope.get? name = some entry) {v : Json}
    (h : resolveValue host name entry.declared entry.scopeId = .ok v) :
    entry.declared.Holds v ∨
      v = .null ∧ entry.declared.required = false ∧
        Valueless host name entry.declared entry.scopeId := by
  have hchecked := parseBlock_checked hblock hentry
  unfold resolveValue at h
  cases hkind : entry.declared.kind with
  | secret =>
      have hstr : ∀ s, entry.declared.Holds (.str s) := fun s => by
        unfold VariableDef.Holds
        rw [hkind]
        exact ⟨s, rfl⟩
      rw [hkind] at h
      dsimp only at h
      split at h
      · cases h
      · cases h
        exact .inl (hstr _)
      · rename_i hstored
        split at h
        · cases h
        · cases h
          exact .inl (hstr _)
        · rename_i hsecret
          split_ifs at h with hrequired
          cases h
          exact .inr ⟨rfl, by simpa using hrequired, hstored, fun _ => hsecret,
            fun hvar => absurd (hkind.symm.trans hvar) nofun, hchecked.secret hkind⟩
  | var =>
      rw [hkind] at h
      dsimp only at h
      split at h
      · cases h
      · exact .inl (coerceStr_holds hkind h)
      · rename_i hstored
        split at h
        · exact .inl (coerceStr_holds hkind h)
        · rename_i henv
          split at h
          · rename_i d hdefault
            cases h
            exact .inl (hchecked.default _ hdefault)
          · rename_i hdefault
            split_ifs at h with hrequired
            cases h
            exact .inr ⟨rfl, by simpa using hrequired, hstored,
              fun hsecret => absurd (hkind.symm.trans hsecret) nofun, fun _ => henv, hdefault⟩

/-- The port of the environment is an integer. -/
theorem port_of_type : portVariable.Holds (.num "8080") ∨
    (Json.num "8080" = .null ∧ portVariable.required = false ∧
      Valueless portHost "PORT" portVariable "root") := by
  have hblock : parseBlock (fun _ => "invalid type")
      (.obj [("PORT", .obj [("kind", .str "variable"), ("type", .str "integer")])]) "root" =
      .ok (OrderedMap.empty.insert "PORT" ⟨portVariable, "root"⟩) := rfl
  have hentry : (OrderedMap.empty.insert "PORT" ⟨portVariable, "root"⟩ : VariableScope).get? "PORT" =
      some ⟨portVariable, "root"⟩ := rfl
  have hvalue : resolveValue portHost "PORT" portVariable "root" = .ok (.num "8080") := by decide
  exact resolved_of_type _ hblock hentry hvalue

end Values

end Config
end Pawrly
