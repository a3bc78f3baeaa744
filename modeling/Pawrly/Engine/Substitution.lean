import Pawrly.Engine.Params

/-!
# Simultaneous substitution

Whether a query reads as if its placeholders were replaced all at once: in every order of the map,
without looking at the text of a value again, also when the query is materialized, and without a
directive that the text did not have.  It does when no text with some placeholders filled in has a
placeholder of its own (`Inert`); with keys whose placeholders cannot overlap this is also needed.
-/

namespace Pawrly
namespace Engine

open Templates

/-! ## The reference -/

section

variable (params : OrderedMap String String)

def needleChars (key : String) : List Char := (paramNeedle key).toList

def valueChars (key : String) : List Char := ((params.get? key).getD "").toList

/-- The text cut at the placeholders of the parameters. -/
def templateOf (sql : String) : List (Piece Char String) :=
  pieces needleChars (params.entries.map Prod.fst) 0 sql.toList

/-- All placeholders replaced in one pass. -/
def simultaneous (sql : String) : String :=
  String.ofList (fill needleChars (valueChars params) (params.entries.map Prod.fst)
    (templateOf params sql))

/-- An order in which the map may be walked. -/
def IsOrder (order : List (String × String)) : Prop := order.Perm params.entries

/-- The entry that comes next finds only placeholders that the original text has. -/
def ScansOriginal (done : List (String × String)) (key sql : String) : Prop :=
  ∀ x y, (substituteParams done sql).toList = x ++ needleChars key ++ y →
    ∃ sql₁ sql₂, sql = sql₁ ++ paramNeedle key ++ sql₂ ∧ x = (substituteParams done sql₁).toList

/-- The text is read as if all placeholders were replaced at once. -/
structure ReadAtOnce (allowInline : Bool) (sql : String) : Prop where
  result : ∀ order, IsOrder params order → substituteParams order sql = simultaneous params sql
  scanned : ∀ done e rest, IsOrder params (done ++ e :: rest) → ScansOriginal done e.1 sql
  once : allowInline = true → ∀ order, IsOrder params order → ∀ name body,
    parseInlineMaterialize (substituteParams order sql) = some (name, body) →
      ∀ e ∈ params.entries, ¬ needleChars e.1 <:+: body.toList
  directive : allowInline = true → ∀ order, IsOrder params order →
    (parseInlineMaterialize (substituteParams order sql)).isSome = true →
      (parseInlineMaterialize sql).isSome = true

/-- The values bring no placeholder and no directive into the text. -/
structure Inert (allowInline : Bool) (sql : String) : Prop where
  created : ∀ done key, (done ++ [key]).Nodup → (∀ k ∈ done ++ [key], params.contains k = true) →
    Genuine needleChars (valueChars params) done key (templateOf params sql)
  body : allowInline = true → ∀ name body,
    parseInlineMaterialize (simultaneous params sql) = some (name, body) →
      ∀ e ∈ params.entries, ¬ needleChars e.1 <:+: body.toList
  directive : allowInline = true →
    (parseInlineMaterialize (simultaneous params sql)).isSome = true →
      (parseInlineMaterialize sql).isSome = true

/-- No key has a symbol that a placeholder starts or ends with. -/
def PlainKeys : Prop := ∀ e ∈ params.entries, '$' ∉ e.1.toList ∧ '\x7d' ∉ e.1.toList

end

/-! ## Runs as replacements of keys -/

lemma needleChars_eq (key : String) : needleChars key =
    '$' :: ("\x7bparam:".toList ++ (key.toList ++ ['\x7d'])) := by
  rw [needleChars, paramNeedle, String.toList_append, String.toList_append, List.append_assoc]
  rfl

lemma needleChars_ne_nil (key : String) : needleChars key ≠ [] := by
  rw [needleChars_eq]
  exact List.cons_ne_nil _ _

variable {params : OrderedMap String String}

/-- A run over entries of the map replaces their keys. -/
lemma toList_substituteParams {order : List (String × String)}
    (h : ∀ e ∈ order, e ∈ params.entries) (sql : String) :
    (substituteParams order sql).toList =
      replaceKeys needleChars (valueChars params) (order.map Prod.fst) sql.toList := by
  induction order generalizing sql with
  | nil => rfl
  | cons e order ih =>
      have hvalue : valueChars params e.1 = e.2.toList := by
        rw [valueChars, OrderedMap.mem_entries.mp (h e List.mem_cons_self)]
        rfl
      show (substituteParams order (Text.replace (paramNeedle e.1) e.2 sql)).toList =
        replaceKeys needleChars (valueChars params) (order.map Prod.fst)
          (replaceScan (needleChars e.1) (valueChars params e.1) 0 sql.toList)
      rw [ih fun e he => h e (List.mem_cons_of_mem _ he), Text.toList_replace, hvalue]
      rfl

lemma fill_templateOf (sql : String) :
    fill needleChars (valueChars params) [] (templateOf params sql) = sql.toList :=
  fill_pieces needleChars_ne_nil _ _

lemma IsOrder.keys_nodup {order : List (String × String)} (h : IsOrder params order) :
    (order.map Prod.fst).Nodup :=
  (h.map Prod.fst).nodup_iff.mpr params.entries_nodup

lemma IsOrder.mem_entries {order : List (String × String)} (h : IsOrder params order) :
    ∀ e ∈ order, e ∈ params.entries := fun _ he => h.mem_iff.mp he

lemma contains_of_mem {e : String × String} (h : e ∈ params.entries) :
    params.contains e.1 = true :=
  OrderedMap.contains_iff.mpr ⟨e.2, OrderedMap.mem_entries.mp h⟩

/-! ## Inert values -/

section

variable {allowInline : Bool} {sql : String} (hinert : Inert params allowInline sql)
include hinert

/-- Along an order of the map, each step finds the placeholders of its key only. -/
lemma Inert.genuine {order : List (String × String)} (horder : IsOrder params order)
    {as bs : List String} {key : String} (h : order.map Prod.fst = as ++ key :: bs) :
    Genuine needleChars (valueChars params) as key (templateOf params sql) := by
  have hsub : (as ++ [key]).Sublist (order.map Prod.fst) := by
    rw [h]
    simp
  refine hinert.created as key (horder.keys_nodup.sublist hsub) fun k hk => ?_
  obtain ⟨e, he, rfl⟩ := List.mem_map.mp (hsub.mem hk)
  exact contains_of_mem (horder.mem_entries e he)

lemma Inert.result {order : List (String × String)} (horder : IsOrder params order) :
    substituteParams order sql = simultaneous params sql := by
  apply String.toList_injective
  rw [toList_substituteParams horder.mem_entries, simultaneous, String.toList_ofList,
    ← @fill_templateOf params sql,
    replaceKeys_all needleChars_ne_nil horder.keys_nodup fun as key bs h => hinert.genuine horder h]
  refine fill_congr (fun k => ?_) _
  simp only [List.mem_map, horder.mem_iff]

lemma Inert.scanned {done rest : List (String × String)} {e : String × String}
    (horder : IsOrder params (done ++ e :: rest)) : ScansOriginal done e.1 sql := by
  have hdone : ∀ e' ∈ done, e' ∈ params.entries := fun e' he' =>
    horder.mem_entries e' (List.mem_append_left _ he')
  have hkeys : (done ++ e :: rest).map Prod.fst =
      done.map Prod.fst ++ [e.1] ++ rest.map Prod.fst := by
    simp
  have hnodup := horder.keys_nodup
  rw [hkeys] at hnodup
  have hfinds : FindsOriginal needleChars (valueChars params) sql.toList (done.map Prod.fst) e.1 := by
    refine findsOriginal_of_genuine needleChars_ne_nil (fill_templateOf sql)
      (List.nodup_append.mp hnodup).1 fun as j bs h => ?_
    have hsplit : (done ++ e :: rest).map Prod.fst = as ++ j :: (bs ++ rest.map Prod.fst) := by
      rw [hkeys, h, List.append_assoc]
      rfl
    exact hinert.genuine horder hsplit
  intro x y hxy
  rw [toList_substituteParams hdone] at hxy
  obtain ⟨l₁, l₂, hl, hx⟩ := hfinds x y hxy
  refine ⟨String.ofList l₁, String.ofList l₂, ?_, ?_⟩
  · apply String.toList_injective
    rw [String.toList_append, String.toList_append, String.toList_ofList, String.toList_ofList]
    exact hl
  · rw [toList_substituteParams hdone, String.toList_ofList, hx]

end

lemma readAtOnce_of_inert {allowInline : Bool} {sql : String} (h : Inert params allowInline sql) :
    ReadAtOnce params allowInline sql where
  result _ horder := h.result horder
  scanned _ _ _ horder := h.scanned horder
  once hallow order horder name body hparse := by
    rw [h.result horder] at hparse
    exact h.body hallow name body hparse
  directive hallow order horder hparse := by
    rw [h.result horder] at hparse
    exact h.directive hallow hparse

/-- A text without placeholders is kept. -/
lemma substituteParams_of_notFound {order : List (String × String)} {text : String}
    (h : ∀ e ∈ order, ¬ needleChars e.1 <:+: text.toList) : substituteParams order text = text := by
  induction order with
  | nil => rfl
  | cons e order ih =>
      have hkeep : Text.replace (paramNeedle e.1) e.2 text = text := by
        apply String.toList_injective
        rw [Text.toList_replace]
        exact replaceScan_of_not_infix (h e List.mem_cons_self)
      show substituteParams order (Text.replace (paramNeedle e.1) e.2 text) = text
      rw [hkeep]
      exact ih fun e' he' => h e' (List.mem_cons_of_mem _ he')

/-- A query whose text is read at once is the one with all placeholders replaced, in every order and
also when it is materialized. -/
lemma queryText_of_readAtOnce {allowInline : Bool} {sql : String}
    (h : ReadAtOnce params allowInline sql) {order again : List (String × String)}
    (horder : IsOrder params order) (hagain : IsOrder params again) :
    queryText allowInline order again sql =
      match if allowInline then parseInlineMaterialize (simultaneous params sql) else none with
      | some (name, body) => .materialize name body
      | none => .run (simultaneous params sql) := by
  unfold queryText
  dsimp only
  cases allowInline with
  | false =>
      rw [h.result order horder]
      rfl
  | true =>
      have honce := h.once rfl order horder
      rw [h.result order horder] at honce ⊢
      simp only [if_true]
      cases hparse : parseInlineMaterialize (simultaneous params sql) with
      | none => rfl
      | some d =>
          have hbody : substituteParams again d.2 = d.2 :=
            substituteParams_of_notFound fun e he =>
              honce d.1 d.2 hparse e (hagain.mem_entries e he)
          show QueryText.materialize d.1 (substituteParams again d.2) = .materialize d.1 d.2
          rw [hbody]

/-! ## Plain keys -/

/-- Placeholders of plain keys cannot overlap: a placeholder starts at its first symbol only and ends
at its last one only. -/
lemma prefixFree_of_plainKeys (h : PlainKeys params) :
    PrefixFree needleChars (params.entries.map Prod.fst) where
  unique j hj k hk l hjl hkl := by
    obtain ⟨e, he, rfl⟩ := List.mem_map.mp hj
    obtain ⟨e', he', rfl⟩ := List.mem_map.mp hk
    obtain ⟨t, ht⟩ := hjl
    obtain ⟨t', ht'⟩ := hkl
    have hkeys : e.1.toList ++ '\x7d' :: t = e'.1.toList ++ '\x7d' :: t' := by
      rw [← ht', needleChars_eq, needleChars_eq] at ht
      simpa using ht
    have hsplit := congrArg (Text.splitOnceChars '\x7d') hkeys
    rw [Text.splitOnceChars_append (h e he).2, Text.splitOnceChars_append (h e' he').2] at hsplit
    exact String.toList_injective (Prod.mk.inj (Option.some.inj hsplit)).1
  apart j hj k _ u w l hjuw hu hw hprefix := by
    obtain ⟨e, he, rfl⟩ := List.mem_map.mp hj
    obtain ⟨t, ht⟩ := hprefix
    cases u with
    | nil => exact hu rfl
    | cons a u =>
        cases w with
        | nil => exact hw rfl
        | cons c w =>
            have hc : c = '$' := by
              rw [needleChars_eq] at ht
              exact (List.cons.inj ht).1.symm
            rw [needleChars_eq] at hjuw
            have hmem : '$' ∈ "\x7bparam:".toList ++ (e.1.toList ++ ['\x7d']) := by
              rw [(List.cons.inj hjuw).2, hc]
              simp
            simp only [List.mem_append] at hmem
            rcases hmem with hmem | hmem | hmem
            · exact absurd hmem (by decide)
            · exact (h e he).1 hmem
            · exact absurd hmem (by decide)

/-- Keys of the map, each once, are the start of an order. -/
lemma exists_order {done : List String} {key : String} (hnodup : (done ++ [key]).Nodup)
    (hkeys : ∀ k ∈ done ++ [key], k ∈ params.entries.map Prod.fst) :
    ∃ entries e rest, IsOrder params (entries ++ e :: rest) ∧ entries.map Prod.fst = done ∧
      e.1 = key := by
  let entry : String → String × String := fun k => (k, (params.get? k).getD "")
  let rest := params.entries.filter fun e => e.1 ∉ done ++ [key]
  have hentry : ∀ k ∈ done ++ [key], entry k ∈ params.entries := by
    intro k hk
    obtain ⟨e, he, rfl⟩ := List.mem_map.mp (hkeys k hk)
    have hget : (params.get? e.1).getD "" = e.2 := by
      rw [OrderedMap.mem_entries.mp he]
      rfl
    show (e.1, (params.get? e.1).getD "") ∈ params.entries
    rw [hget]
    exact he
  refine ⟨done.map entry, entry key, rest, ?_, by simp [entry, Function.comp_def], rfl⟩
  have hsplit : done.map entry ++ entry key :: rest = (done ++ [key]).map entry ++ rest := by
    simp
  have hinj : Function.Injective entry := fun j k hjk => (Prod.mk.inj hjk).1
  rw [IsOrder, hsplit]
  refine (List.perm_ext_iff_of_nodup ?_ params.entries_nodup.of_map).mpr fun e => ?_
  · refine List.nodup_append.mpr ⟨hnodup.map hinj, params.entries_nodup.of_map.filter _, ?_⟩
    rintro _ ha b hb rfl
    obtain ⟨k, hk, rfl⟩ := List.mem_map.mp ha
    exact of_decide_eq_true (List.mem_filter.mp hb).2 hk
  · constructor
    · intro he
      rcases List.mem_append.mp he with he | he
      · obtain ⟨k, hk, rfl⟩ := List.mem_map.mp he
        exact hentry k hk
      · exact (List.mem_filter.mp he).1
    · intro he
      by_cases hmem : e.1 ∈ done ++ [key]
      · refine List.mem_append_left _ (List.mem_map.mpr ⟨e.1, hmem, ?_⟩)
        have hget : (params.get? e.1).getD "" = e.2 := by
          rw [OrderedMap.mem_entries.mp he]
          rfl
        exact Prod.ext rfl hget
      · exact List.mem_append_right _ (List.mem_filter.mpr ⟨he, decide_eq_true hmem⟩)

lemma findsOriginal_of_scansOriginal {done : List (String × String)} {key sql : String}
    (hdone : ∀ e ∈ done, e ∈ params.entries) (h : ScansOriginal done key sql) :
    FindsOriginal needleChars (valueChars params) sql.toList (done.map Prod.fst) key := by
  intro x y hxy
  rw [← toList_substituteParams hdone] at hxy
  obtain ⟨sql₁, sql₂, hsql, hx⟩ := h x y hxy
  refine ⟨sql₁.toList, sql₂.toList, ?_, by rw [hx, toList_substituteParams hdone]⟩
  rw [hsql, String.toList_append, String.toList_append]
  rfl

lemma inert_of_readAtOnce {allowInline : Bool} {sql : String} (hplain : PlainKeys params)
    (h : ReadAtOnce params allowInline sql) : Inert params allowInline sql where
  created done key hnodup hkeys := by
    have hmem : ∀ k ∈ done ++ [key], k ∈ params.entries.map Prod.fst := by
      intro k hk
      obtain ⟨v, hv⟩ := OrderedMap.contains_iff.mp (hkeys k hk)
      exact List.mem_map.mpr ⟨(k, v), OrderedMap.mem_entries.mpr hv, rfl⟩
    refine genuine_of_findsOriginal (prefixFree_of_plainKeys hplain) needleChars_ne_nil ?_ hnodup hmem
    intro done key hnodup hkeys
    obtain ⟨entries, e, rest, horder, rfl, rfl⟩ := exists_order hnodup hkeys
    exact findsOriginal_of_scansOriginal
      (fun e' he' => horder.mem_entries e' (List.mem_append_left _ he')) (h.scanned _ _ _ horder)
  body hallow name body hparse := by
    have horder : IsOrder params params.entries := List.Perm.refl _
    rw [← h.result _ horder] at hparse
    exact h.once hallow _ horder name body hparse
  directive hallow hparse := by
    have horder : IsOrder params params.entries := List.Perm.refl _
    rw [← h.result _ horder] at hparse
    exact h.directive hallow _ horder hparse

/-- **Simultaneous substitution.**  When the values are inert, the text is read as if all
placeholders were replaced at once; for plain keys, only then. -/
theorem readAtOnce_iff (params : OrderedMap String String) (allowInline : Bool) (sql : String) :
    (Inert params allowInline sql → ReadAtOnce params allowInline sql) ∧
      (PlainKeys params → ReadAtOnce params allowInline sql → Inert params allowInline sql) :=
  ⟨readAtOnce_of_inert, inert_of_readAtOnce⟩

def limitParams : OrderedMap String String := OrderedMap.empty.insert "limit" "10"

lemma limitParams_plain : PlainKeys limitParams := by
  intro e he
  rw [List.mem_singleton.mp he]
  decide

/-- A number for a placeholder. -/
theorem limitParams_readAtOnce :
    ReadAtOnce limitParams true "SELECT * FROM t LIMIT $\x7bparam:limit\x7d" := by
  have hparse : parseInlineMaterialize (simultaneous limitParams
      "SELECT * FROM t LIMIT $\x7bparam:limit\x7d") = none := by
    decide
  refine (readAtOnce_iff _ _ _).1 ⟨fun done key hnodup hkeys => ?_, fun _ name body h => ?_, fun _ h => ?_⟩
  · have hkey : ∀ k ∈ done ++ [key], k = "limit" := by
      intro k hk
      obtain ⟨v, hv⟩ := OrderedMap.contains_iff.mp (hkeys k hk)
      exact (Prod.mk.inj (List.mem_singleton.mp (OrderedMap.mem_entries.mpr hv))).1
    cases done with
    | nil =>
        refine genuine_pieces (prefixFree_of_plainKeys limitParams_plain) needleChars_ne_nil ?_ _
        rw [hkey key (by simp)]
        exact List.mem_singleton_self _
    | cons k done =>
        have hsame : k = key := (hkey k (by simp)).trans (hkey key (by simp)).symm
        exact absurd hnodup (by simp [hsame])
  · rw [hparse] at h
    cases h
  · rw [hparse] at h
    cases h

def nestedParams : OrderedMap String String :=
  (OrderedMap.empty.insert "a" "$\x7bparam:b\x7d").insert "b" "x"

/-- A value that is the placeholder of another key. -/
theorem nestedParams_not_readAtOnce :
    ¬ ReadAtOnce nestedParams false "SELECT '$\x7bparam:a\x7d'" := by
  intro h
  have hresult := h.result nestedParams.entries (List.Perm.refl _)
  exact absurd hresult (by decide)

end Engine
end Pawrly
