import Pawrly.Lib.Fallible
import Pawrly.Lib.Separated
import Mathlib.Algebra.GroupWithZero.Nat
import Mathlib.Algebra.Order.BigOperators.Group.List
import Mathlib.Data.List.Perm.Subperm
import Mathlib.Data.List.Infix
import Mathlib.Data.List.Nodup
import Mathlib.Data.List.TakeWhile

/-!
# Texts of keyword and value pairs

Two formats of connection strings: pairs `key=value` between semicolons, and the keyword/value
strings of libpq, where pairs stand between blanks, a value may be quoted and a backslash escapes the
character behind it.  A text that joins pairs as they are reads back to the same fields exactly when
every value is plain (`readSemicolons_iff`, `readKeywords_iff`).  The argument counts characters: what
is read is never longer than the text, and the fields wanted leave nothing for quotes and escapes.
-/

namespace KeyValue

/-- A key and its value. -/
abbrev Pair := List Char × List Char

def pairText (p : Pair) : List Char := p.1 ++ '=' :: p.2

/-- The pairs as they are, with a separator between them. -/
def render (sep : Char) (ps : List Pair) : List Char := [sep].intercalate (ps.map pairText)

/-- The value of a key: the last one given. -/
def valueOf (key : List Char) (ps : List Pair) : Option (List Char) :=
  (ps.reverse.find? fun p => p.1 = key).map Prod.snd

/-- The same keys have the same values. -/
def SameFields (ps qs : List Pair) : Prop := ∀ key, valueOf key ps = valueOf key qs

/-- The length of the text of the pairs, with a separator behind each. -/
def weight (ps : List Pair) : ℕ := (ps.map fun p => p.1.length + p.2.length + 2).sum

/-! ## Fields -/

@[simp] lemma weight_nil : weight [] = 0 := rfl

@[simp] lemma weight_cons (p : Pair) (ps : List Pair) :
    weight (p :: ps) = p.1.length + p.2.length + 2 + weight ps := by
  simp [weight]

@[simp] lemma weight_append (ps qs : List Pair) : weight (ps ++ qs) = weight ps + weight qs := by
  simp [weight]

lemma mem_of_valueOf {key value : List Char} {ps : List Pair} (h : valueOf key ps = some value) :
    (key, value) ∈ ps := by
  obtain ⟨p, hp, rfl⟩ := Option.map_eq_some_iff.mp h
  obtain rfl : p.1 = key := by simpa using List.find?_some hp
  exact List.mem_reverse.mp (List.mem_of_find?_eq_some hp)

lemma valueOf_of_mem {ps : List Pair} (hkeys : (ps.map Prod.fst).Nodup) {p : Pair} (hp : p ∈ ps) :
    valueOf p.1 ps = some p.2 := by
  have hsome : (ps.reverse.find? fun q => q.1 = p.1).isSome :=
    List.find?_isSome.mpr ⟨p, List.mem_reverse.mpr hp, by simp⟩
  obtain ⟨q, hq⟩ := Option.isSome_iff_exists.mp hsome
  have hkey : q.1 = p.1 := by simpa using List.find?_some hq
  have hmem : q ∈ ps := List.mem_reverse.mp (List.mem_of_find?_eq_some hq)
  obtain rfl : q = p := List.inj_on_of_nodup_map hkeys hmem hp hkey
  rw [valueOf, hq, Option.map_some]

/-- Pairs with the fields wanted that are not longer are the pairs wanted, in some order. -/
lemma perm_of_sameFields {ps qs : List Pair} (hkeys : (ps.map Prod.fst).Nodup)
    (hsame : SameFields qs ps) (hle : weight qs ≤ weight ps) : qs.Perm ps := by
  have hsub : ps ⊆ qs := fun p hp => mem_of_valueOf (by rw [hsame, valueOf_of_mem hkeys hp])
  obtain ⟨ps', hperm, hsublist⟩ := List.subperm_of_subset (List.Nodup.of_map _ hkeys) hsub
  obtain ⟨extra, hqs⟩ := hsublist.exists_perm_append
  have hweight : weight qs = weight ps + weight extra := by
    have h1 : weight ps' = weight ps := (hperm.map _).sum_eq
    have h2 : weight qs = weight (ps' ++ extra) := (hqs.map _).sum_eq
    rw [h2, weight_append, h1]
  have hextra : extra = [] := by
    cases extra with
    | nil => rfl
    | cons p extra =>
        rw [weight_cons] at hweight
        omega
  rw [hextra, List.append_nil] at hqs
  exact hqs.trans hperm

lemma render_cons (sep : Char) (p q : Pair) (ps : List Pair) :
    render sep (p :: q :: ps) = pairText p ++ sep :: render sep (q :: ps) := by
  simp [render, List.intercalate_cons_cons]

lemma length_render (sep : Char) {ps : List Pair} (hps : ps ≠ []) :
    (render sep ps).length + 1 = weight ps := by
  induction ps with
  | nil => exact absurd rfl hps
  | cons p ps ih =>
      cases ps with
      | nil =>
          simp [render, pairText, List.intercalate_singleton]
          omega
      | cons q ps =>
          have hrest := ih (List.cons_ne_nil q ps)
          rw [render_cons, weight_cons, ← hrest]
          simp [pairText]
          omega

lemma mem_render (sep : Char) {ps : List Pair} {c : Char} (hsep : c ≠ sep) :
    c ∈ render sep ps ↔ ∃ p ∈ ps, c ∈ pairText p := by
  rw [render, Separated.mem_intercalate (by simpa using hsep)]
  simp

/-! ## Pairs between semicolons -/

/-- `key=value`, cut at the first equals sign. -/
def readPair (segment : List Char) : Except (List Char) Pair :=
  match segment.span (· ≠ '=') with
  | (_, []) => .error segment
  | (key, _ :: value) => .ok (key, value)

def readSemicolons (text : List Char) : Except (List Char) (List Pair) :=
  (text.splitOn ';').mapM readPair

lemma span_pairText {p : Pair} (h : '=' ∉ p.1) :
    (pairText p).span (· ≠ '=') = (p.1, '=' :: p.2) := by
  have hkey : ∀ c ∈ p.1, decide (c ≠ '=') = true := fun c hc =>
    decide_eq_true fun hceq => h (hceq ▸ hc)
  unfold pairText
  rw [List.span_eq_takeWhile_dropWhile, List.takeWhile_append_of_pos hkey,
    List.dropWhile_append_of_pos hkey]
  simp

/-- A pair is known from its text. -/
lemma pairText_inj {p q : Pair} (hp : '=' ∉ p.1) (hq : '=' ∉ q.1) (h : pairText p = pairText q) :
    p = q := by
  have hspan := span_pairText hp
  rw [h, span_pairText hq, Prod.mk.injEq, List.cons.injEq] at hspan
  exact Prod.ext hspan.1.symm hspan.2.2.symm

lemma map_pairText_inj {ps qs : List Pair} (hps : ∀ p ∈ ps, '=' ∉ p.1) (hqs : ∀ p ∈ qs, '=' ∉ p.1)
    (h : ps.map pairText = qs.map pairText) : ps = qs := by
  induction ps generalizing qs with
  | nil => exact (List.map_eq_nil_iff.mp h.symm).symm
  | cons p ps ih =>
      obtain ⟨q, qs, rfl, hpq, hrest⟩ := List.map_eq_cons_iff.mp h.symm
      rw [List.forall_mem_cons] at hps hqs
      rw [pairText_inj hps.1 hqs.1 hpq.symm, ih hps.2 hqs.2 hrest.symm]

lemma readPair_pairText {p : Pair} (h : '=' ∉ p.1) : readPair (pairText p) = .ok p := by
  rw [readPair, span_pairText h]

lemma readPair_eq_ok {segment : List Char} {p : Pair} (h : readPair segment = .ok p) :
    segment = pairText p := by
  unfold readPair at h
  rw [List.span_eq_takeWhile_dropWhile] at h
  split at h
  · cases h
  · rename_i key c value heq
    cases h
    obtain ⟨hkey, hrest⟩ := Prod.mk.inj heq
    have hc : c = '=' := by
      have hhead := List.head?_dropWhile_not (fun c => decide (c ≠ '=')) segment
      rw [hrest] at hhead
      simpa using hhead
    calc segment = segment.takeWhile (· ≠ '=') ++ segment.dropWhile (· ≠ '=') :=
          List.takeWhile_append_dropWhile.symm
      _ = pairText (key, value) := by rw [hkey, hrest, hc]; rfl

lemma readSemicolons_render {ps : List Pair} (hps : ps ≠ [])
    (hkeys : ∀ p ∈ ps, '=' ∉ p.1 ∧ ';' ∉ p.1) (h : ∀ p ∈ ps, ';' ∉ p.2) :
    readSemicolons (render ';' ps) = .ok ps := by
  unfold readSemicolons render
  rw [List.splitOn_intercalate]
  · refine Fallible.mapM_eq_ok_iff.mpr (List.forall₂_map_left_iff.mpr ?_)
    exact List.forall₂_same.mpr fun p hp => readPair_pairText (hkeys p hp).1
  · intro l hl
    obtain ⟨p, hp, rfl⟩ := List.mem_map.mp hl
    simp [pairText, (hkeys p hp).2, h p hp]
  · simpa using hps

/-- **Semicolons**: joined pairs read back to the same fields exactly when no value has a
semicolon. -/
theorem readSemicolons_iff {ps : List Pair} (hps : ps ≠ []) (hnodup : (ps.map Prod.fst).Nodup)
    (hkeys : ∀ p ∈ ps, '=' ∉ p.1 ∧ ';' ∉ p.1) :
    (∃ qs, readSemicolons (render ';' ps) = .ok qs ∧ SameFields qs ps) ↔
      ∀ p ∈ ps, ';' ∉ p.2 := by
  constructor
  · rintro ⟨qs, hread, hsame⟩
    have htexts : (render ';' ps).splitOn ';' = qs.map pairText := by
      refine List.forall₂_eq_eq_eq ▸ List.forall₂_map_right_iff.mpr ?_
      exact (Fallible.mapM_eq_ok_iff.mp hread).imp fun _ _ => readPair_eq_ok
    have hqs : qs ≠ [] := by
      rintro rfl
      exact List.splitOn_ne_nil _ _ htexts
    have hrender : render ';' qs = render ';' ps := by
      rw [render, ← htexts, List.intercalate_splitOn]
    have hweight : weight qs = weight ps := by
      rw [← length_render ';' hqs, hrender, length_render ';' hps]
    intro p hp hsemi
    have hmem : p ∈ qs := (perm_of_sameFields hnodup hsame hweight.le).mem_iff.mpr hp
    have hsegment : pairText p ∈ (render ';' ps).splitOn ';' :=
      htexts ▸ List.mem_map_of_mem hmem
    exact Separated.notMem_of_mem_splitOn hsegment
      (List.mem_append_right _ (List.mem_cons_of_mem _ hsemi))
  · exact fun h => ⟨ps, readSemicolons_render hps hkeys h, fun _ => rfl⟩

/-! ## Keyword/value strings -/

/-- `isspace` in the C locale. -/
def isBlank (c : Char) : Bool :=
  c = ' ' || c = '\t' || c = '\n' || c = '\x0b' || c = '\x0c' || c = '\r'

/-- What is being read: a keyword, a value without quotes, a value in single quotes, or the text
between them; behind a backslash the next character is taken as it is. -/
inductive Mode
  | between
  | keyword (read : List Char)
  | awaitEquals (key : List Char)
  | awaitValue (key : List Char)
  | bare (key read : List Char)
  | bareEscape (key read : List Char)
  | quoted (key read : List Char)
  | quotedEscape (key read : List Char)

namespace Mode

/-- One character: what is being read behind it, and the pair that it ends. -/
def step : Mode → Char → Option (Mode × List Pair)
  | between, c =>
      if isBlank c then some (between, [])
      else if c = '=' then some (awaitValue [], [])
      else some (keyword [c], [])
  | keyword read, c =>
      if c = '=' then some (awaitValue read, [])
      else if isBlank c then some (awaitEquals read, [])
      else some (keyword (read ++ [c]), [])
  | awaitEquals key, c =>
      if isBlank c then some (awaitEquals key, [])
      else if c = '=' then some (awaitValue key, [])
      else none
  | awaitValue key, c =>
      if isBlank c then some (awaitValue key, [])
      else if c = '\'' then some (quoted key [], [])
      else if c = '\\' then some (bareEscape key [], [])
      else some (bare key [c], [])
  | bare key read, c =>
      if isBlank c then some (between, [(key, read)])
      else if c = '\\' then some (bareEscape key read, [])
      else some (bare key (read ++ [c]), [])
  | bareEscape key read, c => some (bare key (read ++ [c]), [])
  | quoted key read, c =>
      if c = '\\' then some (quotedEscape key read, [])
      else if c = '\'' then some (between, [(key, read)])
      else some (quoted key (read ++ [c]), [])
  | quotedEscape key read, c => some (quoted key (read ++ [c]), [])

/-- The pair that the end of the text ends. -/
def finish : Mode → Option (List Pair)
  | between => some []
  | keyword _ | awaitEquals _ => none
  | awaitValue key => some [(key, [])]
  | bare key read | bareEscape key read => some [(key, read)]
  | quoted _ _ | quotedEscape _ _ => none

def run : Mode → List Char → Option (List Pair)
  | mode, [] => mode.finish
  | mode, c :: cs => (mode.step c).bind fun next => (run next.1 cs).map (next.2 ++ ·)

end Mode

/-- The pairs of a keyword/value string, a C string. -/
def readKeywords (text : List Char) : Option (List Pair) :=
  Mode.between.run (text.takeWhile (· ≠ '\x00'))

/-- A value that stands for itself. -/
structure Plain (value : List Char) : Prop where
  chars : ∀ c ∈ value, isBlank c = false ∧ c ≠ '\\' ∧ c ≠ '\x00'
  start : value.head? ≠ some '\''

/-- Every value stands for itself, and only the last one may be empty: behind an equals sign blanks
are skipped. -/
structure AllPlain (ps : List Pair) : Prop where
  plain : ∀ p ∈ ps, Plain p.2
  nonempty : ∀ p ∈ ps.dropLast, p.2 ≠ []

/-- A keyword as they are written. -/
structure IsKeyword (key : List Char) : Prop where
  chars : ∀ c ∈ key, isBlank c = false ∧ c ≠ '=' ∧ c ≠ '\x00'
  nonempty : key ≠ []

/-! ## Reading plain values -/

namespace Mode

lemma run_cons {mode next : Mode} {c : Char} {cs : List Char} {ps : List Pair}
    (h : mode.step c = some (next, ps)) : mode.run (c :: cs) = (next.run cs).map (ps ++ ·) := by
  rw [run, h, Option.bind_some]

lemma run_keyword {read key : List Char} (h : ∀ c ∈ key, isBlank c = false ∧ c ≠ '=') (cs : List Char) :
    (keyword read).run (key ++ '=' :: cs) = (awaitValue (read ++ key)).run cs := by
  induction key generalizing read with
  | nil => simp [run, step]
  | cons c key ih =>
      obtain ⟨hblank, heq⟩ := h c List.mem_cons_self
      have hstep : (keyword read).step c = some (keyword (read ++ [c]), []) := by
        simp [step, heq, hblank]
      rw [List.cons_append, run_cons hstep, ih fun d hd => h d (List.mem_cons_of_mem _ hd)]
      simp

lemma run_bare {key read value : List Char} (h : ∀ c ∈ value, isBlank c = false ∧ c ≠ '\\')
    (cs : List Char) : (bare key read).run (value ++ cs) = (bare key (read ++ value)).run cs := by
  induction value generalizing read with
  | nil => simp
  | cons c value ih =>
      obtain ⟨hblank, hslash⟩ := h c List.mem_cons_self
      have hstep : (bare key read).step c = some (bare key (read ++ [c]), []) := by
        simp [step, hslash, hblank]
      rw [List.cons_append, run_cons hstep, ih fun d hd => h d (List.mem_cons_of_mem _ hd)]
      simp

/-- A keyword and the equals sign. -/
lemma run_key {key : List Char} (hkey : IsKeyword key) (cs : List Char) :
    between.run (key ++ '=' :: cs) = (awaitValue key).run cs := by
  obtain ⟨c, rest, rfl⟩ := List.exists_cons_of_ne_nil hkey.nonempty
  obtain ⟨hblank, heq, -⟩ := hkey.chars c List.mem_cons_self
  have hstep : between.step c = some (keyword [c], []) := by simp [step, heq, hblank]
  have hrest : ∀ d ∈ rest, isBlank d = false ∧ d ≠ '=' := fun d hd =>
    have h := hkey.chars d (List.mem_cons_of_mem _ hd)
    ⟨h.1, h.2.1⟩
  rw [List.cons_append, run_cons hstep, run_keyword hrest]
  simp

/-- A plain value that is not empty. -/
lemma run_value {key value : List Char} (hvalue : Plain value) (hne : value ≠ []) (cs : List Char) :
    (awaitValue key).run (value ++ cs) = (bare key value).run cs := by
  obtain ⟨c, rest, rfl⟩ := List.exists_cons_of_ne_nil hne
  obtain ⟨hblank, hslash, -⟩ := hvalue.chars c List.mem_cons_self
  have hquote : c ≠ '\'' := by simpa using hvalue.start
  have hstep : (awaitValue key).step c = some (bare key [c], []) := by
    simp [step, hblank, hquote, hslash]
  have hrest : ∀ d ∈ rest, isBlank d = false ∧ d ≠ '\\' := fun d hd =>
    have h := hvalue.chars d (List.mem_cons_of_mem _ hd)
    ⟨h.1, h.2.1⟩
  rw [List.cons_append, run_cons hstep, run_bare hrest]
  simp

lemma run_render {ps : List Pair} (hps : ps ≠ []) (hkeys : ∀ p ∈ ps, IsKeyword p.1)
    (h : AllPlain ps) : between.run (render ' ' ps) = some ps := by
  induction ps with
  | nil => exact absurd rfl hps
  | cons p ps ih =>
      have hkey := hkeys p List.mem_cons_self
      have hplain := h.plain p List.mem_cons_self
      cases ps with
      | nil =>
          have htext : render ' ' [p] = p.1 ++ '=' :: p.2 := by
            simp [render, pairText, List.intercalate_singleton]
          rw [htext, run_key hkey]
          by_cases hne : p.2 = []
          · rw [hne, run, finish, ← hne]
          · have hrun := @run_value p.1 p.2 hplain hne []
            rw [List.append_nil] at hrun
            rw [hrun, run, finish]
      | cons q ps =>
          have hne : p.2 ≠ [] := h.nonempty p (by simp)
          have hrest : AllPlain (q :: ps) :=
            ⟨fun r hr => h.plain r (List.mem_cons_of_mem _ hr), fun r hr => h.nonempty r (by
              rw [List.dropLast_cons_cons]
              exact List.mem_cons_of_mem _ hr)⟩
          have hstep : (bare p.1 p.2).step ' ' = some (between, [p]) := rfl
          rw [render_cons, pairText, List.append_assoc, List.cons_append, run_key hkey,
            run_value hplain hne, run_cons hstep, ih (List.cons_ne_nil q ps)
              (fun r hr => hkeys r (List.mem_cons_of_mem _ hr)) hrest]
          rfl

/-! ## Counting characters -/

/-- The length of what has been read of the next pair, with a separator for what is there of it. -/
def pending : Mode → ℕ
  | between => 1
  | keyword read => read.length + 1
  | awaitEquals key => key.length + 1
  | awaitValue key => key.length + 2
  | bare key read | bareEscape key read | quoted key read | quotedEscape key read =>
      key.length + read.length + 2

/-- The text read of the next pair, where no character of it is lost. -/
def pendingText : Mode → List Char
  | between => []
  | keyword read | awaitEquals read => read
  | awaitValue key => key ++ ['=']
  | bare key read | bareEscape key read | quoted key read | quotedEscape key read =>
      key ++ '=' :: read

/-- Nothing has been skipped of the next pair. -/
def Tight : Mode → Prop
  | between => True
  | keyword read => ∀ c ∈ read, isBlank c = false ∧ c ≠ '='
  | awaitValue key => ∀ c ∈ key, isBlank c = false ∧ c ≠ '='
  | bare key read =>
      (∀ c ∈ key, isBlank c = false ∧ c ≠ '=') ∧ (∀ c ∈ read, isBlank c = false ∧ c ≠ '\\') ∧
        read ≠ [] ∧ read.head? ≠ some '\''
  | _ => False

/-- A character adds at most one to what has been read. -/
lemma pending_step {mode next : Mode} {c : Char} {ps : List Pair} (h : mode.step c = some (next, ps)) :
    weight ps + next.pending ≤ mode.pending + 1 := by
  cases mode with
  | bareEscape key read | quotedEscape key read =>
      cases h
      simp [pending]
      omega
  | _ =>
      rw [step] at h
      split_ifs at h <;> cases h <;> simp [pending] <;> omega

lemma weight_finish {mode : Mode} {ps : List Pair} (h : mode.finish = some ps) :
    weight ps ≤ mode.pending := by
  cases mode <;> cases h <;> simp [pending]

/-- What is read is not longer than the text. -/
lemma weight_run {mode : Mode} {cs : List Char} {ps : List Pair} (h : mode.run cs = some ps) :
    weight ps ≤ cs.length + mode.pending := by
  induction cs generalizing mode ps with
  | nil =>
      rw [List.length_nil, Nat.zero_add]
      exact weight_finish h
  | cons c cs ih =>
      obtain ⟨⟨next, ended⟩, hstep, hrest⟩ := Option.bind_eq_some_iff.mp h
      obtain ⟨rest, hrun, rfl⟩ := Option.map_eq_some_iff.mp hrest
      have hle := pending_step hstep
      have hweight : weight rest ≤ cs.length + next.pending := ih hrun
      dsimp only
      rw [weight_append, List.length_cons]
      omega

/-- What a character does that loses nothing: it is read, or it is the blank behind a value. -/
lemma tight_step {mode next : Mode} {c : Char} {ps : List Pair} (htight : mode.Tight)
    (h : mode.step c = some (next, ps)) (hweight : weight ps + next.pending = mode.pending + 1) :
    (ps = [] ∧ next.Tight ∧ next.pendingText = mode.pendingText ++ [c]) ∨
      next = between ∧ isBlank c = true ∧ ∃ key read, mode = bare key read ∧ ps = [(key, read)] := by
  have hsnoc : ∀ {P : Char → Prop} {l : List Char}, (∀ d ∈ l, P d) → P c → ∀ d ∈ l ++ [c], P d := by
    intro P l hl hc d hd
    rcases List.mem_append.mp hd with hd | hd
    · exact hl d hd
    · exact List.mem_singleton.mp hd ▸ hc
  cases mode with
  | between =>
      rw [step] at h
      split_ifs at h with hblank heq <;> cases h
      · simp [pending] at hweight
      · exact .inl ⟨rfl, fun _ hd => absurd hd List.not_mem_nil, by rw [heq]; rfl⟩
      · refine .inl ⟨rfl, fun d hd => ?_, rfl⟩
        rw [List.mem_singleton.mp hd]
        exact ⟨Bool.eq_false_iff.mpr hblank, heq⟩
  | keyword read =>
      rw [step] at h
      split_ifs at h with heq hblank <;> cases h
      · exact .inl ⟨rfl, htight, by rw [heq]; rfl⟩
      · simp [pending] at hweight
      · exact .inl ⟨rfl, hsnoc htight ⟨Bool.eq_false_iff.mpr hblank, heq⟩, rfl⟩
  | awaitValue key =>
      rw [step] at h
      split_ifs at h with hblank hquote hslash <;> cases h
      · simp [pending] at hweight
      · simp [pending] at hweight
      · simp [pending] at hweight
      · refine .inl ⟨rfl, ⟨htight, fun d hd => ?_, List.cons_ne_nil c [], by simpa using hquote⟩, by
          simp [pendingText]⟩
        rw [List.mem_singleton.mp hd]
        exact ⟨Bool.eq_false_iff.mpr hblank, hslash⟩
  | bare key read =>
      obtain ⟨hkey, hread, hne, hstart⟩ := htight
      rw [step] at h
      split_ifs at h with hblank hslash <;> cases h
      · exact .inr ⟨rfl, hblank, key, read, rfl, rfl⟩
      · simp [pending] at hweight
      · refine .inl ⟨rfl, ⟨hkey, hsnoc hread ⟨Bool.eq_false_iff.mpr hblank, hslash⟩, by simp, ?_⟩, by
          simp [pendingText]⟩
        rwa [List.head?_append_of_ne_nil _ hne]
  | awaitEquals _ | bareEscape _ _ | quoted _ _ | quotedEscape _ _ => exact htight.elim

/-- The pairs read from a text of which nothing is lost. -/
structure Exact (text : List Char) (ps : List Pair) : Prop where
  segments : text.splitOnP isBlank = ps.map pairText
  keys : ∀ p ∈ ps, '=' ∉ p.1
  values : ∀ p ∈ ps, (∀ c ∈ p.2, isBlank c = false ∧ c ≠ '\\') ∧ p.2.head? ≠ some '\''
  nonempty : ∀ p ∈ ps.dropLast, p.2 ≠ []

lemma exact_last {key value : List Char} (hkey : ∀ c ∈ key, isBlank c = false ∧ c ≠ '=')
    (hvalue : ∀ c ∈ value, isBlank c = false ∧ c ≠ '\\') (hstart : value.head? ≠ some '\'') :
    Exact (key ++ '=' :: value) [(key, value)] where
  segments := by
    refine List.splitOnP_eq_singleton fun c hc => ?_
    rcases List.mem_append.mp hc with hc | hc
    · exact (hkey c hc).1
    · rcases List.mem_cons.mp hc with rfl | hc
      · rfl
      · exact (hvalue c hc).1
  keys := by
    intro p hp
    rw [List.mem_singleton.mp hp]
    exact fun h => (hkey _ h).2 rfl
  values := by
    intro p hp
    rw [List.mem_singleton.mp hp]
    exact ⟨hvalue, hstart⟩
  nonempty := nofun

lemma Exact.cons {key value rest : List Char} {c : Char} {ps : List Pair}
    (h : Exact (key ++ '=' :: value) [(key, value)]) (hne : value ≠ []) (hblank : isBlank c = true)
    (hrest : Exact rest ps) : Exact (key ++ '=' :: value ++ c :: rest) ((key, value) :: ps) where
  segments := by
    rw [List.splitOnP_append_cons _ _ hblank, h.segments, hrest.segments]
    rfl
  keys := List.forall_mem_cons.mpr ⟨h.keys _ List.mem_cons_self, hrest.keys⟩
  values := List.forall_mem_cons.mpr ⟨h.values _ List.mem_cons_self, hrest.values⟩
  nonempty := by
    intro p hp
    cases ps with
    | nil => cases hp
    | cons q ps =>
        rw [List.dropLast_cons_cons] at hp
        rcases List.mem_cons.mp hp with rfl | hp
        · exact hne
        · exact hrest.nonempty p hp

/-- Nothing is lost of a text when what is read is as long. -/
lemma exact_run {mode : Mode} {cs : List Char} {ps : List Pair} (htight : mode.Tight)
    (h : mode.run cs = some ps) (hweight : weight ps = cs.length + mode.pending) :
    Exact (mode.pendingText ++ cs) ps := by
  induction cs generalizing mode ps with
  | nil =>
      rw [List.append_nil]
      cases mode with
      | between =>
          cases h
          simp [pending] at hweight
      | awaitValue key =>
          cases h
          exact exact_last htight nofun nofun
      | bare key read =>
          cases h
          obtain ⟨hkey, hread, -, hstart⟩ := htight
          exact exact_last hkey hread hstart
      | keyword _ => cases h
      | awaitEquals _ | bareEscape _ _ | quoted _ _ | quotedEscape _ _ => exact htight.elim
  | cons c cs ih =>
      obtain ⟨⟨next, ended⟩, hstep, hrest⟩ := Option.bind_eq_some_iff.mp h
      obtain ⟨rest, hrun, rfl⟩ := Option.map_eq_some_iff.mp hrest
      have hle := pending_step hstep
      have hlen : weight rest ≤ cs.length + next.pending := weight_run hrun
      dsimp only at hweight
      rw [weight_append, List.length_cons] at hweight
      have htail : weight rest = cs.length + next.pending := by omega
      rcases tight_step htight hstep (by omega) with
        ⟨rfl, hnext, htext⟩ | ⟨rfl, hblank, key, read, rfl, rfl⟩
      · have hexact := ih hnext hrun htail
        rw [htext, List.append_assoc] at hexact
        exact hexact
      · obtain ⟨hkey, hread, hne, hstart⟩ := htight
        exact (exact_last hkey hread hstart).cons hne hblank
          (@ih between rest trivial hrun htail)

end Mode

/-! ## Joined pairs -/

lemma splitOnP_render {ps : List Pair} (hps : ps ≠ []) (hkeys : ∀ p ∈ ps, IsKeyword p.1)
    (h : ∀ p ∈ ps, ∀ c ∈ p.2, isBlank c = false) :
    (render ' ' ps).splitOnP isBlank = ps.map pairText := by
  have htext : ∀ p ∈ ps, ∀ c ∈ pairText p, isBlank c = false := by
    intro p hp c hc
    rcases List.mem_append.mp hc with hc | hc
    · exact ((hkeys p hp).chars c hc).1
    · rcases List.mem_cons.mp hc with rfl | hc
      · rfl
      · exact h p hp c hc
  induction ps with
  | nil => exact absurd rfl hps
  | cons p ps ih =>
      have hp := htext p List.mem_cons_self
      cases ps with
      | nil =>
          rw [render, List.map_singleton, List.intercalate_singleton, List.splitOnP_eq_singleton hp]
      | cons q ps =>
          have hrest := ih (List.cons_ne_nil q ps) (fun r hr => hkeys r (List.mem_cons_of_mem _ hr))
            (fun r hr => h r (List.mem_cons_of_mem _ hr))
            fun r hr => htext r (List.mem_cons_of_mem _ hr)
          rw [render_cons, List.splitOnP_append_cons_of_forall_mem hp _ rfl, hrest]
          rfl

/-- **Keyword/value strings**: joined pairs read back to the same fields exactly when every value
stands for itself. -/
theorem readKeywords_iff {ps : List Pair} (hps : ps ≠ []) (hnodup : (ps.map Prod.fst).Nodup)
    (hkeys : ∀ p ∈ ps, IsKeyword p.1) :
    (∃ qs, readKeywords (render ' ' ps) = some qs ∧ SameFields qs ps) ↔ AllPlain ps := by
  constructor
  · rintro ⟨qs, hread, hsame⟩
    unfold readKeywords at hread
    set text := (render ' ' ps).takeWhile (· ≠ '\x00') with htext
    have hprefix : text <+: render ' ' ps := List.takeWhile_prefix _
    have hlength := length_render ' ' hps
    have hle : weight qs ≤ text.length + 1 := Mode.weight_run hread
    have hperm : qs.Perm ps := perm_of_sameFields hnodup hsame (by
      have := hprefix.length_le
      omega)
    have hweight : weight qs = weight ps := (hperm.map _).sum_eq
    -- nothing stands behind a NUL
    have hwhole : text = render ' ' ps := hprefix.eq_of_length_le (by omega)
    have hexact : Mode.Exact (render ' ' ps) qs := by
      have h := @Mode.exact_run Mode.between _ _ trivial hread (by
        rw [Mode.pending, hwhole]
        omega)
      rwa [hwhole] at h
    have hvalues : ∀ p ∈ ps, (∀ c ∈ p.2, isBlank c = false ∧ c ≠ '\\') ∧ p.2.head? ≠ some '\'' :=
      fun p hp => hexact.values p (hperm.mem_iff.mpr hp)
    have hsegments : qs.map pairText = ps.map pairText := by
      rw [← hexact.segments]
      exact splitOnP_render hps hkeys fun p hp c hc => ((hvalues p hp).1 c hc).1
    have hequals : ∀ p ∈ ps, '=' ∉ p.1 := fun p hp h => ((hkeys p hp).chars _ h).2.1 rfl
    obtain rfl : qs = ps := map_pairText_inj hexact.keys hequals hsegments
    refine ⟨fun p hp => ⟨fun c hc => ?_, (hvalues p hp).2⟩, hexact.nonempty⟩
    obtain ⟨hblank, hslash⟩ := (hvalues p hp).1 c hc
    refine ⟨hblank, hslash, ?_⟩
    have hmem : c ∈ text := by
      rw [hwhole, mem_render]
      · exact ⟨p, hp, List.mem_append_right _ (List.mem_cons_of_mem _ hc)⟩
      · rintro rfl
        cases hblank
    simpa using List.mem_takeWhile_imp hmem
  · intro h
    refine ⟨ps, ?_, fun _ => rfl⟩
    have hnul : '\x00' ∉ render ' ' ps := by
      rw [mem_render ' ' (by decide)]
      rintro ⟨p, hp, hc⟩
      rcases List.mem_append.mp hc with hc | hc
      · exact ((hkeys p hp).chars _ hc).2.2 rfl
      · rcases List.mem_cons.mp hc with hc | hc
        · cases hc
        · exact ((h.plain p hp).chars _ hc).2.2 rfl
    have hwhole : (render ' ' ps).takeWhile (· ≠ '\x00') = render ' ' ps :=
      List.takeWhile_eq_self_iff.mpr fun c hc => decide_eq_true fun hceq => hnul (hceq ▸ hc)
    rw [readKeywords, hwhole, Mode.run_render hps hkeys h]

end KeyValue
