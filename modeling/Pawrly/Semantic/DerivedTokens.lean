import Pawrly.Semantic.MetricRendering

/-!
# The language of derived expressions

`derived_tokens` and `Expansion::metric_expr` both read a derived expression by looking for the next
opening and then for the next closing brace (`tokensLoop_eq`, `substituteLoop_eq`), so they see the
same tokens.  Neither looks at a closing brace before a token or at an opening one inside it:
`derivedTokens_ok_iff` says what is accepted, `readsLanguage_iff` when that is the language of flat
tokens.
-/

namespace Pawrly
namespace Semantic

open Sql

/-! ## The language -/

/-- Text with tokens between braces. -/
def written (spans : List (List Char × List Char)) (tail : List Char) : List Char :=
  spans.flatMap (fun sp => sp.1 ++ '\x7b' :: (sp.2 ++ ['\x7d'])) ++ tail

/-- No brace occurs. -/
def Plain (cs : List Char) : Prop := '\x7b' ∉ cs ∧ '\x7d' ∉ cs

/-- An expression in which every brace belongs to a flat token with a member. -/
structure Flat (expr : String) (spans : List (List Char × List Char)) (tail : List Char) : Prop where
  text : expr.toList = written spans tail
  before : ∀ sp ∈ spans, Plain sp.1
  body : ∀ sp ∈ spans, Plain sp.2
  tail : Plain tail
  member : ∀ sp ∈ spans, (tokenOfBody sp.2).member ≠ ""
  nonempty : spans ≠ []

/-- An expression as the next braces divide it: a closing brace may stand before a token, an opening
one inside it. -/
structure Divided (expr : String) (spans : List (List Char × List Char)) (tail : List Char) :
    Prop where
  text : expr.toList = written spans tail
  before : ∀ sp ∈ spans, '\x7b' ∉ sp.1
  body : ∀ sp ∈ spans, '\x7d' ∉ sp.2
  tail : Plain tail
  member : ∀ sp ∈ spans, (tokenOfBody sp.2).member ≠ ""
  nonempty : spans ≠ []

/-! ## The loops -/

/-- The loop of `derived_tokens`. -/
def tokensLoop (expr : String) : ℕ → List Char → List DerivedToken →
    Except String (List DerivedToken)
  | 0, _, tokens => .ok tokens
  | fuel + 1, rest, tokens =>
      match Text.splitOnceChars '\x7b' rest with
      | none =>
          if rest.contains '\x7d' then
            .error ("unbalanced `\x7d` in derived expr `" ++ expr ++ "`")
          else if tokens.isEmpty then
            .error ("derived expr `" ++ expr ++ "` references no `\x7bmember\x7d` token")
          else .ok tokens
      | some (_, after) =>
          match Text.splitOnceChars '\x7d' after with
          | none => .error ("unbalanced `\x7b` in derived expr `" ++ expr ++ "`")
          | some (body, rest) =>
              let t := tokenOfBody body
              if t.member = "" then
                .error ("empty `\x7b\x7d` reference in derived expr `" ++ expr ++ "`")
              else tokensLoop expr fuel rest (tokens ++ [t])

/-- The loop of `metric_expr`: the closing brace is looked for from the opening one on. -/
def substituteLoop (member : Expansion → String → List String →
      Except SemanticError (MetricExpr × Expansion)) (base : List String) :
    ℕ → List Char → Expansion → Except SemanticError (MetricExpr × Expansion)
  | 0, rest, st => .ok (.derivedEnd (String.ofList rest), st)
  | fuel + 1, rest, st =>
      match Text.splitOnceChars '\x7b' rest with
      | none => .ok (.derivedEnd (String.ofList rest), st)
      | some (before, after) =>
          match Text.splitOnceChars '\x7d' ('\x7b' :: after) with
          | none => .ok (.derivedEnd (String.ofList rest), st)
          | some (opened, after) => do
              let t := tokenOfBody (opened.drop 1)
              let (sub, st) ← member st t.member (andFilter base t.filter)
              let (rest, st) ← substituteLoop member base fuel after st
              .ok (.derivedToken (String.ofList before) sub rest, st)

/-! ## The scan -/

lemma scanTokens_text {cs before : List Char} (h : '\x7b' ∉ cs) :
    scanTokens before none cs = ([], .closed (before.reverse ++ cs)) := by
  induction cs generalizing before with
  | nil => simp [scanTokens]
  | cons c cs ih =>
      rw [List.mem_cons, not_or] at h
      rw [scanTokens]
      simp only [if_neg (Ne.symm h.1)]
      rw [ih h.2]
      simp

lemma scanTokens_open {text cs before : List Char} (h : '\x7b' ∉ text) :
    scanTokens before none (text ++ '\x7b' :: cs) =
      scanTokens (text.reverse ++ before) (some []) cs := by
  induction text generalizing before with
  | nil => simp [scanTokens]
  | cons c text ih =>
      rw [List.mem_cons, not_or] at h
      rw [List.cons_append, scanTokens]
      simp only [if_neg (Ne.symm h.1)]
      rw [ih h.2]
      simp

lemma scanTokens_unclosed {cs before body : List Char} (h : '\x7d' ∉ cs) :
    scanTokens before (some body) cs = ([], .unclosed) := by
  induction cs generalizing body with
  | nil => simp [scanTokens]
  | cons c cs ih =>
      rw [List.mem_cons, not_or] at h
      rw [scanTokens]
      simp only [if_neg (Ne.symm h.1)]
      exact ih h.2

lemma scanTokens_close {text cs before body : List Char} (h : '\x7d' ∉ text) :
    scanTokens before (some body) (text ++ '\x7d' :: cs) =
      ((before.reverse, body.reverse ++ text) :: (scanTokens [] none cs).1,
        (scanTokens [] none cs).2) := by
  induction text generalizing body with
  | nil => simp [scanTokens]
  | cons c text ih =>
      rw [List.mem_cons, not_or] at h
      rw [List.cons_append, scanTokens]
      simp only [if_neg (Ne.symm h.1)]
      rw [ih h.2]
      simp

/-- A token and what comes after it. -/
lemma scanTokens_token {before body cs : List Char} (hbefore : '\x7b' ∉ before)
    (hbody : '\x7d' ∉ body) :
    scanTokens [] none (before ++ '\x7b' :: (body ++ '\x7d' :: cs)) =
      ((before, body) :: (scanTokens [] none cs).1, (scanTokens [] none cs).2) := by
  rw [scanTokens_open hbefore, scanTokens_close hbody]
  simp

lemma written_cons (sp : List Char × List Char) (spans : List (List Char × List Char))
    (tail : List Char) :
    written (sp :: spans) tail = sp.1 ++ '\x7b' :: (sp.2 ++ '\x7d' :: written spans tail) := by
  simp [written]

/-- The scan divides a text with tokens into them. -/
lemma scanTokens_written {spans : List (List Char × List Char)} {tail : List Char}
    (hbefore : ∀ sp ∈ spans, '\x7b' ∉ sp.1) (hbody : ∀ sp ∈ spans, '\x7d' ∉ sp.2)
    (htail : '\x7b' ∉ tail) : scanTokens [] none (written spans tail) = (spans, .closed tail) := by
  induction spans with
  | nil => exact scanTokens_text htail
  | cons sp spans ih =>
      rw [written_cons, scanTokens_token (hbefore sp List.mem_cons_self)
        (hbody sp List.mem_cons_self), ih (fun sp' h => hbefore sp' (List.mem_cons_of_mem _ h))
        fun sp' h => hbody sp' (List.mem_cons_of_mem _ h)]

/-- What the scan finds is what the text is written of. -/
lemma written_scanTokens (n : ℕ) {cs : List Char} (hn : cs.length ≤ n) {tail : List Char}
    (h : (scanTokens [] none cs).2 = .closed tail) :
    cs = written (scanTokens [] none cs).1 tail ∧ '\x7b' ∉ tail ∧
      ∀ sp ∈ (scanTokens [] none cs).1, '\x7b' ∉ sp.1 ∧ '\x7d' ∉ sp.2 := by
  induction n generalizing cs with
  | zero =>
      have hnil : cs = [] := List.length_eq_zero_iff.mp (Nat.le_zero.mp hn)
      subst hnil
      cases h
      exact ⟨rfl, by simp, by simp [scanTokens]⟩
  | succ n ih =>
      cases hopen : Text.splitOnceChars '\x7b' cs with
      | none =>
          have hnone := Text.notMem_of_splitOnceChars hopen
          rw [scanTokens_text hnone] at h ⊢
          cases h
          exact ⟨rfl, hnone, by simp⟩
      | some found =>
          obtain ⟨before, after⟩ := found
          obtain ⟨rfl, hbefore⟩ := Text.splitOnceChars_spec hopen
          cases hclose : Text.splitOnceChars '\x7d' after with
          | none =>
              rw [scanTokens_open hbefore,
                scanTokens_unclosed (Text.notMem_of_splitOnceChars hclose)] at h
              cases h
          | some found =>
              obtain ⟨body, rest⟩ := found
              obtain ⟨rfl, hbody⟩ := Text.splitOnceChars_spec hclose
              rw [scanTokens_token hbefore hbody] at h ⊢
              have hlen : rest.length ≤ n := by
                simp only [List.length_append, List.length_cons] at hn
                omega
              obtain ⟨hrest, htail, hspans⟩ := ih hlen h
              refine ⟨?_, htail, List.forall_mem_cons.mpr ⟨⟨hbefore, hbody⟩, hspans⟩⟩
              rw [written_cons, ← hrest]

/-! ## Acceptance -/

/-- The tokens of a list of spans, unless one has no member. -/
def tokensOf (msg : String) (spans : List (List Char × List Char)) :
    Except String (List DerivedToken) :=
  spans.mapM fun sp =>
    let t := tokenOfBody sp.2
    if t.member = "" then .error msg else .ok t

@[simp] lemma tokensOf_nil (msg : String) : tokensOf msg [] = .ok [] := rfl

lemma tokensOf_cons (msg : String) (sp : List Char × List Char)
    (spans : List (List Char × List Char)) :
    tokensOf msg (sp :: spans) =
      if (tokenOfBody sp.2).member = "" then .error msg
      else (tokensOf msg spans).map fun ts => tokenOfBody sp.2 :: ts := by
  rw [tokensOf, List.mapM_cons]
  dsimp only
  split_ifs with hmember
  · rfl
  · rw [← tokensOf]
    cases tokensOf msg spans <;> rfl

lemma tokensOf_eq_ok {msg : String} {spans : List (List Char × List Char)}
    {tokens : List DerivedToken} :
    tokensOf msg spans = .ok tokens ↔
      (∀ sp ∈ spans, (tokenOfBody sp.2).member ≠ "") ∧
        tokens = spans.map fun sp => tokenOfBody sp.2 := by
  induction spans generalizing tokens with
  | nil =>
      rw [tokensOf_nil, Except.ok.injEq, List.map_nil]
      exact ⟨fun h => ⟨nofun, h.symm⟩, fun h => h.2.symm⟩
  | cons sp spans ih =>
      rw [tokensOf_cons, List.forall_mem_cons, List.map_cons]
      split_ifs with hmember
      · simp [hmember]
      · cases htokens : tokensOf msg spans with
        | error e =>
            have hno : ¬ ∀ sp ∈ spans, (tokenOfBody sp.2).member ≠ "" := fun hall => by
              have hok := ih.mpr ⟨hall, rfl⟩
              rw [htokens] at hok
              cases hok
            simp only [Except.map, reduceCtorEq, false_iff]
            exact fun h => hno h.1.2
        | ok ts =>
            obtain ⟨hall, rfl⟩ := ih.mp htokens
            simp only [Except.map, Except.ok.injEq]
            constructor
            · rintro rfl
              exact ⟨⟨hmember, hall⟩, rfl⟩
            · rintro ⟨-, rfl⟩
              rfl

/-- What becomes of the tokens behind those found before, by how the scan ends. -/
def finishTokens (expr : String) (found : List DerivedToken)
    (scan : List (List Char × List Char) × TokenEnd) : Except String (List DerivedToken) :=
  match tokensOf ("empty `\x7b\x7d` reference in derived expr `" ++ expr ++ "`") scan.1 with
  | .error msg => .error msg
  | .ok tokens =>
      match scan.2 with
      | .unclosed => .error ("unbalanced `\x7b` in derived expr `" ++ expr ++ "`")
      | .closed tail =>
          if tail.contains '\x7d' then
            .error ("unbalanced `\x7d` in derived expr `" ++ expr ++ "`")
          else if (found ++ tokens).isEmpty then
            .error ("derived expr `" ++ expr ++ "` references no `\x7bmember\x7d` token")
          else .ok (found ++ tokens)

lemma derivedTokens_eq (expr : String) :
    derivedTokens expr = finishTokens expr [] (scanTokens [] none expr.toList) := by
  show (tokensOf _ (scanTokens [] none expr.toList).1 >>= _) = _
  rw [finishTokens]
  cases tokensOf _ (scanTokens [] none expr.toList).1 <;> rfl

/-- `derived_tokens` on a scan. -/
lemma derivedTokens_ok_iff_scan {expr : String} {tokens : List DerivedToken} :
    derivedTokens expr = .ok tokens ↔
      ∃ tail, (scanTokens [] none expr.toList).2 = .closed tail ∧ '\x7d' ∉ tail ∧
        (∀ sp ∈ (scanTokens [] none expr.toList).1, (tokenOfBody sp.2).member ≠ "") ∧
        (scanTokens [] none expr.toList).1 ≠ [] ∧
        tokens = (scanTokens [] none expr.toList).1.map fun sp => tokenOfBody sp.2 := by
  rw [derivedTokens_eq, finishTokens]
  generalize scanTokens [] none expr.toList = scan
  cases htokens : tokensOf ("empty `\x7b\x7d` reference in derived expr `" ++ expr ++ "`") scan.1 with
  | error msg =>
      simp only [reduceCtorEq, false_iff]
      rintro ⟨tail, -, -, hmember, -, -⟩
      rw [tokensOf_eq_ok.mpr ⟨hmember, rfl⟩] at htokens
      cases htokens
  | ok ts =>
      obtain ⟨hmember, rfl⟩ := tokensOf_eq_ok.mp htokens
      cases scan.2 with
      | unclosed => simp
      | closed tail =>
          simp only [List.contains_iff_mem, List.nil_append, List.isEmpty_iff, List.map_eq_nil_iff,
            TokenEnd.closed.injEq, exists_eq_left']
          split_ifs with hclose hempty
          · simp [hclose]
          · simp [hempty]
          · simp only [Except.ok.injEq]
            exact ⟨fun h => ⟨hclose, hmember, hempty, h.symm⟩, fun h => h.2.2.2.symm⟩

/-- What `derived_tokens` accepts: an expression that the next braces divide into tokens. -/
theorem derivedTokens_ok_iff {expr : String} {tokens : List DerivedToken} :
    derivedTokens expr = .ok tokens ↔
      ∃ spans tail, Divided expr spans tail ∧ tokens = spans.map fun sp => tokenOfBody sp.2 := by
  rw [derivedTokens_ok_iff_scan]
  constructor
  · rintro ⟨tail, hscan, hclose, hmember, hne, htokens⟩
    obtain ⟨htext, hopen, hspans⟩ := written_scanTokens _ le_rfl hscan
    exact ⟨_, tail, ⟨htext, fun sp h => (hspans sp h).1, fun sp h => (hspans sp h).2,
      ⟨hopen, hclose⟩, hmember, hne⟩, htokens⟩
  · rintro ⟨spans, tail, hdiv, htokens⟩
    have hscan := scanTokens_written hdiv.before hdiv.body hdiv.tail.1
    rw [← hdiv.text] at hscan
    rw [hscan]
    exact ⟨tail, rfl, hdiv.tail.2, hdiv.member, hdiv.nonempty, htokens⟩

/-- The loop of `derived_tokens` is its scan. -/
theorem tokensLoop_eq (expr : String) : derivedTokens expr =
    tokensLoop expr (expr.toList.length + 1) expr.toList [] := by
  suffices hgen : ∀ (n : ℕ) (cs : List Char) (found : List DerivedToken), cs.length ≤ n →
      tokensLoop expr (n + 1) cs found = finishTokens expr found (scanTokens [] none cs) by
    rw [hgen _ _ _ le_rfl, derivedTokens_eq]
  intro n
  induction n with
  | zero =>
      intro cs found hn
      obtain rfl := List.length_eq_zero_iff.mp (Nat.le_zero.mp hn)
      simp [tokensLoop, Text.splitOnceChars, scanTokens, finishTokens]
  | succ n ih =>
      intro cs found hn
      rw [tokensLoop]
      cases hopen : Text.splitOnceChars '\x7b' cs with
      | none =>
          rw [scanTokens_text (Text.notMem_of_splitOnceChars hopen)]
          simp [finishTokens]
      | some split =>
          obtain ⟨before, after⟩ := split
          obtain ⟨rfl, hbefore⟩ := Text.splitOnceChars_spec hopen
          cases hclose : Text.splitOnceChars '\x7d' after with
          | none =>
              rw [scanTokens_open hbefore,
                scanTokens_unclosed (Text.notMem_of_splitOnceChars hclose)]
              simp [finishTokens, hclose]
          | some split =>
              obtain ⟨body, rest⟩ := split
              obtain ⟨rfl, hbody⟩ := Text.splitOnceChars_spec hclose
              rw [scanTokens_token hbefore hbody]
              have hlen : rest.length ≤ n := by
                simp only [List.length_append, List.length_cons] at hn
                omega
              simp only [hclose, finishTokens, tokensOf_cons]
              split_ifs with hmember
              · rfl
              · rw [ih rest _ hlen, finishTokens]
                cases tokensOf _ (scanTokens [] none rest).1 with
                | error msg => rfl
                | ok tokens => simp [Except.map]

/-! ## Substitution -/

section

variable {member : Expansion → String → List String →
  Except SemanticError (MetricExpr × Expansion)} {base : List String}

/-- Once the braces are checked, the loop of `metric_expr` is the chain of the scanned tokens. -/
theorem substituteLoop_eq {cs tail : List Char} (h : (scanTokens [] none cs).2 = .closed tail)
    (st : Expansion) : substituteLoop member base (cs.length + 1) cs st =
      derivedChain member base tail (scanTokens [] none cs).1 st := by
  suffices hgen : ∀ (n : ℕ) (cs : List Char) (st : Expansion), cs.length ≤ n →
      (scanTokens [] none cs).2 = .closed tail → substituteLoop member base (n + 1) cs st =
        derivedChain member base tail (scanTokens [] none cs).1 st from hgen _ cs st le_rfl h
  intro n
  induction n with
  | zero =>
      intro cs st hn hscan
      obtain rfl := List.length_eq_zero_iff.mp (Nat.le_zero.mp hn)
      cases hscan
      simp [substituteLoop, Text.splitOnceChars, scanTokens, derivedChain]
  | succ n ih =>
      intro cs st hn hscan
      rw [substituteLoop]
      cases hopen : Text.splitOnceChars '\x7b' cs with
      | none =>
          rw [scanTokens_text (Text.notMem_of_splitOnceChars hopen)] at hscan ⊢
          cases hscan
          simp [derivedChain]
      | some split =>
          obtain ⟨before, after⟩ := split
          obtain ⟨rfl, hbefore⟩ := Text.splitOnceChars_spec hopen
          cases hclose : Text.splitOnceChars '\x7d' after with
          | none =>
              rw [scanTokens_open hbefore,
                scanTokens_unclosed (Text.notMem_of_splitOnceChars hclose)] at hscan
              cases hscan
          | some split =>
              obtain ⟨body, rest⟩ := split
              obtain ⟨rfl, hbody⟩ := Text.splitOnceChars_spec hclose
              rw [scanTokens_token hbefore hbody] at hscan ⊢
              have hlen : rest.length ≤ n := by
                simp only [List.length_append, List.length_cons] at hn
                omega
              -- From the opening brace on, the body stands behind that brace.
              have hopened : Text.splitOnceChars '\x7d' ('\x7b' :: (body ++ '\x7d' :: rest)) =
                  some ('\x7b' :: body, rest) :=
                @Text.splitOnceChars_append _ ('\x7b' :: body) (by simp [hbody]) rest
              simp only [hopened, List.drop_one, List.tail_cons, derivedChain]
              refine bind_congr fun sub => ?_
              rw [ih rest _ hlen hscan]

/-- Substitute tokens in order. -/
def substTokens (member : Expansion → String → List String →
      Except SemanticError (MetricExpr × Expansion)) (base : List String) :
    List DerivedToken → Expansion → Except SemanticError (List MetricExpr × Expansion)
  | [], st => .ok ([], st)
  | t :: ts, st => do
      let (sub, st) ← member st t.member (andFilter base t.filter)
      let (subs, st) ← substTokens member base ts st
      .ok (sub :: subs, st)

lemma derivedChain_eq (tail : List Char) (spans : List (List Char × List Char)) (st : Expansion) :
    derivedChain member base tail spans st =
      (substTokens member base (spans.map fun sp => tokenOfBody sp.2) st).map fun r =>
        (chainExpr tail (spans.map Prod.fst) r.1, r.2) := by
  induction spans generalizing st with
  | nil => rfl
  | cons sp spans ih =>
      simp only [derivedChain, List.map_cons, substTokens]
      cases member st (tokenOfBody sp.2).member (andFilter base (tokenOfBody sp.2).filter) with
      | error e => rfl
      | ok r =>
          obtain ⟨sub, st'⟩ := r
          simp only [bind, Except.bind]
          rw [ih st']
          cases substTokens member base (spans.map fun sp => tokenOfBody sp.2) st' <;> rfl

end

/-- `metric_expr` substitutes the tokens in order, each with its member and its filter, and leaves the
text around them. -/
def Substitutes (expr : String) (tokens : List DerivedToken) : Prop :=
  ∃ spans tail, expr.toList = written spans tail ∧
    tokens = spans.map (fun sp => tokenOfBody sp.2) ∧
    ∀ (ctx : ExpandCtx) (fuel : ℕ) (st : Expansion) (name : String) (inherited visiting : List String)
      (metric : Metric), ctx.cat.metric name = some metric → metric.kind = .derived expr →
      name ∉ visiting →
      metricExpr ctx (fuel + 1) st name inherited visiting =
        (substTokens (Config.memberExpr ctx fuel (visiting ++ [name]))
            (andFilter inherited metric.filter) tokens st).map fun r =>
          (chainExpr tail (spans.map Prod.fst) r.1, r.2)

/-- The tokens that `derived_tokens` returns are the substituted ones. -/
theorem substitutes_of_ok {expr : String} {tokens : List DerivedToken}
    (h : derivedTokens expr = .ok tokens) : Substitutes expr tokens := by
  obtain ⟨tail, hscan, -, -, -, rfl⟩ := derivedTokens_ok_iff_scan.mp h
  refine ⟨_, tail, (written_scanTokens _ le_rfl hscan).1, rfl, ?_⟩
  intro ctx fuel st name inherited visiting metric hmetric hkind hvisiting
  rw [Config.metricExpr_succ hmetric hvisiting, Config.metricBody, hkind]
  simp only [h, hscan]
  exact derivedChain_eq tail _ st

/-! ## Exactness -/

/-- `derived_tokens` accepts the language of flat tokens, and `metric_expr` substitutes what it
returns. -/
def ReadsLanguage (expr : String) : Prop :=
  ((∃ tokens, derivedTokens expr = .ok tokens) ↔ ∃ spans tail, Flat expr spans tail) ∧
    ∀ tokens, derivedTokens expr = .ok tokens → Substitutes expr tokens

/-- Where the next braces divide an expression into tokens, no closing brace stands before a token and
no opening one inside it. -/
def NoStrayBrace (expr : String) : Prop :=
  ∀ spans tail, Divided expr spans tail → ∀ sp ∈ spans, '\x7d' ∉ sp.1 ∧ '\x7b' ∉ sp.2

lemma Flat.divided {expr : String} {spans : List (List Char × List Char)} {tail : List Char}
    (h : Flat expr spans tail) : Divided expr spans tail where
  text := h.text
  before := fun sp hsp => (h.before sp hsp).1
  body := fun sp hsp => (h.body sp hsp).2
  tail := h.tail
  member := h.member
  nonempty := h.nonempty

/-- An expression is divided in one way. -/
lemma Divided.spans_eq {expr : String} {spans : List (List Char × List Char)} {tail : List Char}
    (h : Divided expr spans tail) : (scanTokens [] none expr.toList).1 = spans := by
  rw [h.text, scanTokens_written h.before h.body h.tail.1]

/-- **When the language is read**: exactly where no stray brace is accepted. -/
theorem readsLanguage_iff (expr : String) : ReadsLanguage expr ↔ NoStrayBrace expr := by
  constructor
  · intro h spans tail hdiv sp hsp
    obtain ⟨spans', tail', hflat⟩ := h.1.mp ⟨_, derivedTokens_ok_iff.mpr ⟨spans, tail, hdiv, rfl⟩⟩
    obtain rfl : spans = spans' := hdiv.spans_eq.symm.trans hflat.divided.spans_eq
    exact ⟨(hflat.before sp hsp).2, (hflat.body sp hsp).1⟩
  · intro h
    refine ⟨⟨?_, ?_⟩, fun tokens => substitutes_of_ok⟩
    · rintro ⟨tokens, hok⟩
      obtain ⟨spans, tail, hdiv, -⟩ := derivedTokens_ok_iff.mp hok
      exact ⟨spans, tail, hdiv.text, fun sp hsp => ⟨hdiv.before sp hsp, (h spans tail hdiv sp hsp).1⟩,
        fun sp hsp => ⟨(h spans tail hdiv sp hsp).2, hdiv.body sp hsp⟩, hdiv.tail, hdiv.member,
        hdiv.nonempty⟩
    · rintro ⟨spans, tail, hflat⟩
      exact ⟨_, derivedTokens_ok_iff.mpr ⟨spans, tail, hflat.divided, rfl⟩⟩

/-- A closing brace before a token is accepted. -/
theorem strayBrace_accepted : ¬ ReadsLanguage "1 \x7d + \x7borders.revenue\x7d" := by
  intro h
  obtain ⟨spans, tail, hflat⟩ := h.1.mp ⟨[⟨"orders.revenue", none⟩], by decide⟩
  have hspans := hflat.divided.spans_eq
  have hfirst : ("1 \x7d + ".toList, "orders.revenue".toList) ∈ spans := by
    rw [← hspans]
    decide
  exact absurd (hflat.before _ hfirst).2 (by decide)

end Semantic
end Pawrly
