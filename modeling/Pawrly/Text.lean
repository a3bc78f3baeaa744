import Mathlib.Tactic.Common
import Mathlib.Algebra.Group.Int.Defs
import Mathlib.Algebra.GroupWithZero.Nat
import Mathlib.Data.Nat.Notation
import Mathlib.Data.Int.Notation
import Mathlib.Data.List.TakeWhile
import Pawrly.Lib.Templates

/-!
# Text

The string operations of the Rust standard library that the semantic compiler is written
with: splitting on a separator, joining, replacing, trimming and the numeric parsers.  Each
one is a structural recursion over the characters of its argument, so that the definitions
built from them evaluate.
-/

namespace Pawrly
namespace Text

/-! ## Splitting and joining -/

/-- `s.split(c).collect::<Vec<_>>()`: the (possibly empty) pieces between the separators. -/
def split (c : Char) (s : String) : List String :=
  (s.toList.splitOn c).map String.ofList

/-- `s.split_once(c)` on characters. -/
def splitOnceChars (c : Char) : List Char → Option (List Char × List Char)
  | [] => none
  | a :: as =>
      if a = c then some ([], as)
      else (splitOnceChars c as).map fun p => (a :: p.1, p.2)

/-- `s.split_once(c)`: the text before and after the first separator. -/
def splitOnce (c : Char) (s : String) : Option (String × String) :=
  (splitOnceChars c s.toList).map fun p => (String.ofList p.1, String.ofList p.2)

/-- `s.contains(c)`. -/
def hasChar (c : Char) (s : String) : Bool := s.toList.contains c

/-- `parts.join(sep)`. -/
def join (sep : String) (parts : List String) : String := sep.intercalate parts

lemma notMem_of_splitOnceChars {c : Char} {cs : List Char} (h : splitOnceChars c cs = none) :
    c ∉ cs := by
  induction cs with
  | nil => simp
  | cons a cs ih =>
      unfold splitOnceChars at h
      split_ifs at h with ha
      rw [List.mem_cons, not_or]
      exact ⟨fun hc => ha hc.symm, ih (Option.map_eq_none_iff.mp h)⟩

lemma splitOnceChars_spec {c : Char} {cs as bs : List Char}
    (h : splitOnceChars c cs = some (as, bs)) : cs = as ++ c :: bs ∧ c ∉ as := by
  induction cs generalizing as with
  | nil => cases h
  | cons a cs ih =>
      unfold splitOnceChars at h
      split_ifs at h with ha
      · cases h
        exact ⟨by rw [ha]; rfl, by simp⟩
      · obtain ⟨⟨as', bs'⟩, hsplit, heq⟩ := Option.map_eq_some_iff.mp h
        cases heq
        obtain ⟨rfl, hmem⟩ := ih hsplit
        refine ⟨rfl, ?_⟩
        rw [List.mem_cons, not_or]
        exact ⟨fun hc => ha hc.symm, hmem⟩

/-- A text without the separator is a single piece. -/
lemma split_of_splitOnce_none {c : Char} {s : String} (h : splitOnce c s = none) :
    split c s = [s] ∧ c ∉ s.toList := by
  have hmem := notMem_of_splitOnceChars (Option.map_eq_none_iff.mp h)
  refine ⟨?_, hmem⟩
  unfold split
  rw [List.splitOn_eq_singleton hmem, List.map_singleton, String.ofList_toList]

/-- The first piece ends at the first separator. -/
lemma split_of_splitOnce_some {c : Char} {s a b : String} (h : splitOnce c s = some (a, b)) :
    split c s = a :: split c b ∧ c ∉ a.toList := by
  obtain ⟨⟨as, bs⟩, hsplit, heq⟩ := Option.map_eq_some_iff.mp h
  cases heq
  obtain ⟨hs, hmem⟩ := splitOnceChars_spec hsplit
  rw [String.toList_ofList]
  refine ⟨?_, hmem⟩
  unfold split
  rw [hs, List.splitOn_append_cons_self_of_not_mem hmem, List.map_cons, String.toList_ofList]

lemma splitOnceChars_append {c : Char} {as : List Char} (has : c ∉ as) (bs : List Char) :
    splitOnceChars c (as ++ c :: bs) = some (as, bs) := by
  induction as with
  | nil => simp [splitOnceChars]
  | cons a as ih =>
      rw [List.mem_cons, not_or] at has
      rw [List.cons_append, splitOnceChars, if_neg fun h => has.1 h.symm, ih has.2, Option.map_some]

lemma splitOnce_append {a b : String} (ha : '.' ∉ a.toList) :
    splitOnce '.' (a ++ "." ++ b) = some (a, b) := by
  have hlist : (a ++ "." ++ b).toList = a.toList ++ '.' :: b.toList := by
    rw [String.toList_append, String.toList_append, List.append_assoc]
    rfl
  unfold splitOnce
  rw [hlist, splitOnceChars_append ha, Option.map_some, String.ofList_toList, String.ofList_toList]

lemma splitOnce_eq_none_iff {c : Char} {s : String} : splitOnce c s = none ↔ c ∉ s.toList := by
  refine ⟨fun h => notMem_of_splitOnceChars (Option.map_eq_none_iff.mp h), fun h => ?_⟩
  cases hs : splitOnceChars c s.toList with
  | none => rw [splitOnce, hs, Option.map_none]
  | some p =>
      obtain ⟨as, bs⟩ := p
      exact absurd ((splitOnceChars_spec hs).1 ▸ List.mem_append_right _ List.mem_cons_self) h

lemma split_ne_nil (c : Char) (s : String) : split c s ≠ [] := by
  unfold split
  rw [ne_eq, List.map_eq_nil_iff]
  exact List.splitOn_ne_nil c s.toList

/-- The pieces are the text without its separators. -/
lemma flatten_splitOn (c : Char) (cs : List Char) :
    (cs.splitOn c).flatten = cs.filter fun a => a ≠ c := by
  induction cs with
  | nil => rfl
  | cons a cs ih =>
      rw [List.splitOn_cons_eq_if_modifyHead, List.filter_cons]
      by_cases ha : a = c
      · simpa [ha] using ih
      · obtain ⟨piece, pieces, hpieces⟩ := List.exists_cons_of_ne_nil (List.splitOn_ne_nil c cs)
        rw [hpieces] at ih ⊢
        simpa [ha] using ih

lemma notMem_of_mem_splitOn {c : Char} {cs piece : List Char} (h : piece ∈ cs.splitOn c) :
    c ∉ piece := by
  intro hc
  have hmem : c ∈ (cs.splitOn c).flatten := List.mem_flatten.mpr ⟨piece, h, hc⟩
  rw [flatten_splitOn] at hmem
  simpa using (List.mem_filter.mp hmem).2

@[simp] lemma join_nil (sep : String) : join sep [] = "" := rfl

@[simp] lemma join_singleton (sep s : String) : join sep [s] = s := rfl

lemma split_ofList_append (c : Char) (as bs : List Char) :
    split c (String.ofList (as ++ c :: bs)) =
      split c (String.ofList as) ++ split c (String.ofList bs) := by
  unfold split
  rw [String.toList_ofList, String.toList_ofList, String.toList_ofList,
    List.splitOn_append_cons_self, List.map_append]

lemma join_cons (sep s : String) {parts : List String} (h : parts ≠ []) :
    join sep (s :: parts) = s ++ sep ++ join sep parts := by
  obtain ⟨a, as, rfl⟩ := List.exists_cons_of_ne_nil h
  simp [join, String.intercalate_cons_cons, String.append_assoc]

/-- What stands around a part does not depend on it. -/
lemma exists_join (sep : String) (l l' : List String) :
    ∃ before after, ∀ s, join sep (l ++ s :: l') = before ++ s ++ after := by
  induction l with
  | nil =>
      by_cases h : l' = []
      · exact ⟨"", "", fun s => by simp [h]⟩
      · exact ⟨"", sep ++ join sep l', fun s => by simp [join_cons sep s h, String.append_assoc]⟩
  | cons a l ih =>
      obtain ⟨before, after, h⟩ := ih
      refine ⟨a ++ sep ++ before, after, fun s => ?_⟩
      rw [List.cons_append, join_cons sep a (by simp), h s]
      simp [String.append_assoc]

/-! ## Replacing -/

/-- `s.replace(c, rep)` for a single character `c`. -/
def replaceChar (c : Char) (rep : String) (s : String) : String :=
  String.ofList (s.toList.flatMap fun a => if a = c then rep.toList else [a])

/-- The scan behind `replace`: `skip` characters of a match just replaced are still to be
dropped. -/
def replaceScan (pat rep : List Char) : ℕ → List Char → List Char
  | _, [] => []
  | skip + 1, _ :: as => replaceScan pat rep skip as
  | 0, a :: as =>
      if pat.isPrefixOf (a :: as) then rep ++ replaceScan pat rep (pat.length - 1) as
      else a :: replaceScan pat rep 0 as

/-- `s.replace(pat, rep)` for a non-empty pattern: leftmost, non-overlapping matches. -/
def replace (pat rep : String) (s : String) : String :=
  String.ofList (replaceScan pat.toList rep.toList 0 s.toList)

lemma toList_replace (pat rep s : String) :
    (replace pat rep s).toList = Templates.replaceScan pat.toList rep.toList 0 s.toList := by
  have hscan : ∀ (n : ℕ) (l : List Char),
      replaceScan pat.toList rep.toList n l = Templates.replaceScan pat.toList rep.toList n l := by
    intro n l
    induction l generalizing n with
    | nil => cases n <;> rfl
    | cons a l ih =>
        cases n with
        | zero => simp only [replaceScan, Templates.replaceScan, ih]
        | succ n => exact ih n
  rw [replace, String.toList_ofList, hscan]

/-! ## Searching -/

/-- The pattern occurs in the text. -/
def occursIn (pat : List Char) : List Char → Bool
  | [] => pat.isEmpty
  | a :: as => pat.isPrefixOf (a :: as) || occursIn pat as

/-- `s.contains(pat)`. -/
def contains (pat s : String) : Bool := occursIn pat.toList s.toList

lemma isPrefixOf_eq_false_of_notMem {c : Char} {pat cs : List Char} (hpat : c ∈ pat)
    (hcs : c ∉ cs) : pat.isPrefixOf cs = false := by
  refine Bool.eq_false_iff.mpr fun h => hcs ?_
  exact (List.isPrefixOf_iff_prefix.mp h).subset hpat

/-- A pattern with a character that the text does not have does not occur in it. -/
lemma occursIn_eq_false_of_notMem {c : Char} {pat cs : List Char} (hpat : c ∈ pat)
    (hcs : c ∉ cs) : occursIn pat cs = false := by
  induction cs with
  | nil =>
      rw [occursIn, List.isEmpty_eq_false_iff]
      exact List.ne_nil_of_mem hpat
  | cons a as ih =>
      rw [occursIn, isPrefixOf_eq_false_of_notMem hpat hcs, Bool.false_or]
      exact ih fun h => hcs (List.mem_cons_of_mem _ h)

/-- A pattern occurs in a text that it is an infix of. -/
lemma occursIn_iff {pat cs : List Char} : occursIn pat cs = true ↔ pat <:+: cs := by
  induction cs with
  | nil => rw [occursIn, List.isEmpty_iff, List.infix_nil]
  | cons a as ih =>
      rw [occursIn, Bool.or_eq_true, ih, List.isPrefixOf_iff_prefix, List.infix_cons_iff]

lemma contains_eq_false_of_notMem {c : Char} {pat s : String} (hpat : c ∈ pat.toList)
    (hs : c ∉ s.toList) : contains pat s = false :=
  occursIn_eq_false_of_notMem hpat hs

/-- `s.strip_prefix(pat)`. -/
def stripPrefix (pat s : String) : Option String :=
  if pat.toList.isPrefixOf s.toList then some (String.ofList (s.toList.drop pat.toList.length))
  else none

lemma stripPrefix_eq_some {pat s rest : String} :
    stripPrefix pat s = some rest ↔ s.toList = pat.toList ++ rest.toList := by
  unfold stripPrefix
  constructor
  · intro h
    split_ifs at h with hpre
    obtain ⟨tail, htail⟩ := List.isPrefixOf_iff_prefix.mp hpre
    cases h
    rw [String.toList_ofList, ← htail, List.drop_left]
  · intro h
    have hpre : pat.toList.isPrefixOf s.toList = true := by
      rw [List.isPrefixOf_iff_prefix, h]
      exact List.prefix_append _ _
    rw [if_pos hpre, h, List.drop_left, String.ofList_toList]

/-- `s.strip_suffix(pat)`. -/
def stripSuffix (pat s : String) : Option String :=
  if pat.toList.isSuffixOf s.toList then
    some (String.ofList (s.toList.take (s.toList.length - pat.toList.length)))
  else none

/-- The scan behind `splitText`: `skip` characters of a separator are still to be dropped. -/
def splitScan (sep : List Char) : ℕ → List Char → List (List Char)
  | _, [] => [[]]
  | skip + 1, _ :: as => splitScan sep skip as
  | 0, a :: as =>
      if sep.isPrefixOf (a :: as) then [] :: splitScan sep (sep.length - 1) as
      else
        match splitScan sep 0 as with
        | [] => [[a]]
        | piece :: pieces => (a :: piece) :: pieces

/-- `s.split(sep)` for a text; an empty separator stands around every character. -/
def splitText (sep s : String) : List String :=
  if sep.toList = [] then "" :: (s.toList.map fun c => String.ofList [c]) ++ [""]
  else (splitScan sep.toList 0 s.toList).map String.ofList

/-! ## Trimming -/

/-- The scan behind `trimStartMatches`. -/
def trimStartScan (pat : List Char) : ℕ → List Char → List Char
  | _, [] => []
  | skip + 1, _ :: as => trimStartScan pat skip as
  | 0, a :: as =>
      if pat.isPrefixOf (a :: as) then trimStartScan pat (pat.length - 1) as else a :: as

/-- `s.trim_start_matches(pat)` for a non-empty pattern. -/
def trimStartMatches (pat s : String) : String :=
  String.ofList (trimStartScan pat.toList 0 s.toList)

/-- `s.trim_matches(cs)`: without the characters of `cs` at both ends. -/
def trimChars (cs : List Char) (s : String) : String :=
  String.ofList
    (((s.toList.dropWhile cs.contains).reverse.dropWhile cs.contains).reverse)

/-- `s.trim_end_matches(c)`. -/
def trimEndChar (c : Char) (s : String) : String :=
  String.ofList ((s.toList.reverse.dropWhile (· = c)).reverse)

/-- `char::is_whitespace`: the Unicode property `White_Space`. -/
def isWhitespace (c : Char) : Bool :=
  let n := c.toNat
  (9 ≤ n && n ≤ 13) || n == 0x20 || n == 0x85 || n == 0xa0 || n == 0x1680 ||
    (0x2000 ≤ n && n ≤ 0x200a) || n == 0x2028 || n == 0x2029 || n == 0x202f || n == 0x205f ||
    n == 0x3000

/-- `s.trim()`. -/
def trim (s : String) : String :=
  String.ofList (((s.toList.dropWhile isWhitespace).reverse.dropWhile isWhitespace).reverse)

/-- The characters without those of a kind at both ends. -/
def trimBoth (p : Char → Bool) (cs : List Char) : List Char :=
  ((cs.dropWhile p).reverse.dropWhile p).reverse

lemma dropWhile_eq_self {p : Char → Bool} {cs : List Char} (h : ∀ c ∈ cs.head?, p c = false) :
    cs.dropWhile p = cs := by
  cases cs with
  | nil => rfl
  | cons c cs => simp [h c rfl]

/-- Trimming gives a text whose ends are of another kind, when only that kind stands around it. -/
lemma trimBoth_eq_iff {p : Char → Bool} {cs w : List Char} (hne : w ≠ [])
    (hhead : ∀ c ∈ w.head?, p c = false) (hlast : ∀ c ∈ w.getLast?, p c = false) :
    trimBoth p cs = w ↔
      ∃ as bs, (∀ c ∈ as, p c = true) ∧ (∀ c ∈ bs, p c = true) ∧ cs = as ++ w ++ bs := by
  unfold trimBoth
  constructor
  · intro h
    refine ⟨cs.takeWhile p, ((cs.dropWhile p).reverse.takeWhile p).reverse, ?_, ?_, ?_⟩
    · exact fun c hc => List.mem_takeWhile_imp hc
    · exact fun c hc => List.mem_takeWhile_imp (List.mem_reverse.mp hc)
    · rw [← h, List.append_assoc, ← List.reverse_append, List.takeWhile_append_dropWhile,
        List.reverse_reverse, List.takeWhile_append_dropWhile]
  · rintro ⟨as, bs, has, hbs, rfl⟩
    have hstart : (w ++ bs).dropWhile p = w ++ bs := by
      refine dropWhile_eq_self ?_
      obtain ⟨c, w, rfl⟩ := List.exists_cons_of_ne_nil hne
      exact hhead
    have hend : w.reverse.dropWhile p = w.reverse :=
      dropWhile_eq_self (by rwa [List.head?_reverse])
    rw [List.append_assoc, List.dropWhile_append_of_pos has, hstart, List.reverse_append,
      List.dropWhile_append_of_pos (fun c hc => hbs c (List.mem_reverse.mp hc)), hend,
      List.reverse_reverse]

lemma trim_eq (s : String) : trim s = String.ofList (trimBoth isWhitespace s.toList) := rfl

lemma trimChars_eq (cs : List Char) (s : String) :
    trimChars cs s = String.ofList (trimBoth cs.contains s.toList) := rfl

/-! ## Numeric parsers -/

/-- Drop one leading sign. -/
def dropSign : List Char → List Char
  | '+' :: cs => cs
  | '-' :: cs => cs
  | cs => cs

/-- A non-empty run of ASCII digits. -/
def isDigits (cs : List Char) : Bool := !cs.isEmpty && cs.all Char.isDigit

/-- The value of a run of ASCII digits. -/
def digitsVal (cs : List Char) : ℕ :=
  cs.foldl (fun n c => 10 * n + (c.toNat - '0'.toNat)) 0

lemma isDigits_toString (n : ℕ) : isDigits (toString n).toList = true := by
  have hlist : (toString n).toList = Nat.toDigits 10 n := Nat.toList_repr
  rw [hlist, isDigits, Bool.and_eq_true, List.all_eq_true]
  refine ⟨?_, fun c hc => Nat.isDigit_of_mem_toDigits (by decide) (by decide) hc⟩
  rw [Bool.not_eq_true', List.isEmpty_eq_false_iff]
  exact Nat.toDigits_ne_nil

/-- A number is read back from its text. -/
lemma digitsVal_toString (n : ℕ) : digitsVal (toString n).toList = n := by
  have hlist : (toString n).toList = Nat.toDigits 10 n := Nat.toList_repr
  rw [hlist]
  exact Nat.ofDigitChars_ten_toDigits

lemma toString_inj {m n : ℕ} : toString m = toString n ↔ m = n := by
  refine ⟨fun h => ?_, fun h => h ▸ rfl⟩
  rw [← digitsVal_toString m, h, digitsVal_toString]

/-- Text without a sign in front. -/
lemma dropSign_of_head {cs : List Char} (hplus : cs.head? ≠ some '+') (hdash : cs.head? ≠ some '-') :
    dropSign cs = cs := by
  match cs with
  | [] => rfl
  | c :: cs =>
      have hp : c ≠ '+' := fun h => hplus (by rw [h]; rfl)
      have hd : c ≠ '-' := fun h => hdash (by rw [h]; rfl)
      simp [dropSign, hp, hd]

lemma dropSign_digits {cs : List Char} (h : isDigits cs = true) : dropSign cs = cs := by
  simp only [isDigits, Bool.and_eq_true, List.all_eq_true] at h
  refine dropSign_of_head (fun hhead => ?_) fun hhead => ?_
  · have hdigit := h.2 '+' (List.mem_of_mem_head? hhead)
    revert hdigit
    decide
  · have hdigit := h.2 '-' (List.mem_of_mem_head? hhead)
    revert hdigit
    decide

lemma head_digits {cs : List Char} (h : isDigits cs = true) : cs.head? ≠ some '-' := by
  intro hhead
  simp only [isDigits, Bool.and_eq_true, List.all_eq_true] at h
  have hdigit := h.2 '-' (List.mem_of_mem_head? hhead)
  revert hdigit
  decide

/-- `s.parse::<i64>().is_ok()`: an optional sign and digits, within the range of `i64`. -/
def parsesI64 (s : String) : Bool :=
  let body := dropSign s.toList
  let bound := if s.toList.head? = some '-' then 2 ^ 63 else 2 ^ 63 - 1
  isDigits body && decide (digitsVal body ≤ bound)

/-- `s.parse()` for an unsigned type with the given largest value. -/
def parseUnsigned (bound : ℕ) (s : String) : Option ℕ :=
  let body :=
    match s.toList with
    | '+' :: cs => cs
    | cs => cs
  if isDigits body && decide (digitsVal body ≤ bound) then some (digitsVal body) else none

/-- `s.parse()` for a signed type with the given number of bits. -/
def parseSigned (bits : ℕ) (s : String) : Option ℤ :=
  let body := dropSign s.toList
  let value : ℤ := if s.toList.head? = some '-' then -digitsVal body else digitsVal body
  if isDigits body && decide (-(2 ^ (bits - 1)) ≤ value ∧ value < 2 ^ (bits - 1)) then some value
  else none

lemma parsesI64_eq (s : String) : parsesI64 s = (parseSigned 64 s).isSome := by
  unfold parsesI64 parseSigned
  dsimp only
  by_cases hdigits : isDigits (dropSign s.toList) = true
  · by_cases hminus : s.toList.head? = some '-'
    · simp only [hdigits, hminus, if_true, Bool.true_and]
      split_ifs with hrange
      · simp at hrange ⊢
        omega
      · simp at hrange ⊢
        omega
    · simp only [hdigits, hminus, if_false, Bool.true_and]
      split_ifs with hrange
      · simp at hrange ⊢
        omega
      · simp at hrange ⊢
        omega
  · simp [hdigits]

/-- A mantissa: digits with at most one point, and at least one digit. -/
def isMantissa (cs : List Char) : Bool :=
  match splitOnceChars '.' cs with
  | none => isDigits cs
  | some (whole, frac) =>
      whole.all Char.isDigit && frac.all Char.isDigit && !(whole.isEmpty && frac.isEmpty)

/-- A mantissa with an optional exponent. -/
def isDecimal (cs : List Char) : Bool :=
  match splitOnceChars 'e' (cs.map Char.toLower) with
  | none => isMantissa cs
  | some (mantissa, exponent) => isMantissa mantissa && isDigits (dropSign exponent)

/-- `s.parse::<f64>().is_ok()`, by the grammar of `f64::from_str`. -/
def parsesF64 (s : String) : Bool :=
  let body := dropSign s.toList
  let word := body.map Char.toLower
  word == "inf".toList || word == "infinity".toList || word == "nan".toList || isDecimal body

/-- The number is written as a word, after at most one sign. -/
def isFloatName (s : String) : Bool :=
  let word := (dropSign s.toList).map Char.toLower
  word == "inf".toList || word == "infinity".toList || word == "nan".toList

lemma parsesF64_eq (s : String) : parsesF64 s = (isFloatName s || isDecimal (dropSign s.toList)) :=
  rfl

end Text
end Pawrly
