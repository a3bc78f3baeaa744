import Pawrly.Http.OpenApi
import Pawrly.Lib.Glob

/-!
# Glob patterns of selectors

`glob_match` (`pawrly-sources/http/src/openapi.rs`) takes the segments of a pattern between its stars
at their first occurrence, from left to right.  It goes over the text by byte positions; `globMatch`
is none where a slice would start off a character boundary.  None does, so that it goes over the
characters just as `OpenApi.globMatch` (`globMatch_eq`), to the texts that the pattern stands for.
-/

namespace Pawrly
namespace Http
namespace OpenApi
namespace Bytes

open Glob

/-! ## Byte positions -/

/-- The length in bytes. -/
def byteLen (cs : List Char) : ℕ := (cs.map Char.utf8Size).sum

/-- `text[pos..]`; none off a character boundary. -/
def sliceFrom : List Char → ℕ → Option (List Char)
  | cs, 0 => some cs
  | [], _ + 1 => none
  | c :: cs, pos + 1 => if c.utf8Size ≤ pos + 1 then sliceFrom cs (pos + 1 - c.utf8Size) else none

/-- `text.find(part)`: the byte position of the first occurrence. -/
def findPart (part : List Char) : List Char → Option ℕ
  | [] => if part.isEmpty then some 0 else none
  | c :: cs =>
      if part.isPrefixOf (c :: cs) then some 0
      else (findPart part cs).map fun idx => c.utf8Size + idx

/-! ## Matching -/

/-- The loop of `glob_match` over the numbered segments. -/
def globLoop (text : List Char) (last : ℕ) : List (List Char × ℕ) → ℕ → Option Bool
  | [], _ => some true
  | (part, i) :: rest, pos =>
      if part.isEmpty then globLoop text last rest pos
      else if i = 0 then
        (sliceFrom text pos).bind fun tail =>
          if part.isPrefixOf tail then globLoop text last rest (pos + byteLen part) else some false
      else if i = last then
        if pos + byteLen part ≤ byteLen text then (sliceFrom text pos).map part.isSuffixOf
        else some false
      else
        (sliceFrom text pos).bind fun tail =>
          match findPart part tail with
          | some idx => globLoop text last rest (pos + (idx + byteLen part))
          | none => some false

def globMatch (pattern text : String) : Option Bool :=
  if !Text.hasChar '*' pattern then some (pattern = text)
  else
    let parts := pattern.toList.splitOn '*'
    globLoop text.toList (parts.length - 1) parts.zipIdx 0

/-! ## Positions that are boundaries -/

@[simp] lemma byteLen_append (as bs : List Char) : byteLen (as ++ bs) = byteLen as + byteLen bs := by
  simp [byteLen]

/-- A slice behind some characters of the text. -/
lemma sliceFrom_append (done tail : List Char) :
    sliceFrom (done ++ tail) (byteLen done) = some tail := by
  induction done with
  | nil => cases tail <;> rfl
  | cons c done ih =>
      have hpos : 0 < c.utf8Size := Char.utf8Size_pos c
      have hlen : byteLen (c :: done) = c.utf8Size + byteLen done := by simp [byteLen]
      obtain ⟨n, hn⟩ : ∃ n, byteLen (c :: done) = n + 1 := ⟨byteLen (c :: done) - 1, by omega⟩
      rw [List.cons_append, hn, sliceFrom, if_pos (by omega), ← hn, hlen, Nat.add_sub_cancel_left,
        ih]

/-- The first occurrence, and what is behind it. -/
lemma findPart_eq_some {part tail : List Char} {idx : ℕ} (h : findPart part tail = some idx) :
    ∃ u v, tail = u ++ (part ++ v) ∧ idx = byteLen u ∧ afterFirst part tail = some v ∧
      ∀ u' v', tail = u' ++ (part ++ v') → u.length ≤ u'.length := by
  induction tail generalizing idx with
  | nil =>
      rw [findPart] at h
      split_ifs at h with hpart
      cases h
      refine ⟨[], [], ?_, rfl, ?_, fun _ _ _ => Nat.zero_le _⟩
      · rw [List.isEmpty_iff.mp hpart]
        rfl
      · rw [afterFirst, if_pos hpart]
  | cons c cs ih =>
      rw [findPart] at h
      split_ifs at h with hstarts
      · cases h
        obtain ⟨v, hv⟩ := List.isPrefixOf_iff_prefix.mp hstarts
        refine ⟨[], v, hv.symm, rfl, ?_, fun _ _ _ => Nat.zero_le _⟩
        rw [afterFirst, if_pos hstarts, ← hv, List.drop_left]
      · obtain ⟨idx', hidx', rfl⟩ := Option.map_eq_some_iff.mp h
        obtain ⟨u, v, rfl, rfl, hafter, hfirst⟩ := ih hidx'
        refine ⟨c :: u, v, rfl, by simp [byteLen], ?_, fun u' v' hu' => ?_⟩
        · rw [afterFirst, if_neg hstarts, hafter]
        · cases u' with
          | nil => exact absurd (List.isPrefixOf_iff_prefix.mpr ⟨v', hu'.symm⟩) hstarts
          | cons b u' =>
              have hle := hfirst u' v' (List.cons.inj hu').2
              simpa using hle

lemma findPart_eq_none {part tail : List Char} (h : findPart part tail = none) :
    afterFirst part tail = none ∧ ∀ u v, tail ≠ u ++ (part ++ v) := by
  induction tail with
  | nil =>
      rw [findPart] at h
      split_ifs at h with hpart
      refine ⟨by rw [afterFirst, if_neg hpart], fun u v htail => ?_⟩
      obtain ⟨-, hrest⟩ := List.append_eq_nil_iff.mp htail.symm
      exact hpart (List.isEmpty_iff.mpr (List.append_eq_nil_iff.mp hrest).1)
  | cons c cs ih =>
      rw [findPart] at h
      split_ifs at h with hstarts
      obtain ⟨hafter, hnone⟩ := ih (Option.map_eq_none_iff.mp h)
      refine ⟨by rw [afterFirst, if_neg hstarts, hafter], fun u v htail => ?_⟩
      cases u with
      | nil => exact hstarts (List.isPrefixOf_iff_prefix.mpr ⟨v, htail.symm⟩)
      | cons b u => exact hnone u v (List.cons.inj htail).2

/-! ## The loop -/

/-- From a position behind `done`, the segments behind a star. -/
lemma globLoop_eq {done tail : List Char} {segs : List (List Char)} {i : ℕ} (hi : 0 < i)
    (hsegs : segs ≠ []) {last : ℕ} (hlast : i + segs.length = last + 1) :
    globLoop (done ++ tail) last (segs.zipIdx i) (byteLen done) =
      some (globParts false (segs.map String.ofList) tail) := by
  induction segs generalizing done tail i with
  | nil => exact absurd rfl hsegs
  | cons seg segs ih =>
      have hne : i ≠ 0 := by omega
      rw [List.length_cons] at hlast
      rw [List.zipIdx_cons, globLoop, List.map_cons, globParts, String.toList_ofList]
      cases segs with
      | nil =>
          obtain rfl : i = last := by simpa using hlast
          by_cases hempty : seg.isEmpty = true
          · rw [if_pos hempty, if_pos hempty]
            rfl
          · rw [if_neg hempty, if_neg hempty, if_neg hne, if_pos rfl, sliceFrom_append,
              byteLen_append, if_neg Bool.false_ne_true, List.map_nil, if_pos List.isEmpty_nil]
            split_ifs with hle
            · rfl
            · have hsuffix : seg.isSuffixOf tail = false := by
                rw [Bool.eq_false_iff, ne_eq, List.isSuffixOf_iff_suffix]
                rintro ⟨u, rfl⟩
                rw [byteLen_append] at hle
                omega
              rw [hsuffix]
      | cons next rest =>
          have hlast' : i + 1 + (next :: rest).length = last + 1 := by
            rw [List.length_cons] at hlast ⊢
            omega
          have hilast : i ≠ last := by
            rw [List.length_cons] at hlast
            omega
          by_cases hempty : seg.isEmpty = true
          · rw [if_pos hempty, if_pos hempty]
            exact ih (by omega) (List.cons_ne_nil _ _) hlast'
          · rw [if_neg hempty, if_neg hempty, if_neg hne, if_neg hilast, sliceFrom_append,
              Option.bind_some, if_neg Bool.false_ne_true, if_neg (by simp)]
            cases hfind : findPart seg tail with
            | none => rw [(findPart_eq_none hfind).1]
            | some idx =>
                obtain ⟨u, v, rfl, rfl, hafter, -⟩ := findPart_eq_some hfind
                have hrest := @ih (done ++ (u ++ seg)) v (i + 1) (by omega) (List.cons_ne_nil _ _)
                  hlast'
                rw [byteLen_append, byteLen_append] at hrest
                rw [hafter]
                dsimp only
                rw [← hrest]
                simp only [List.append_assoc]

/-- The segments behind a star are found where they occur in order. -/
lemma globParts_iff {segs : List (List Char)} (hsegs : segs ≠ []) (tail : List Char) :
    globParts false (segs.map String.ofList) tail = true ↔ After segs tail := by
  induction segs generalizing tail with
  | nil => exact absurd rfl hsegs
  | cons seg segs ih =>
      rw [List.map_cons, globParts, String.toList_ofList]
      cases segs with
      | nil =>
          by_cases hempty : seg.isEmpty = true
          · rw [if_pos hempty, List.isEmpty_iff.mp hempty]
            simp [globParts, After]
          · rw [if_neg hempty, if_neg Bool.false_ne_true, List.map_nil, if_pos List.isEmpty_nil]
            exact List.isSuffixOf_iff_suffix
      | cons next rest =>
          by_cases hempty : seg.isEmpty = true
          · rw [if_pos hempty, ih (List.cons_ne_nil _ _), List.isEmpty_iff.mp hempty, after_nil_cons]
          · rw [if_neg hempty, if_neg Bool.false_ne_true, if_neg (by simp)]
            cases hfind : findPart seg tail with
            | none =>
                obtain ⟨hafter, hnone⟩ := findPart_eq_none hfind
                rw [hafter]
                refine iff_of_false Bool.false_ne_true ?_
                rintro ⟨u, v, htail, -⟩
                exact hnone u v htail
            | some idx =>
                obtain ⟨u, v, rfl, -, hafter, hfirst⟩ := findPart_eq_some hfind
                rw [hafter]
                exact (ih (List.cons_ne_nil _ _) v).trans (after_first hfirst).symm

/-- Byte positions and characters give one answer. -/
lemma globMatch_eq (pattern text : String) :
    globMatch pattern text = some (OpenApi.globMatch pattern text) := by
  unfold globMatch OpenApi.globMatch
  by_cases hstar : '*' ∈ pattern.toList
  · have hchar : Text.hasChar '*' pattern = true := List.contains_iff_mem.mpr hstar
    obtain ⟨first, next, rest, hsegs⟩ := splitOn_of_mem hstar
    rw [hchar, Bool.not_true, if_neg Bool.false_ne_true, if_pos rfl, Text.split]
    dsimp only
    rw [hsegs, List.zipIdx_cons, globLoop, List.map_cons, globParts, String.toList_ofList]
    have hloop : ∀ done tail : List Char,
        globLoop (done ++ tail) ((first :: next :: rest).length - 1) ((next :: rest).zipIdx (0 + 1))
          (byteLen done) = some (globParts false ((next :: rest).map String.ofList) tail) :=
      fun done tail => globLoop_eq Nat.one_pos (List.cons_ne_nil _ _)
        (by simp only [List.length_cons]; omega)
    by_cases hempty : first.isEmpty = true
    · rw [if_pos hempty, if_pos hempty]
      exact hloop [] text.toList
    · have hslice : sliceFrom text.toList 0 = some text.toList := by cases text.toList <;> rfl
      rw [if_neg hempty, if_neg hempty, if_pos rfl, hslice, Option.bind_some, if_pos rfl]
      split_ifs with hstarts
      · obtain ⟨v, hv⟩ := List.isPrefixOf_iff_prefix.mp hstarts
        have hfirst : first.isPrefixOf (first ++ v) = true :=
          List.isPrefixOf_iff_prefix.mpr (List.prefix_append first v)
        rw [Nat.zero_add (byteLen first), ← hv, List.drop_left, hloop first v, hfirst, Bool.true_and]
      · rw [Bool.not_eq_true] at hstarts
        rw [hstarts, Bool.false_and]
  · have hchar : Text.hasChar '*' pattern = false := by
      rw [Bool.eq_false_iff]
      exact fun h => hstar (List.contains_iff_mem.mp h)
    rw [hchar, Bool.not_false, if_pos rfl, if_neg Bool.false_ne_true]

/-- **Glob matching**: every slice starts at a character boundary of the text, and the answer is yes
exactly for the texts that the pattern stands for. -/
theorem globMatch_iff (pattern text : String) :
    ∃ b, globMatch pattern text = some b ∧
      (b = true ↔ Expands '*' pattern.toList text.toList) := by
  refine ⟨_, globMatch_eq pattern text, ?_⟩
  rw [expands_iff]
  unfold OpenApi.globMatch
  by_cases hstar : '*' ∈ pattern.toList
  · have hchar : Text.hasChar '*' pattern = true := List.contains_iff_mem.mpr hstar
    obtain ⟨first, next, rest, hsegs⟩ := splitOn_of_mem hstar
    rw [hchar, if_pos rfl, Text.split, hsegs, List.map_cons, globParts, String.toList_ofList]
    by_cases hempty : first.isEmpty = true
    · rw [if_pos hempty, globParts_iff (List.cons_ne_nil _ _), List.isEmpty_iff.mp hempty, Fits]
      constructor
      · exact fun h => ⟨text.toList, rfl, h⟩
      · rintro ⟨v, hv, h⟩
        rwa [hv]
    · rw [if_neg hempty, if_pos rfl, Bool.and_eq_true, globParts_iff (List.cons_ne_nil _ _),
        List.isPrefixOf_iff_prefix, Fits]
      constructor
      · rintro ⟨⟨v, hv⟩, h⟩
        rw [← hv, List.drop_left] at h
        exact ⟨v, hv.symm, h⟩
      · rintro ⟨v, hv, h⟩
        rw [hv, List.drop_left]
        exact ⟨List.prefix_append first v, h⟩
  · have hchar : Text.hasChar '*' pattern = false := by
      simpa [Text.hasChar] using hstar
    rw [hchar, if_neg Bool.false_ne_true, List.splitOn_eq_singleton hstar, decide_eq_true_iff, Fits,
      String.toList_inj]
    exact eq_comm

end Bytes
end OpenApi
end Http
end Pawrly
