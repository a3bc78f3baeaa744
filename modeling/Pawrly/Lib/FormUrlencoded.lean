import Pawrly.Lib.Separated
import Pawrly.Lib.Utf8

/-!
# Form-urlencoded text

Names and values are written as one line of ASCII, `a=b&c=d`, where a blank is a plus sign and other bytes
stand behind a percent sign.  What is written is read back (`parse_serialize`), whatever characters the
names and values have.
-/

namespace FormUrlencoded

/-! ## Writing -/

/-- A byte that stands for itself. -/
def isPlain (b : ℕ) : Bool :=
  (0x30 ≤ b && b ≤ 0x39) || (0x41 ≤ b && b ≤ 0x5A) || (0x61 ≤ b && b ≤ 0x7A) || b = 0x2A || b = 0x2D ||
    b = 0x2E || b = 0x5F

def hexDigit (n : ℕ) : ℕ := if n < 10 then 0x30 + n else 0x37 + n

def serializeByte (b : UInt8) : List UInt8 :=
  if isPlain b.toNat then [b]
  else if b.toNat = 0x20 then [0x2B]
  else [0x25, UInt8.ofNat (hexDigit (b.toNat / 16)), UInt8.ofNat (hexDigit (b.toNat % 16))]

/-- A name or a value. -/
def serializeText (cs : List Char) : List UInt8 := (Utf8.encode cs).flatMap serializeByte

def serializePair (p : List Char × List Char) : List UInt8 :=
  serializeText p.1 ++ 0x3D :: serializeText p.2

def serialize (pairs : List (List Char × List Char)) : List UInt8 :=
  [0x26].intercalate (pairs.map serializePair)

/-! ## Reading -/

def hexValue (b : ℕ) : Option ℕ :=
  if 0x30 ≤ b ∧ b ≤ 0x39 then some (b - 0x30)
  else if 0x41 ≤ b ∧ b ≤ 0x46 then some (b - 0x37)
  else if 0x61 ≤ b ∧ b ≤ 0x66 then some (b - 0x57)
  else none

def replacePlus (bs : List UInt8) : List UInt8 := bs.map fun b => if b.toNat = 0x2B then 0x20 else b

/-- A percent sign without two digits behind it stands for itself. -/
def percentDecode : List UInt8 → List UInt8
  | [] => []
  | [b] => [b]
  | [b, c] => [b, c]
  | b :: high :: low :: bs =>
      if b.toNat = 0x25 then
        match hexValue high.toNat, hexValue low.toNat with
        | some h, some l => UInt8.ofNat (16 * h + l) :: percentDecode bs
        | _, _ => b :: percentDecode (high :: low :: bs)
      else b :: percentDecode (high :: low :: bs)

def decode (bs : List UInt8) : List Char := Utf8.lossy (percentDecode (replacePlus bs))

/-- The first equals sign ends the name. -/
def parsePair (bs : List UInt8) : List Char × List Char :=
  (decode (bs.takeWhile (· ≠ 0x3D)), decode ((bs.dropWhile (· ≠ 0x3D)).drop 1))

def parse (bs : List UInt8) : List (List Char × List Char) :=
  ((bs.splitOn 0x26).filter (· ≠ [])).map parsePair

/-! ## Round trip -/

lemma hexValue_hexDigit {n : ℕ} (h : n < 16) : hexValue (hexDigit n) = some n := by
  rw [hexValue, hexDigit]
  split_ifs <;> first | omega | (congr 1; omega)

lemma hexDigit_lt {n : ℕ} (h : n < 16) : hexDigit n < 0x47 := by
  rw [hexDigit]
  split_ifs <;> omega

lemma hexDigit_gt (n : ℕ) : 0x20 < hexDigit n := by
  rw [hexDigit]
  split_ifs <;> omega

lemma toNat_hexDigit {n : ℕ} (h : n < 16) : (UInt8.ofNat (hexDigit n)).toNat = hexDigit n :=
  UInt8.toNat_ofNat_of_lt (Nat.lt_trans (hexDigit_lt h) (by decide))

/-- What is written for a byte is visible ASCII, without separators. -/
lemma mem_serializeByte {b c : UInt8} (h : c ∈ serializeByte b) :
    0x20 < c.toNat ∧ c.toNat < 0x80 ∧ c.toNat ≠ 0x26 ∧ c.toNat ≠ 0x3D := by
  have hb : b.toNat < 256 := b.toNat_lt
  unfold serializeByte at h
  split_ifs at h with hplain
  · rw [List.mem_singleton.mp h]
    simp only [isPlain, Bool.or_eq_true, Bool.and_eq_true, decide_eq_true_eq] at hplain
    omega
  · rw [List.mem_singleton.mp h]
    decide
  · have hhigh := hexDigit_lt (n := b.toNat / 16) (by omega)
    have hlow := hexDigit_lt (n := b.toNat % 16) (by omega)
    have hdigit : ∀ n, hexDigit n ≠ 0x26 ∧ (n < 16 → hexDigit n ≠ 0x3D) := by
      intro n
      rw [hexDigit]
      split_ifs <;> omega
    rcases List.mem_cons.mp h with rfl | h
    · decide
    · rcases List.mem_cons.mp h with rfl | h
      · rw [toNat_hexDigit (by omega)]
        exact ⟨hexDigit_gt _, by omega, (hdigit _).1, (hdigit _).2 (by omega)⟩
      · rw [List.mem_singleton.mp h, toNat_hexDigit (by omega)]
        exact ⟨hexDigit_gt _, by omega, (hdigit _).1, (hdigit _).2 (by omega)⟩

lemma percentDecode_cons {b : UInt8} (h : b.toNat ≠ 0x25) (bs : List UInt8) :
    percentDecode (b :: bs) = b :: percentDecode bs := by
  rcases bs with _ | ⟨c, _ | ⟨d, bs⟩⟩
  · rfl
  · rfl
  · rw [percentDecode, if_neg h]

lemma percentDecode_serializeByte (b : UInt8) (bs : List UInt8) :
    percentDecode (replacePlus (serializeByte b) ++ bs) = b :: percentDecode bs := by
  have hb : b.toNat < 256 := b.toNat_lt
  unfold serializeByte
  split_ifs with hplain hblank
  · have hne : b.toNat ≠ 0x2B ∧ b.toNat ≠ 0x25 := by
      simp only [isPlain, Bool.or_eq_true, Bool.and_eq_true, decide_eq_true_eq] at hplain
      omega
    simp only [replacePlus, List.map_cons, List.map_nil, if_neg hne.1, List.cons_append,
      List.nil_append]
    exact percentDecode_cons hne.2 bs
  · have hsame : (0x20 : UInt8) = b := UInt8.toNat_inj.mp hblank.symm
    rw [← hsame]
    exact percentDecode_cons (by decide) bs
  · have hhigh : hexDigit (b.toNat / 16) ≠ 0x2B := by
      rw [hexDigit]
      split_ifs <;> omega
    have hlow : hexDigit (b.toNat % 16) ≠ 0x2B := by
      rw [hexDigit]
      split_ifs <;> omega
    have hvalue : UInt8.ofNat (16 * (b.toNat / 16) + b.toNat % 16) = b := by
      rw [Nat.div_add_mod, UInt8.ofNat_toNat]
    have hpercent : (0x25 : UInt8).toNat = 0x25 := by decide
    simp only [replacePlus, List.map_cons, List.map_nil, toNat_hexDigit (n := b.toNat / 16) (by omega),
      toNat_hexDigit (n := b.toNat % 16) (by omega), if_neg hhigh, if_neg hlow, hpercent,
      List.cons_append, List.nil_append]
    rw [if_neg (by decide), percentDecode, if_pos hpercent,
      toNat_hexDigit (by omega), toNat_hexDigit (by omega), hexValue_hexDigit (by omega),
      hexValue_hexDigit (by omega)]
    dsimp only
    rw [hvalue]

theorem decode_serializeText (cs : List Char) : decode (serializeText cs) = cs := by
  have hbytes : ∀ bs : List UInt8, percentDecode (replacePlus (bs.flatMap serializeByte)) = bs := by
    intro bs
    induction bs with
    | nil => rfl
    | cons b bs ih =>
        have happend : replacePlus ((b :: bs).flatMap serializeByte) =
            replacePlus (serializeByte b) ++ replacePlus (bs.flatMap serializeByte) := by
          rw [List.flatMap_cons, replacePlus, List.map_append]
          rfl
        rw [happend, percentDecode_serializeByte, ih]
  rw [decode, serializeText, hbytes, Utf8.lossy_encode]

lemma mem_serializeText {c : UInt8} {cs : List Char} (h : c ∈ serializeText cs) :
    0x20 < c.toNat ∧ c.toNat < 0x80 ∧ c.toNat ≠ 0x26 ∧ c.toNat ≠ 0x3D := by
  obtain ⟨b, -, hb⟩ := List.mem_flatMap.mp h
  exact mem_serializeByte hb

lemma parsePair_serializePair (p : List Char × List Char) : parsePair (serializePair p) = p := by
  have hname : ∀ c ∈ serializeText p.1, c ≠ 0x3D := by
    intro c hc heq
    exact (mem_serializeText hc).2.2.2 (by rw [heq]; decide)
  have htake : (serializePair p).takeWhile (· ≠ 0x3D) = serializeText p.1 := by
    rw [serializePair, List.takeWhile_append_of_pos (fun c hc => decide_eq_true (hname c hc))]
    simp
  have hdrop : (serializePair p).dropWhile (· ≠ 0x3D) = 0x3D :: serializeText p.2 := by
    rw [serializePair, List.dropWhile_append_of_pos (fun c hc => decide_eq_true (hname c hc))]
    simp
  rw [parsePair, htake, hdrop, List.drop_one, List.tail_cons, decode_serializeText,
    decode_serializeText]

/-- What is written is read back. -/
theorem parse_serialize (pairs : List (List Char × List Char)) : parse (serialize pairs) = pairs := by
  cases pairs with
  | nil => rfl
  | cons p pairs =>
      have hfree : ∀ l ∈ (p :: pairs).map serializePair, (0x26 : UInt8) ∉ l := by
        intro l hl hmem
        obtain ⟨q, -, rfl⟩ := List.mem_map.mp hl
        rcases List.mem_append.mp hmem with hmem | hmem
        · exact (mem_serializeText hmem).2.2.1 (by decide)
        · rcases List.mem_cons.mp hmem with heq | hmem
          · exact absurd heq (by decide)
          · exact (mem_serializeText hmem).2.2.1 (by decide)
      have hfilter : ((p :: pairs).map serializePair).filter (· ≠ []) =
          (p :: pairs).map serializePair := by
        refine List.filter_eq_self.mpr fun l hl => decide_eq_true ?_
        obtain ⟨q, -, rfl⟩ := List.mem_map.mp hl
        exact List.append_ne_nil_of_right_ne_nil _ (List.cons_ne_nil _ _)
      have hmap : ((p :: pairs).map serializePair).map parsePair = p :: pairs := by
        rw [List.map_map]
        exact (List.map_congr_left fun q _ => parsePair_serializePair q).trans (List.map_id _)
      rw [parse, serialize, List.splitOn_intercalate _ hfree (by simp), hfilter, hmap]

/-- What is written is visible ASCII. -/
lemma mem_serialize {c : UInt8} {pairs : List (List Char × List Char)} (h : c ∈ serialize pairs) :
    0x20 < c.toNat ∧ c.toNat < 0x80 := by
  by_cases hsep : c = 0x26
  · rw [hsep]
    decide
  · obtain ⟨l, hl, hmem⟩ := (Separated.mem_intercalate (by simpa using hsep)).mp h
    obtain ⟨p, -, rfl⟩ := List.mem_map.mp hl
    rcases List.mem_append.mp hmem with hmem | hmem
    · exact ⟨(mem_serializeText hmem).1, (mem_serializeText hmem).2.1⟩
    · rcases List.mem_cons.mp hmem with rfl | hmem
      · decide
      · exact ⟨(mem_serializeText hmem).1, (mem_serializeText hmem).2.1⟩

/-- A form that is written behind another one is read behind it. -/
theorem parse_append (bs : List UInt8) (pairs : List (List Char × List Char)) :
    parse (bs ++ 0x26 :: serialize pairs) = parse bs ++ pairs := by
  have hpairs := parse_serialize pairs
  rw [parse] at hpairs ⊢
  rw [List.splitOn_append_cons_self, List.filter_append, List.map_append, hpairs, parse]

end FormUrlencoded
