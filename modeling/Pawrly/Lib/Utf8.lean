import Mathlib.Data.Char
import Mathlib.Tactic.Common

/-!
# UTF-8

The bytes of a text and the decoder that reads them one at a time, as streams are read: it keeps the
bytes of an unfinished character, and what cannot be a character is replaced.  What it makes of a
stream does not depend on where the stream was cut (`Decoder.run_append`), and it reads every text back
(`Decoder.run_encode`).
-/

namespace Utf8

/-- The bytes of a text. -/
def encode (cs : List Char) : List UInt8 := cs.flatMap String.utf8EncodeChar

/-! ## The decoder -/

/-- What the decoder keeps of an unfinished character: how many bytes it needs, the bounds of the
next one, and the code point so far. -/
@[ext] structure Decoder where
  needed : ℕ
  lower : ℕ
  upper : ℕ
  point : ℕ
  deriving DecidableEq

def replacement : Char := Char.ofNat 0xFFFD

namespace Decoder

/-- Between two characters. -/
def between : Decoder := ⟨0, 0x80, 0xBF, 0⟩

/-- A byte between two characters. -/
def first (b : ℕ) : Decoder × List Char :=
  if b ≤ 0x7F then (between, [Char.ofNat b])
  else if 0xC2 ≤ b ∧ b ≤ 0xDF then (⟨1, 0x80, 0xBF, b - 0xC0⟩, [])
  else if 0xE0 ≤ b ∧ b ≤ 0xEF then
    (⟨2, if b = 0xE0 then 0xA0 else 0x80, if b = 0xED then 0x9F else 0xBF, b - 0xE0⟩, [])
  else if 0xF0 ≤ b ∧ b ≤ 0xF4 then
    (⟨3, if b = 0xF0 then 0x90 else 0x80, if b = 0xF4 then 0x8F else 0xBF, b - 0xF0⟩, [])
  else (between, [replacement])

/-- A byte inside a character.  One that does not belong there is read again as the first of the next
character. -/
def next (d : Decoder) (b : ℕ) : Decoder × List Char :=
  if d.lower ≤ b ∧ b ≤ d.upper then
    if d.needed = 1 then (between, [Char.ofNat (d.point * 64 + (b - 0x80))])
    else (⟨d.needed - 1, 0x80, 0xBF, d.point * 64 + (b - 0x80)⟩, [])
  else ((first b).1, replacement :: (first b).2)

def step (d : Decoder) (b : UInt8) : Decoder × List Char :=
  if d.needed = 0 then first b.toNat else next d b.toNat

/-- The decoder after some bytes, and the characters it has read. -/
def run : Decoder → List UInt8 → Decoder × List Char
  | d, [] => (d, [])
  | d, b :: bs => ((run (step d b).1 bs).1, (step d b).2 ++ (run (step d b).1 bs).2)

/-- The end of the stream. -/
def flush (d : Decoder) : List Char := if d.needed = 0 then [] else [replacement]

@[simp] lemma run_nil (d : Decoder) : run d [] = (d, []) := rfl

theorem run_append (d : Decoder) (bs bs' : List UInt8) :
    run d (bs ++ bs') = ((run (run d bs).1 bs').1, (run d bs).2 ++ (run (run d bs).1 bs').2) := by
  induction bs generalizing d with
  | nil => rfl
  | cons b bs ih => simp only [List.cons_append, run, ih, List.append_assoc]

/-! ## Reading a text -/

lemma step_between (b : UInt8) : step between b = first b.toNat := rfl

lemma toNat_ofNat {n : ℕ} (hn : n < 256) : (UInt8.ofNat n).toNat = n := UInt8.toNat_ofNat_of_lt hn

/-- The first byte of a character that needs more. -/
lemma run_first {n : ℕ} (hn : n < 256) {d : Decoder} (hfirst : first n = (d, [])) (bs : List UInt8) :
    run between (UInt8.ofNat n :: bs) = run d bs := by
  have hstep : step between (UInt8.ofNat n) = (d, []) := by
    rw [step_between, toNat_ofNat hn, hfirst]
  rw [run, hstep]
  rfl

/-- A byte that goes on. -/
lemma run_next {needed lower upper point n : ℕ} (hn : n < 64) (hlower : lower ≤ n + 0x80)
    (hupper : n + 0x80 ≤ upper) (bs : List UInt8) :
    run ⟨needed + 2, lower, upper, point⟩ (UInt8.ofNat (n + 0x80) :: bs) =
      run ⟨needed + 1, 0x80, 0xBF, point * 64 + n⟩ bs := by
  have hstep : step ⟨needed + 2, lower, upper, point⟩ (UInt8.ofNat (n + 0x80)) =
      (⟨needed + 1, 0x80, 0xBF, point * 64 + n⟩, []) := by
    rw [step, toNat_ofNat (by omega), if_neg (Nat.succ_ne_zero _), next, if_pos ⟨hlower, hupper⟩,
      if_neg (Nat.succ_succ_ne_one _), Nat.add_sub_cancel]
    rfl
  rw [run, hstep]
  rfl

/-- The byte that ends a character. -/
lemma run_last {point n : ℕ} (hn : n < 64) :
    run ⟨1, 0x80, 0xBF, point⟩ [UInt8.ofNat (n + 0x80)] =
      (between, [Char.ofNat (point * 64 + n)]) := by
  have hmem : 0x80 ≤ n + 0x80 ∧ n + 0x80 ≤ 0xBF := ⟨by omega, by omega⟩
  have hstep : step ⟨1, 0x80, 0xBF, point⟩ (UInt8.ofNat (n + 0x80)) =
      (between, [Char.ofNat (point * 64 + n)]) := by
    rw [step, toNat_ofNat (by omega), if_neg Nat.one_ne_zero, next, if_pos hmem, if_pos rfl,
      Nat.add_sub_cancel]
  rw [run, hstep]
  rfl

theorem run_encodeChar (c : Char) : run between (String.utf8EncodeChar c) = (between, [c]) := by
  have hc : Char.ofNat c.toNat = c := Char.ofNat_toNat c
  have hvalid : c.toNat < 0xD800 ∨ 0xDFFF < c.toNat ∧ c.toNat < 0x110000 := c.valid
  have hval : c.val.toNat = c.toNat := rfl
  rw [String.utf8EncodeChar, hval]
  generalize c.toNat = v at hc hvalid
  split_ifs with hone htwo hthree
  · have hstep : step between (UInt8.ofNat v) = (between, [c]) := by
      rw [step_between, toNat_ofNat (by omega), first, if_pos hone, hc]
    rw [run, hstep]
    rfl
  · have hfirst : first (v / 64 % 32 + 192) = (⟨1, 0x80, 0xBF, v / 64⟩, []) := by
      have hpoint : v / 64 % 32 + 192 - 0xC0 = v / 64 := by omega
      rw [first, if_neg (by omega), if_pos (by omega), hpoint]
    have hpoint : v / 64 * 64 + v % 64 = v := by omega
    rw [run_first (by omega) hfirst, run_last (by omega), hpoint, hc]
  · have hfirst : first (v / 4096 % 16 + 224) =
        (⟨2, if v / 4096 % 16 + 224 = 0xE0 then 0xA0 else 0x80,
          if v / 4096 % 16 + 224 = 0xED then 0x9F else 0xBF, v / 4096⟩, []) := by
      have hpoint : v / 4096 % 16 + 224 - 0xE0 = v / 4096 := by omega
      rw [first, if_neg (by omega), if_neg (by omega), if_pos (by omega), hpoint]
    have hpoint : (v / 4096 * 64 + v / 64 % 64) * 64 + v % 64 = v := by omega
    rw [run_first (by omega) hfirst, run_next (by omega) (by split_ifs <;> omega)
      (by split_ifs <;> omega), run_last (by omega), hpoint, hc]
  · have hfirst : first (v / 262144 % 8 + 240) =
        (⟨3, if v / 262144 % 8 + 240 = 0xF0 then 0x90 else 0x80,
          if v / 262144 % 8 + 240 = 0xF4 then 0x8F else 0xBF, v / 262144⟩, []) := by
      have hpoint : v / 262144 % 8 + 240 - 0xF0 = v / 262144 := by omega
      rw [first, if_neg (by omega), if_neg (by omega), if_neg (by omega), if_pos (by omega), hpoint]
    have hpoint : ((v / 262144 * 64 + v / 4096 % 64) * 64 + v / 64 % 64) * 64 + v % 64 = v := by
      omega
    rw [run_first (by omega) hfirst, run_next (by omega) (by split_ifs <;> omega)
      (by split_ifs <;> omega), run_next (by omega) (by omega) (by omega), run_last (by omega),
      hpoint, hc]

/-- The decoder reads every text back. -/
theorem run_encode (cs : List Char) : run between (encode cs) = (between, cs) := by
  induction cs with
  | nil => rfl
  | cons c cs ih =>
      have hcons : encode (c :: cs) = String.utf8EncodeChar c ++ encode cs := List.flatMap_cons
      rw [hcons, run_append, run_encodeChar, ih]
      rfl

/-- From a beginning of a text it reads a beginning of its characters. -/
lemma run_le {cs : List Char} {bs : List UInt8} (h : bs <+: encode cs) : (run between bs).2 <+: cs := by
  obtain ⟨more, hmore⟩ := h
  have hrun := run_encode cs
  rw [← hmore, run_append] at hrun
  exact ⟨_, (Prod.mk.inj hrun).2⟩

end Decoder

/-- The text of some bytes that need not be one: what is no character is replaced. -/
def lossy (bs : List UInt8) : List Char :=
  (Decoder.run .between bs).2 ++ (Decoder.run .between bs).1.flush

theorem lossy_encode (cs : List Char) : lossy (encode cs) = cs := by
  rw [lossy, Decoder.run_encode]
  exact List.append_nil cs

/-- What comes behind a text does not change how it is read. -/
theorem lossy_encode_append (cs : List Char) (bs : List UInt8) :
    lossy (encode cs ++ bs) = cs ++ lossy bs := by
  rw [lossy, Decoder.run_append, Decoder.run_encode, lossy, List.append_assoc]

/-! ## Single bytes -/

/-- A byte below 128 stands for itself alone. -/
lemma mem_utf8EncodeChar {b : UInt8} (hb : b.toNat < 0x80) {c : Char} :
    b ∈ String.utf8EncodeChar c ↔ c.toNat = b.toNat := by
  have hval : c.val.toNat = c.toNat := rfl
  have hmem : ∀ n < 256, b = UInt8.ofNat n ↔ b.toNat = n := fun n hn =>
    ⟨fun h => h ▸ UInt8.toNat_ofNat_of_lt hn, fun h => h ▸ (UInt8.ofNat_toNat).symm⟩
  rw [String.utf8EncodeChar, hval]
  generalize c.toNat = v
  split_ifs with hone htwo hthree
  · rw [List.mem_singleton, hmem v (by omega), eq_comm]
  · rw [List.mem_cons, List.mem_singleton, hmem _ (by omega), hmem _ (by omega)]
    omega
  · rw [List.mem_cons, List.mem_cons, List.mem_singleton, hmem _ (by omega), hmem _ (by omega),
      hmem _ (by omega)]
    omega
  · rw [List.mem_cons, List.mem_cons, List.mem_cons, List.mem_singleton, hmem _ (by omega),
      hmem _ (by omega), hmem _ (by omega), hmem _ (by omega)]
    have hlt : v / 262144 % 8 + 240 ≠ b.toNat := by omega
    omega

lemma mem_encode {b : UInt8} (hb : b.toNat < 0x80) {cs : List Char} :
    b ∈ encode cs ↔ ∃ c ∈ cs, c.toNat = b.toNat := by
  simp only [encode, List.mem_flatMap, mem_utf8EncodeChar hb]

/-- A byte below 128 is read as itself. -/
lemma encode_ofNat {bs : List UInt8} (h : ∀ b ∈ bs, b.toNat < 0x80) :
    encode (bs.map fun b => Char.ofNat b.toNat) = bs := by
  induction bs with
  | nil => rfl
  | cons b bs ih =>
      obtain ⟨hb, hbs⟩ := List.forall_mem_cons.mp h
      have hval : (Char.ofNat b.toNat).val.toNat = b.toNat := by
        have hvalid : b.toNat.isValidChar := .inl (by omega)
        rw [Char.ofNat, dif_pos hvalid]
        rfl
      have hchar : String.utf8EncodeChar (Char.ofNat b.toNat) = [b] := by
        rw [String.utf8EncodeChar, hval, if_pos (by omega), UInt8.ofNat_toNat]
      have hrest := ih hbs
      rw [encode] at hrest ⊢
      rw [List.map_cons, List.flatMap_cons, hchar, hrest]
      rfl

end Utf8
