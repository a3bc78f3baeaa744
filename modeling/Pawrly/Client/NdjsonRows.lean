import Pawrly.Lib.Utf8
import Pawrly.Lib.Separated
import Pawrly.Server.RestFormats

/-!
# Rows of a streamed response

The TypeScript client reads an `ndjson` body as it arrives: bytes are decoded, lines are cut off, and
each line is a row.  The chunks may be cut anywhere, also inside a character (`ndjsonRows_flatten`).  What
comes out for the body of a query are its rows, and when the query fails on the way, the rows that came
before (`rows_of_response`).
-/

namespace Pawrly
namespace Client
namespace Rest

open Http (Json)

/-! ## Reading lines -/

/-- The characters that `trim` takes off: white space and line ends. -/
def isSpace (c : Char) : Bool :=
  let n := c.toNat
  (9 ≤ n && n ≤ 13) || n = 0x20 || n = 0xA0 || n = 0x1680 || (0x2000 ≤ n && n ≤ 0x200A) ||
    n = 0x2028 || n = 0x2029 || n = 0x202F || n = 0x205F || n = 0x3000 || n = 0xFEFF

/-- `s.trim()`. -/
def trim (s : List Char) : List Char := ((s.dropWhile isSpace).reverse.dropWhile isSpace).reverse

/-- `TextDecoder`, which takes a byte order mark off the beginning. -/
structure TextDecoder where
  decoder : Utf8.Decoder
  started : Bool

namespace TextDecoder

def new : TextDecoder := ⟨.between, false⟩

/-- What is left of some characters when the stream begins with them. -/
def unmarked (started : Bool) (cs : List Char) : List Char :=
  match cs with
  | c :: rest => if !started && c.toNat = 0xFEFF then rest else cs
  | [] => []

/-- `decode(chunk, { stream: true })`. -/
def decode (d : TextDecoder) (bytes : List UInt8) : TextDecoder × List Char :=
  let r := d.decoder.run bytes
  (⟨r.1, d.started || !r.2.isEmpty⟩, unmarked d.started r.2)

/-- `decode()`, at the end.  What is left of an unfinished character is no byte order mark. -/
def finish (d : TextDecoder) : List Char := d.decoder.flush

end TextDecoder

/-- `QueryMeta`, as far as a response without an envelope fills it. -/
structure QueryMeta where
  columns : List String
  rowCount : ℕ
  deriving DecidableEq

/-- How the rows end: with the body, with a line that is no JSON, or with a failure of the body. -/
inductive Ending (E : Type)
  | done
  | syntaxError
  | failed (e : E)
  deriving DecidableEq

/-- The rows that were yielded and what they left in `meta`. -/
structure Output (R E : Type) where
  rows : List R
  queryMeta : QueryMeta
  ending : Option (Ending E)

variable {R E : Type}

def Output.empty : Output R E := ⟨[], ⟨[], 0⟩, none⟩

section

variable (parse : List Char → Option R) (keys : R → List String)

/-- `emit`, of a line that is not empty.  `parse` is `JSON.parse`, `keys` is `Object.keys`. -/
def emit (out : Output R E) (line : List Char) : Output R E :=
  match parse line with
  | none => { out with ending := some .syntaxError }
  | some row =>
      { out with
        rows := out.rows ++ [row]
        queryMeta := ⟨if out.queryMeta.columns = [] then keys row else out.queryMeta.columns,
          out.queryMeta.rowCount + 1⟩ }

/-- A line of the body. -/
def takeLine (out : Output R E) (line : List Char) : Output R E :=
  if out.ending.isSome then out
  else if trim line = [] then out
  else emit parse keys out (trim line)

/-- The loop over the lines of the buffer. -/
def drain (out : Output R E) (buf : List Char) : Output R E × List Char :=
  if out.ending.isSome then (out, [])
  else if h : '\n' ∈ buf then
    let nl := buf.idxOf '\n'
    have : (buf.drop (nl + 1)).length < buf.length := by
      have hlt := List.idxOf_lt_length_of_mem h
      rw [List.length_drop]
      omega
    drain (takeLine parse keys out (buf.take nl)) (buf.drop (nl + 1))
  else (out, buf)
termination_by buf.length

/-- The state of `ndjsonRows`. -/
structure Reader (R E : Type) where
  decoder : TextDecoder
  buf : List Char
  out : Output R E

def Reader.new : Reader R E := ⟨.new, [], .empty⟩

def Reader.read (r : Reader R E) (chunk : List UInt8) : Reader R E :=
  let decoded := r.decoder.decode chunk
  let drained := drain parse keys r.out (r.buf ++ decoded.2)
  ⟨decoded.1, drained.2, drained.1⟩

/-- The loop over the chunks, which a line that is no JSON breaks off. -/
def readChunks (r : Reader R E) : List (List UInt8) → Reader R E
  | [] => r
  | chunk :: chunks =>
      if r.out.ending.isSome then r else readChunks (r.read parse keys chunk) chunks

/-- `ndjsonRows`, of a body that arrives in chunks and then ends or fails. -/
def ndjsonRows (chunks : List (List UInt8)) (failure : Option E) : Output R E :=
  let r := readChunks parse keys .new chunks
  if r.out.ending.isSome then r.out
  else
    match failure with
    | some e => { r.out with ending := some (.failed e) }
    | none =>
        let out := takeLine parse keys r.out (r.buf ++ r.decoder.finish)
        if out.ending.isSome then out else { out with ending := some .done }

end

/-! ## Cutting -/

namespace TextDecoder

lemma unmarked_append (started : Bool) (cs cs' : List Char) :
    unmarked started (cs ++ cs') = unmarked started cs ++ unmarked (started || !cs.isEmpty) cs' := by
  cases cs with
  | nil => simp [unmarked]
  | cons c cs =>
      have hrest : unmarked true cs' = cs' := by
        cases cs' with
        | nil => rfl
        | cons c' cs' => rfl
      rw [List.isEmpty_cons, Bool.not_false, Bool.or_true, hrest]
      simp only [List.cons_append, unmarked]
      split_ifs <;> rfl

lemma decode_append (d : TextDecoder) (bs bs' : List UInt8) :
    d.decode (bs ++ bs') = (((d.decode bs).1.decode bs').1,
      (d.decode bs).2 ++ ((d.decode bs).1.decode bs').2) := by
  simp only [decode, Utf8.Decoder.run_append, unmarked_append, Prod.mk.injEq, TextDecoder.mk.injEq,
    and_true, true_and]
  rw [Bool.or_assoc]
  congr 1
  cases (d.decoder.run bs).2 <;> simp

end TextDecoder

section

variable {parse : List Char → Option R} {keys : R → List String} {out : Output R E}

lemma drain_of_ended (h : out.ending.isSome) (buf : List Char) :
    drain parse keys out buf = (out, []) := by
  rw [drain, if_pos h]

lemma drain_of_notMem (h : out.ending.isSome = false) {buf : List Char} (hbuf : '\n' ∉ buf) :
    drain parse keys out buf = (out, buf) := by
  rw [drain, if_neg (by simp [h]), dif_neg hbuf]

/-- A line is cut off the buffer. -/
lemma drain_line (h : out.ending.isSome = false) {line : List Char} (hline : '\n' ∉ line)
    (rest : List Char) :
    drain parse keys out (line ++ '\n' :: rest) =
      drain parse keys (takeLine parse keys out line) rest := by
  have hidx : (line ++ '\n' :: rest).idxOf '\n' = line.length := by
    rw [List.idxOf_append_of_notMem hline, List.idxOf_cons_self, Nat.add_zero]
  have htake : (line ++ '\n' :: rest).take line.length = line := List.take_left
  have hdrop : (line ++ '\n' :: rest).drop (line.length + 1) = rest := by
    rw [← List.drop_drop, List.drop_left]
    rfl
  rw [drain, if_neg (by simp [h]), dif_pos (by simp)]
  simp only [hidx, htake, hdrop]

/-- The lines of a buffer and what is left behind them. -/
lemma exists_lines (buf : List Char) : ∃ (lines : List (List Char)) (last : List Char),
    buf = (lines.flatMap fun line => line ++ ['\n']) ++ last ∧ (∀ line ∈ lines, '\n' ∉ line) ∧
      '\n' ∉ last := by
  induction buf with
  | nil => exact ⟨[], [], rfl, fun line h => absurd h List.not_mem_nil, List.not_mem_nil⟩
  | cons c buf ih =>
      obtain ⟨lines, last, rfl, hlines, hlast⟩ := ih
      by_cases hc : c = '\n'
      · refine ⟨[] :: lines, last, by simp [hc], ?_, hlast⟩
        exact List.forall_mem_cons.mpr ⟨List.not_mem_nil, hlines⟩
      · cases lines with
        | nil => exact ⟨[], c :: last, rfl, hlines, by simp [Ne.symm hc, hlast]⟩
        | cons line lines =>
            obtain ⟨hline, hrest⟩ := List.forall_mem_cons.mp hlines
            refine ⟨(c :: line) :: lines, last, rfl, ?_, hlast⟩
            exact List.forall_mem_cons.mpr ⟨by simp [Ne.symm hc, hline], hrest⟩

/-- The lines that are whole are taken, until one is no JSON. -/
lemma drain_lines (lines : List (List Char)) (hlines : ∀ line ∈ lines, '\n' ∉ line)
    (out : Output R E) (rest : List Char) :
    drain parse keys out ((lines.flatMap fun line => line ++ ['\n']) ++ rest) =
      drain parse keys (lines.foldl (takeLine parse keys) out) rest := by
  induction lines generalizing out with
  | nil => rfl
  | cons line lines ih =>
      obtain ⟨hline, hrest⟩ := List.forall_mem_cons.mp hlines
      cases hended : out.ending.isSome with
      | true =>
          have hsame : (line :: lines).foldl (takeLine parse keys) out = out := by
            generalize line :: lines = ls
            induction ls with
            | nil => rfl
            | cons l ls ihl => rw [List.foldl_cons, takeLine, if_pos hended, ihl]
          rw [hsame, drain_of_ended hended, drain_of_ended hended]
      | false =>
          rw [List.flatMap_cons, List.append_assoc, List.append_assoc, List.singleton_append,
            drain_line hended hline, ih hrest, List.foldl_cons]

/-- The buffer may come in two parts. -/
lemma drain_append (out : Output R E) (buf more : List Char) :
    drain parse keys (drain parse keys out buf).1 ((drain parse keys out buf).2 ++ more) =
      drain parse keys out (buf ++ more) := by
  obtain ⟨lines, last, rfl, hlines, hlast⟩ := exists_lines buf
  rw [List.append_assoc, drain_lines lines hlines, drain_lines lines hlines]
  generalize lines.foldl (takeLine parse keys) out = out'
  cases hended : out'.ending.isSome with
  | true => rw [drain_of_ended hended, drain_of_ended hended, drain_of_ended hended]
  | false => rw [drain_of_notMem hended hlast]

lemma read_append (r : Reader R E) (bs bs' : List UInt8) :
    r.read parse keys (bs ++ bs') = (r.read parse keys bs).read parse keys bs' := by
  simp only [Reader.read, TextDecoder.decode_append, ← List.append_assoc, drain_append]

lemma read_nil (r : Reader R E) (hbuf : drain parse keys r.out r.buf = (r.out, r.buf)) :
    r.read parse keys [] = r := by
  have hdecode : r.decoder.decode [] = (r.decoder, []) := by
    simp [TextDecoder.decode, TextDecoder.unmarked]
  simp only [Reader.read, hdecode, List.append_nil, hbuf]

/-- Nothing is left to do. -/
lemma drain_drain (out : Output R E) (buf : List Char) :
    drain parse keys (drain parse keys out buf).1 (drain parse keys out buf).2 =
      drain parse keys out buf := by
  have happend := @drain_append R E parse keys out buf []
  rwa [List.append_nil, List.append_nil] at happend

/-- Chunk by chunk or all at once, the rows are the same, and so is what is left to read unless a line
was no JSON. -/
lemma readChunks_eq (chunks : List (List UInt8)) (r : Reader R E)
    (hbuf : drain parse keys r.out r.buf = (r.out, r.buf)) :
    (readChunks parse keys r chunks).out = (r.read parse keys chunks.flatten).out ∧
      ((readChunks parse keys r chunks).out.ending.isSome = false →
        readChunks parse keys r chunks = r.read parse keys chunks.flatten) := by
  induction chunks generalizing r with
  | nil => simp only [readChunks, List.flatten_nil, read_nil r hbuf, true_and, implies_true]
  | cons chunk chunks ih =>
      rw [readChunks, List.flatten_cons]
      cases hended : r.out.ending.isSome with
      | true =>
          have hsame : (r.read parse keys (chunk ++ chunks.flatten)).out = r.out := by
            simp only [Reader.read, drain_of_ended hended]
          rw [if_pos rfl, hsame]
          exact ⟨rfl, fun h => by simp [hended] at h⟩
      | false =>
          rw [if_neg Bool.false_ne_true, read_append]
          exact ih (r.read parse keys chunk) (drain_drain _ _)

/-- Where the chunks are cut makes no difference. -/
theorem ndjsonRows_flatten (parse : List Char → Option R) (keys : R → List String)
    (chunks : List (List UInt8)) (failure : Option E) :
    ndjsonRows parse keys chunks failure = ndjsonRows parse keys [chunks.flatten] failure := by
  have hnew : drain parse keys (Reader.new : Reader R E).out (Reader.new : Reader R E).buf =
      (.empty, []) := drain_of_notMem rfl List.not_mem_nil
  obtain ⟨hout, heq⟩ := readChunks_eq chunks (.new : Reader R E) hnew
  have hone : readChunks parse keys (.new : Reader R E) [chunks.flatten] =
      Reader.read parse keys .new chunks.flatten := rfl
  unfold ndjsonRows
  rw [hone]
  dsimp only
  cases hended : (readChunks parse keys (.new : Reader R E) chunks).out.ending.isSome with
  | true =>
      rw [if_pos rfl, ← hout, hended, if_pos rfl]
  | false => rw [← heq hended, hended]

/-- Bodies of the same bytes leave the same rows, the same `meta` and end alike, also when they are no
UTF-8 or have lines that are no JSON. -/
theorem ndjsonRows_congr (parse : List Char → Option R) (keys : R → List String)
    {chunks chunks' : List (List UInt8)} (h : chunks.flatten = chunks'.flatten)
    (failure : Option E) :
    ndjsonRows parse keys chunks failure = ndjsonRows parse keys chunks' failure := by
  rw [ndjsonRows_flatten, h, ← ndjsonRows_flatten]

/-- A character of two bytes is cut in the middle, and a byte stands alone. -/
theorem ndjsonRows_congr_cut :
    ndjsonRows some (fun _ => []) [[34, 195], [188, 34, 10, 195]] (none : Option Unit) =
      ndjsonRows some (fun _ => []) [[34], [195, 188], [34, 10, 195]] none :=
  @ndjsonRows_congr _ _ some _ [[34, 195], [188, 34, 10, 195]] [[34], [195, 188], [34, 10, 195]] rfl none

/-! ## Rows of printed objects -/

/-- The lines of some objects. -/
def objectLines (objects : List Json) : List (List Char) :=
  objects.map fun object => object.print.toList

/-- The names of the first row that has any. -/
def firstColumns (keys : R → List String) (rows : List R) : List String :=
  ((rows.map keys).find? (· ≠ [])).getD []

lemma trim_of_ends {first last : Char} {mid : List Char} (hfirst : isSpace first = false)
    (hlast : isSpace last = false) : trim (first :: mid ++ [last]) = first :: mid ++ [last] := by
  rw [trim, List.cons_append, List.dropWhile_cons_of_neg (by simp [hfirst]),
    ← List.cons_append, List.reverse_append, List.reverse_singleton, List.singleton_append,
    List.dropWhile_cons_of_neg (by simp [hlast]), List.reverse_cons, List.reverse_reverse]

lemma print_obj (fields : List (String × Json)) : ∃ mid : List Char,
    (Json.obj fields).print.toList = '\x7b' :: mid ++ ['\x7d'] := by
  refine ⟨(Text.join "," (Json.printFields fields)).toList, ?_⟩
  rw [Json.print, String.toList_append, String.toList_append]
  rfl

/-- What the rows of some objects add to the output. -/
lemma foldl_takeLine {read : Json → R} (objects : List Json)
    (hobjects : ∀ object ∈ objects, ∃ fields, object = .obj fields)
    (hparse : ∀ object ∈ objects, parse object.print.toList = some (read object))
    {out : Output R E} (hended : out.ending = none) :
    (objectLines objects).foldl (takeLine parse keys) out =
      ⟨out.rows ++ objects.map read,
        ⟨if out.queryMeta.columns = [] then firstColumns keys (objects.map read)
          else out.queryMeta.columns, out.queryMeta.rowCount + objects.length⟩, none⟩ := by
  induction objects generalizing out with
  | nil =>
      obtain ⟨rows, ⟨columns, rowCount⟩, ending⟩ := out
      obtain rfl : ending = none := hended
      simp only [objectLines, List.map_nil, List.foldl_nil, List.append_nil, List.length_nil,
        Nat.add_zero, firstColumns, List.find?_nil, Option.getD_none]
      congr 2
      split_ifs with h
      · exact h
      · rfl
  | cons object objects ih =>
      obtain ⟨⟨fields, rfl⟩, hrest⟩ := List.forall_mem_cons.mp hobjects
      obtain ⟨hread, hreads⟩ := List.forall_mem_cons.mp hparse
      obtain ⟨mid, hmid⟩ := print_obj fields
      have htrim : trim (Json.obj fields).print.toList = (Json.obj fields).print.toList := by
        rw [hmid]
        exact trim_of_ends (by decide) (by decide)
      have hne : (Json.obj fields).print.toList ≠ [] := by
        rw [hmid]
        exact List.cons_ne_nil _ _
      have htake : takeLine parse keys out (Json.obj fields).print.toList =
          ⟨out.rows ++ [read (.obj fields)],
            ⟨if out.queryMeta.columns = [] then keys (read (.obj fields))
              else out.queryMeta.columns, out.queryMeta.rowCount + 1⟩, none⟩ := by
        rw [takeLine, hended, if_neg (by simp), htrim, if_neg hne, emit, hread, hended]
      have hcons : objectLines (Json.obj fields :: objects) =
          (Json.obj fields).print.toList :: objectLines objects := rfl
      rw [hcons, List.foldl_cons, htake, ih hrest hreads rfl]
      simp only [List.map_cons, List.length_cons, List.append_assoc, List.singleton_append,
        firstColumns, List.find?_cons, Nat.add_right_comm _ 1, Nat.add_assoc]
      congr 2
      by_cases hcolumns : out.queryMeta.columns = []
      · rw [if_pos hcolumns, if_pos hcolumns]
        by_cases hkeys : keys (read (.obj fields)) = []
        · simp [hkeys]
        · simp [hkeys]
      · rw [if_neg hcolumns, if_neg hcolumns, if_neg hcolumns]

/-- The body of some objects. -/
def objectText (objects : List Json) : List Char :=
  (objectLines objects).flatMap fun line => line ++ ['\n']

lemma decode_objectText {objects : List Json}
    (hobjects : ∀ object ∈ objects, ∃ fields, object = .obj fields) {bytes : List UInt8}
    (hbytes : bytes <+: Utf8.encode (objectText objects)) :
    (TextDecoder.new.decode bytes).2 = (Utf8.Decoder.run .between bytes).2 ∧
      (Utf8.Decoder.run .between bytes).2 <+: objectText objects := by
  have hle := Utf8.Decoder.run_le hbytes
  refine ⟨?_, hle⟩
  show TextDecoder.unmarked false (Utf8.Decoder.run .between bytes).2 =
    (Utf8.Decoder.run .between bytes).2
  cases hcs : (Utf8.Decoder.run .between bytes).2 with
  | nil => rfl
  | cons c cs =>
      rw [hcs] at hle
      cases objects with
      | nil => simp [objectText, objectLines] at hle
      | cons object objects =>
          obtain ⟨⟨fields, rfl⟩, -⟩ := List.forall_mem_cons.mp hobjects
          obtain ⟨mid, hmid⟩ := print_obj fields
          simp only [objectText, objectLines, List.map_cons, List.flatMap_cons, hmid,
            List.cons_append, List.cons_prefix_cons] at hle
          rw [hle.1]
          rfl

section

variable {read : Json → R} {objects : List Json}

/-- The reader on a beginning of the body: it has yielded the rows of the lines that are whole. -/
lemma read_objectText (hobjects : ∀ object ∈ objects, ∃ fields, object = .obj fields)
    (hparse : ∀ object ∈ objects, parse object.print.toList = some (read object))
    (hlines : ∀ line ∈ objectLines objects, '\n' ∉ line) {bytes : List UInt8}
    (hbytes : bytes <+: Utf8.encode (objectText objects)) :
    ∃ k ≤ objects.length, ∃ last : List Char,
      (Reader.new.read parse keys bytes : Reader R E).out =
        ⟨(objects.take k).map read, ⟨firstColumns keys ((objects.take k).map read), k⟩, none⟩ ∧
      (Reader.new.read parse keys bytes : Reader R E).buf = last ∧ '\n' ∉ last ∧
      (Utf8.Decoder.run .between bytes).2 = objectText (objects.take k) ++ last := by
  obtain ⟨hcs, hle⟩ := decode_objectText hobjects hbytes
  obtain ⟨lines, last, htext, hfree, hlast⟩ := exists_lines (Utf8.Decoder.run .between bytes).2
  rw [htext] at hcs hle
  have htake : lines <+: objectLines objects := Separated.le_of_flatMap_le hfree hlines hle
  have hsame : lines = objectLines (objects.take lines.length) := by
    rw [objectLines, List.map_take]
    exact List.prefix_iff_eq_take.mp htake
  have hlength : lines.length ≤ objects.length := by
    have hle := htake.length_le
    rwa [objectLines, List.length_map] at hle
  have hdrain : drain parse keys (.empty : Output R E)
      ((lines.flatMap fun line => line ++ ['\n']) ++ last) =
      (⟨(objects.take lines.length).map read,
        ⟨firstColumns keys ((objects.take lines.length).map read), lines.length⟩, none⟩, last) := by
    rw [drain_lines lines hfree]
    conv_lhs => rw [hsame]
    rw [foldl_takeLine _ (fun object h => hobjects object (List.mem_of_mem_take h))
      (fun object h => hparse object (List.mem_of_mem_take h)) rfl, drain_of_notMem rfl hlast]
    simp [Output.empty, hlength]
  refine ⟨lines.length, hlength, last, ?_, ?_, hlast, ?_⟩
  · simp only [Reader.read, Reader.new, hcs, List.nil_append, hdrain]
  · simp only [Reader.read, Reader.new, hcs, List.nil_append, hdrain]
  · rw [htext]
    conv_lhs => rw [hsame]
    rfl

/-- A body that breaks off somewhere leaves the rows that were whole. -/
lemma ndjsonRows_failed (hobjects : ∀ object ∈ objects, ∃ fields, object = .obj fields)
    (hparse : ∀ object ∈ objects, parse object.print.toList = some (read object))
    (hlines : ∀ line ∈ objectLines objects, '\n' ∉ line) {chunks : List (List UInt8)}
    (hchunks : chunks.flatten <+: Utf8.encode (objectText objects)) (e : E) :
    ∃ k ≤ objects.length, ndjsonRows parse keys chunks (some e) =
      ⟨(objects.take k).map read, ⟨firstColumns keys ((objects.take k).map read), k⟩,
        some (.failed e)⟩ := by
  obtain ⟨k, hk, last, hout, -, -, -⟩ := @read_objectText R E parse keys read objects hobjects hparse
    hlines chunks.flatten hchunks
  refine ⟨k, hk, ?_⟩
  have hone : readChunks parse keys (.new : Reader R E) [chunks.flatten] =
      Reader.read parse keys .new chunks.flatten := rfl
  rw [ndjsonRows_flatten, ndjsonRows, hone]
  simp only [hout, Option.isSome_none, Bool.false_eq_true, if_false]

/-- The whole body leaves all rows. -/
lemma ndjsonRows_whole (hobjects : ∀ object ∈ objects, ∃ fields, object = .obj fields)
    (hparse : ∀ object ∈ objects, parse object.print.toList = some (read object))
    (hlines : ∀ line ∈ objectLines objects, '\n' ∉ line) {chunks : List (List UInt8)}
    (hchunks : chunks.flatten = Utf8.encode (objectText objects)) :
    ndjsonRows parse keys chunks (none : Option E) =
      ⟨objects.map read, ⟨firstColumns keys (objects.map read), objects.length⟩, some .done⟩ := by
  obtain ⟨k, hk, last, hout, hbuf, hlast, htext⟩ := @read_objectText R E parse keys read objects
    hobjects hparse hlines chunks.flatten (hchunks ▸ List.prefix_rfl)
  have hone : readChunks parse keys (.new : Reader R E) [chunks.flatten] =
      Reader.read parse keys .new chunks.flatten := rfl
  have hfinish : (Reader.new.read parse keys chunks.flatten : Reader R E).decoder.finish = [] := by
    show Utf8.Decoder.flush (Utf8.Decoder.run .between chunks.flatten).1 = []
    rw [hchunks, Utf8.Decoder.run_encode]
    rfl
  -- nothing is left behind the last line
  have hrest : last = objectText (objects.drop k) := by
    rw [hchunks, Utf8.Decoder.run_encode] at htext
    have hsplit : objectText objects = objectText (objects.take k) ++ objectText (objects.drop k) := by
      conv_lhs => rw [← List.take_append_drop k objects]
      simp only [objectText, objectLines, List.map_append, List.flatMap_append]
    exact (List.append_cancel_left (hsplit.symm.trans htext)).symm
  have hall : objects.drop k = [] := by
    cases hdrop : objects.drop k with
    | nil => rfl
    | cons object rest =>
        rw [hrest, hdrop] at hlast
        simp [objectText, objectLines] at hlast
  obtain rfl : last = [] := by rw [hrest, hall]; rfl
  have hk' : k = objects.length := Nat.le_antisymm hk (List.drop_eq_nil_iff.mp hall)
  have hnothing : ∀ out : Output R E, takeLine parse keys out [] = out := by
    intro out
    rw [takeLine]
    split_ifs with hended htrim
    · rfl
    · rfl
    · exact absurd rfl htrim
  rw [ndjsonRows_flatten, ndjsonRows, hone]
  simp only [hout, hbuf, hfinish, List.append_nil, hnothing, Option.isSome_none,
    Bool.false_eq_true, if_false, hk', List.take_length]

end

end

/-! ## Responses of the server -/

open Server.Rest (QueryStream QueryResult Formatters ndjsonStream streamResponse)

variable {fmt : Formatters}

/-- What a body sends before it ends or fails. -/
def sent : List (Except E String) → List Char
  | [] => []
  | .error _ :: _ => []
  | .ok text :: body => text.toList ++ sent body

lemma sent_map_ok_append (texts : List String) (body : List (Except E String)) :
    sent (texts.map .ok ++ body) = texts.flatMap String.toList ++ sent body := by
  induction texts with
  | nil => rfl
  | cons text texts ih => rw [List.map_cons, List.cons_append, sent, ih, List.flatMap_cons,
      List.append_assoc]

/-- What comes behind some batches is under what they leave of the limit. -/
lemma ndjsonStream_append (batches : List (RecordBatch.Batch fmt.Value)) (stream : QueryStream fmt E)
    (remaining : ℕ) :
    ndjsonStream (batches.map .ok ++ stream) remaining =
      ndjsonStream (batches.map .ok) remaining ++
        ndjsonStream stream (remaining - (Mcp.shownRows batches).length) := by
  induction batches generalizing remaining with
  | nil => rfl
  | cons b batches ih =>
      rw [List.map_cons, List.cons_append, ndjsonStream, ndjsonStream]
      by_cases hremaining : remaining = 0
      · have hnone : ndjsonStream stream 0 = [] := by cases stream <;> rfl
        rw [if_pos hremaining, if_pos hremaining, hremaining, Nat.zero_sub, hnone, List.append_nil]
      · have htotal : remaining - (Mcp.formatBatches [b] remaining).total =
            remaining - (Mcp.shownRows [b]).length := by
          rw [Mcp.formatBatches_eq]
          dsimp only
          omega
        rw [if_neg hremaining, if_neg hremaining]
        dsimp only
        rw [ih, htotal, Server.Rest.shownRows_cons b batches, List.length_append, Nat.sub_add_eq,
          List.append_assoc]

/-- The text of the rows that are shown, whether the stream ends or fails behind them. -/
lemma sent_ndjsonStream (t : QueryResult fmt) (limit : ℕ) (stream : QueryStream fmt E)
    (hstream : stream = [] ∨ ∃ e rest, stream = .error e :: rest) :
    sent (ndjsonStream (t.stream E ++ stream) limit) = objectText (t.shownObjects limit) := by
  obtain ⟨texts, htexts, htext⟩ :=
    @Server.Rest.ndjsonStream_eq fmt E t.schema t.batches t.conforms limit
  have hnothing : ∀ n, sent (ndjsonStream stream n) = [] := by
    intro n
    rcases hstream with rfl | ⟨e, rest, rfl⟩
    · rfl
    · rw [ndjsonStream]
      split_ifs <;> rfl
  rw [QueryResult.stream, ndjsonStream_append, htexts, sent_map_ok_append, hnothing,
    List.append_nil, htext]
  show Server.Rest.lineText t.names (t.shown limit) = _
  rw [Server.Rest.lineText, objectText, objectLines, QueryResult.shownObjects, List.flatMap_map,
    List.flatMap_map]
  refine List.flatMap_congr fun row hrow => ?_
  rw [(t.length_of_mem_shown hrow).2]

lemma lines_shownObjects (t : QueryResult fmt) (limit : ℕ) :
    (∀ object ∈ t.shownObjects limit, ∃ fields, object = .obj fields) ∧
      ∀ line ∈ objectLines (t.shownObjects limit), '\n' ∉ line := by
  refine ⟨fun object hobject => ?_, fun line hline => ?_⟩
  · obtain ⟨row, -, rfl⟩ := List.mem_map.mp hobject
    exact ⟨_, rfl⟩
  · simp only [objectLines, QueryResult.shownObjects, QueryResult.shown, List.map_map,
      List.mem_map, Function.comp] at hline
    obtain ⟨row, _, rfl⟩ := hline
    refine Server.Rest.newline_notMem_rowObject fun v hv => ?_
    obtain ⟨cell, _, rfl⟩ := List.mem_map.mp hv
    exact Server.Rest.newline_notMem_cell cell

/-- The client gets the rows of the `json` response out of the `ndjson` body however it is cut into chunks;
and if the query or the connection fails on the way, it gets the first of these rows and the
failure. -/
theorem rows_of_response {parse : List Char → Option R} {keys : R → List String} {read : Json → R}
    {t : QueryResult fmt} {limit : ℕ} {body : Json} {objects : List Json}
    (hjson : streamResponse (t.stream E) limit (some "json") = .json body)
    (hrows : body.get? "rows" = some (.arr objects))
    (hparse : ∀ object ∈ objects, parse object.print.toList = some (read object)) :
    (∀ lines chunks, streamResponse (t.stream E) limit (some "ndjson") = .ndjson lines →
      chunks.flatten = Utf8.encode (sent lines) →
      ndjsonRows parse keys chunks (none : Option E) =
        ⟨objects.map read, ⟨firstColumns keys (objects.map read), objects.length⟩, some .done⟩) ∧
      ∀ stream lines chunks (e : E), (stream = [] ∨ ∃ cause rest, stream = .error cause :: rest) →
        streamResponse (t.stream E ++ stream) limit (some "ndjson") = .ndjson lines →
        chunks.flatten <+: Utf8.encode (sent lines) →
        ∃ k ≤ objects.length, ndjsonRows parse keys chunks (some e) =
          ⟨(objects.take k).map read, ⟨firstColumns keys ((objects.take k).map read), k⟩,
            some (.failed e)⟩ := by
  rw [t.json_response] at hjson
  obtain rfl := Server.Rest.Response.json.inj hjson
  rw [t.jsonBody_rows] at hrows
  obtain rfl := Json.arr.inj (Option.some.inj hrows)
  obtain ⟨hobjects, hlines⟩ := lines_shownObjects t limit
  refine ⟨fun lines chunks hlines' hchunks => ?_, fun stream lines chunks e hstream hlines' hchunks => ?_⟩
  · obtain rfl := Server.Rest.Response.ndjson.inj hlines'
    rw [← List.append_nil (t.stream E), sent_ndjsonStream t limit [] (.inl rfl)] at hchunks
    exact ndjsonRows_whole hobjects hparse hlines hchunks
  · obtain rfl := Server.Rest.Response.ndjson.inj hlines'
    rw [sent_ndjsonStream t limit stream hstream] at hchunks
    exact ndjsonRows_failed hobjects hparse hlines hchunks e

/-- `SELECT 1 AS a`, in two chunks that arrive and in one before the connection is lost. -/
theorem rows_of_response_split :
    let object : Json := .obj [("a", .num "1")]
    let parse (_ : List Char) : Option Json := some object
    let keys (_ : Json) : List String := ["a"]
    let first := Utf8.encode "\x7b\"a\"".toList
    let second := Utf8.encode ":1\x7d\n".toList
    ndjsonRows parse keys [first, second] (none : Option Unit) =
        ⟨[object], ⟨["a"], 1⟩, some .done⟩ ∧
      ∃ k ≤ 1, ndjsonRows parse keys [first] (some ()) =
        ⟨[object].take k, ⟨firstColumns keys ([object].take k), k⟩, some (.failed ())⟩ := by
  intro object parse keys first second
  let fmt : Formatters :=
    { F32 := Empty
      F64 := Empty
      Other := fun _ => Empty
      widen := id
      fromF64 := Empty.elim
      displayFloat := Empty.elim
      displayOther := fun _ => Empty.elim
      knows := fun _ => true
      number := fun x => x.elim }
  let fields : List (RecordBatch.Field Mcp.DataType) := [⟨"a", .int 64⟩]
  let batch : RecordBatch.Batch fmt.Value :=
    { schema := fields
      columns := [⟨.int 64, [some (1 : ℤ)]⟩]
      numRows := 1
      types := rfl
      lengths := by simp }
  let t : QueryResult fmt := ⟨fields, [batch], by simp [batch]⟩
  have hobjects : t.shownObjects 1000 = [object] := by decide
  have hbytes : [first, second].flatten = Utf8.encode (objectText [object]) := by decide
  have hsent : sent (ndjsonStream (t.stream Unit) 1000) = objectText [object] := by
    rw [← hobjects, ← List.append_nil (t.stream Unit), sent_ndjsonStream t 1000 [] (.inl rfl)]
  have hresponse := @rows_of_response Json Unit fmt parse keys id t 1000 _ [object]
    (t.json_response 1000) (hobjects ▸ t.jsonBody_rows 1000)
    (fun _ h => by rw [List.mem_singleton.mp h]; rfl)
  have hfirst := hresponse.1 _ [first, second] rfl (by rw [hsent, hbytes])
  have hsecond := hresponse.2 [] _ [first] () (.inl rfl) rfl
    (by rw [List.append_nil, hsent, ← hbytes]; exact List.prefix_append first _)
  simp only [List.map_id] at hfirst hsecond
  exact ⟨hfirst, hsecond⟩

end Rest
end Client
end Pawrly
