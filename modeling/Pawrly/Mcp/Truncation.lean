import Pawrly.Http.OpenApi
import Pawrly.Lib.RecordBatch
import Pawrly.Mcp.NamedCalls
import Pawrly.Mcp.RowBound
import Pawrly.Secrets.OAuthStore

/-!
# Truncated results

The tools `query`, `call_function` and `semantic_query` reply with at most `max_rows` rows and say
whether there were more.  `format_batches` infers that from a row too many (`formatBatches_eq`), which
each tool asks for in its own way.  `reports_iff` says when the reply is right.
-/

namespace Pawrly
namespace Mcp

open Config RecordBatch
open Http (Json)
open Engine.FunctionCall (CallArg renderCallSql)

/-! ## Cells -/

/-- The types of columns: those with a form of their own in JSON, and all others. -/
inductive DataType
  | boolean
  | int (bits : ℕ)
  | uint (bits : ℕ)
  | float32
  | float64
  | other (name : String)
  deriving DecidableEq

/-- Arrow's values and their display: the floats and the values of other types, the numbers that
`from_f64` makes, and the types that `ArrayFormatter` knows. -/
structure Formatters where
  F32 : Type
  F64 : Type
  Other : String → Type
  widen : F32 → F64
  fromF64 : F64 → Option String
  displayFloat : F64 → String
  displayOther : ∀ name, Other name → String
  knows : DataType → Bool

variable {fmt : Formatters}

/-- The values of a type. -/
def Formatters.Value (fmt : Formatters) : DataType → Type
  | .boolean => Bool
  | .int _ => ℤ
  | .uint _ => ℕ
  | .float32 => fmt.F32
  | .float64 => fmt.F64
  | .other name => fmt.Other name

/-- A cell and its type. -/
abbrev Cell (fmt : Formatters) := Σ t, Option (fmt.Value t)

/-- `f64_cell`. -/
def f64Cell (fmt : Formatters) (x : fmt.F64) : Json :=
  match fmt.fromF64 x with
  | some number => .num number
  | none => .str (fmt.displayFloat x)

/-- `cell_to_json`. -/
def cellToJson (fmt : Formatters) : Cell fmt → Json
  | ⟨_, none⟩ => .null
  | ⟨.boolean, some b⟩ => .bool b
  | ⟨.int _, some n⟩ => .num (toString (show ℤ from n))
  | ⟨.uint _, some n⟩ => .num (toString (show ℕ from n))
  | ⟨.float32, some x⟩ => f64Cell fmt (fmt.widen x)
  | ⟨.float64, some x⟩ => f64Cell fmt x
  | ⟨.other name, some x⟩ => .str (fmt.displayOther name x)

/-! ## Rows -/

/-- A row of a result. -/
abbrev Row (fmt : Formatters) := List (Cell fmt)

/-- The rows of a batch. -/
def batchRows (batch : Batch fmt.Value) : List (Row fmt) :=
  (List.range batch.numRows).map fun r =>
    batch.columns.map fun c => ⟨c.type, (c.cells[r]?).join⟩

/-- The columns can be formatted. -/
def formattable (batch : Batch fmt.Value) : Bool :=
  batch.columns.all fun c => fmt.knows c.type

/-- What `format_batches` returns, and what its loop holds. -/
structure Formatted where
  columns : List String
  rows : List (List Json)
  total : ℕ
  truncated : Bool
  deriving DecidableEq

/-- The loop over the rows of a batch, which may end the one over the batches. -/
def rowLoop (max : ℕ) : List (Row fmt) → Formatted → Formatted × Bool
  | [], s => (s, false)
  | row :: rows, s =>
      if max ≤ s.total then ({ s with truncated := true }, true)
      else rowLoop max rows
        { s with rows := s.rows ++ [row.map (cellToJson fmt)], total := s.total + 1 }

def batchLoop (max : ℕ) : List (Batch fmt.Value) → Formatted → Formatted
  | [], s => s
  | batch :: batches, s =>
      if formattable batch then
        match rowLoop max (batchRows batch) s with
        | (s', true) => s'
        | (s', false) => batchLoop max batches s'
      else batchLoop max batches s

/-- `format_batches`. -/
def formatBatches (batches : List (Batch fmt.Value)) (max : ℕ) : Formatted :=
  let columns := match batches.head? with
    | some batch => batch.schema.map RecordBatch.Field.name
    | none => []
  batchLoop max batches ⟨columns, [], 0, false⟩

section

variable {max : ℕ} {s : Formatted}

/-- The loop adds the rows up to the bound, and stops at the first one behind it. -/
lemma rowLoop_eq (rows : List (Row fmt)) (hle : s.total ≤ max) (htruncated : s.truncated = false) :
    rowLoop max rows s =
      ({ s with
          rows := s.rows ++ (rows.take (max - s.total)).map fun row => row.map (cellToJson fmt)
          total := min max (s.total + rows.length)
          truncated := decide (max < s.total + rows.length) },
        decide (max < s.total + rows.length)) := by
  induction rows generalizing s with
  | nil =>
      have htotal : min max s.total = s.total := by omega
      have hno : ¬ max < s.total := by omega
      cases s
      simp_all [rowLoop]
  | cons row rows ih =>
      by_cases hfull : max ≤ s.total
      · have htotal : min max (s.total + (rows.length + 1)) = s.total := by omega
        have hmore : max < s.total + (rows.length + 1) := by omega
        have hnone : max - s.total = 0 := by omega
        rw [rowLoop, if_pos hfull, hnone, List.take_zero, List.map_nil, List.append_nil,
          List.length_cons, htotal]
        simp only [hmore, decide_true]
      · obtain ⟨k, hk⟩ : ∃ k, max - s.total = k + 1 := ⟨max - s.total - 1, by omega⟩
        have hk' : max - (s.total + 1) = k := by omega
        have hlength : s.total + 1 + rows.length = s.total + (rows.length + 1) := by omega
        have hnext := @ih { s with
          rows := s.rows ++ [row.map (cellToJson fmt)], total := s.total + 1 }
          (by dsimp only; omega) htruncated
        rw [rowLoop, if_neg hfull, hnext, hk, List.take_succ_cons, List.map_cons, List.length_cons]
        simp only [hk', hlength, List.append_assoc, List.singleton_append]

/-- The rows that can be shown. -/
def shownRows (batches : List (Batch fmt.Value)) : List (Row fmt) :=
  (batches.filter formattable).flatMap batchRows

lemma batchLoop_eq (batches : List (Batch fmt.Value)) (hle : s.total ≤ max)
    (htruncated : s.truncated = false) :
    batchLoop max batches s =
      { s with
          rows := s.rows ++
            ((shownRows batches).take (max - s.total)).map fun row => row.map (cellToJson fmt)
          total := min max (s.total + (shownRows batches).length)
          truncated := decide (max < s.total + (shownRows batches).length) } := by
  induction batches generalizing s with
  | nil => exact congrArg Prod.fst (@rowLoop_eq fmt _ _ [] hle htruncated)
  | cons batch batches ih =>
      rw [batchLoop]
      by_cases hformattable : formattable batch = true
      · have hrows : shownRows (batch :: batches) = batchRows batch ++ shownRows batches := by
          rw [shownRows, List.filter_cons_of_pos hformattable, List.flatMap_cons, shownRows]
        rw [if_pos hformattable, rowLoop_eq (batchRows batch) hle htruncated, hrows,
          List.length_append, List.take_append]
        by_cases hmore : max < s.total + (batchRows batch).length
        · have hnone : max - s.total - (batchRows batch).length = 0 := by omega
          have hmore' : max < s.total + ((batchRows batch).length + (shownRows batches).length) := by
            omega
          have htotal : min max (s.total + (batchRows batch).length) =
              min max (s.total + ((batchRows batch).length + (shownRows batches).length)) := by
            omega
          simp only [hmore, hmore', htotal, hnone, decide_true, List.take_zero, List.append_nil]
        · have htotal : min max (s.total + (batchRows batch).length) =
              s.total + (batchRows batch).length := by
            omega
          have hnext := @ih { s with
            rows := s.rows ++ ((batchRows batch).take (max - s.total)).map fun row =>
              row.map (cellToJson fmt)
            total := s.total + (batchRows batch).length
            truncated := false } (by dsimp only; omega) rfl
          simp only [hmore, htotal, decide_false, hnext, List.map_append, List.append_assoc,
            Nat.add_assoc, Nat.sub_sub]
      · have hrows : shownRows (batch :: batches) = shownRows batches := by
          rw [shownRows, List.filter_cons_of_neg hformattable, shownRows]
        rw [if_neg hformattable, ih hle htruncated, hrows]

/-- **The formatter** shows the first rows, and a row too many is what it reports. -/
lemma formatBatches_eq (batches : List (Batch fmt.Value)) (max : ℕ) :
    formatBatches batches max =
      { columns := (formatBatches batches max).columns
        rows := ((shownRows batches).take max).map fun row => row.map (cellToJson fmt)
        total := min max (shownRows batches).length
        truncated := decide (max < (shownRows batches).length) } := by
  unfold formatBatches
  rw [batchLoop_eq batches (Nat.zero_le max) rfl]
  simp only [List.nil_append, Nat.sub_zero, Nat.zero_add]

end

/-! ## The tools -/

inductive ToolError
  | engine (message : String)
  | badArgs (message : String)
  deriving DecidableEq

/-- The engine behind the tools: what its texts mean, and the batches of an answer; the functions it
describes; and the semantic queries it reads and answers. -/
structure Service (fmt : Formatters) where
  engine : QueryEngine (Row fmt)
  batches : Answer (Row fmt) → List (Batch fmt.Value)
  refusal : String → String
  describe : String → String → Except String FunctionDef
  SemanticQuery : Type
  readSemantic : Json → Except String SemanticQuery
  semantic : SemanticQuery → Except String (ResultSet (Row fmt))

/-- `u64::MAX`. -/
def u64Max : ℕ := 2 ^ 64 - 1

/-- `n.saturating_add(1)`. -/
def saturatingSucc (n : ℕ) : ℕ := min (n + 1) u64Max

/-- The argument `max_rows`. -/
def maxRows (args : Json) : ℕ := ((args.get? "max_rows").bind Secrets.asU64?).getD 1000

namespace Service

variable (svc : Service fmt)

/-- `query_collect`. -/
def queryCollect (sql : String) : Except ToolError (List (Batch fmt.Value)) :=
  match svc.engine.meaning sql with
  | some answer => .ok (svc.batches answer)
  | none => .error (.engine (svc.refusal sql))

/-- `semantic_query_collect`. -/
def semanticQueryCollect (q : svc.SemanticQuery) : Except ToolError (List (Batch fmt.Value)) :=
  match svc.semantic q with
  | .ok t => .ok (svc.batches (.query t))
  | .error message => .error (.engine message)

/-- The argument `sql`. -/
def sqlArg (args : Json) : Except ToolError String :=
  match (args.get? "sql").bind Http.Json.asStr? with
  | some sql => .ok sql
  | none => .error (.badArgs "`sql` is required")

/-- `split_function_arg`. -/
def splitFunctionArg (args : Json) : Except ToolError (String × String) :=
  match (args.get? "function").bind Http.Json.asStr? with
  | none => .error (.badArgs "`function` is required")
  | some s =>
      match Text.splitOnce '.' s with
      | some (ns, name) =>
          if ns ≠ "" ∧ name ≠ "" then .ok (ns, name)
          else .error (.badArgs ("`function` must be `namespace.name`, got `" ++ s ++ "`"))
      | none => .error (.badArgs ("`function` must be `namespace.name`, got `" ++ s ++ "`"))

/-- The text of the call that `call_function` is asked for. -/
def functionCall (args : Json) : Except ToolError String := do
  let (ns, name) ← splitFunctionArg args
  let decl ← (svc.describe ns name).mapError .engine
  let callArgs ← (orderFunctionArgs decl ((args.get? "args").bind Http.OpenApi.asObject?)).mapError .badArgs
  return renderCallSql ns name callArgs

/-- The query that `semantic_query` is asked for. -/
def semanticArg (args : Json) : Except ToolError svc.SemanticQuery :=
  (svc.readSemantic args).mapError fun e => .badArgs ("invalid semantic query: " ++ e)

end Service

/-- The tools that reply with rows. -/
inductive RowTool
  | query
  | callFunction
  | semanticQuery

/-- The batches that a tool collects. -/
def collected (svc : Service fmt) (tool : RowTool) (args : Json) :
    Except ToolError (List (Batch fmt.Value)) :=
  match tool with
  | .query => do
      let sql ← Service.sqlArg args
      svc.queryCollect (rowBoundedSql sql (saturatingSucc (maxRows args)))
  | .callFunction => do
      let call ← svc.functionCall args
      svc.queryCollect (call ++ " LIMIT " ++ toString (maxRows args))
  | .semanticQuery => do
      let q ← svc.semanticArg args
      svc.semanticQueryCollect q

/-- The reply of a tool on a machine with pointers of some width. -/
def callRowTool (svc : Service fmt) (width : ℕ) (tool : RowTool) (args : Json) :
    Except ToolError Formatted :=
  (collected svc tool args).map fun batches => formatBatches batches (maxRows args % 2 ^ width)

/-! ## Right replies -/

/-- The result of what a tool is asked for, without a bound. -/
def unbounded (svc : Service fmt) (tool : RowTool) (args : Json) : Option (ResultSet (Row fmt)) :=
  match tool with
  | .query => (Service.sqlArg args).toOption.bind fun sql => (svc.engine.meaning sql).bind Answer.result
  | .callFunction =>
      (svc.functionCall args).toOption.bind fun call => (svc.engine.meaning call).bind Answer.result
  | .semanticQuery => (svc.semanticArg args).toOption.bind fun q => (svc.semantic q).toOption

/-- The first rows, their number, and whether there are more. -/
structure Right (max : ℕ) (result : List (Row fmt)) (reply : Formatted) : Prop where
  rows : reply.rows = (result.take max).map fun row => row.map (cellToJson fmt)
  total : reply.total = min max result.length
  truncated : reply.truncated = true ↔ max < result.length

/-- What is asked for and has a result gets the right reply. -/
def Reports (svc : Service fmt) (width : ℕ) (tool : RowTool) (args : Json) : Prop :=
  ∀ t, unbounded svc tool args = some t →
    ∃ reply, callRowTool svc width tool args = .ok reply ∧ Right (maxRows args) t.rows reply

/-- The row can be shown. -/
def shows (row : Row fmt) : Bool := row.all fun cell => fmt.knows cell.1

/-- The batches hold the rows of an answer, the rows of a result have the same types, and `LIMIT` behind a
call bounds its rows. -/
structure Service.Documented (svc : Service fmt) : Prop where
  engine : svc.engine.Documented
  rows : ∀ t, (svc.batches (.query t)).flatMap batchRows = t.rows
  typed : ∀ tool args t, unbounded svc tool args = some t → ∀ row ∈ t.rows, ∀ row' ∈ t.rows,
    row.map Sigma.fst = row'.map Sigma.fst
  limit : ∀ args call n, svc.functionCall args = .ok call →
    svc.engine.meaning (call ++ " LIMIT " ++ toString n) =
      if svc.engine.admitsLimit n then (svc.engine.meaning call).map (Answer.first n) else none

section

variable {svc : Service fmt} {width max m lim : ℕ} {T T' : List (Row fmt)}

/-- A row can be shown when its types are known. -/
lemma shows_eq (row : Row fmt) : shows row = (row.map Sigma.fst).all fmt.knows := by
  rw [shows, List.all_map]
  rfl

lemma shownRows_eq (batches : List (Batch fmt.Value)) :
    shownRows batches = (batches.flatMap batchRows).filter shows := by
  have hrow : ∀ batch : Batch fmt.Value, ∀ row ∈ batchRows batch, shows row = formattable batch := by
    intro batch row hrow
    obtain ⟨r, -, rfl⟩ := List.mem_map.mp hrow
    rw [shows, List.all_map]
    rfl
  induction batches with
  | nil => rfl
  | cons batch batches ih =>
      rw [List.flatMap_cons, List.filter_append, ← ih, shownRows, shownRows]
      cases hformattable : formattable batch with
      | true =>
          have hall : (batchRows batch).filter shows = batchRows batch :=
            List.filter_eq_self.mpr fun row h => (hrow batch row h).trans hformattable
          rw [List.filter_cons_of_pos hformattable, List.flatMap_cons, hall]
      | false =>
          have hnone : (batchRows batch).filter shows = [] := by
            refine List.filter_eq_nil_iff.mpr fun row h => ?_
            rw [hrow batch row h, hformattable]
            exact Bool.false_ne_true
          have hskip : ¬ formattable batch = true := by
            rw [hformattable]
            exact Bool.false_ne_true
          rw [List.filter_cons_of_neg hskip, hnone, List.nil_append]

/-- A formatter of some first rows, in some order, of a result is right when they can be shown, its
bound is the one asked for, there is one row more if there are any, and the first rows are the same. -/
lemma right_iff (hperm : T'.Perm T)
    (htyped : ∀ row ∈ T, ∀ row' ∈ T, row.map Sigma.fst = row'.map Sigma.fst) (hlim : max ≤ lim)
    (hm : m ≤ max) {batches : List (Batch fmt.Value)}
    (hbatches : batches.flatMap batchRows = T'.take lim) :
    Right max T (formatBatches batches m) ↔
      (∀ row ∈ T, shows row = true) ∧ (m = max ∨ T.length ≤ m) ∧ (max < lim ∨ T.length ≤ max) ∧
        (T'.take max).map (fun row => row.map (cellToJson fmt)) =
          (T.take max).map fun row => row.map (cellToJson fmt) := by
  have hlength := hperm.length_eq
  rw [formatBatches_eq, shownRows_eq, hbatches]
  by_cases hall : ∀ row ∈ T, shows row = true
  · have hfilter : (T'.take lim).filter shows = T'.take lim :=
      List.filter_eq_self.mpr fun row h => hall row (hperm.mem_iff.mp (List.mem_of_mem_take h))
    have htake : (T'.take lim).take m = T'.take m := by
      rw [List.take_take, min_eq_left (hm.trans hlim)]
    have hsame : m = max ∨ T.length ≤ m → T'.take m = T'.take max := by
      rintro (rfl | hle)
      · rfl
      · rw [List.take_of_length_le (by omega), List.take_of_length_le (by omega)]
    rw [and_iff_right hall, hfilter, htake, List.length_take, hlength]
    constructor
    · rintro ⟨hrows, htotal, htruncated⟩
      rw [decide_eq_true_eq] at htruncated
      dsimp only at htotal hrows
      have hm' : m = max ∨ T.length ≤ m := by omega
      exact ⟨hm', by omega, by rw [← hsame hm', hrows]⟩
    · rintro ⟨hm', hlim', hrows⟩
      refine ⟨by rw [← hrows, hsame hm'], ?_, ?_⟩
      · dsimp only
        omega
      · rw [decide_eq_true_eq]
        omega
  · have hnone : (T'.take lim).filter shows = [] := by
      push Not at hall
      obtain ⟨row, hrow, hnot⟩ := hall
      refine List.filter_eq_nil_iff.mpr fun row' h => ?_
      rw [shows_eq, htyped row' (hperm.mem_iff.mp (List.mem_of_mem_take h)) row hrow, ← shows_eq]
      exact hnot
    rw [hnone]
    refine iff_of_false (fun h => hall fun row hrow => ?_) fun h => hall h.1
    have hrows := h.rows
    have htruncated := h.truncated
    have hpos : 0 < T.length := List.length_pos_of_mem hrow
    rw [List.take_nil, List.map_nil, eq_comm, List.map_eq_nil_iff, List.take_eq_nil_iff] at hrows
    rcases hrows with hzero | hnil
    · simp at htruncated
      omega
    · rw [hnil] at hrow
      cases hrow

/-- What the reply of a tool depends on: the rows can be shown, the bound is kept as a pointer-sized
number, and the bounded query fetches the first rows and one more. -/
def CompleteReply (svc : Service fmt) (width : ℕ) (tool : RowTool) (args : Json) (rows : List (Row fmt)) :
    Prop :=
  (∀ row ∈ rows, shows row = true) ∧
    (maxRows args % 2 ^ width = maxRows args ∨ rows.length ≤ maxRows args % 2 ^ width) ∧
      match tool with
      | .query => ∀ sql, Service.sqlArg args = .ok sql → wraps sql = true →
          (maxRows args < u64Max ∨ rows.length ≤ maxRows args) ∧
            ∃ fetched, Fetches svc.engine sql (saturatingSucc (maxRows args)) fetched ∧
              (fetched.rows.take (maxRows args)).map (fun row => row.map (cellToJson fmt)) =
                (rows.take (maxRows args)).map fun row => row.map (cellToJson fmt)
      | .callFunction => svc.engine.admitsLimit (maxRows args) = true ∧ rows.length ≤ maxRows args
      | .semanticQuery => True

lemma maxRows_le (args : Json) : maxRows args ≤ u64Max := by
  unfold maxRows
  cases h : (args.get? "max_rows").bind Secrets.asU64? with
  | none =>
      unfold u64Max
      decide
  | some n =>
      obtain ⟨v, -, hv⟩ := Option.bind_eq_some_iff.mp h
      cases v with
      | num text =>
          rw [Secrets.asU64?, Text.parseUnsigned] at hv
          split_ifs at hv with hbound
          rw [Bool.and_eq_true, decide_eq_true_eq] at hbound
          obtain rfl := Option.some.inj hv
          exact hbound.2
      | null | bool | str | arr | obj => cases hv

lemma reply_iff {tool : RowTool} {args : Json} {batches : List (Batch fmt.Value)}
    (h : collected svc tool args = .ok batches) :
    (∃ reply, callRowTool svc width tool args = .ok reply ∧ Right (maxRows args) T reply) ↔
      Right (maxRows args) T (formatBatches batches (maxRows args % 2 ^ width)) := by
  rw [callRowTool, h]
  constructor
  · rintro ⟨reply, hreply, hright⟩
    cases hreply
    exact hright
  · exact fun hright => ⟨_, rfl, hright⟩

lemma no_reply {tool : RowTool} {args : Json} {e : ToolError}
    (h : collected svc tool args = .error e) :
    ¬ ∃ reply, callRowTool svc width tool args = .ok reply ∧ Right (maxRows args) T reply := by
  rintro ⟨reply, hreply, -⟩
  rw [callRowTool, h] at hreply
  cases hreply

/-- Without a bound the reply is right when the rows can be shown and the bound is kept. -/
lemma right_unbounded (hsvc : svc.Documented) {tool : RowTool} {args : Json}
    {t : ResultSet (Row fmt)} (ht : unbounded svc tool args = some t) :
    Right (maxRows args) t.rows
        (formatBatches (svc.batches (.query t)) (maxRows args % 2 ^ width)) ↔
      (∀ row ∈ t.rows, shows row = true) ∧
        (maxRows args % 2 ^ width = maxRows args ∨ t.rows.length ≤ maxRows args % 2 ^ width) := by
  have hall : t.rows.take (maxRows args + 1 + t.rows.length) = t.rows :=
    List.take_of_length_le (by omega)
  rw [right_iff (.refl _) (hsvc.typed tool args t ht) (by omega) (Nat.mod_le _ _)
    ((hsvc.rows t).trans hall.symm)]
  have hmore : maxRows args < maxRows args + 1 + t.rows.length := by omega
  simp only [hmore, true_or, and_true]

lemma ok_of_toOption {ε α : Type*} {x : Except ε α} {a : α} (h : x.toOption = some a) : x = .ok a := by
  cases x with
  | error e => cases h
  | ok b => exact congrArg Except.ok (Option.some.inj h)

lemma meaning_of_result {E : QueryEngine (Row fmt)} {sql : String} {t : ResultSet (Row fmt)}
    (h : (E.meaning sql).bind Answer.result = some t) : E.meaning sql = some (.query t) := by
  obtain ⟨a, ha, hresult⟩ := Option.bind_eq_some_iff.mp h
  cases a with
  | query t' =>
      obtain rfl := Option.some.inj hresult
      exact ha
  | other effect => cases hresult

lemma reports_semantic (hsvc : svc.Documented) {args : Json} {t : ResultSet (Row fmt)}
    (ht : unbounded svc .semanticQuery args = some t) :
    (∃ reply, callRowTool svc width .semanticQuery args = .ok reply ∧
        Right (maxRows args) t.rows reply) ↔
      CompleteReply svc width .semanticQuery args t.rows := by
  obtain ⟨q, hq, hsemantic⟩ := Option.bind_eq_some_iff.mp ht
  have hcollected : collected svc .semanticQuery args = .ok (svc.batches (.query t)) := by
    rw [collected, ok_of_toOption hq]
    change svc.semanticQueryCollect q = _
    rw [Service.semanticQueryCollect, ok_of_toOption hsemantic]
  rw [reply_iff hcollected, right_unbounded hsvc ht, CompleteReply, and_true]

lemma reports_call (hsvc : svc.Documented) {args : Json} {t : ResultSet (Row fmt)}
    (ht : unbounded svc .callFunction args = some t) :
    (∃ reply, callRowTool svc width .callFunction args = .ok reply ∧
        Right (maxRows args) t.rows reply) ↔
      CompleteReply svc width .callFunction args t.rows := by
  obtain ⟨call, hcall, hresult⟩ := Option.bind_eq_some_iff.mp ht
  have hlimit := hsvc.limit args call (maxRows args) (ok_of_toOption hcall)
  rw [meaning_of_result hresult] at hlimit
  by_cases hadmits : svc.engine.admitsLimit (maxRows args) = true
  · rw [if_pos hadmits] at hlimit
    have hcollected : collected svc .callFunction args =
        .ok (svc.batches (.query (t.first (maxRows args)))) := by
      rw [collected, ok_of_toOption hcall]
      change svc.queryCollect _ = _
      rw [Service.queryCollect, hlimit]
      rfl
    rw [reply_iff hcollected, right_iff (.refl _) (hsvc.typed _ args t ht) le_rfl (Nat.mod_le _ _)
      (hsvc.rows _), CompleteReply]
    simp only [lt_irrefl, false_or, and_true, hadmits, true_and]
  · rw [if_neg hadmits] at hlimit
    have hcollected : collected svc .callFunction args =
        .error (.engine (svc.refusal (call ++ " LIMIT " ++ toString (maxRows args)))) := by
      rw [collected, ok_of_toOption hcall]
      change svc.queryCollect _ = _
      rw [Service.queryCollect, hlimit]
    exact iff_of_false (no_reply hcollected) fun h => hadmits h.2.2.1

lemma Fetches.unique {E : QueryEngine (Row fmt)} {sql : String} {n : ℕ} {t t' : ResultSet (Row fmt)}
    (h : Fetches E sql n t) (h' : Fetches E sql n t') : t = t' := by
  obtain ⟨-, -, ts, hts, -, hstatement⟩ := h
  obtain ⟨-, -, ts', hts', -, hstatement'⟩ := h'
  obtain rfl := Option.some.inj (hts.symm.trans hts')
  exact Answer.query.inj (Option.some.inj (hstatement.symm.trans hstatement'))

lemma reports_query (hsvc : svc.Documented) {args : Json} {t : ResultSet (Row fmt)}
    (ht : unbounded svc .query args = some t) :
    (∃ reply, callRowTool svc width .query args = .ok reply ∧ Right (maxRows args) t.rows reply) ↔
      CompleteReply svc width .query args t.rows := by
  obtain ⟨sql, hsql, hresult⟩ := Option.bind_eq_some_iff.mp ht
  have hmeaning := meaning_of_result hresult
  have hcollected : collected svc .query args =
      svc.queryCollect (rowBoundedSql sql (saturatingSucc (maxRows args))) := by
    rw [collected, ok_of_toOption hsql]
    simp only [bind, Except.bind]
  have hcomplete : CompleteReply svc width .query args t.rows ↔
      (∀ row ∈ t.rows, shows row = true) ∧
        (maxRows args % 2 ^ width = maxRows args ∨ t.rows.length ≤ maxRows args % 2 ^ width) ∧
          (wraps sql = true → (maxRows args < u64Max ∨ t.rows.length ≤ maxRows args) ∧
            ∃ fetched, Fetches svc.engine sql (saturatingSucc (maxRows args)) fetched ∧
              (fetched.rows.take (maxRows args)).map (fun row => row.map (cellToJson fmt)) =
                (t.rows.take (maxRows args)).map fun row => row.map (cellToJson fmt)) := by
    constructor
    · exact fun h => ⟨h.1, h.2.1, h.2.2 sql (ok_of_toOption hsql)⟩
    · refine fun h => ⟨h.1, h.2.1, fun sql' hsql' => ?_⟩
      obtain rfl := Except.ok.inj ((ok_of_toOption hsql).symm.trans hsql')
      exact h.2.2
  rw [hcomplete]
  have hmax := maxRows_le args
  cases hwraps : wraps sql with
  | false =>
      rw [rowBoundedSql, hwraps, if_neg Bool.false_ne_true, Service.queryCollect, meaning_trimmed,
        hmeaning] at hcollected
      rw [reply_iff hcollected, right_unbounded hsvc ht]
      simp
  | true =>
      have hquery := (isQuery_iff_meaning hsvc.engine hwraps).mpr hmeaning
      have hbounded := fun b => @meaning_eq_query_iff _ svc.engine sql
        (saturatingSucc (maxRows args)) hsvc.engine hwraps t b hquery
      rw [Service.queryCollect] at hcollected
      by_cases hfetches : ∃ t', Fetches svc.engine sql (saturatingSucc (maxRows args)) t'
      · obtain ⟨t', ht'⟩ := hfetches
        rw [(hbounded _).mpr ⟨t', ht', rfl⟩] at hcollected
        have hlim : maxRows args < saturatingSucc (maxRows args) ↔ maxRows args < u64Max := by
          unfold saturatingSucc
          omega
        have hle : maxRows args ≤ saturatingSucc (maxRows args) := by
          unfold saturatingSucc
          omega
        rw [reply_iff hcollected, right_iff (ht'.rows hsvc.engine hquery).2 (hsvc.typed _ args t ht)
          hle (Nat.mod_le _ _) (hsvc.rows _), hlim]
        have hsame : (∃ fetched, Fetches svc.engine sql (saturatingSucc (maxRows args)) fetched ∧
            (fetched.rows.take (maxRows args)).map (fun row => row.map (cellToJson fmt)) =
              (t.rows.take (maxRows args)).map fun row => row.map (cellToJson fmt)) ↔
            (t'.rows.take (maxRows args)).map (fun row => row.map (cellToJson fmt)) =
              (t.rows.take (maxRows args)).map fun row => row.map (cellToJson fmt) := by
          constructor
          · rintro ⟨fetched, h, hrows⟩
            exact h.unique ht' ▸ hrows
          · exact fun hrows => ⟨t', ht', hrows⟩
        rw [hsame]
        simp
      · have hrefused : ∃ e, collected svc .query args = .error e := by
          cases hanswer : svc.engine.meaning (rowBoundedSql sql (saturatingSucc (maxRows args))) with
          | none =>
              rw [hanswer] at hcollected
              exact ⟨_, hcollected⟩
          | some answer =>
              obtain ⟨ts, -, hts, -⟩ := isQuery_trimmed.mpr hquery
              cases answer with
              | query b =>
                  obtain ⟨t', ht', -⟩ := (hbounded b).mp hanswer
                  exact absurd ⟨t', ht'⟩ hfetches
              | other effect => exact absurd hanswer (meaning_ne_other hsvc.engine hwraps hts effect)
        obtain ⟨e, he⟩ := hrefused
        refine iff_of_false (no_reply he) fun h => hfetches ?_
        obtain ⟨-, -, h⟩ := h
        obtain ⟨-, fetched, h, -⟩ := h rfl
        exact ⟨fetched, h⟩

end

/-! ## A service with one table -/

/-- Texts are displayed as they are, and there are no floats. -/
def textFormatters : Formatters where
  F32 := Empty
  F64 := Empty
  Other := fun _ => String
  widen := id
  fromF64 := Empty.elim
  displayFloat := Empty.elim
  displayOther := fun _ s => s
  knows := fun _ => true

/-- A batch of one row. -/
def rowBatch {fmt : Formatters} (row : Row fmt) : Batch fmt.Value where
  schema := row.map fun cell => ⟨"login", cell.1⟩
  columns := row.map fun cell => ⟨cell.1, [cell.2]⟩
  numRows := 1
  types := by simp [Function.comp_def]
  lengths := by
    intro c hc
    obtain ⟨cell, -, rfl⟩ := List.mem_map.mp hc
    rfl

lemma batchRows_rowBatch {fmt : Formatters} (row : Row fmt) : batchRows (rowBatch row) = [row] := by
  have hone : List.range 1 = [0] := rfl
  rw [batchRows, rowBatch, hone]
  simp [Function.comp_def]

def loginRow (s : String) : Row textFormatters := [⟨.other "Utf8", some s⟩]

def loginRows : List (Row textFormatters) := ["ada", "bob", "cyd"].map loginRow

/-- `github.logins()`. -/
def loginsFunction : FunctionDef where
  ns := "github"
  name := "logins"
  kind := .http

/-- A table of three logins, a function of them, and a semantic query for them. -/
def loginService : Service textFormatters where
  engine := tableEngine loginRows
  batches := fun
    | .query t => t.rows.map rowBatch
    | .other _ => []
  refusal := fun sql => "cannot plan " ++ sql
  describe := fun ns name =>
    if ns = "github" ∧ name = "logins" then .ok loginsFunction else .error "no such function"
  SemanticQuery := Unit
  readSemantic := fun _ => .ok ()
  semantic := fun _ => .ok ⟨["login"], loginRows⟩

lemma mem_boundedRows {Row : Type*} {table : List Row} {ts : List Sql.Token} {row : Row}
    (h : row ∈ boundedRows table ts) : row ∈ table := by
  have hfoldl : ∀ (bounds : List ℕ) (rows : List Row),
      row ∈ bounds.foldl (fun rows n => rows.take n) rows → row ∈ rows := by
    intro bounds
    induction bounds with
    | nil => exact fun rows h => h
    | cons n bounds ih => exact fun rows h => List.mem_of_mem_take (ih (rows.take n) h)
  exact hfoldl _ _ h

/-- What a text gives are rows of the table. -/
lemma mem_table {Row : Type*} {table : List Row} {sql : String} {t : ResultSet Row}
    (h : (tableEngine table).meaning sql = some (.query t)) : ∀ row ∈ t.rows, row ∈ table := by
  obtain ⟨ts, -, hrun⟩ := Option.bind_eq_some_iff.mp h
  rw [QueryEngine.run] at hrun
  split at hrun
  · obtain ⟨-, hquery⟩ := tableEngine_eq_some.mp hrun
    obtain rfl := Answer.query.inj hquery
    exact fun row => mem_boundedRows
  · cases hrun

/-- The only call there is. -/
def loginsCall : String := "SELECT * FROM github.logins()"

lemma functionCall_eq {args : Json} {call : String} (h : loginService.functionCall args = .ok call) :
    call = loginsCall := by
  unfold Service.functionCall at h
  cases hsplit : Service.splitFunctionArg args with
  | error e =>
      rw [hsplit] at h
      cases h
  | ok pair =>
      obtain ⟨ns, name⟩ := pair
      rw [hsplit] at h
      by_cases hname : ns = "github" ∧ name = "logins"
      · obtain ⟨rfl, rfl⟩ := hname
        exact (Except.ok.inj h).symm
      · have hdescribe : loginService.describe ns name = .error "no such function" := if_neg hname
        simp only [bind, Except.bind, hdescribe, Except.mapError] at h
        cases h

/-- The tokens of the call. -/
def loginsTokens : List Sql.Token :=
  [.word "SELECT".toList, .symbol '*', .word "FROM".toList, .word "github".toList, .symbol '.',
    .word "logins".toList, .symbol '(', .symbol ')']

/-- The call with a limit behind it. -/
lemma meaning_limit {Row : Type*} (table : List Row) (n : ℕ) :
    (tableEngine table).meaning (loginsCall ++ " LIMIT " ++ toString n) =
      if isLimit n then some (.query ⟨["login"], table.take n⟩) else none := by
  have hcall : Sql.Spells loginsCall loginsTokens := ⟨by decide, by decide⟩
  have hlimit : Sql.Spells (" LIMIT " ++ toString n) (limitTokens n) :=
    (Sql.spells_toString n).after (by decide : Sql.Scans " LIMIT " [.word "LIMIT".toList])
  have hdelim : Sql.opensDelimited (" LIMIT " ++ toString n) = true := by
    have hhead : " LIMIT ".toList = ' ' :: "LIMIT ".toList := by decide
    rw [Sql.opensDelimited, String.toList_append, hhead]
    rfl
  have hlex := (hcall.append hlimit hdelim).lex_eq
  have hnot : Sql.semicolon ∉ loginsTokens ++ limitTokens n := by
    simp [loginsTokens, limitTokens, Sql.semicolon]
  have hbounds : boundsFrom false (loginsTokens ++ limitTokens n) = [n] := by
    have hdigits : boundsFrom false (loginsTokens ++ limitTokens n) =
        [Text.digitsVal (toString n).toList] := rfl
    rw [hdigits, Text.digitsVal_toString]
  have haccepted : Accepted (loginsTokens ++ limitTokens n) ↔ isLimit n = true := by
    refine ⟨fun h => ?_, fun h => ⟨rfl, ?_, ?_⟩⟩
    · have hlimits := h.limits
      rw [hbounds] at hlimits
      simpa using hlimits
    · simp [loginsTokens, limitTokens]
    · rw [hbounds]
      simpa using h
  rw [String.append_assoc, QueryEngine.meaning, hlex, Option.bind_some,
    run_of_notMem hnot (by simp [loginsTokens])]
  change (if Accepted _ then some (Answer.query ⟨_, boundedRows table _⟩) else none) = _
  rw [boundedRows, hbounds]
  exact if_congr haccepted rfl rfl

lemma meaning_call {Row : Type*} (table : List Row) :
    (tableEngine table).meaning loginsCall = some (.query ⟨["login"], table⟩) := by
  have hlex : Sql.lex loginsCall = some loginsTokens := by decide
  rw [QueryEngine.meaning, hlex, Option.bind_some, run_of_notMem (by decide) (by decide)]
  exact tableEngine_eq_some.mpr ⟨by decide, rfl⟩

lemma loginService_documented : loginService.Documented where
  engine := tableEngine_documented _
  rows := by
    intro t
    change (t.rows.map rowBatch).flatMap batchRows = t.rows
    rw [List.flatMap_map]
    simp only [batchRows_rowBatch, List.flatMap_singleton']
  typed := by
    intro tool args t ht
    have hmem : ∀ row ∈ t.rows, row ∈ loginRows := by
      cases tool with
      | query =>
          obtain ⟨sql, -, hresult⟩ := Option.bind_eq_some_iff.mp ht
          exact mem_table (meaning_of_result hresult)
      | callFunction =>
          obtain ⟨call, -, hresult⟩ := Option.bind_eq_some_iff.mp ht
          exact mem_table (meaning_of_result hresult)
      | semanticQuery =>
          obtain rfl := Option.some.inj ht
          exact fun row h => h
    have htype : ∀ row ∈ t.rows, row.map Sigma.fst = [DataType.other "Utf8"] := by
      intro row hrow
      obtain ⟨s, -, rfl⟩ := List.mem_map.mp (hmem row hrow)
      rfl
    exact fun row hrow row' hrow' => (htype row hrow).trans (htype row' hrow').symm
  limit := by
    intro args call n hcall
    obtain rfl := functionCall_eq hcall
    change (tableEngine loginRows).meaning _ = if isLimit n then
      ((tableEngine loginRows).meaning loginsCall).map (Answer.first n) else none
    rw [meaning_limit, meaning_call]
    rfl

/-- Two rows of a query. -/
def twoUsers : Json := .obj [("max_rows", .num "2"), ("sql", .str "SELECT login FROM users")]

/-- Two rows of a call. -/
def twoLogins : Json := .obj [("function", .str "github.logins"), ("max_rows", .num "2")]

/-- As many rows of a query as can be asked for. -/
def allUsers : Json :=
  .obj [("max_rows", .num "18446744073709551615"), ("sql", .str "SELECT login FROM users")]

lemma lex_users : Sql.lex "SELECT login FROM users" = some loginTokens := by decide

lemma unbounded_users {args : Json} (h : Service.sqlArg args = .ok "SELECT login FROM users") :
    unbounded loginService .query args = some ⟨["login"], loginRows⟩ := by
  have hmeaning : loginService.engine.meaning "SELECT login FROM users" =
      some (.query ⟨["login"], loginRows⟩) := by
    rw [QueryEngine.meaning, lex_users, Option.bind_some, run_of_notMem (by decide) (by decide)]
    exact tableEngine_eq_some.mpr ⟨by decide, rfl⟩
  rw [unbounded, h]
  change (loginService.engine.meaning "SELECT login FROM users").bind Answer.result = _
  rw [hmeaning]
  rfl

end Mcp
end Pawrly
