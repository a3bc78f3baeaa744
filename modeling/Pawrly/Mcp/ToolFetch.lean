import Pawrly.Mcp.ToolTable

/-!
# Calling a tool page by page

`McpToolTableProvider::fetch`: the tool is called with the arguments of the table, the bound ones and
the limit, and again with the cursor of each page until there is none.  From a tool that serves a
finite collection so, `fetch_complete_iff` says when the collection comes back whole, or its first
rows up to the limit, and every bound argument is sent as it is bound.
-/

namespace Pawrly
namespace Mcp

open Http (Json)

/-- The arguments of a call. -/
abbrev Args := OrderedMap String Json

/-- `McpError`. -/
inductive McpError
  | transport (message : String)
  | rpc (code : ℤ) (message : String)
  | protocol (message : String)
  deriving DecidableEq

/-! ## Calls and results -/

/-- `tool_error_text`. -/
def toolErrorText (result : Json) : String :=
  ((((result.get? "content").bind Json.asArray?).bind List.head?).bind fun item =>
    (item.get? "text").bind Json.asStr?).getD "tool returned an error"

/-- `call_tool`.  `request` sends the call to the server. -/
def callTool (request : String → Args → Except McpError Json) (name : String) (args : Args) :
    Except McpError Json := do
  let result ← request name args
  if (result.get? "isError").bind Json.asBool? = some true then
    .error (.rpc 0 (toolErrorText result))
  else .ok result

/-- `structured_result`: the structured content, or else the text of the result, as JSON if a lone
block of text is JSON.  `parse` is the JSON parser. -/
def structuredResult (parse : String → Option Json) (result : Json) : Json :=
  match result.get? "structuredContent" with
  | some structured => structured
  | none =>
      match (result.get? "content").bind Json.asArray? with
      | none => .null
      | some items =>
          let texts := (items.filter fun i => (i.get? "type").bind Json.asStr? = some "text").filterMap
            fun i => (i.get? "text").bind Json.asStr?
          match texts with
          | [only] => (parse only).getD (.str only)
          | [] => (result.get? "content").getD .null
          | many => .str (Text.join "\n" many)

/-- The one field of an object that is an array. -/
def onlyArray (fields : List (String × Json)) : Option (List Json) :=
  match fields.filterMap fun e => e.2.asArray? with
  | [items] => some items
  | _ => none

/-- `rows_from`: an array is the rows, and so is the one array in an object; any other value is a
row. -/
def rowsFrom (structured : Json) (path : List String) : List Json :=
  match Http.walk path structured with
  | none => []
  | some (.arr rows) => rows
  | some (.obj fields) => (onlyArray fields).getD [.obj fields]
  | some .null => []
  | some other => [other]

/-- The cursor of the next page. -/
def nextCursor (p : Pagination) (result : Json) : Option String :=
  ((Http.walk p.responseCursorPath result).bind Json.asStr?).filter fun s => s ≠ ""

/-! ## Arguments -/

/-- The number of rows that is asked for. -/
def LimitBinding.capped (b : LimitBinding) (limit : ℕ) : ℕ :=
  match b.max with
  | some m => min limit m
  | none => limit

section

variable (spec : McpTableSpec) (bound : Args) (limit : Option ℕ)

def bindArg (m : Args) (a : Arg) : Args :=
  match bound.get? a.name with
  | some v => m.insert a.wireName v
  | none => m

/-- The bound arguments under the names of the tool. -/
def bindArgs (args : List Arg) (m : Args) : Args := args.foldl (bindArg bound) m

/-- The arguments of the first call. -/
def McpTableSpec.baseArgs : Args :=
  let base := bindArgs bound spec.args spec.toolArgs
  match spec.limitBinding, limit with
  | some b, some l => base.insert b.toolArg (.num (toString (b.capped l)))
  | _, _ => base

end

/-- The arguments of the call for a page. -/
def pageArgs (pagination : Option Pagination) (base : Args) (cursor : Option String) : Args :=
  match pagination, cursor with
  | some p, some c => base.insert p.cursorArg (.str c)
  | _, _ => base

/-! ## The loop -/

/-- The limit is reached. -/
def reached (limit : Option ℕ) (rows : List Json) : Bool := limit.any fun l => l ≤ rows.length

def applyLimit (limit : Option ℕ) (rows : List Json) : List Json :=
  match limit with
  | some l => rows.take l
  | none => rows

/-- What a fetch returns, and the calls it makes. -/
structure Fetched where
  calls : List Args
  result : Except McpError (List Json)

section

variable (pagination : Option Pagination) (call : Args → Except McpError Json)
  (pageRows : Json → List Json) (base : Args) (limit : Option ℕ)

/-- The loop of `fetch`, with the pages that may still be read. -/
def fetchLoop : ℕ → Option String → List Json → Fetched
  | 0, _, rows => ⟨[], .ok rows⟩
  | left + 1, cursor, rows =>
      let args := pageArgs pagination base cursor
      match call args with
      | .error e => ⟨[args], .error e⟩
      | .ok result =>
          let rows := rows ++ pageRows result
          if reached limit rows then ⟨[args], .ok rows⟩
          else
            match pagination.bind fun p => nextCursor p result with
            | some next =>
                let rest := fetchLoop left (some next) rows
                ⟨args :: rest.calls, rest.result⟩
            | none => ⟨[args], .ok rows⟩

end

def defaultMaxPages : ℕ := 50

section

variable (request : String → Args → Except McpError Json) (parse : String → Option Json)

/-- The rows of a page. -/
def McpTableSpec.pageRows (spec : McpTableSpec) (result : Json) : List Json :=
  rowsFrom (structuredResult parse result) spec.rowsPath

/-- `fetch`. -/
def McpTableSpec.fetch (spec : McpTableSpec) (maxPages : Option ℕ) (bound : Args)
    (limit : Option ℕ) : Fetched :=
  let run := fetchLoop spec.pagination (callTool request spec.tool) (spec.pageRows parse)
    (spec.baseArgs bound limit) limit (maxPages.getD defaultMaxPages) none []
  ⟨run.calls, run.result.map (applyLimit limit)⟩

end

/-! ## Tools that serve a collection -/

/-- How the pages of a collection end: there is no cursor, a call fails, or the arguments of a call
are those of an earlier one. -/
inductive Ending
  | done
  | fails
  | repeats
  deriving DecidableEq

/-- The tool serves the pages one after the other: called with the arguments it answers the first of
them, and with the cursor that a page has, the one after it.  `seen` are the arguments of the pages
before. -/
inductive Serves (call : Args → Except McpError Json) (p : Pagination) (base : Args) :
    List Args → Args → List Json → Ending → Prop
  | repeats {seen args} (hseen : args ∈ seen) : Serves call p base seen args [] .repeats
  | fails {seen args e} (hnew : args ∉ seen) (hcall : call args = .error e) :
      Serves call p base seen args [] .fails
  | last {seen args page} (hnew : args ∉ seen) (hcall : call args = .ok page)
      (hcursor : nextCursor p page = none) : Serves call p base seen args [page] .done
  | more {seen args page c pages ending} (hnew : args ∉ seen) (hcall : call args = .ok page)
      (hcursor : nextCursor p page = some c)
      (hrest : Serves call p base (args :: seen) (base.insert p.cursorArg (.str c)) pages ending) :
      Serves call p base seen args (page :: pages) ending

section

variable (call : Args → Except McpError Json) (p : Pagination) (pageRows : Json → List Json)
  (limit : Option ℕ)

/-- The fetch returns the rows of all pages, or the first ones up to the limit; it stops there or
where there is no cursor; no call is made twice. -/
structure Whole (pages : List Json) (run : Fetched) : Prop where
  rows : ∀ rows, run.result = .ok rows → rows = applyLimit limit (pages.flatMap pageRows)
  settled : ∀ rows, run.result = .ok rows → reached limit rows = true ∨
    ∃ args page, run.calls.getLast? = some args ∧ call args = .ok page ∧ nextCursor p page = none
  once : run.calls.Nodup

/-- Every bound argument is sent with its value in every call. -/
def Sent (spec : McpTableSpec) (bound : Args) (run : Fetched) : Prop :=
  ∀ args ∈ run.calls, ∀ a ∈ spec.args, ∀ v, bound.get? a.name = some v →
    args.get? a.wireName = some v

/-- So many pages are enough after the rows read before: the limit is reached within them, or they
are all, or the call after them fails. -/
def EnoughPages (n : ℕ) (rows pages : List Json) (ending : Ending) : Prop :=
  (∃ k, k ≤ n ∧ k ≤ pages.length ∧
      reached limit (rows ++ (pages.take k).flatMap pageRows) = true) ∨
    (ending = .done ∧ pages.length ≤ n) ∨ (ending = .fails ∧ pages.length < n)

end

/-! ## The run of the loop -/

section

variable {call : Args → Except McpError Json} {p : Pagination} {pageRows : Json → List Json}
  {base : Args} {limit : Option ℕ}

lemma reached_append {rows rows' : List Json} (h : reached limit rows = true) :
    reached limit (rows ++ rows') = true := by
  cases limit with
  | none => cases h
  | some l =>
      simp only [reached, Option.any_some, decide_eq_true_eq, List.length_append] at h ⊢
      omega

lemma applyLimit_append {rows : List Json} (rows' : List Json) (h : reached limit rows = true) :
    applyLimit limit rows = applyLimit limit (rows ++ rows') := by
  cases limit with
  | none => cases h
  | some l =>
      simp only [reached, Option.any_some, decide_eq_true_eq] at h
      exact (List.take_append_of_le_length h).symm

lemma reached_applyLimit {rows : List Json} :
    reached limit (applyLimit limit rows) = reached limit rows := by
  cases limit with
  | none => rfl
  | some l =>
      simp only [reached, applyLimit, Option.any_some, List.length_take, decide_eq_decide]
      omega

/-- A run that read on after the first page is that page and the rest of the run. -/
lemma fetchLoop_more {n : ℕ} {cursor : Option String} {rows : List Json} {page : Json} {c : String}
    (hcall : call (pageArgs (some p) base cursor) = .ok page) (hcursor : nextCursor p page = some c)
    (hreached : reached limit (rows ++ pageRows page) = false) :
    fetchLoop (some p) call pageRows base limit (n + 1) cursor rows =
      ⟨pageArgs (some p) base cursor ::
          (fetchLoop (some p) call pageRows base limit n (some c) (rows ++ pageRows page)).calls,
        (fetchLoop (some p) call pageRows base limit n (some c) (rows ++ pageRows page)).result⟩ := by
  rw [fetchLoop]
  simp only [hcall, hreached, Option.bind_some, hcursor]
  rfl

/-- A run that ended after its first page. -/
lemma fetchLoop_last {n : ℕ} {cursor : Option String} {rows : List Json} {page : Json}
    (hcall : call (pageArgs (some p) base cursor) = .ok page)
    (hstop : reached limit (rows ++ pageRows page) = true ∨ nextCursor p page = none) :
    fetchLoop (some p) call pageRows base limit (n + 1) cursor rows =
      ⟨[pageArgs (some p) base cursor], .ok (rows ++ pageRows page)⟩ := by
  rw [fetchLoop]
  simp only [hcall]
  by_cases hreached : reached limit (rows ++ pageRows page) = true
  · rw [if_pos hreached]
  · rw [if_neg hreached, Option.bind_some, hstop.resolve_left hreached]

lemma fetchLoop_fails {n : ℕ} {cursor : Option String} {rows : List Json} {e : McpError}
    (hcall : call (pageArgs (some p) base cursor) = .error e) :
    fetchLoop (some p) call pageRows base limit (n + 1) cursor rows =
      ⟨[pageArgs (some p) base cursor], .error e⟩ := by
  rw [fetchLoop]
  simp only [hcall]

/-- What a run that starts with some rows has read of the pages. -/
structure ReadsTo (call : Args → Except McpError Json) (p : Pagination)
    (pageRows : Json → List Json) (limit : Option ℕ) (seen : List Args) (rows pages : List Json)
    (run : Fetched) : Prop where
  rows : ∀ rows', run.result = .ok rows' →
    applyLimit limit rows' = applyLimit limit (rows ++ pages.flatMap pageRows)
  settled : ∀ rows', run.result = .ok rows' → reached limit rows' = true ∨
    ∃ args page, run.calls.getLast? = some args ∧ call args = .ok page ∧ nextCursor p page = none
  once : run.calls.Nodup
  fresh : ∀ args ∈ run.calls, args ∉ seen

lemma readsTo_nil {seen : List Args} {rows pages : List Json} (h : reached limit rows = true) :
    ReadsTo call p pageRows limit seen rows pages ⟨[], .ok rows⟩ where
  rows := by
    rintro rows' ⟨⟩
    exact applyLimit_append _ h
  settled := by
    rintro rows' ⟨⟩
    exact .inl h
  once := List.nodup_nil
  fresh := fun _ hargs => absurd hargs List.not_mem_nil

/-- Pages of which none is allowed are enough only where the limit is reached. -/
lemma EnoughPages.reached_of_zero {rows pages : List Json} {ending : Ending}
    (h : EnoughPages pageRows limit 0 rows pages ending) (hpages : ending = .done → pages ≠ []) :
    reached limit rows = true := by
  rcases h with ⟨k, hk, -, hreached⟩ | ⟨hend, hle⟩ | ⟨-, hlt⟩
  · obtain rfl := Nat.le_zero.mp hk
    simpa using hreached
  · exact absurd (List.length_eq_zero_iff.mp (Nat.le_zero.mp hle)) (hpages hend)
  · cases hlt

/-- With enough pages allowed a run reads what it should, by induction on the pages. -/
lemma fetchLoop_readsTo {seen : List Args} {args : Args} {pages : List Json} {ending : Ending}
    (h : Serves call p base seen args pages ending) {n : ℕ} {cursor : Option String}
    {rows : List Json} (hargs : args = pageArgs (some p) base cursor)
    (hfirst : reached limit rows = true → seen = [])
    (henough : EnoughPages pageRows limit n rows pages ending) :
    ReadsTo call p pageRows limit seen rows pages
      (fetchLoop (some p) call pageRows base limit n cursor rows) := by
  induction h generalizing n cursor rows with
  | @repeats seen args hseen =>
      rcases henough with ⟨k, -, hk, hreached⟩ | ⟨hend, -⟩ | ⟨hend, -⟩
      · rw [List.take_nil, List.flatMap_nil, List.append_nil] at hreached
        rw [hfirst hreached] at hseen
        cases hseen
      · cases hend
      · cases hend
  | @fails seen args e hnew hcall =>
      cases n with
      | zero => exact readsTo_nil (henough.reached_of_zero nofun)
      | succ n =>
          subst hargs
          rw [fetchLoop_fails hcall]
          refine ⟨nofun, nofun, List.nodup_singleton _, fun a ha => ?_⟩
          rwa [List.mem_singleton.mp ha]
  | @last seen args page hnew hcall hcursor =>
      cases n with
      | zero => exact readsTo_nil (henough.reached_of_zero fun _ => List.cons_ne_nil _ _)
      | succ n =>
          subst hargs
          rw [fetchLoop_last hcall (.inr hcursor)]
          refine ⟨?_, fun rows' _ => .inr ⟨_, page, rfl, hcall, hcursor⟩, List.nodup_singleton _,
            fun a ha => ?_⟩
          · rintro rows' ⟨⟩
            rw [List.flatMap_singleton]
          · rwa [List.mem_singleton.mp ha]
  | @more seen args page c pages ending hnew hcall hcursor hrest ih =>
      cases n with
      | zero => exact readsTo_nil (henough.reached_of_zero fun _ => List.cons_ne_nil _ _)
      | succ n =>
          subst hargs
          cases hreached : reached limit (rows ++ pageRows page) with
          | true =>
              rw [fetchLoop_last hcall (.inl hreached)]
              refine ⟨?_, ?_, List.nodup_singleton _, fun a ha => ?_⟩
              · rintro rows' ⟨⟩
                rw [List.flatMap_cons, ← List.append_assoc]
                exact applyLimit_append _ hreached
              · rintro rows' ⟨⟩
                exact .inl hreached
              · rwa [List.mem_singleton.mp ha]
          | false =>
              rw [fetchLoop_more hcall hcursor hreached]
              have hrows : reached limit rows = false := by
                rw [← Bool.not_eq_true]
                intro htrue
                rw [reached_append htrue] at hreached
                cases hreached
              have henough' : EnoughPages pageRows limit n (rows ++ pageRows page) pages ending := by
                rcases henough with ⟨k, hk, hlen, hk'⟩ | ⟨hend, hle⟩ | ⟨hend, hlt⟩
                · cases k with
                  | zero =>
                      rw [List.take_zero, List.flatMap_nil, List.append_nil, hrows] at hk'
                      cases hk'
                  | succ k =>
                      rw [List.take_succ_cons, List.flatMap_cons, ← List.append_assoc] at hk'
                      exact .inl ⟨k, Nat.le_of_succ_le_succ hk, Nat.le_of_succ_le_succ hlen, hk'⟩
                · exact .inr (.inl ⟨hend, Nat.le_of_succ_le_succ hle⟩)
                · exact .inr (.inr ⟨hend, Nat.lt_of_succ_lt_succ hlt⟩)
              have hread : ReadsTo call p pageRows limit (pageArgs (some p) base cursor :: seen)
                  (rows ++ pageRows page) pages (fetchLoop (some p) call pageRows base limit n
                    (some c) (rows ++ pageRows page)) :=
                ih rfl (fun htrue => by rw [hreached] at htrue; cases htrue) henough'
              refine ⟨fun rows' hrows' => ?_, fun rows' hrows' => ?_, ?_, fun a ha => ?_⟩
              · rw [hread.rows rows' hrows', List.flatMap_cons, List.append_assoc]
              · refine (hread.settled rows' hrows').imp_right ?_
                rintro ⟨last, page', hlast, hcall', hnone⟩
                exact ⟨last, page', by rw [List.getLast?_cons, hlast]; rfl, hcall', hnone⟩
              · exact List.nodup_cons.mpr
                  ⟨fun hmem => hread.fresh _ hmem List.mem_cons_self, hread.once⟩
              · rcases List.mem_cons.mp ha with rfl | ha
                · exact hnew
                · exact fun hmem => hread.fresh a ha (List.mem_cons_of_mem _ hmem)

/-- A run that makes no call has reached the limit before. -/
lemma enoughPages_of_settled {call' : Args → Except McpError Json} {rows pages : List Json}
    {ending : Ending}
    (h : ∀ rows', (⟨[], .ok rows⟩ : Fetched).result = .ok rows' → reached limit rows' = true ∨
      ∃ args page, (⟨[], .ok rows⟩ : Fetched).calls.getLast? = some args ∧
        call' args = .ok page ∧ nextCursor p page = none) :
    EnoughPages pageRows limit 0 rows pages ending := by
  rcases h rows rfl with hreached | ⟨last, page, hlast, -⟩
  · exact .inl ⟨0, Nat.le_refl 0, Nat.zero_le _, by simpa using hreached⟩
  · cases hlast

/-- Conversely a run that stops only at the limit or where there is no cursor, and makes no call
twice, was allowed enough pages. -/
lemma enoughPages_of_readsTo {seen : List Args} {args : Args} {pages : List Json} {ending : Ending}
    (h : Serves call p base seen args pages ending) {n : ℕ} {cursor : Option String}
    {rows : List Json} (hargs : args = pageArgs (some p) base cursor)
    (hread : ReadsTo call p pageRows limit seen rows pages
      (fetchLoop (some p) call pageRows base limit n cursor rows)) :
    EnoughPages pageRows limit n rows pages ending := by
  induction h generalizing n cursor rows with
  | @repeats seen args hseen =>
      cases n with
      | zero => exact enoughPages_of_settled hread.settled
      | succ n =>
          subst hargs
          refine absurd hseen (hread.fresh _ ?_)
          rw [fetchLoop]
          dsimp only
          split
          · exact List.mem_singleton_self _
          · split_ifs
            · exact List.mem_singleton_self _
            · split <;> exact List.mem_cons_self
  | @fails seen args e hnew hcall =>
      cases n with
      | zero => exact enoughPages_of_settled hread.settled
      | succ n => exact .inr (.inr ⟨rfl, Nat.succ_pos n⟩)
  | @last seen args page hnew hcall hcursor =>
      cases n with
      | zero => exact enoughPages_of_settled hread.settled
      | succ n => exact .inr (.inl ⟨rfl, Nat.succ_le_succ (Nat.zero_le n)⟩)
  | @more seen args page c pages ending hnew hcall hcursor hrest ih =>
      cases n with
      | zero => exact enoughPages_of_settled hread.settled
      | succ n =>
          subst hargs
          cases hreached : reached limit (rows ++ pageRows page) with
          | true =>
              refine .inl ⟨1, Nat.succ_le_succ (Nat.zero_le n), Nat.succ_le_succ (Nat.zero_le _), ?_⟩
              simpa using hreached
          | false =>
              rw [fetchLoop_more hcall hcursor hreached] at hread
              obtain ⟨hnotMem, honce⟩ := List.nodup_cons.mp hread.once
              have hread' : ReadsTo call p pageRows limit (pageArgs (some p) base cursor :: seen)
                  (rows ++ pageRows page) pages (fetchLoop (some p) call pageRows base limit n
                    (some c) (rows ++ pageRows page)) := by
                refine ⟨fun rows' hrows' => ?_, fun rows' hrows' => ?_, honce, fun a ha hmem => ?_⟩
                · rw [hread.rows rows' hrows', List.flatMap_cons, List.append_assoc]
                · refine (hread.settled rows' hrows').imp_right ?_
                  rintro ⟨last, page', hlast, hcall', hnone⟩
                  rw [List.getLast?_cons] at hlast
                  cases hcalls : (fetchLoop (some p) call pageRows base limit n (some c)
                      (rows ++ pageRows page)).calls.getLast? with
                  | some last' =>
                      rw [hcalls] at hlast
                      exact ⟨last', page', rfl, by rw [← hcall', ← Option.some.inj hlast]; rfl,
                        hnone⟩
                  | none =>
                      -- the last call would be this one, whose page has a cursor
                      rw [hcalls] at hlast
                      obtain rfl := Option.some.inj hlast
                      obtain rfl := Except.ok.inj (hcall.symm.trans hcall')
                      rw [hcursor] at hnone
                      cases hnone
                · rcases List.mem_cons.mp hmem with rfl | hmem
                  · exact hnotMem ha
                  · exact hread.fresh a (List.mem_cons_of_mem _ ha) hmem
              rcases ih rfl hread' with ⟨k, hk, hlen, hk'⟩ | ⟨hend, hle⟩ | ⟨hend, hlt⟩
              · refine .inl ⟨k + 1, Nat.succ_le_succ hk, Nat.succ_le_succ hlen, ?_⟩
                rwa [List.take_succ_cons, List.flatMap_cons, ← List.append_assoc]
              · exact .inr (.inl ⟨hend, Nat.succ_le_succ hle⟩)
              · exact .inr (.inr ⟨hend, Nat.succ_lt_succ hlt⟩)

lemma fetchLoop_readsTo_iff {seen : List Args} {args : Args} {pages : List Json} {ending : Ending}
    (h : Serves call p base seen args pages ending) {n : ℕ} {cursor : Option String}
    {rows : List Json} (hargs : args = pageArgs (some p) base cursor)
    (hfirst : reached limit rows = true → seen = []) :
    ReadsTo call p pageRows limit seen rows pages
        (fetchLoop (some p) call pageRows base limit n cursor rows) ↔
      EnoughPages pageRows limit n rows pages ending :=
  ⟨enoughPages_of_readsTo h hargs, fetchLoop_readsTo h hargs hfirst⟩

/-- Without a pagination one page is read. -/
lemma fetchLoop_none (p : Pagination) (n : ℕ) (rows : List Json) :
    fetchLoop none call pageRows base limit n none rows =
      fetchLoop (some p) call pageRows base limit (min n 1) none rows := by
  cases n with
  | zero => rfl
  | succ n =>
      rw [Nat.min_eq_right (Nat.succ_le_succ (Nat.zero_le n)), fetchLoop, fetchLoop]
      show (match call base with
        | .error e => (⟨[base], .error e⟩ : Fetched)
        | .ok result => _) = match call base with
        | .error e => (⟨[base], .error e⟩ : Fetched)
        | .ok result => _
      cases call base with
      | error e => rfl
      | ok page =>
          dsimp only
          split_ifs
          · rfl
          · rw [Option.bind_none, Option.bind_some]
            cases nextCursor p page <;> rfl

/-! ### The calls of a run -/

/-- The calls of a run have the arguments of the first one, or a cursor in addition. -/
lemma mem_fetchLoop_calls {n : ℕ} {cursor : Option String} {rows : List Json} {args : Args}
    (h : args ∈ (fetchLoop (some p) call pageRows base limit n cursor rows).calls) :
    args = pageArgs (some p) base cursor ∨ ∃ c, args = base.insert p.cursorArg (.str c) := by
  induction n generalizing cursor rows with
  | zero => cases h
  | succ n ih =>
      cases hcall : call (pageArgs (some p) base cursor) with
      | error e =>
          rw [fetchLoop_fails hcall] at h
          exact .inl (List.mem_singleton.mp h)
      | ok page =>
          by_cases hstop : reached limit (rows ++ pageRows page) = true ∨ nextCursor p page = none
          · rw [fetchLoop_last hcall hstop] at h
            exact .inl (List.mem_singleton.mp h)
          · rw [not_or, Bool.not_eq_true] at hstop
            obtain ⟨c, hcursor⟩ := Option.ne_none_iff_exists'.mp hstop.2
            rw [fetchLoop_more hcall hcursor hstop.1] at h
            rcases List.mem_cons.mp h with rfl | h
            · exact .inl rfl
            · exact .inr ((ih h).elim (fun heq => ⟨c, heq⟩) id)

lemma head_fetchLoop_calls {n : ℕ} (cursor : Option String) (rows : List Json) :
    ∃ rest, (fetchLoop (some p) call pageRows base limit (n + 1) cursor rows).calls =
      pageArgs (some p) base cursor :: rest := by
  cases hcall : call (pageArgs (some p) base cursor) with
  | error e => exact ⟨[], by rw [fetchLoop_fails hcall]⟩
  | ok page =>
      by_cases hstop : reached limit (rows ++ pageRows page) = true ∨ nextCursor p page = none
      · exact ⟨[], by rw [fetchLoop_last hcall hstop]⟩
      · rw [not_or, Bool.not_eq_true] at hstop
        obtain ⟨c, hcursor⟩ := Option.ne_none_iff_exists'.mp hstop.2
        exact ⟨_, by rw [fetchLoop_more hcall hcursor hstop.1]⟩

/-- The first page has a cursor and is not enough, and another page is allowed. -/
def AsksAgain (call : Args → Except McpError Json) (p : Pagination) (pageRows : Json → List Json)
    (base : Args) (limit : Option ℕ) (n : ℕ) : Prop :=
  2 ≤ n ∧ ∃ page, call base = .ok page ∧ reached limit (pageRows page) = false ∧
    ∃ c, nextCursor p page = some c

/-- The second call has the cursor of the first page. -/
lemma AsksAgain.calls {n : ℕ} (h : AsksAgain call p pageRows base limit n) :
    ∃ c rest, (fetchLoop (some p) call pageRows base limit n none []).calls =
      base :: base.insert p.cursorArg (.str c) :: rest := by
  obtain ⟨hn, page, hcall, hreached, c, hcursor⟩ := h
  obtain ⟨n, rfl⟩ := Nat.exists_eq_add_of_le hn
  rw [show 2 + n = n + 1 + 1 by omega]
  obtain ⟨rest, hrest⟩ : ∃ rest, (fetchLoop (some p) call pageRows base limit (n + 1) (some c)
      ([] ++ pageRows page)).calls = pageArgs (some p) base (some c) :: rest :=
    head_fetchLoop_calls _ _
  have hcall' : call (pageArgs (some p) base none) = .ok page := hcall
  refine ⟨c, rest, ?_⟩
  rw [fetchLoop_more hcall' hcursor hreached, hrest]
  rfl

/-- Any call but the first one is made because the first page asks for it. -/
lemma asksAgain_of_mem {n : ℕ} {args : Args} (hne : args ≠ base)
    (h : args ∈ (fetchLoop (some p) call pageRows base limit n none []).calls) :
    AsksAgain call p pageRows base limit n ∧ ∃ c, args = base.insert p.cursorArg (.str c) := by
  cases n with
  | zero => cases h
  | succ n =>
      cases hcall : call (pageArgs (some p) base none) with
      | error e =>
          rw [fetchLoop_fails hcall] at h
          exact absurd (List.mem_singleton.mp h) hne
      | ok page =>
          by_cases hstop : reached limit ([] ++ pageRows page) = true ∨ nextCursor p page = none
          · rw [fetchLoop_last hcall hstop] at h
            exact absurd (List.mem_singleton.mp h) hne
          · rw [not_or, Bool.not_eq_true] at hstop
            obtain ⟨c, hcursor⟩ := Option.ne_none_iff_exists'.mp hstop.2
            rw [fetchLoop_more hcall hcursor hstop.1] at h
            have hrest := (List.mem_cons.mp h).resolve_left hne
            refine ⟨⟨?_, page, hcall, hstop.1, c, hcursor⟩,
              (mem_fetchLoop_calls hrest).elim (fun heq => ⟨c, heq⟩) id⟩
            cases n with
            | zero => cases hrest
            | succ n => omega

end

/-! ## The bound arguments -/

section

variable {spec : McpTableSpec} {bound : Args} {limit : Option ℕ}

lemma bindArg_of_some {a : Arg} {v : Json} (h : bound.get? a.name = some v) (m : Args) :
    bindArg bound m a = m.insert a.wireName v := by
  rw [bindArg, h]

lemma bindArg_of_none {a : Arg} (h : bound.get? a.name = none) (m : Args) :
    bindArg bound m a = m := by
  rw [bindArg, h]

lemma get?_bindArgs_of_unbound {args : List Arg} {w : String}
    (h : ∀ a ∈ args, a.wireName = w → bound.get? a.name = none) (m : Args) :
    (bindArgs bound args m).get? w = m.get? w := by
  induction args generalizing m with
  | nil => rfl
  | cons a args ih =>
      obtain ⟨ha, hargs⟩ := List.forall_mem_cons.mp h
      show (bindArgs bound args (bindArg bound m a)).get? w = m.get? w
      rw [ih hargs]
      cases hv : bound.get? a.name with
      | none => rw [bindArg_of_none hv]
      | some v =>
          rw [bindArg_of_some hv]
          refine OrderedMap.get?_insert_of_ne m ?_ v
          rintro rfl
          rw [ha rfl] at hv
          cases hv

/-- A name that some bound argument goes by is sent with the value of such an argument. -/
lemma exists_get?_bindArgs {args : List Arg} {w : String} (m : Args)
    (h : ∃ a ∈ args, a.wireName = w ∧ bound.get? a.name ≠ none) :
    ∃ a ∈ args, ∃ v, a.wireName = w ∧ bound.get? a.name = some v ∧
      (bindArgs bound args m).get? w = some v := by
  induction args generalizing m with
  | nil =>
      obtain ⟨a, ha, -⟩ := h
      cases ha
  | cons b args ih =>
      by_cases hlater : ∃ a ∈ args, a.wireName = w ∧ bound.get? a.name ≠ none
      · obtain ⟨a, ha, v, hwire, hv, hget⟩ := ih (bindArg bound m b) hlater
        exact ⟨a, List.mem_cons_of_mem b ha, v, hwire, hv, hget⟩
      · have hunbound : ∀ a ∈ args, a.wireName = w → bound.get? a.name = none := by
          intro a ha hwire
          by_contra hne
          exact hlater ⟨a, ha, hwire, hne⟩
        obtain ⟨a, ha, hwire, hne⟩ := h
        rcases List.mem_cons.mp ha with rfl | ha
        · obtain ⟨v, hv⟩ := Option.ne_none_iff_exists'.mp hne
          refine ⟨a, List.mem_cons_self, v, hwire, hv, ?_⟩
          show (bindArgs bound args (bindArg bound m a)).get? w = some v
          rw [get?_bindArgs_of_unbound hunbound, bindArg_of_some hv, ← hwire]
          exact OrderedMap.get?_insert_self m a.wireName v
        · exact absurd (hunbound a ha hwire) hne

/-- No argument is sent with another value than it is bound to: arguments with the same name for the
tool are bound to the same value, and so is the one that the limit is sent as. -/
structure ArgsKept (spec : McpTableSpec) (bound : Args) (limit : Option ℕ) : Prop where
  same : ∀ a ∈ spec.args, ∀ a' ∈ spec.args, a'.wireName = a.wireName → ∀ v v',
    bound.get? a.name = some v → bound.get? a'.name = some v' → v' = v
  limit : ∀ b l, spec.limitBinding = some b → limit = some l → ∀ a ∈ spec.args,
    a.wireName = b.toolArg → ∀ v, bound.get? a.name = some v → v = .num (toString (b.capped l))

lemma baseArgs_of_limit {b : LimitBinding} {l : ℕ} (hb : spec.limitBinding = some b) :
    spec.baseArgs bound (some l) =
      (bindArgs bound spec.args spec.toolArgs).insert b.toolArg (.num (toString (b.capped l))) := by
  simp only [McpTableSpec.baseArgs, hb]

/-- Apart from the limit the first call has the bound arguments. -/
lemma get?_baseArgs {w : String} (h : ∀ b l, spec.limitBinding = some b → limit = some l →
    w ≠ b.toolArg) :
    (spec.baseArgs bound limit).get? w = (bindArgs bound spec.args spec.toolArgs).get? w := by
  unfold McpTableSpec.baseArgs
  dsimp only
  split
  · rename_i b l hb
    exact OrderedMap.get?_insert_of_ne _ (h b l hb rfl) _
  · rfl

/-- The first call has every bound argument with its value exactly when they are kept. -/
lemma baseArgs_sent_iff :
    (∀ a ∈ spec.args, ∀ v, bound.get? a.name = some v →
      (spec.baseArgs bound limit).get? a.wireName = some v) ↔ ArgsKept spec bound limit := by
  constructor
  · intro h
    refine ⟨fun a ha a' ha' hwire v v' hv hv' => ?_, ?_⟩
    · have hsent := h a' ha' v' hv'
      rw [hwire, h a ha v hv] at hsent
      exact (Option.some.inj hsent).symm
    · rintro b l hb rfl a ha hwire v hv
      have hsent := h a ha v hv
      rw [baseArgs_of_limit hb, hwire, OrderedMap.get?_insert_self] at hsent
      exact (Option.some.inj hsent).symm
  · intro h a ha v hv
    by_cases hlimit : ∃ b l, spec.limitBinding = some b ∧ limit = some l ∧ a.wireName = b.toolArg
    · obtain ⟨b, l, hb, rfl, hwire⟩ := hlimit
      rw [baseArgs_of_limit hb, hwire, OrderedMap.get?_insert_self, h.limit b l hb rfl a ha hwire v hv]
    · rw [get?_baseArgs fun b l hb hl hwire => hlimit ⟨b, l, hb, hl, hwire⟩]
      obtain ⟨a', ha', v', hwire, hv', hget⟩ := exists_get?_bindArgs spec.toolArgs
        ⟨a, ha, rfl, fun hnone => by rw [hv] at hnone; cases hnone⟩
      rw [hget, h.same a ha a' ha' hwire v v' hv hv']

end

/-! ## Completeness -/

section

variable (request : String → Args → Except McpError Json) (parse : String → Option Json)
  (spec : McpTableSpec) (maxPages : Option ℕ) (bound : Args) (limit : Option ℕ) (p : Pagination)

/-- The fetch returns the collection, each row once, and sends every bound argument as it is. -/
structure Complete (pages : List Json) (run : Fetched) : Prop where
  whole : Whole (callTool request spec.tool) p (spec.pageRows parse) limit pages run
  sent : Sent spec bound run

/-- The pages that may be read: one without a pagination. -/
def McpTableSpec.pagesAllowed : ℕ :=
  match spec.pagination with
  | some _ => maxPages.getD defaultMaxPages
  | none => min (maxPages.getD defaultMaxPages) 1

/-- Enough pages may be read, and no argument that is bound is overwritten: not by another one, nor
by the limit, nor by a cursor. -/
structure FetchesAll (pages : List Json) (ending : Ending) : Prop where
  enough : EnoughPages (spec.pageRows parse) limit (spec.pagesAllowed maxPages) [] pages ending
  kept : 0 < spec.pagesAllowed maxPages → ArgsKept spec bound limit
  cursor : AsksAgain (callTool request spec.tool) p (spec.pageRows parse)
    (spec.baseArgs bound limit) limit (spec.pagesAllowed maxPages) →
      ∀ a ∈ spec.args, bound.contains a.name = true → a.wireName ≠ p.cursorArg

end

section

variable {request : String → Args → Except McpError Json} {parse : String → Option Json}
  {spec : McpTableSpec} {maxPages : Option ℕ} {bound : Args} {limit : Option ℕ} {p : Pagination}
  {pages : List Json} {ending : Ending}

/-- The fetch is a run of the loop with the pagination of the tool. -/
lemma fetch_eq (hproto : ∀ q, spec.pagination = some q → q = p) :
    spec.fetch request parse maxPages bound limit =
      let run := fetchLoop (some p) (callTool request spec.tool) (spec.pageRows parse)
        (spec.baseArgs bound limit) limit (spec.pagesAllowed maxPages) none []
      ⟨run.calls, run.result.map (applyLimit limit)⟩ := by
  unfold McpTableSpec.fetch McpTableSpec.pagesAllowed
  cases hp : spec.pagination with
  | some q =>
      obtain rfl := hproto q hp
      rfl
  | none => rw [fetchLoop_none p]

lemma map_eq_ok {run : Fetched} {rows : List Json} :
    run.result.map (applyLimit limit) = .ok rows ↔
      ∃ rows', run.result = .ok rows' ∧ applyLimit limit rows' = rows := by
  cases run.result with
  | error e => simp [Except.map]
  | ok rows' => simp [Except.map]

lemma whole_iff_readsTo {call : Args → Except McpError Json} {pageRows : Json → List Json}
    (run : Fetched) :
    Whole call p pageRows limit pages ⟨run.calls, run.result.map (applyLimit limit)⟩ ↔
      ReadsTo call p pageRows limit [] [] pages run := by
  constructor
  · intro h
    refine ⟨fun rows' hrows => ?_, fun rows' hrows => ?_, h.once, fun _ _ => List.not_mem_nil⟩
    · exact h.rows _ (map_eq_ok.mpr ⟨rows', hrows, rfl⟩)
    · have hsettled := h.settled _ (map_eq_ok.mpr ⟨rows', hrows, rfl⟩)
      rwa [reached_applyLimit] at hsettled
  · intro h
    refine ⟨fun rows hrows => ?_, fun rows hrows => ?_, h.once⟩
    · obtain ⟨rows', hrows', rfl⟩ := map_eq_ok.mp hrows
      exact h.rows rows' hrows'
    · obtain ⟨rows', hrows', rfl⟩ := map_eq_ok.mp hrows
      rw [reached_applyLimit]
      exact h.settled rows' hrows'

/-- From a tool that serves a finite collection page by page, the fetch returns all of it, or its
first rows up to the limit, or an error, and sends every argument as it is bound, exactly when the
pages it may read are enough and no bound argument is overwritten. -/
theorem fetch_complete_iff (hproto : ∀ q, spec.pagination = some q → q = p)
    (hserves : Serves (callTool request spec.tool) p (spec.baseArgs bound limit) []
      (spec.baseArgs bound limit) pages ending) :
    Complete request parse spec bound limit p pages
        (spec.fetch request parse maxPages bound limit) ↔
      FetchesAll request parse spec maxPages bound limit p pages ending := by
  rw [fetch_eq hproto]
  have hreads : ReadsTo (callTool request spec.tool) p (spec.pageRows parse) limit [] [] pages
      (fetchLoop (some p) (callTool request spec.tool) (spec.pageRows parse)
        (spec.baseArgs bound limit) limit (spec.pagesAllowed maxPages) none []) ↔
      EnoughPages (spec.pageRows parse) limit (spec.pagesAllowed maxPages) [] pages ending :=
    fetchLoop_readsTo_iff hserves rfl fun _ => rfl
  constructor
  · rintro ⟨hwhole, hsent⟩
    have hread := (whole_iff_readsTo _).mp hwhole
    refine ⟨hreads.mp hread, fun hpos => ?_, fun hasks a ha hbound hwire => ?_⟩
    · obtain ⟨n, hn⟩ := Nat.exists_eq_succ_of_ne_zero (Nat.ne_of_gt hpos)
      obtain ⟨rest, hcalls⟩ : ∃ rest, (fetchLoop (some p) (callTool request spec.tool)
          (spec.pageRows parse) (spec.baseArgs bound limit) limit (n + 1) none []).calls =
            pageArgs (some p) (spec.baseArgs bound limit) none :: rest :=
        head_fetchLoop_calls _ _
      refine baseArgs_sent_iff.mp (hsent (spec.baseArgs bound limit) ?_)
      show spec.baseArgs bound limit ∈ (fetchLoop _ _ _ _ _ (spec.pagesAllowed maxPages) _ _).calls
      rw [hn, hcalls]
      exact List.mem_cons_self
    · obtain ⟨v, hv⟩ := OrderedMap.contains_iff.mp hbound
      obtain ⟨c, rest, hcalls⟩ := hasks.calls
      have hfirst := hsent (spec.baseArgs bound limit)
        (by rw [hcalls]; exact List.mem_cons_self) a ha v hv
      have hsecond := hsent ((spec.baseArgs bound limit).insert p.cursorArg (.str c))
        (by rw [hcalls]; exact List.mem_cons_of_mem _ List.mem_cons_self) a ha v hv
      rw [hwire, OrderedMap.get?_insert_self] at hsecond
      -- the cursor is what the argument is bound to, so the second call is the first one again
      have hsame : (spec.baseArgs bound limit).insert p.cursorArg (.str c) =
          spec.baseArgs bound limit := by
        refine OrderedMap.ext_get? fun k => ?_
        rw [OrderedMap.get?_insert]
        split_ifs with hk
        · rw [hk, ← hwire, hfirst, hsecond]
        · rfl
      have honce := hread.once
      rw [hcalls, hsame] at honce
      exact (List.nodup_cons.mp honce).1 List.mem_cons_self
  · rintro ⟨henough, hkept, hcursor⟩
    refine ⟨(whole_iff_readsTo _).mpr (hreads.mpr henough), fun args hargs a ha v hv => ?_⟩
    have hpos : 0 < spec.pagesAllowed maxPages := by
      by_contra hzero
      have hcalls : args ∈ (fetchLoop (some p) (callTool request spec.tool) (spec.pageRows parse)
          (spec.baseArgs bound limit) limit (spec.pagesAllowed maxPages) none []).calls := hargs
      rw [Nat.eq_zero_of_not_pos hzero] at hcalls
      cases hcalls
    have hbase := baseArgs_sent_iff.mpr (hkept hpos) a ha v hv
    by_cases hfirst : args = spec.baseArgs bound limit
    · rw [hfirst, hbase]
    · obtain ⟨hasks, c, rfl⟩ := asksAgain_of_mem hfirst hargs
      rw [OrderedMap.get?_insert_of_ne _ (hcursor hasks a ha (OrderedMap.contains_iff.mpr ⟨v, hv⟩)),
        hbase]

end

/-! ## Runs -/

instance : DecidableEq Args := fun m m' =>
  decidable_of_iff (m.entries = m'.entries)
    ⟨fun h => OrderedMap.ext_get? fun k => by rw [OrderedMap.get?, OrderedMap.get?, h],
      fun h => by rw [h]⟩

/-- A tool with two pages of one row. -/
def twoPages (_ : String) (args : Args) : Except McpError Json :=
  match args.get? "cursor" with
  | none => .ok (.obj [("nextCursor", .str "2"), ("structuredContent", .arr [.str "a"])])
  | some _ => .ok (.obj [("structuredContent", .arr [.str "b"])])

/-- Its table, with the arguments that synthesis finds. -/
def pagedTable : McpTableSpec where
  tool := "list"
  args := [{ name := "cursor", type := "varchar" }, { name := "limit", type := "bigint" }]
  columns := [{ name := "result", type := "json", path := [] }]
  limitBinding := some { toolArg := "limit" }
  pagination := some { cursorArg := "cursor", responseCursorPath := ["nextCursor"] }

lemma twoPages_serves (bound : Args) (limit : Option ℕ)
    (hfirst : (pagedTable.baseArgs bound limit).get? "cursor" = none) :
    Serves (callTool twoPages pagedTable.tool) ⟨"cursor", ["nextCursor"]⟩
      (pagedTable.baseArgs bound limit) [] (pagedTable.baseArgs bound limit)
      [.obj [("nextCursor", .str "2"), ("structuredContent", .arr [.str "a"])],
        .obj [("structuredContent", .arr [.str "b"])]] .done := by
  have hpage : callTool twoPages pagedTable.tool (pagedTable.baseArgs bound limit) =
      .ok (.obj [("nextCursor", .str "2"), ("structuredContent", .arr [.str "a"])]) := by
    simp only [callTool, twoPages, hfirst]
    rfl
  have hlast : callTool twoPages pagedTable.tool
      ((pagedTable.baseArgs bound limit).insert "cursor" (.str "2")) =
        .ok (.obj [("structuredContent", .arr [.str "b"])]) := by
    simp only [callTool, twoPages, OrderedMap.get?_insert_self]
    rfl
  refine .more List.not_mem_nil hpage (c := "2") (by decide)
    (.last ?_ hlast (by decide))
  rw [List.mem_singleton]
  intro heq
  have hcursor := congrArg (fun m => OrderedMap.get? m "cursor") heq
  simp only [OrderedMap.get?_insert_self, hfirst] at hcursor
  cases hcursor

/-- A run that reads both pages. -/
theorem fetch_complete_twoPages :
    Complete twoPages (fun _ => none) pagedTable .empty (some 5) ⟨"cursor", ["nextCursor"]⟩
      [.obj [("nextCursor", .str "2"), ("structuredContent", .arr [.str "a"])],
        .obj [("structuredContent", .arr [.str "b"])]]
      (pagedTable.fetch twoPages (fun _ => none) none .empty (some 5)) := by
  refine (fetch_complete_iff (fun q hq => (Option.some.inj hq).symm)
    (twoPages_serves .empty (some 5) (by decide))).mpr ⟨?_, fun _ => ⟨?_, ?_⟩, ?_⟩
  · exact .inr (.inl ⟨rfl, by decide⟩)
  · intro a _ a' _ _ v v' hv
    cases hv
  · intro b l _ _ a _ _ v hv
    cases hv
  · intro _ a _ hbound
    cases hbound

/-- With one page allowed the second one is left out, and a bound `limit` is sent as the limit of the
query. -/
theorem fetch_incomplete :
    let p : Pagination := ⟨"cursor", ["nextCursor"]⟩
    let pages : List Json := [.obj [("nextCursor", .str "2"), ("structuredContent", .arr [.str "a"])],
      .obj [("structuredContent", .arr [.str "b"])]]
    let bound : Args := OrderedMap.empty.insert "limit" (.num "5")
    let serves (bound : Args) (limit : Option ℕ) :=
      Serves (callTool twoPages pagedTable.tool) p (pagedTable.baseArgs bound limit) []
        (pagedTable.baseArgs bound limit) pages .done
    let complete (maxPages : Option ℕ) (bound : Args) (limit : Option ℕ) :=
      Complete twoPages (fun _ => none) pagedTable bound limit p pages
        (pagedTable.fetch twoPages (fun _ => none) maxPages bound limit)
    (serves .empty none ∧ ¬ complete (some 1) .empty none) ∧
      serves bound (some 10) ∧ ¬ complete none bound (some 10) := by
  intro p pages bound serves complete
  refine ⟨⟨twoPages_serves _ _ (by decide), fun h => ?_⟩,
    twoPages_serves _ _ (by decide), fun h => ?_⟩
  · exact absurd (h.whole.rows [.str "a"] (by decide)) (by decide)
  · have hsent := h.sent (OrderedMap.empty.insert "limit" (.num "10")) (by decide)
      { name := "limit", type := "bigint" } (List.mem_cons_of_mem _ List.mem_cons_self) (.num "5")
      (by decide)
    exact absurd hsent (by decide)

end Mcp
end Pawrly
