import Pawrly.Http.Fetch
import Pawrly.Lib.Windows

/-!
# Offset and page pagination

What the page loop returns from a server that answers every request with the asked window of one
fixed collection.  The loop asks for the windows of `pageWindow`: the first one as the parameters
bind it, the later ones computed from the configuration alone.  So it returns the rest of the
collection when the first page already reaches the end or the second request starts where the first
one ended, and not otherwise.
-/

namespace Pawrly
namespace Http

open Windows

/-! ## Window schemes -/

namespace PaginationConfig

/-- The parameters that the scheme sets. -/
def controls : PaginationConfig → List String
  | .cursor _ param | .rowCursor param _ _ => [param]
  | .page param _ sizeParam _ => param :: sizeParam.toList
  | .offset param sizeParam _ => [param, sizeParam]
  | .linkHeader | .bodyCursor _ _ => []

/-- Page and offset schemes: two different parameters, a size that is not zero, and numbers within
`u32`.  The pages of the server start at `firstPage`. -/
def Windowed (firstPage : ℕ) : PaginationConfig → Prop
  | .page param start sizeParam size =>
      sizeParam ≠ some param ∧ firstPage ≤ start ∧ start ≤ maxU32 ∧ ∀ s ∈ size, 1 ≤ s
  | .offset param sizeParam size => param ≠ sizeParam ∧ 1 ≤ size ∧ size ≤ maxU32
  | _ => False

/-- A page with this many rows is the last one. -/
def isLast (count : ℕ) : PaginationConfig → Bool
  | .offset _ _ size => count < size
  | _ => count = 0

/-- The parameters of the page after the one with the index. -/
def nextParams (params : Params) (pageIndex : ℕ) : PaginationConfig → Params
  | .page param start (some sp) (some sz) =>
      (params.insert param (toString (nextPageNumber start pageIndex))).insert sp (toString sz)
  | .page param start _ _ => params.insert param (toString (nextPageNumber start pageIndex))
  | .offset param sizeParam size =>
      (params.insert param (toString (nextOffset size pageIndex))).insert sizeParam (toString size)
  | _ => params

/-- The size of the pages after a first page of the given size. -/
def laterSize (size : ℕ) : PaginationConfig → ℕ
  | .page _ _ (some _) (some s) => s
  | .offset _ _ s => s
  | _ => size

/-- The windows that the loop asks for, after a first one. -/
def pageWindow (firstPage : ℕ) (first : ℕ × ℕ) (config : PaginationConfig) : ℕ → ℕ × ℕ
  | 0 => first
  | k + 1 =>
      let size := config.laterSize first.2
      match config with
      | .page _ start _ _ => ((min maxU32 (start + (k + 1)) - firstPage) * size, size)
      | _ => (size * (k + 1), size)

end PaginationConfig

lemma nextPage_windowed {firstPage : ℕ} {config : PaginationConfig}
    (hconfig : config.Windowed firstPage) (params : Params) (body : Json)
    (headers : List (String × String)) (rows : List Json) (pageIndex : ℕ) :
    nextPage config params body headers rows pageIndex =
      if config.isLast rows.length then none
      else some (.params (config.nextParams params pageIndex)) := by
  cases config with
  | linkHeader | cursor | rowCursor | bodyCursor => exact hconfig.elim
  | page param start sizeParam size =>
      unfold nextPage PaginationConfig.isLast
      simp only [decide_eq_true_eq, List.length_eq_zero_iff]
      congr 1
      cases sizeParam <;> cases size <;> rfl
  | offset param sizeParam size =>
      unfold nextPage PaginationConfig.isLast
      simp only [decide_eq_true_eq]
      rfl

/-! ## Servers of windows -/

/-- How a server reads the numbers of a request, what its first page is called, and the size of the
pages when the request gives none. -/
structure WindowServer where
  read : String → Option ℕ
  read_toString : ∀ n : ℕ, read (toString n) = some n
  firstPage : ℕ
  defaultSize : ℕ

namespace WindowServer

variable (server : WindowServer)

/-- The number that a parameter is bound to. -/
def number (params : Params) (name : String) : Option ℕ := (params.get? name).bind server.read

/-- The size of the pages: the bound one, or the default. -/
def pageSize (params : Params) : Option String → Option ℕ
  | none => some server.defaultSize
  | some name =>
      match params.get? name with
      | none => some server.defaultSize
      | some v => server.read v

/-- The window that a request with the parameters asks for, by its position and size. -/
def window? (params : Params) : PaginationConfig → Option (ℕ × ℕ)
  | .page param _ sizeParam _ =>
      (server.number params param).bind fun page =>
        if page < server.firstPage then none
        else (server.pageSize params sizeParam).map fun size =>
          ((page - server.firstPage) * size, size)
  | .offset param sizeParam _ =>
      (server.number params param).bind fun offset =>
        (server.number params sizeParam).map fun size => (offset, size)
  | _ => none

end WindowServer

/-- The rows of a response: none for a status 404 that stands for an empty collection. -/
def Client.responseRows {U : Type} (client : Client U) (spec : HttpTableSpec) (resp : Response) :
    Except DataFusionError (List Json) :=
  if resp.status = 404 && spec.response.allow404Empty then .ok []
  else do
    let body ← client.responseBody spec resp
    spec.response.extractRows body

/-- Two bindings are the same apart from the parameters that the scheme sets. -/
def SameElsewhere (config : PaginationConfig) (params params' : Params) : Prop :=
  ∀ k, k ∉ config.controls → params'.get? k = params.get? k

/-- Every request for a window of the collection is answered with that window, as long as the
other parameters are bound as in the first request. -/
def WindowServer.Serves {U : Type} (server : WindowServer) (client : Client U)
    (spec : HttpTableSpec) (config : PaginationConfig) (shape : RequestShape)
    (explode : OrderedMap String (List String))
    (send : ℕ → Request U → Except DataFusionError Response) (first : Params)
    (collection : List Json) : Prop :=
  ∀ (st : FetchState U) (w : ℕ × ℕ), st.url = none → st.bodyCursor = none →
    SameElsewhere config first st.params → server.window? st.params config = some w →
    ∃ req resp, client.request spec shape explode st = .ok req ∧
      send st.pageIndex req = .ok resp ∧
      client.responseRows spec resp = .ok (window collection w)

/-! ## The pages of the loop -/

lemma nextOffset_eq {size pageIndex : ℕ} (hsize : size ≤ maxU32) (hindex : pageIndex + 1 ≤ maxU32) :
    nextOffset size pageIndex = size * (pageIndex + 1) := by
  have hmul : size * (pageIndex + 1) ≤ maxU32 * maxU32 := Nat.mul_le_mul hsize hindex
  have hmax : maxU32 * maxU32 ≤ maxU64 := by decide
  exact min_eq_right (hmul.trans hmax)

lemma nextPageNumber_eq {start pageIndex : ℕ} (hindex : pageIndex + 1 ≤ maxU32) :
    nextPageNumber start pageIndex = min maxU32 (start + (pageIndex + 1)) := by
  have hmax : maxU32 < 2 ^ 32 := by decide
  unfold nextPageNumber
  rw [Nat.mod_eq_of_lt (by omega), min_eq_right hindex]

namespace PaginationConfig

lemma pageWindow_snd {firstPage : ℕ} {first : ℕ × ℕ} {config : PaginationConfig}
    (hsize : config.laterSize first.2 = first.2) (i : ℕ) :
    (config.pageWindow firstPage first i).2 = first.2 := by
  cases i with
  | zero => rfl
  | succ k => cases config <;> exact hsize

lemma get?_nextParams_of_notMem {config : PaginationConfig} (params : Params) (i : ℕ) {k : String}
    (hk : k ∉ config.controls) : (config.nextParams params i).get? k = params.get? k := by
  cases config with
  | linkHeader | cursor | rowCursor | bodyCursor => rfl
  | page param start sizeParam size =>
      rw [controls, List.mem_cons, not_or] at hk
      obtain ⟨hparam, hsize⟩ := hk
      cases sizeParam with
      | none => exact OrderedMap.get?_insert_of_ne _ hparam _
      | some sp =>
          have hsp : k ≠ sp := fun h => hsize (h ▸ List.mem_singleton_self k)
          cases size with
          | none => exact OrderedMap.get?_insert_of_ne _ hparam _
          | some s =>
              exact (OrderedMap.get?_insert_of_ne _ hsp _).trans
                (OrderedMap.get?_insert_of_ne _ hparam _)
  | offset param sizeParam size =>
      rw [controls, List.mem_cons, List.mem_singleton, not_or] at hk
      exact (OrderedMap.get?_insert_of_ne _ hk.2 _).trans (OrderedMap.get?_insert_of_ne _ hk.1 _)

end PaginationConfig

namespace WindowServer

variable {server : WindowServer}

lemma number_insert_self (params : Params) (name : String) (n : ℕ) :
    server.number (params.insert name (toString n)) name = some n := by
  rw [number, OrderedMap.get?_insert_self, Option.bind_some, server.read_toString]

lemma number_insert_of_ne (params : Params) {name name' : String} (h : name ≠ name') (v : String) :
    server.number (params.insert name' v) name = server.number params name := by
  rw [number, OrderedMap.get?_insert_of_ne _ h, number]

lemma window?_page {params : Params} {param : String} {start page : ℕ} {sizeParam : Option String}
    {size : Option ℕ} {n : ℕ} (hpage : server.number params param = some page)
    (hfirst : server.firstPage ≤ page) (hsize : server.pageSize params sizeParam = some n) :
    server.window? params (.page param start sizeParam size) =
      some ((page - server.firstPage) * n, n) := by
  rw [window?, hpage, Option.bind_some, if_neg (Nat.not_lt.mpr hfirst), hsize, Option.map_some]

/-- The size that a request with a window has. -/
lemma pageSize_of_window? {params : Params} {param : String} {start : ℕ} {sizeParam : Option String}
    {size : Option ℕ} {w : ℕ × ℕ}
    (h : server.window? params (.page param start sizeParam size) = some w) :
    server.pageSize params sizeParam = some w.2 := by
  obtain ⟨page, -, hif⟩ := Option.bind_eq_some_iff.mp h
  split_ifs at hif
  obtain ⟨n, hn, rfl⟩ := Option.map_eq_some_iff.mp hif
  exact hn

/-- Step: the parameters of the next page ask for the next window. -/
lemma window?_nextParams {config : PaginationConfig} (hconfig : config.Windowed server.firstPage)
    {first : ℕ × ℕ} {params : Params} {i : ℕ} (hindex : i + 1 ≤ maxU32)
    (hw : server.window? params config = some (config.pageWindow server.firstPage first i)) :
    server.window? (config.nextParams params i) config =
      some (config.pageWindow server.firstPage first (i + 1)) := by
  cases config with
  | linkHeader | cursor | rowCursor | bodyCursor => exact hconfig.elim
  | offset param sizeParam size =>
      obtain ⟨hne, -, hsize⟩ := hconfig
      unfold PaginationConfig.nextParams window?
      dsimp only
      rw [number_insert_of_ne _ hne, number_insert_self, Option.bind_some, number_insert_self,
        nextOffset_eq hsize hindex]
      rfl
  | page param start sizeParam size =>
      obtain ⟨hne, hfirst, hstart, -⟩ := hconfig
      have hpage : server.firstPage ≤ nextPageNumber start i := by
        rw [nextPageNumber_eq hindex]
        exact le_min (hfirst.trans hstart) (by omega)
      have hold := pageSize_of_window? hw
      cases sizeParam with
      | none =>
          rw [PaginationConfig.pageWindow_snd rfl] at hold
          have hsize : server.pageSize (params.insert param (toString (nextPageNumber start i)))
              none = some first.2 := hold
          rw [PaginationConfig.nextParams, window?_page (number_insert_self _ _ _) hpage hsize,
            nextPageNumber_eq hindex]
          · rfl
          · intros; contradiction
      | some sp =>
          have hsp : sp ≠ param := fun h => hne (congrArg some h)
          cases size with
          | none =>
              rw [PaginationConfig.pageWindow_snd rfl] at hold
              have hsize : server.pageSize (params.insert param (toString (nextPageNumber start i)))
                  (some sp) = some first.2 := by
                rw [pageSize, OrderedMap.get?_insert_of_ne _ hsp]
                exact hold
              rw [PaginationConfig.nextParams, window?_page (number_insert_self _ _ _) hpage hsize,
                nextPageNumber_eq hindex]
              · rfl
              · intros; contradiction
          | some s =>
              have hsize : server.pageSize ((params.insert param
                  (toString (nextPageNumber start i))).insert sp (toString s)) (some sp) =
                  some s := by
                rw [pageSize, OrderedMap.get?_insert_self]
                exact server.read_toString s
              rw [PaginationConfig.nextParams, window?_page
                ((number_insert_of_ne _ hsp.symm _).trans (number_insert_self _ _ _)) hpage hsize,
                nextPageNumber_eq hindex]
              rfl

end WindowServer

/-! ## The loop returns the pages put together -/

/-- The number of rows is within the limit of the source. -/
def WithinRows (maxRows : Option ℕ) (rows : List Json) : Prop :=
  ∀ max ∈ maxRows, rows.length ≤ max

/-- The fetch failed because of one of the two limits. -/
def Refused (spec : HttpTableSpec) (maxPages : ℕ) (maxRows : Option ℕ)
    (result : Except DataFusionError (List Json)) : Prop :=
  result = .error (tooManyPages spec.name maxPages) ∨
    ∃ max ∈ maxRows, result = .error (tooManyRows spec.name max)

section

variable {U : Type} {client : Client U} {spec : HttpTableSpec} {config : PaginationConfig}

lemma filter_eq_none_of_withinRows {maxRows : Option ℕ} {rows : List Json}
    (h : WithinRows maxRows rows) : maxRows.filter (· < rows.length) = none := by
  cases maxRows with
  | none => rfl
  | some max =>
      rw [Option.filter_some, decide_eq_false (Nat.not_lt.mpr (h max rfl))]
      rfl

lemma filter_eq_some_of_not_withinRows {maxRows : Option ℕ} {rows : List Json}
    (h : ¬ WithinRows maxRows rows) :
    ∃ max ∈ maxRows, maxRows.filter (· < rows.length) = some max := by
  unfold WithinRows at h
  push Not at h
  obtain ⟨max, hmax, hlt⟩ := h
  refine ⟨max, hmax, ?_⟩
  rw [Option.mem_def.mp hmax, Option.filter_some, decide_eq_true hlt]
  rfl

lemma withinRows_append_left {maxRows : Option ℕ} {rows rest : List Json}
    (h : WithinRows maxRows (rows ++ rest)) : WithinRows maxRows rows := by
  intro max hmax
  have hlen := h max hmax
  rw [List.length_append] at hlen
  omega

lemma isLast_zero {firstPage : ℕ} (hconfig : config.Windowed firstPage) :
    config.isLast 0 = true := by
  cases config with
  | linkHeader | cursor | rowCursor | bodyCursor | page => rfl
  | offset param sizeParam size => exact decide_eq_true hconfig.2.1

/-- A page without a row limit: the rows of the response are added, unless they are too many, and
the loop goes on unless the page is the last one. -/
lemma page_windowed (hpagination : spec.pagination = some config) {firstPage : ℕ}
    (hconfig : config.Windowed firstPage) {maxRows : Option ℕ} {st : FetchState U} {resp : Response}
    {rows : List Json} (hrows : client.responseRows spec resp = .ok rows)
    (hwithin : WithinRows maxRows st.rows) :
    client.page spec maxRows none st resp =
      match maxRows.filter (· < (st.rows ++ rows).length) with
      | some max => .error (tooManyRows spec.name max)
      | none =>
          if config.isLast rows.length then .ok (.done (st.rows ++ rows))
          else .ok (.next { st with
            params := config.nextParams st.params st.pageIndex, url := none
            pageIndex := st.pageIndex + 1, rows := st.rows ++ rows }) := by
  unfold Client.page
  unfold Client.responseRows at hrows
  split_ifs at hrows with h404
  · cases hrows
    rw [if_pos h404, List.append_nil, filter_eq_none_of_withinRows hwithin, List.length_nil,
      isLast_zero hconfig]
    rfl
  · rw [if_neg h404]
    obtain ⟨body, hbody, hextract⟩ := Fallible.bind_eq_ok.mp hrows
    rw [hbody]
    change (do
      let rows ← spec.response.extractRows body
      _) = _
    rw [hextract]
    change (match maxRows.filter (· < (st.rows ++ rows).length) with
      | some max => _
      | none => _) = _
    cases maxRows.filter (· < (st.rows ++ rows).length) with
    | some max => rfl
    | none =>
        dsimp only
        rw [hpagination, Option.bind_some, nextPage_windowed hconfig]
        split_ifs <;> rfl

variable {server : WindowServer} {collection : List Json} {first : ℕ × ℕ}

/-- The rows of the page with an index. -/
def pageRows (server : WindowServer) (config : PaginationConfig) (first : ℕ × ℕ)
    (collection : List Json) (i : ℕ) : List Json :=
  window collection (config.pageWindow server.firstPage first i)

/-- The page with an index is the last one. -/
def lastPage (server : WindowServer) (config : PaginationConfig) (first : ℕ × ℕ)
    (collection : List Json) (i : ℕ) : Bool :=
  config.isLast (pageRows server config first collection i).length

/-- What the loop does from a state with the rows of the earlier pages: it returns the further
pages put together when the last one is among the pages left and the rows stay within the limit,
and fails with a limit otherwise. -/
theorem fetchLoop_windowed (hpagination : spec.pagination = some config)
    (hconfig : config.Windowed server.firstPage) {shape : RequestShape}
    {explode : OrderedMap String (List String)} {maxPages : ℕ} (maxRows : Option ℕ)
    {send : ℕ → Request U → Except DataFusionError Response} {params : Params}
    (hserves : server.Serves client spec config shape explode send params collection)
    (hmax : maxPages ≤ maxU32) {left : ℕ} (st : FetchState U)
    (hleft : st.pageIndex + left = maxPages) (hurl : st.url = none) (hcursor : st.bodyCursor = none)
    (hsame : SameElsewhere config params st.params)
    (hwindow : server.window? st.params config =
      some (config.pageWindow server.firstPage first st.pageIndex))
    (hwithin : WithinRows maxRows st.rows) :
    (∀ r, collect (pageRows server config first collection)
        (lastPage server config first collection) left st.pageIndex = some r →
      WithinRows maxRows (st.rows ++ r) →
      client.fetchLoop spec shape explode maxPages maxRows none send left st = .ok (st.rows ++ r)) ∧
    ((∀ r, collect (pageRows server config first collection)
        (lastPage server config first collection) left st.pageIndex = some r →
      ¬ WithinRows maxRows (st.rows ++ r)) →
      Refused spec maxPages maxRows
        (client.fetchLoop spec shape explode maxPages maxRows none send left st)) := by
  induction left generalizing st with
  | zero => exact ⟨(fun r h => by cases h), fun _ => .inl rfl⟩
  | succ left ih =>
      obtain ⟨req, resp, hreq, hsend, hrows⟩ := hserves st _ hurl hcursor hsame hwindow
      replace hrows : client.responseRows spec resp =
          .ok (pageRows server config first collection st.pageIndex) := hrows
      have hpage := page_windowed hpagination hconfig hrows hwithin
      obtain ⟨resume, hstep, hdone, hresume⟩ : ∃ resume,
          client.fetchLoop spec shape explode maxPages maxRows none send (left + 1) st =
            client.page spec maxRows none st resp >>= resume ∧
          (∀ rows, resume (.done rows) = .ok rows) ∧ ∀ st, resume (.next st) =
            client.fetchLoop spec shape explode maxPages maxRows none send left st := by
        refine ⟨?resume, ?_, ?_, ?_⟩
        rotate_left
        · rw [Client.fetchLoop, hreq]
          change (send st.pageIndex req >>= _) = _
          rw [hsend]
          exact rfl
        · exact fun _ => rfl
        · exact fun _ => rfl
      rw [hstep, hpage]
      by_cases hfit : WithinRows maxRows
          (st.rows ++ pageRows server config first collection st.pageIndex)
      · rw [filter_eq_none_of_withinRows hfit]
        dsimp only
        unfold collect lastPage
        by_cases hlast : config.isLast
            (pageRows server config first collection st.pageIndex).length = true
        · rw [if_pos hlast, if_pos hlast]
          refine ⟨fun r hr _ => ?_, fun h => absurd hfit (h _ rfl)⟩
          rw [← Option.some.inj hr]
          exact hdone _
        · rw [if_neg hlast, if_neg hlast]
          have hbind : ∀ outcome, Except.ok outcome >>= resume = resume outcome := fun _ => rfl
          rw [hbind, hresume]
          have hnext := ih { st with
              params := config.nextParams st.params st.pageIndex, url := none
              pageIndex := st.pageIndex + 1
              rows := st.rows ++ pageRows server config first collection st.pageIndex }
            (by dsimp only; omega) rfl hcursor
            (fun k hk => (PaginationConfig.get?_nextParams_of_notMem _ _ hk).trans (hsame k hk))
            (WindowServer.window?_nextParams hconfig (by omega) hwindow) hfit
          refine ⟨fun r hr hfits => ?_, fun h => hnext.2 fun r hr => ?_⟩
          · obtain ⟨rest, hrest, rfl⟩ := Option.map_eq_some_iff.mp hr
            rw [← List.append_assoc] at hfits ⊢
            exact hnext.1 rest hrest hfits
          · rw [List.append_assoc]
            exact h _ (Option.map_eq_some_iff.mpr ⟨r, hr, rfl⟩)
      · obtain ⟨max, hmem, hfilter⟩ := filter_eq_some_of_not_withinRows hfit
        rw [hfilter]
        refine ⟨fun r hr hfits => absurd ?_ hfit, fun _ => .inr ⟨max, hmem, rfl⟩⟩
        unfold collect at hr
        split_ifs at hr with hlast
        · exact Option.some.inj hr ▸ hfits
        · obtain ⟨rest, -, rfl⟩ := Option.map_eq_some_iff.mp hr
          rw [← List.append_assoc] at hfits
          exact withinRows_append_left hfits

end

/-! ## When the pages are the rest of the collection -/

namespace PaginationConfig

/-- The number of rows of the page with an index, from a collection with `count` elements. -/
def pageCount (firstPage : ℕ) (first : ℕ × ℕ) (count : ℕ) (config : PaginationConfig) (i : ℕ) : ℕ :=
  min (config.pageWindow firstPage first i).2 (count - (config.pageWindow firstPage first i).1)

/-- One of the limits ends the fetch: the last page comes after the page limit, or the pages have
more rows than the row limit. -/
def LimitReached (firstPage : ℕ) (first : ℕ × ℕ) (count maxPages : ℕ) (maxRows : Option ℕ)
    (config : PaginationConfig) : Prop :=
  maxPages = 0 ∨
    if config.isLast (config.pageCount firstPage first count 0) then
      ∃ max ∈ maxRows, max < config.pageCount firstPage first count 0
    else
      config.isLast (config.pageCount firstPage first count (maxPages - 1)) = false ∨
        ∃ max ∈ maxRows, max < config.pageCount firstPage first count 0 +
          (count - (config.pageWindow firstPage first 1).1)

/-- The first page is the only one and reaches the end, or the second request starts where the first
one ended (or both are beyond the end). -/
def Seamless (firstPage : ℕ) (first : ℕ × ℕ) (count : ℕ) (config : PaginationConfig) : Prop :=
  if config.isLast (config.pageCount firstPage first count 0) then count ≤ first.1 + first.2
  else
    (config.pageWindow firstPage first 1).1 = first.1 + first.2 ∨
      (count ≤ first.1 + first.2 ∧ count ≤ (config.pageWindow firstPage first 1).1)

variable {firstPage count : ℕ} {first : ℕ × ℕ} {config : PaginationConfig}

lemma pageWindow_succ_snd (k : ℕ) :
    (config.pageWindow firstPage first (k + 1)).2 = config.laterSize first.2 := by
  cases config <;> rfl

/-- A scheme whose first page is not the last one goes on with pages that are not empty. -/
lemma laterSize_pos (hconfig : config.Windowed firstPage)
    (hfirst : config.isLast (config.pageCount firstPage first count 0) = false) :
    0 < config.laterSize first.2 := by
  cases config with
  | linkHeader | cursor | rowCursor | bodyCursor => exact hconfig.elim
  | offset param sizeParam size => exact hconfig.2.1
  | page param start sizeParam size =>
      have hpos : min first.2 (count - first.1) ≠ 0 := of_decide_eq_false hfirst
      have hsize : 0 < first.2 := by omega
      cases sizeParam with
      | none => exact hsize
      | some sp =>
          cases size with
          | none => exact hsize
          | some s => exact hconfig.2.2.2 s rfl

/-- The positions of the later pages never go back. -/
lemma pageWindow_mono {a b : ℕ} (ha : 1 ≤ a) (hab : a ≤ b) :
    (config.pageWindow firstPage first a).1 ≤ (config.pageWindow firstPage first b).1 := by
  obtain ⟨a, rfl⟩ := Nat.exists_eq_add_of_le' ha
  obtain ⟨b, rfl⟩ := Nat.exists_eq_add_of_le' (ha.trans hab)
  cases config with
  | page param start sizeParam size =>
      refine Nat.mul_le_mul_right _ (Nat.sub_le_sub_right ?_ firstPage)
      exact min_le_min_left maxU32 (by omega)
  | linkHeader | cursor | rowCursor | bodyCursor | offset => exact Nat.mul_le_mul_left _ hab

/-- Every page after a last page is a last page. -/
lemma isLast_mono {a b : ℕ} (ha : 1 ≤ a) (hab : a ≤ b)
    (h : config.isLast (config.pageCount firstPage first count a) = true) :
    config.isLast (config.pageCount firstPage first count b) = true := by
  have hpos : (config.pageWindow firstPage first a).1 ≤ (config.pageWindow firstPage first b).1 :=
    pageWindow_mono ha hab
  have hcount : config.pageCount firstPage first count b ≤ config.pageCount firstPage first count a := by
    obtain ⟨a, rfl⟩ := Nat.exists_eq_add_of_le' ha
    obtain ⟨b, rfl⟩ := Nat.exists_eq_add_of_le' (ha.trans hab)
    unfold pageCount
    rw [pageWindow_succ_snd, pageWindow_succ_snd]
    omega
  cases config with
  | linkHeader | cursor | rowCursor | bodyCursor | page =>
      exact decide_eq_true (Nat.eq_zero_of_le_zero (hcount.trans (of_decide_eq_true h).le))
  | offset param sizeParam size => exact decide_eq_true (hcount.trans_lt (of_decide_eq_true h))

/-- A later page that is the last one reaches the end of the collection. -/
lemma end_of_isLast {i : ℕ} (hi : 1 ≤ i) (hsize : 0 < config.laterSize first.2)
    (hconfig : config.Windowed firstPage)
    (h : config.isLast (config.pageCount firstPage first count i) = true) :
    count ≤ (config.pageWindow firstPage first i).1 + (config.pageWindow firstPage first i).2 := by
  obtain ⟨k, rfl⟩ := Nat.exists_eq_add_of_le' hi
  unfold pageCount at h
  rw [pageWindow_succ_snd] at h ⊢
  cases config with
  | linkHeader | cursor | rowCursor | bodyCursor => exact hconfig.elim
  | page param start sizeParam size =>
      have hzero := of_decide_eq_true h
      omega
  | offset param sizeParam size =>
      have hlt := of_decide_eq_true h
      have hdef : (offset param sizeParam size).laterSize first.2 = size := rfl
      omega

/-- A later page that is not the last one is followed by the window where it ends, or, when the page
number does not grow any more, by the same page for ever. -/
lemma pageWindow_next {i : ℕ} (hi : 1 ≤ i) (hconfig : config.Windowed firstPage)
    (h : config.isLast (config.pageCount firstPage first count i) = false) :
    (config.pageWindow firstPage first (i + 1)).1 =
        (config.pageWindow firstPage first i).1 + (config.pageWindow firstPage first i).2 ∨
      ∀ j, i < j → config.isLast (config.pageCount firstPage first count j) = false := by
  obtain ⟨k, rfl⟩ := Nat.exists_eq_add_of_le' hi
  cases config with
  | linkHeader | cursor | rowCursor | bodyCursor => exact hconfig.elim
  | offset param sizeParam size => exact .inl (Nat.mul_succ size (k + 1))
  | page param start sizeParam size =>
      obtain ⟨-, hstart, -, -⟩ := hconfig
      by_cases hmax : start + (k + 1) < maxU32
      · refine .inl ?_
        unfold pageWindow
        dsimp only
        rw [min_eq_right (by omega), min_eq_right (by omega), ← Nat.succ_mul]
        congr 1
        omega
      · refine .inr fun j hj => ?_
        obtain ⟨j, rfl⟩ := Nat.exists_eq_add_of_le' (hi.trans hj.le)
        have hsame : (page param start sizeParam size).pageWindow firstPage first (j + 1) =
            (page param start sizeParam size).pageWindow firstPage first (k + 1) := by
          unfold pageWindow
          dsimp only
          rw [min_eq_left (by omega), min_eq_left (by omega)]
        unfold pageCount at h ⊢
        rw [hsame]
        exact h

end PaginationConfig

section

variable {server : WindowServer} {config : PaginationConfig} {collection : List Json}
  {first : ℕ × ℕ}

lemma length_pageRows (i : ℕ) : (pageRows server config first collection i).length =
    config.pageCount server.firstPage first collection.length i :=
  length_window _ _

lemma lastPage_eq (i : ℕ) : lastPage server config first collection i =
    config.isLast (config.pageCount server.firstPage first collection.length i) := by
  rw [lastPage, length_pageRows]

/-- The pages put together, when the first page is the last one. -/
lemma collect_first {maxPages : ℕ} (hlast : lastPage server config first collection 0 = true) :
    collect (pageRows server config first collection) (lastPage server config first collection)
      maxPages 0 = if maxPages ≠ 0 then some (window collection first) else none := by
  cases maxPages with
  | zero => rfl
  | succ k =>
      rw [collect, if_pos hlast, if_pos k.succ_ne_zero]
      rfl

/-- The pages put together, when there is a second page: the first page, and the rest of the
collection from the second one on. -/
lemma collect_later (hconfig : config.Windowed server.firstPage) {maxPages : ℕ}
    (hfirst : lastPage server config first collection 0 = false) :
    collect (pageRows server config first collection) (lastPage server config first collection)
      maxPages 0 =
      if maxPages ≠ 0 ∧ lastPage server config first collection (maxPages - 1) = true then
        some (window collection first ++
          collection.drop (config.pageWindow server.firstPage first 1).1)
      else none := by
  cases maxPages with
  | zero => rfl
  | succ k =>
      rw [collect, if_neg (by rw [hfirst]; decide), Nat.add_sub_cancel, Nat.zero_add]
      have hmono : ∀ a b, 1 ≤ a → a ≤ b → lastPage server config first collection a = true →
          lastPage server config first collection b = true := by
        intro a b ha hab h
        rw [lastPage_eq] at h ⊢
        exact PaginationConfig.isLast_mono ha hab h
      have hsome := collect_isSome_iff_of_mono (pageRows server config first collection) k hmono
      rw [Nat.add_sub_cancel_left] at hsome
      cases hcollect : collect (pageRows server config first collection)
          (lastPage server config first collection) k 1 with
      | none =>
          rw [hcollect] at hsome
          rw [Option.map_none, if_neg]
          rintro ⟨-, hlast⟩
          have hk : k ≠ 0 := fun h => by rw [h, hfirst] at hlast; cases hlast
          exact absurd (hsome.mpr ⟨Nat.pos_of_ne_zero hk, hlast⟩) (by decide)
      | some r =>
          rw [hcollect] at hsome
          rw [Option.map_some, if_pos ⟨k.succ_ne_zero, (hsome.mp rfl).2⟩]
          rw [lastPage_eq] at hfirst
          have hsize := PaginationConfig.laterSize_pos hconfig hfirst
          have hdrop : r = collection.drop (config.pageWindow server.firstPage first 1).1 := by
            refine collect_eq_drop (fun j _ => rfl) (fun j hj hlast => ?_) (fun j hj hlast => ?_)
              hcollect
            · rw [lastPage_eq] at hlast
              exact PaginationConfig.end_of_isLast hj hsize hconfig hlast
            · rw [lastPage_eq] at hlast
              refine (PaginationConfig.pageWindow_next hj hconfig hlast).imp_right fun h j' hj' => ?_
              rw [lastPage_eq]
              exact h j' hj'
          rw [hdrop]
          rfl

/-! ## Completeness -/

/-- The fetch gives every element of the collection from a position to the end exactly once, in
order, or fails with one of the limits. -/
def CompleteFrom (spec : HttpTableSpec) (maxPages : ℕ) (maxRows : Option ℕ) (collection : List Json)
    (position : ℕ) (result : Except DataFusionError (List Json)) : Prop :=
  result = .ok (collection.drop position) ∨ Refused spec maxPages maxRows result

lemma not_refused_ok {spec : HttpTableSpec} {maxPages : ℕ} {maxRows : Option ℕ}
    {rows : List Json} : ¬ Refused spec maxPages maxRows (.ok rows) := by
  rintro (h | ⟨max, -, h⟩) <;> cases h

lemma not_withinRows_iff {maxRows : Option ℕ} {rows : List Json} {n : ℕ} (hn : rows.length = n) :
    ¬ WithinRows maxRows rows ↔ ∃ max ∈ maxRows, max < n := by
  subst hn
  unfold WithinRows
  push Not
  rfl

/-- A fetch is complete exactly when the pages, put together, are the rest of the collection, or a
limit is reached before. -/
lemma completeFrom_iff {spec : HttpTableSpec} {maxPages : ℕ} {maxRows : Option ℕ}
    {position : ℕ} {pages : Option (List Json)} {result : Except DataFusionError (List Json)}
    (hok : ∀ r, pages = some r → WithinRows maxRows r → result = .ok r)
    (hrefused : (∀ r, pages = some r → ¬ WithinRows maxRows r) → Refused spec maxPages maxRows result) :
    CompleteFrom spec maxPages maxRows collection position result ↔
      ∀ r, pages = some r → WithinRows maxRows r → r = collection.drop position := by
  constructor
  · intro h r hr hwithin
    rw [hok r hr hwithin] at h
    rcases h with h | h
    · exact Except.ok.inj h
    · exact absurd h not_refused_ok
  · intro h
    by_cases hexists : ∃ r, pages = some r ∧ WithinRows maxRows r
    · obtain ⟨r, hr, hwithin⟩ := hexists
      exact .inl (h r hr hwithin ▸ hok r hr hwithin)
    · exact .inr (hrefused fun r hr hwithin => hexists ⟨r, hr, hwithin⟩)

lemma forall_ite_some_iff {α : Type} {p : Prop} [Decidable p] {x y : α} {P : α → Prop} :
    (∀ r, (if p then some x else none) = some r → P r → r = y) ↔ (¬ p ∨ ¬ P x) ∨ x = y := by
  split_ifs with hp
  · refine ⟨fun h => ?_, ?_⟩
    · by_cases hx : P x
      · exact .inr (h x rfl hx)
      · exact .inl (.inr hx)
    · rintro ((h | h) | rfl) r hr hP
      · exact absurd hp h
      · exact absurd (Option.some.inj hr ▸ hP) h
      · exact (Option.some.inj hr).symm
  · exact ⟨fun _ => .inl (.inl hp), fun _ r hr => by cases hr⟩

/-- **Completeness.**  A fetch without a row limit of its own, from a server that answers with the
asked windows of a collection, gives the elements from the first requested position to the end
exactly once or fails with a limit, exactly when a limit is reached or the windows are seamless. -/
theorem fetchRows_complete_iff {U : Type} {client : Client U} {spec : HttpTableSpec}
    (hpagination : spec.pagination = some config) (hconfig : config.Windowed server.firstPage)
    {params : Params} {explode : OrderedMap String (List String)} {maxPages maxRows : Option ℕ}
    {send : ℕ → Request U → Except DataFusionError Response}
    (hserves : server.Serves client spec config (spec.selectRequest params) explode send
      (spec.firstParams params) collection)
    (hmax : maxPages.getD defaultMaxPages ≤ maxU32)
    (hfirst : server.window? (spec.firstParams params) config = some first) :
    CompleteFrom spec (maxPages.getD defaultMaxPages) maxRows collection first.1
        (client.fetchRows spec maxPages maxRows none send params explode) ↔
      config.LimitReached server.firstPage first collection.length
          (maxPages.getD defaultMaxPages) maxRows ∨
        config.Seamless server.firstPage first collection.length := by
  have hloop := fetchLoop_windowed hpagination hconfig maxRows hserves hmax
    { params := spec.firstParams params } (Nat.zero_add _) rfl rfl (fun _ _ => rfl) hfirst
    (fun max _ => max.zero_le)
  have hfetch : client.fetchRows spec maxPages maxRows none send params explode =
      client.fetchLoop spec (spec.selectRequest params) explode (maxPages.getD defaultMaxPages)
        maxRows none send (maxPages.getD defaultMaxPages)
        { params := spec.firstParams params } := by
    unfold Client.fetchRows
    dsimp only
    cases client.fetchLoop spec (spec.selectRequest params) explode (maxPages.getD defaultMaxPages)
      maxRows none send (maxPages.getD defaultMaxPages) { params := spec.firstParams params } <;> rfl
  rw [hfetch, completeFrom_iff hloop.1 hloop.2]
  unfold PaginationConfig.LimitReached PaginationConfig.Seamless
  cases hlast : lastPage server config first collection 0 with
  | true =>
      have hcount : (window collection first).length =
          config.pageCount server.firstPage first collection.length 0 := length_window _ _
      rw [collect_first hlast, forall_ite_some_iff, not_withinRows_iff hcount, window_eq_drop_iff,
        not_ne_iff]
      rw [lastPage_eq] at hlast
      rw [if_pos hlast, if_pos hlast]
  | false =>
      have hcount : (window collection first ++
          collection.drop (config.pageWindow server.firstPage first 1).1).length =
          config.pageCount server.firstPage first collection.length 0 +
            (collection.length - (config.pageWindow server.firstPage first 1).1) := by
        rw [List.length_append, length_window, List.length_drop]
        rfl
      rw [collect_later hconfig hlast, forall_ite_some_iff, not_withinRows_iff hcount,
        window_append_drop_iff, not_and_or, not_ne_iff, Bool.not_eq_true, lastPage_eq,
        or_assoc (a := maxPages.getD defaultMaxPages = 0)]
      rw [lastPage_eq] at hlast
      rw [if_neg (by rw [hlast]; decide), if_neg (by rw [hlast]; decide)]

end

/-! ### A collection of two elements -/

/-- A URL as its text and its query pairs. -/
def pairClient (parseJson : String → Except String Json) :
    Client (String × List (String × String)) where
  baseUrl := ("https://api.example.com", [])
  headers := []
  authBody := []
  parseUrl := fun u => .ok (u, [])
  joinUrl := fun base path => .ok (base.1 ++ "/" ++ path, base.2)
  appendPairs := fun url pairs => (url.1, url.2 ++ pairs)
  checkTarget := fun _ => .ok ()
  parseJson := parseJson
  statusText := toString

def twoElements : List Json := [.num "1", .num "2"]

def parseElements (text : String) : Except String Json :=
  if text = "[]" then .ok (.arr [])
  else if text = "[1]" then .ok (.arr [.num "1"])
  else if text = "[2]" then .ok (.arr [.num "2"])
  else if text = "[1,2]" then .ok (.arr [.num "1", .num "2"])
  else .error "expected value"

lemma parseElements_print (w : ℕ × ℕ) :
    parseElements (Json.arr (window twoElements w)).print = .ok (.arr (window twoElements w)) := by
  have h0 : (Json.arr []).print = "[]" := by decide
  have h1 : (Json.arr [.num "1"]).print = "[1]" := by decide
  have h2 : (Json.arr [.num "2"]).print = "[2]" := by decide
  have h12 : (Json.arr [.num "1", .num "2"]).print = "[1,2]" := by decide
  obtain ⟨_ | _ | o, _ | _ | n⟩ := w <;>
    simp [window, twoElements, parseElements, h0, h1, h2, h12]

/-- A server that reads decimal numbers, with pages from 0. -/
def decimalServer : WindowServer where
  read := fun s => if Text.isDigits s.toList then some (Text.digitsVal s.toList) else none
  read_toString := fun n => by
    rw [if_pos (Text.isDigits_toString n), Text.digitsVal_toString]
  firstPage := 0
  defaultSize := 1

def itemsTable : HttpTableSpec where
  name := "items"
  endpoint := "items"
  pagination := some (.offset "offset" "limit" 1)

/-- The server of the two elements. -/
def sendElements (_ : ℕ) (req : Request (String × List (String × String))) :
    Except DataFusionError Response :=
  match (req.url.2.lookup "offset").bind decimalServer.read,
    (req.url.2.lookup "limit").bind decimalServer.read with
  | some offset, some limit => .ok
      { status := 200, headers := [], text := .ok (Json.arr (window twoElements (offset, limit))).print }
  | _, _ => .ok { status := 400, headers := [], text := .ok "" }

lemma buildUrl_elements (params : Params) :
    (pairClient parseElements).buildUrl "items" params none .empty =
      .ok ("https://api.example.com/items", params.entries) := by
  have hplain : '\x7b' ∉ "items".toList := by decide
  have hpath : Text.trimStartMatches "/" "items" = "items" := by decide
  have htext : "https://api.example.com" ++ "/" ++ "items" = "https://api.example.com/items" := by
    decide
  unfold Client.buildUrl
  rw [substitute_of_plain hplain]
  dsimp only
  rw [hpath, ← htext]
  change Except.ok ((pairClient parseElements).withPairs _ (params.entries ++ [])) = _
  rw [List.append_nil]
  unfold Client.withPairs
  split_ifs with hnil
  · rw [hnil]
    rfl
  · rfl

lemma serves_elements {shape : RequestShape} (hendpoint : shape.endpoint = "items")
    (hbody : shape.body = none) (first : Params) :
    decimalServer.Serves (pairClient parseElements) itemsTable (.offset "offset" "limit" 1) shape
      .empty sendElements first twoElements := by
  intro st w hurl _ _ hw
  obtain ⟨offset, hoffset, hmap⟩ := Option.bind_eq_some_iff.mp hw
  obtain ⟨size, hsize, rfl⟩ := Option.map_eq_some_iff.mp hmap
  refine ⟨⟨shape.method, ("https://api.example.com/items", st.params.entries), [], none, st.params⟩,
    ⟨200, [], .ok (Json.arr (window twoElements (offset, size))).print⟩, ?_, ?_, ?_⟩
  · unfold Client.request
    rw [hurl, hendpoint, hbody]
    dsimp only
    rw [Option.map_none, buildUrl_elements]
    rfl
  · have hread : (st.params.entries.lookup "offset").bind decimalServer.read = some offset := hoffset
    have hread' : (st.params.entries.lookup "limit").bind decimalServer.read = some size := hsize
    unfold sendElements
    dsimp only
    rw [hread, hread']
  · have hparse := parseElements_print (offset, size)
    unfold Client.responseRows Client.responseBody
    simp only [pairClient, Except.mapError, bind, Except.bind, hparse]
    rfl

/-- Without a bound parameter the windows are seamless: both elements, in three pages. -/
theorem fetchRows_elements_complete :
    CompleteFrom itemsTable defaultMaxPages none twoElements 0
      ((pairClient parseElements).fetchRows itemsTable none none none sendElements .empty .empty) := by
  have hseamless : (PaginationConfig.offset "offset" "limit" 1).Seamless 0 (0, 1) 2 := by
    rw [PaginationConfig.Seamless, if_neg (by decide)]
    exact .inl rfl
  have hwindowed : (PaginationConfig.offset "offset" "limit" 1).Windowed decimalServer.firstPage :=
    ⟨by decide, le_rfl, by decide⟩
  exact (fetchRows_complete_iff rfl hwindowed (serves_elements rfl rfl _) (by decide)
    (by decide)).mpr (.inr hseamless)

/-- A filter `offset = 1`: the second request asks for the same element again. -/
theorem fetchRows_elements_repeats :
    decimalServer.Serves (pairClient parseElements) itemsTable (.offset "offset" "limit" 1)
        (itemsTable.selectRequest (OrderedMap.empty.insert "offset" "1")) .empty sendElements
        (itemsTable.firstParams (OrderedMap.empty.insert "offset" "1")) twoElements ∧
      decimalServer.window? (itemsTable.firstParams (OrderedMap.empty.insert "offset" "1"))
        (.offset "offset" "limit" 1) = some (1, 1) ∧
      ¬ CompleteFrom itemsTable defaultMaxPages none twoElements 1
        ((pairClient parseElements).fetchRows itemsTable none none none sendElements
          (OrderedMap.empty.insert "offset" "1") .empty) := by
  have htexts : ((pairClient parseElements).fetchRows itemsTable none none none sendElements
      (OrderedMap.empty.insert "offset" "1") .empty).toOption.map (List.map Json.print) =
        some ["2", "2"] := by
    decide
  refine ⟨serves_elements rfl rfl _, by decide, ?_⟩
  rintro (h | h | ⟨max, hmax, -⟩)
  · rw [h] at htexts
    exact absurd htexts (by decide)
  · rw [h] at htexts
    cases htexts
  · cases hmax

end Http
end Pawrly
