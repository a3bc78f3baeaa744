import Pawrly.Http.WindowPaging
import Mathlib.Data.List.Chain

/-!
# Progress of the page loop

Two requests in a row must not be the same.  The loop itself stops only on an unchanged cursor of
the `cursor` scheme; for every scheme `Client.Advances` says what a step has to bring so that the
next request is another one, and a run all of whose steps bring it never repeats a request.
-/

namespace Pawrly
namespace Http

/-! ## The requests of a run -/

/-- What tells two requests of a run apart: their URL and their body.  Method and headers are the
same for all of them. -/
def Request.wire {U : Type} (req : Request U) : U × Option String := (req.url, req.body)

/-- No request is the same as the one before it. -/
def Progresses {U : Type} (requests : List (Request U)) : Prop :=
  (requests.map Request.wire).IsChain (· ≠ ·)

section

variable {U : Type} (client : Client U) (spec : HttpTableSpec) (shape : RequestShape)
  (explode : OrderedMap String (List String)) (maxRows limit : Option ℕ)
  (send : ℕ → Request U → Except DataFusionError Response)

/-- The requests that the loop sends, in order. -/
def Client.sentRequests : ℕ → FetchState U → List (Request U)
  | 0, _ => []
  | left + 1, st =>
      match client.request spec shape explode st with
      | .error _ => []
      | .ok req =>
          match send st.pageIndex req with
          | .error _ => [req]
          | .ok resp =>
              match client.page spec maxRows limit st resp with
              | .ok (.next st') => req :: Client.sentRequests left st'
              | _ => [req]

/-- The result of the loop depends on the answers to these requests only. -/
lemma fetchLoop_congr {maxPages left : ℕ} {st : FetchState U}
    {send' : ℕ → Request U → Except DataFusionError Response}
    (h : ∀ req ∈ client.sentRequests spec shape explode maxRows limit send left st,
      ∀ i, send i req = send' i req) :
    client.fetchLoop spec shape explode maxPages maxRows limit send left st =
      client.fetchLoop spec shape explode maxPages maxRows limit send' left st := by
  induction left generalizing st with
  | zero => rfl
  | succ left ih =>
      unfold Client.sentRequests at h
      unfold Client.fetchLoop
      cases hreq : client.request spec shape explode st with
      | error e => rfl
      | ok req =>
          rw [hreq] at h
          have hmem : send st.pageIndex req = send' st.pageIndex req := by
            refine h req ?_ _
            dsimp only
            split
            · exact List.mem_cons_self
            · split <;> exact List.mem_cons_self
          show (send st.pageIndex req >>= _) = (send' st.pageIndex req >>= _)
          rw [← hmem]
          cases hsend : send st.pageIndex req with
          | error e => rfl
          | ok resp =>
              simp only [hsend] at h
              show (client.page spec maxRows limit st resp >>= _) =
                (client.page spec maxRows limit st resp >>= _)
              cases hpage : client.page spec maxRows limit st resp with
              | error e => rfl
              | ok outcome =>
                  cases outcome with
                  | done rows => rfl
                  | next st' =>
                      simp only [hpage] at h
                      exact ih fun req' hreq' => h req' (List.mem_cons_of_mem _ hreq')

/-! ## Steps that advance -/

/-- The path and the query pairs of a binding. -/
def RequestShape.substituted (params : Params) : String × List (String × String) :=
  substitute (shape.body.map RequestBody.template) params.entries shape.endpoint

/-- A query pair of one binding has another value in the other one. -/
def PairChanges (params params' : Params) : Prop :=
  (shape.substituted params).1 = (shape.substituted params').1 ∧ ∃ k v,
    ((k, v) ∈ (shape.substituted params).2 ∧ params'.get? k ≠ some v) ∨
      ((k, v) ∈ (shape.substituted params').2 ∧ params.get? k ≠ some v)

/-- The text of a body. -/
def Client.bodyText (params : Params) (cursor : Option String) :
    Except DataFusionError (Option String) :=
  (client.requestBody spec shape.body params cursor).map (Option.map Prod.fst)

/-- A parameter that the scheme sets fills a placeholder instead of being a query pair, and the URL
or the body that it is written into changes. -/
def Client.PlaceholderChanges (config : PaginationConfig) (params params' : Params) : Prop :=
  (∃ k ∈ config.controls, ∃ v, params'.get? k = some v ∧ (k, v) ∉ (shape.substituted params').2) ∧
    (client.buildUrl shape.endpoint params (shape.body.map RequestBody.template) explode ≠
        client.buildUrl shape.endpoint params' (shape.body.map RequestBody.template) explode ∨
      client.bodyText spec shape params none ≠ client.bodyText spec shape params' none)

/-- The JSON value that a body cursor is written into. -/
def Client.bodyValue (params : Params) : Option Json :=
  match shape.body, client.authBody with
  | some body, [] => (client.parseJson (client.renderBody spec body params)).toOption
  | some body, fields =>
      if body.kind ≠ .json then none
      else
        match client.parseJson (renderJsonBody client.parseJson body.template params spec.params) with
        | .ok (.obj own) => some (.obj (Json.extendFields own (customBodyObject fields)))
        | _ => none
  | none, _ => none

/-- The body takes a new cursor: it is JSON, nothing blocks the path, and the cursor is not the one
sent before (or already in the text of the first body). -/
def Client.CursorCarried (st : FetchState U) (req : Request U) (cursor : String) : Prop :=
  ∃ v w, client.bodyValue spec shape st.params = some v ∧
    spec.injectCursor (some cursor) v = some w ∧
    match st.bodyCursor with
    | some sent => cursor ≠ sent
    | none => req.body ≠ some w.print

/-- What a page has to bring so that the next request is another one. -/
def Client.Advances (config : PaginationConfig) (st : FetchState U) (req : Request U) :
    NextPage → Prop
  | .url u => client.parseUrl u ≠ .ok req.url
  | .params params =>
      PairChanges shape st.params params ∨
        client.PlaceholderChanges spec shape explode config st.params params
  | .bodyCursor cursor => client.CursorCarried spec shape st req cursor

/-- Every page of the run that is followed by another request advances. -/
def Client.StepsAdvance (config : PaginationConfig) : ℕ → FetchState U → Prop
  | 0, _ => True
  | left + 1, st => ∀ req resp st', client.request spec shape explode st = .ok req →
      send st.pageIndex req = .ok resp → client.page spec maxRows limit st resp = .ok (.next st') →
      0 < left →
      (∀ body rows next, client.responseBody spec resp = .ok body →
        spec.response.extractRows body = .ok rows →
        nextPage config st.params body resp.headers rows st.pageIndex = some next →
        client.Advances spec shape explode config st req next) ∧
      Client.StepsAdvance config left st'

/-! ## One step -/

variable {client spec shape explode maxRows limit send}

/-- A page that is followed by another one. -/
lemma page_next {st st' : FetchState U} {resp : Response}
    (h : client.page spec maxRows limit st resp = .ok (.next st')) :
    ∃ config body rows next, spec.pagination = some config ∧
      client.responseBody spec resp = .ok body ∧ spec.response.extractRows body = .ok rows ∧
      nextPage config st.params body resp.headers rows st.pageIndex = some next ∧
      client.advance st (st.rows ++ rows) next = .ok st' := by
  unfold Client.page at h
  split_ifs at h with h404
  · cases h
  · obtain ⟨body, hbody, h⟩ := Fallible.bind_eq_ok.mp h
    obtain ⟨rows, hrows, h⟩ := Fallible.bind_eq_ok.mp h
    dsimp only at h
    split_ifs at h with hlimit
    · cases h
    · cases hmax : maxRows.filter (· < (st.rows ++ rows).length) with
      | some max =>
          rw [hmax] at h
          cases h
      | none =>
          rw [hmax] at h
          dsimp only at h
          cases hnext : spec.pagination.bind fun config =>
              nextPage config st.params body resp.headers rows st.pageIndex with
          | none =>
              rw [hnext] at h
              cases h
          | some next =>
              rw [hnext] at h
              obtain ⟨config, hconfig, hnextPage⟩ := Option.bind_eq_some_iff.mp hnext
              obtain ⟨st₁, hst₁, h⟩ := Fallible.bind_eq_ok.mp h
              cases h
              exact ⟨config, body, rows, next, hconfig, hbody, hrows, hnextPage, hst₁⟩

/-- The URL and the body of a request. -/
lemma request_spec {st : FetchState U} {req : Request U}
    (h : client.request spec shape explode st = .ok req) :
    (match st.url with
      | some u => req.url = u
      | none => client.buildUrl shape.endpoint st.params (shape.body.map RequestBody.template)
          explode = .ok req.url) ∧
      client.bodyText spec shape st.params st.bodyCursor = .ok req.body := by
  unfold Client.request at h
  cases hst : st.url with
  | some u =>
      rw [hst] at h
      obtain ⟨url, hurl, h⟩ := Fallible.bind_eq_ok.mp h
      cases hurl
      obtain ⟨body, hbody, h⟩ := Fallible.bind_eq_ok.mp h
      cases h
      exact ⟨rfl, by simp [Client.bodyText, hbody, Except.map]⟩
  | none =>
      rw [hst] at h
      obtain ⟨url, hurl, h⟩ := Fallible.bind_eq_ok.mp h
      obtain ⟨body, hbody, h⟩ := Fallible.bind_eq_ok.mp h
      cases h
      exact ⟨hurl, by simp [Client.bodyText, hbody, Except.map]⟩

lemma mem_substitute {template : Option String} {params : List (String × String)} {path : String}
    {e : String × String} (h : e ∈ (substitute template params path).2) : e ∈ params := by
  induction params generalizing path with
  | nil => simp [substitute] at h
  | cons e' params ih =>
      unfold substitute at h
      split_ifs at h with hpath hbody
      · exact List.mem_cons_of_mem _ (ih h)
      · exact List.mem_cons_of_mem _ (ih h)
      · rcases List.mem_cons.mp h with rfl | hmem
        · exact List.mem_cons_self
        · exact List.mem_cons_of_mem _ (ih hmem)

/-- The query pairs of a binding are its own values. -/
lemma get?_of_mem_substituted {params : Params} {k v : String}
    (h : (k, v) ∈ (shape.substituted params).2) : params.get? k = some v :=
  OrderedMap.mem_entries.mp (mem_substitute h)

/-- Another value of a query pair gives another URL, when the URL library keeps the pairs apart. -/
lemma buildUrl_ne_of_pairChanges
    (hpairs : ∀ u ps ps', client.withPairs u ps = client.withPairs u ps' → ps = ps')
    {params params' : Params} (h : PairChanges shape params params') {u u' : U}
    (hu : client.buildUrl shape.endpoint params (shape.body.map RequestBody.template) explode =
      .ok u)
    (hu' : client.buildUrl shape.endpoint params' (shape.body.map RequestBody.template) explode =
      .ok u') : u' ≠ u := by
  obtain ⟨hpath, k, v, hchange⟩ := h
  have hne : (shape.substituted params).2 ≠ (shape.substituted params').2 := by
    intro heq
    rcases hchange with ⟨hmem, hget⟩ | ⟨hmem, hget⟩
    · exact hget (get?_of_mem_substituted (heq ▸ hmem))
    · exact hget (get?_of_mem_substituted (heq ▸ hmem))
  unfold RequestShape.substituted at hpath hne
  obtain ⟨joined, hjoined, hu⟩ := Fallible.bind_eq_ok.mp hu
  obtain ⟨_, _, hu⟩ := Fallible.bind_eq_ok.mp hu
  obtain ⟨joined', hjoined', hu'⟩ := Fallible.bind_eq_ok.mp hu'
  obtain ⟨_, _, hu'⟩ := Fallible.bind_eq_ok.mp hu'
  rw [hpath, hjoined'] at hjoined
  cases hjoined
  cases hu
  cases hu'
  intro heq
  exact hne (List.append_cancel_right (hpairs _ _ _ heq.symm))

lemma bodyText_of_path_none (hpath : spec.bodyCursorPath = none) (params : Params)
    (cursor : Option String) :
    client.bodyText spec shape params cursor = client.bodyText spec shape params none := by
  have hinject : spec.injectCursor cursor = spec.injectCursor none := by
    funext v
    cases cursor <;> simp [HttpTableSpec.injectCursor, hpath]
  simp only [Client.bodyText, Client.requestBody, hinject]

/-- The text of a body that the cursor is written into. -/
lemma bodyText_injected {params : Params} {cursor : Option String} {v w : Json}
    (hv : client.bodyValue spec shape params = some v) (hw : spec.injectCursor cursor v = some w) :
    client.bodyText spec shape params cursor = .ok (some w.print) := by
  unfold Client.bodyValue at hv
  unfold Client.bodyText Client.requestBody
  cases hbody : shape.body with
  | none => simp [hbody] at hv
  | some body =>
      cases hauth : client.authBody with
      | nil =>
          simp only [hbody, hauth] at hv ⊢
          simp [hv, hw, Except.map]
      | cons f fs =>
          simp only [hbody, hauth] at hv ⊢
          split_ifs at hv with hkind
          rw [if_neg hkind]
          split at hv
          · next own hparse =>
              cases hv
              simp [hparse, hw, Except.map]
          · cases hv

/-- What the loop keeps: an absolute URL stands only for a next link, a cursor in the body only for
the body-cursor scheme. -/
def FetchState.Shaped (spec : HttpTableSpec) (st : FetchState U) : Prop :=
  (st.url ≠ none → spec.pagination = some .linkHeader) ∧
    (st.bodyCursor ≠ none → spec.bodyCursorPath ≠ none)

/-- The kind of the next page is that of the scheme. -/
lemma nextPage_kind {config : PaginationConfig} {params : Params} {body : Json}
    {headers : List (String × String)} {rows : List Json} {i : ℕ} {next : NextPage}
    (h : nextPage config params body headers rows i = some next) :
    match next with
    | .url _ => config = .linkHeader
    | .params _ => config ≠ .linkHeader ∧ ∀ path nextPath, config ≠ .bodyCursor path nextPath
    | .bodyCursor _ => ∃ path nextPath, config = .bodyCursor path nextPath := by
  cases config with
  | linkHeader =>
      obtain ⟨u, -, rfl⟩ := Option.map_eq_some_iff.mp h
      rfl
  | cursor nextPath param =>
      unfold nextPage at h
      split_ifs at h
      obtain ⟨cursor, -, h⟩ := Option.bind_eq_some_iff.mp h
      split_ifs at h
      cases h
      simp
  | rowCursor param field morePath =>
      unfold nextPage at h
      dsimp only at h
      split_ifs at h
      obtain ⟨cursor, -, rfl⟩ := Option.map_eq_some_iff.mp h
      simp
  | page param start sizeParam size =>
      unfold nextPage at h
      dsimp only at h
      split_ifs at h
      cases sizeParam <;> cases size <;> cases h <;> simp
  | offset param sizeParam size =>
      unfold nextPage at h
      dsimp only at h
      split_ifs at h
      cases h
      simp
  | bodyCursor path nextPath =>
      unfold nextPage at h
      split_ifs at h
      obtain ⟨cursor, -, rfl⟩ := Option.map_eq_some_iff.mp h
      exact ⟨path, nextPath, rfl⟩


lemma Shaped.advance {st st' : FetchState U} (hst : st.Shaped spec) {config : PaginationConfig}
    (hpagination : spec.pagination = some config) {all : List Json} {body : Json}
    {headers : List (String × String)} {rows : List Json} {next : NextPage}
    (hnext : nextPage config st.params body headers rows st.pageIndex = some next)
    (h : client.advance st all next = .ok st') : st'.Shaped spec := by
  have hkind := nextPage_kind hnext
  cases next with
  | params p =>
      cases h
      exact ⟨fun hurl => absurd rfl hurl, hst.2⟩
  | bodyCursor c =>
      cases h
      obtain ⟨path, nextPath, rfl⟩ := hkind
      exact ⟨fun hurl => absurd rfl hurl, fun _ => by simp [HttpTableSpec.bodyCursorPath, hpagination]⟩
  | url u =>
      obtain ⟨parsed, -, h⟩ := Fallible.bind_eq_ok.mp h
      obtain ⟨_, -, h⟩ := Fallible.bind_eq_ok.mp h
      cases h
      exact ⟨fun _ => by rw [hpagination, hkind], hst.2⟩

/-- Step: after a page that advances, the next request is another one. -/
theorem request_ne_of_advances
    (hpairs : ∀ u ps ps', client.withPairs u ps = client.withPairs u ps' → ps = ps')
    {st st' : FetchState U} (hst : st.Shaped spec) {config : PaginationConfig}
    (hpagination : spec.pagination = some config) {all : List Json} {body : Json}
    {headers : List (String × String)} {rows : List Json} {next : NextPage}
    (hnext : nextPage config st.params body headers rows st.pageIndex = some next)
    (hadvance : client.advance st all next = .ok st') {req req' : Request U}
    (hreq : client.request spec shape explode st = .ok req)
    (hreq' : client.request spec shape explode st' = .ok req')
    (hadvances : client.Advances spec shape explode config st req next) :
    req.wire ≠ req'.wire := by
  obtain ⟨hurl, hbody⟩ := request_spec hreq
  obtain ⟨hurl', hbody'⟩ := request_spec hreq'
  have hkind := nextPage_kind hnext
  intro hwire
  obtain ⟨hsameUrl, hsameBody⟩ := Prod.mk.inj hwire
  cases next with
  | url u =>
      obtain ⟨parsed, hparsed, h⟩ := Fallible.bind_eq_ok.mp hadvance
      obtain ⟨_, -, h⟩ := Fallible.bind_eq_ok.mp h
      cases h
      have hparse : client.parseUrl u = .ok parsed := by
        cases hu : client.parseUrl u with
        | error e => simp [hu, Except.mapError] at hparsed
        | ok v => simpa [hu, Except.mapError] using hparsed
      exact hadvances (hparse.trans (by rw [hsameUrl, hurl']))
  | params p =>
      cases hadvance
      have hnone : st.url = none := by
        by_contra hne
        exact hkind.1 (Option.some.inj (hpagination.symm.trans (hst.1 hne)))
      have hpath : spec.bodyCursorPath = none := by
        cases config with
        | bodyCursor path nextPath => exact absurd rfl (hkind.2 path nextPath)
        | _ => simp [HttpTableSpec.bodyCursorPath, hpagination]
      rw [hnone] at hurl
      dsimp only at hurl hurl' hbody'
      rcases hadvances with hpair | ⟨-, hplace⟩
      · exact buildUrl_ne_of_pairChanges hpairs hpair hurl hurl' hsameUrl.symm
      · rcases hplace with hne | hne
        · exact hne (by rw [hurl, hurl', hsameUrl])
        · rw [bodyText_of_path_none hpath] at hbody hbody'
          exact hne (by rw [hbody, hbody', hsameBody])
  | bodyCursor cursor =>
      cases hadvance
      obtain ⟨v, w, hv, hw, hsent⟩ := hadvances
      have htext : client.bodyText spec shape st.params (some cursor) = .ok (some w.print) :=
        bodyText_injected hv hw
      have hprinted : some w.print = req.body :=
        (Except.ok.inj (htext.symm.trans hbody')).trans hsameBody.symm
      cases hcursor : st.bodyCursor with
      | none =>
          rw [hcursor] at hsent
          exact hsent hprinted.symm
      | some sent =>
          rw [hcursor] at hsent hbody
          obtain ⟨c, hc, hinject⟩ := Option.bind_eq_some_iff.mp hw
          cases hc
          obtain ⟨path, hpath, hset⟩ := Option.bind_eq_some_iff.mp hinject
          have hsome : (v.setAtPath path (.str sent)).isSome = true :=
            (Json.setAt_isSome _ (.str cursor) _ v).trans (Option.isSome_of_mem hset)
          obtain ⟨w', hw'⟩ := Option.isSome_iff_exists.mp hsome
          have hwritten : spec.injectCursor (some sent) v = some w' := by
            simp [HttpTableSpec.injectCursor, hpath, hw']
          have htext' : client.bodyText spec shape st.params (some sent) = .ok (some w'.print) :=
            bodyText_injected hv hwritten
          have hprint : some w.print = some w'.print :=
            hprinted.trans (Except.ok.inj (hbody.symm.trans htext'))
          exact hsent (Json.print_setAt_injective hset hw' (Option.some.inj hprint))

/-! ## The run -/

lemma sentRequests_head {left : ℕ} {st : FetchState U} {req : Request U} {rest : List (Request U)}
    (h : client.sentRequests spec shape explode maxRows limit send left st = req :: rest) :
    0 < left ∧ client.request spec shape explode st = .ok req := by
  cases left with
  | zero => cases h
  | succ left =>
      refine ⟨left.succ_pos, ?_⟩
      unfold Client.sentRequests at h
      cases hreq : client.request spec shape explode st with
      | error e => simp [hreq] at h
      | ok req' =>
          simp only [hreq] at h
          split at h
          · cases h
            rfl
          · split at h <;> cases h <;> rfl

/-- Run: when every page that is followed by another request advances, no request is sent twice in
a row. -/
theorem sentRequests_progress
    (hpairs : ∀ u ps ps', client.withPairs u ps = client.withPairs u ps' → ps = ps')
    {config : PaginationConfig} (hpagination : spec.pagination = some config) {left : ℕ}
    {st : FetchState U} (hst : st.Shaped spec)
    (hsteps : client.StepsAdvance spec shape explode maxRows limit send config left st) :
    Progresses (client.sentRequests spec shape explode maxRows limit send left st) := by
  induction left generalizing st with
  | zero => exact List.isChain_nil
  | succ left ih =>
      unfold Client.sentRequests
      cases hreq : client.request spec shape explode st with
      | error e => exact List.isChain_nil
      | ok req =>
          cases hsend : send st.pageIndex req with
          | error e => simp [Progresses, hsend]
          | ok resp =>
              cases hpage : client.page spec maxRows limit st resp with
              | error e => simp [Progresses, hsend, hpage]
              | ok outcome =>
                  cases outcome with
                  | done rows => simp [Progresses, hsend, hpage]
                  | next st' =>
                      simp only [hsend, hpage]
                      obtain ⟨config', body, rows, next, hconfig, hbody, hrows, hnext, hadvance⟩ :=
                        page_next hpage
                      cases hpagination.symm.trans hconfig
                      have hshaped := Shaped.advance hst hpagination hnext hadvance
                      cases hrest : client.sentRequests spec shape explode maxRows limit send left st' with
                      | nil => simp [Progresses]
                      | cons req' rest =>
                          obtain ⟨hleft, hreq'⟩ := sentRequests_head hrest
                          obtain ⟨hadvances, hsteps'⟩ := hsteps req resp st' hreq hsend hpage hleft
                          have htail := ih hshaped hsteps'
                          rw [hrest] at htail
                          refine List.isChain_cons_cons.mpr ⟨?_, htail⟩
                          exact request_ne_of_advances hpairs hst hpagination hnext hadvance hreq hreq'
                            (hadvances body rows next hbody hrows hnext)


end

section

variable {U : Type} (client : Client U) (spec : HttpTableSpec) (maxPages maxRows limit : Option ℕ)
  (send : ℕ → Request U → Except DataFusionError Response) (params : Params)
  (explode : OrderedMap String (List String))

/-- The requests of `fetch_rows`. -/
def Client.fetchRequests : List (Request U) :=
  client.sentRequests spec (spec.selectRequest params) explode maxRows limit send
    (maxPages.getD defaultMaxPages) { params := spec.firstParams params }

/-- Every page of `fetch_rows` that is followed by another request advances. -/
def Client.FetchAdvances (config : PaginationConfig) : Prop :=
  client.StepsAdvance spec (spec.selectRequest params) explode maxRows limit send config
    (maxPages.getD defaultMaxPages) { params := spec.firstParams params }

end

/-! ### Next links -/

def linkTable : HttpTableSpec where
  name := "items"
  endpoint := "items"
  pagination := some .linkHeader

/-- A server of one element whose first answer has a next link. -/
def sendLink (link : String) (i : ℕ) (_ : Request (String × List (String × String))) :
    Except DataFusionError Response :=
  .ok { status := 200
        headers := if i = 0 then [("link", "<" ++ link ++ ">; rel=\"next\"")] else []
        text := .ok "[1]" }

lemma pairClient_withPairs {parse : String → Except String Json}
    (u : String × List (String × String)) (ps ps' : List (String × String))
    (h : (pairClient parse).withPairs u ps = (pairClient parse).withPairs u ps') : ps = ps' := by
  have happend : ∀ l, (pairClient parse).withPairs u l = (u.1, u.2 ++ l) := by
    intro l
    unfold Client.withPairs
    split_ifs with hnil
    · simp [hnil]
    · rfl
  rw [happend, happend, Prod.mk.injEq] at h
  exact List.append_cancel_left h.2

end Http
end Pawrly
