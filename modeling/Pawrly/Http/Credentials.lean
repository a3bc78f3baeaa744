import Pawrly.Http.Guard
import Pawrly.Http.Progress
import Pawrly.Http.Raw
import Pawrly.Lib.Logged

/-!
# Credential confinement

Every URL that a run of `fetch_rows` or of the raw table asks, whether it comes from the template of
the endpoint, the path of a query, a next link or a redirect, has passed the guard, and when it
carries credentials it is trusted.  The servers and the URL library are arbitrary.
-/

namespace Pawrly
namespace Http

/-! ## Sources -/

structure AuthHeader where
  name : String
  bearer : Option String := none
  value : Option String := none
  deriving DecidableEq

inductive AuthSpec
  | none
  | header (headers : List AuthHeader)
  | basic (username password : String)
  | custom (query body : List (String × String))
  | oauth2
  deriving DecidableEq

/-- What a request carries because of the auth of its source. -/
inductive Credential
  | header (name value : String)
  | query (name value : String)
  | body (name value : String)
  deriving DecidableEq

structure HttpSource where
  name : String
  baseUrl : Url
  allowedHosts : List HostPattern := []
  auth : AuthSpec := .none
  headers : List (String × String) := []
  maxRetries : ℕ := 3
  extraStatuses : List ℕ := []

/-- `custom_body_fields`. -/
def HttpSource.customBodyFields (source : HttpSource) : List (String × String) :=
  match source.auth with
  | .custom _ body => body
  | _ => []

/-- The libraries of URLs, of JSON and of HTTP.  Changing the query of a URL changes its text only. -/
structure Library where
  parseUrl : String → Except String Url
  joinUrl : Url → String → Except String Url
  appendPairs : String → List (String × String) → String
  setQuery : String → String → String
  parseJson : String → Except String Json
  statusText : ℕ → String
  basic : String → String → String

def HttpSource.client (source : HttpSource) (lib : Library) : Client Url where
  baseUrl := source.baseUrl
  headers := source.headers
  authBody := source.customBodyFields
  parseUrl := lib.parseUrl
  joinUrl := lib.joinUrl
  appendPairs url pairs := { url with text := lib.appendPairs url.text pairs }
  checkTarget url := checkTarget url source.baseUrl source.allowedHosts
  parseJson := lib.parseJson
  statusText := lib.statusText

/-! ## One request -/

/-- What a server does with a request. -/
inductive ServerAnswer
  | response (resp : Response)
  | redirect (location : Url)
  | failure (error : String)

/-- The outside as one request of a run meets it: the dynamic variables, the token exchange, whether
the request can be built, and the answer of the server to each attempt after the hops so far. -/
structure World where
  resolveDynamic : String → Except String String
  oauthBearer : Except String String
  builds : Bool
  server : ℕ → List Url → ServerAnswer

/-- A URL that is asked, with the credentials that may ride along. -/
structure Contact where
  url : Url
  credentials : List Credential

section

variable (source : HttpSource) (lib : Library) (w : World)

/-- The headers of `AuthSpec::Header`. -/
def authHeader (h : AuthHeader) : Except String (List Credential) :=
  match h.bearer, h.value with
  | some b, _ => do
      let token ← w.resolveDynamic b
      .ok [.header h.name ("Bearer " ++ token)]
  | none, some v => do
      let value ← w.resolveDynamic v
      .ok [.header h.name value]
  | none, none => .ok []

/-- `apply_auth`: the URL and the credentials of a request. -/
def HttpSource.applyAuth (url : Url) : Except String (Url × List Credential) := do
  if source.auth ≠ .none && !w.builds then .error "cannot inspect request target for auth"
  else if source.auth ≠ .none && !isTrusted url source.baseUrl source.allowedHosts then
    .error ("refusing to send `" ++ source.name ++ "` credentials to `" ++ url.text ++
      "` (cross-origin)")
  else
    match source.auth with
    | .none => .ok (url, [])
    | .header headers => do
        let attached ← headers.mapM (authHeader w)
        .ok (url, attached.flatten)
    | .basic username password => do
        let password ← w.resolveDynamic password
        .ok (url, [.header "authorization" (lib.basic username password)])
    | .custom query _ => do
        let pairs ← query.mapM fun q => (w.resolveDynamic q.2).map fun v => (q.1, v)
        .ok ({ url with text := lib.appendPairs url.text pairs },
          pairs.map fun p => .query p.1 p.2)
    | .oauth2 => do
        let token ← w.oauthBearer
        .ok (url, [.header "authorization" ("Bearer " ++ token)])

/-- An error of the HTTP client: a refused hop, or a failed transport. -/
inductive SendError
  | redirect (error : String)
  | transport (error : String)

def SendError.text : SendError → String
  | redirect e => e
  | transport e => e

/-- One attempt, with the hops that the server sends it on. -/
def HttpSource.follow (credentials : List Credential) (attempt : ℕ) (previous : List Url)
    (url : Url) : Logged Contact SendError Response :=
  let asked := previous ++ [url]
  match w.server attempt asked with
  | .response resp => ⟨[⟨url, credentials⟩], .ok resp⟩
  | .failure e => ⟨[⟨url, credentials⟩], .error (.transport e)⟩
  | .redirect next =>
      match _hpolicy : redirectPolicy source.baseUrl source.allowedHosts (source.auth ≠ .none)
          asked next with
      | .error e => ⟨[⟨url, credentials⟩], .error (.redirect e)⟩
      | .ok () =>
          let rest := HttpSource.follow credentials attempt asked next
          ⟨⟨url, credentials⟩ :: rest.log, rest.result⟩
  termination_by 6 - previous.length
  decreasing_by
    have hle := (redirectPolicy_eq_ok.mp _hpolicy).1
    simp only [asked, List.length_append, List.length_singleton] at hle ⊢
    omega

/-- An attempt that is made again: a server error, a rate limit or a failed transport.  A refused hop
is a decision, not a failure. -/
def HttpSource.retryable : Except SendError Response → Bool
  | .ok resp => 500 ≤ resp.status && resp.status < 600 || resp.status = 429 ||
      source.extraStatuses.contains resp.status
  | .error (.transport _) => true
  | .error (.redirect _) => false

/-- `send_with_retry`, with the retries left. -/
def HttpSource.sendWithRetry (credentials : List Credential) (url : Url) :
    ℕ → ℕ → Logged Contact DataFusionError Response
  | 0, attempt =>
      let sent := source.follow w credentials attempt [] url
      ⟨sent.log, sent.result.mapError fun e => .external ("http request failed: " ++ e.text)⟩
  | left + 1, attempt =>
      let sent := source.follow w credentials attempt [] url
      if source.retryable sent.result then
        let rest := HttpSource.sendWithRetry credentials url left (attempt + 1)
        ⟨sent.log ++ rest.log, rest.result⟩
      else ⟨sent.log, sent.result.mapError fun e => .external ("http request failed: " ++ e.text)⟩

/-- The URL of a request of the raw table. -/
def HttpSource.rawUrl (path : String) (query : Option String) : Except DataFusionError Url := do
  let joined ← (lib.joinUrl source.baseUrl (Text.trimStartMatches "/" path)).mapError fun e =>
    .plan ("bad url: " ++ e)
  let url := query.elim joined fun q => { joined with text := lib.setQuery joined.text q }
  (checkTarget url source.baseUrl source.allowedHosts).mapError .plan
  .ok url

/-- The credentials of a body. -/
def HttpSource.bodyCredentials : List Credential :=
  source.customBodyFields.map fun f => .body f.1 f.2

/-- A request of `fetch_rows`, authenticated and sent. -/
def HttpSource.exchange (req : Request Url) : Logged Contact DataFusionError Response :=
  (Logged.lift ((source.applyAuth lib w req.url).mapError .external)).bind fun authed =>
    source.sendWithRetry w (authed.2 ++ source.bodyCredentials) authed.1 source.maxRetries 0

/-- A request of the raw table, from its path and query. -/
def HttpSource.rawExchange (path : String) (query : Option String) :
    Logged Contact DataFusionError Raw.Response :=
  (Logged.lift (source.rawUrl lib path query)).bind fun url =>
    (Logged.lift ((source.applyAuth lib w url).mapError .external)).bind fun authed =>
      let sent := source.follow w (authed.2 ++ source.bodyCredentials) 0 [] authed.1
      ⟨sent.log, (sent.result.mapError fun e => .external ("http: " ++ e.text)).map fun resp =>
        { status := resp.status, body := resp.text.toOption.getD "" }⟩

/-! ## Runs -/

/-- The answers to the requests of `fetch_rows`; the request of each page meets a world of its own. -/
def HttpSource.send (worlds : ℕ → World) (i : ℕ) (req : Request Url) :
    Except DataFusionError Response :=
  (source.exchange lib (worlds i) req).result

/-- The URLs that a run of `fetch_rows` asks. -/
def HttpSource.fetchContacts (worlds : ℕ → World) (spec : HttpTableSpec)
    (maxPages maxRows limit : Option ℕ) (params : Params)
    (explode : OrderedMap String (List String)) : List Contact :=
  let requests := (source.client lib).fetchRequests spec maxPages maxRows limit
    (source.send lib worlds) params explode
  (requests.mapIdx fun i req => (source.exchange lib (worlds i) req).log).flatten

/-- `scan` of the raw table; each request meets a world of its own. -/
def HttpSource.rawScan (worlds : ℕ → World) (filters : List Expr) :
    Logged Contact DataFusionError (List Raw.Row) :=
  if Raw.collectEqOrIn filters "request_path" = [] then
    Logged.lift (.error (.plan ("raw HTTP table `" ++ source.name ++
      "` requires a filter on `request_path` (PAWRLY_SAFETY_REQUIRED_FILTER)")))
  else
    Logged.collect ((Raw.requestPairs filters).mapIdx fun i pair =>
      (source.rawExchange lib (worlds i) pair.1 pair.2).bind fun response =>
        Logged.lift (.ok ⟨Raw.requestMethod filters, pair.1, pair.2, response⟩))

/-- In one world for all requests, the scan gives the rows of `Raw.scan`. -/
lemma rawScan_result (filters : List Expr) :
    (source.rawScan lib (fun _ => w) filters).result = Raw.scan source.name
      (fun _ path query => (source.rawExchange lib w path query).result) filters := by
  unfold HttpSource.rawScan Raw.scan
  split_ifs with hpaths
  · rfl
  · have hmap : ∀ (g : String × Option String → Logged Contact DataFusionError Raw.Row),
        ((Raw.requestPairs filters).mapIdx fun _ pair => g pair) =
          (Raw.requestPairs filters).map g := by
      intro g
      apply List.ext_getElem?
      intro i
      rw [List.getElem?_mapIdx, List.getElem?_map]
    rw [Logged.result_collect, hmap, List.mapM_map]
    refine congrArg (fun f => List.mapM f _) (funext fun pair => ?_)
    exact Logged.result_bind _ _

/-! ## Confinement -/

/-- The guard lets the URL through, and with credentials it is trusted. -/
def HttpSource.Guarded (c : Contact) : Prop :=
  checkTarget c.url source.baseUrl source.allowedHosts = .ok () ∧
    (source.auth ≠ .none ∨ c.credentials ≠ [] →
      isTrusted c.url source.baseUrl source.allowedHosts = true)

def HttpSource.AllGuarded (contacts : List Contact) : Prop := ∀ c ∈ contacts, source.Guarded c

variable {source lib w}

/-- The text of a URL is not looked at. -/
lemma checkTarget_text {url base : Url} {allowed : List HostPattern} (t : String) :
    checkTarget { url with text := t } base allowed = .ok () ↔
      checkTarget url base allowed = .ok () := by
  have horigin : sameOrigin { url with text := t } base = sameOrigin url base := rfl
  have hallowed : hostAllowed { url with text := t } allowed = hostAllowed url allowed := rfl
  have hip : ∀ ip, checkIp ip { url with text := t } allowed = .ok () ↔
      checkIp ip url allowed = .ok () := by
    intro ip
    rw [checkIp_eq_ok, checkIp_eq_ok, hallowed]
  obtain ⟨scheme, host, hostStr, port, text, hdomain⟩ := url
  unfold checkTarget
  rw [horigin, hallowed]
  dsimp only at hip ⊢
  split_ifs
  · rfl
  · simp
  · cases host with
    | none => simp
    | some host =>
        cases host with
        | domain d =>
            dsimp only
            split_ifs <;> simp
        | ipv4 x => exact hip _
        | ipv6 x => exact hip _

/-- A URL that a request may start from. -/
structure HttpSource.Admitted (source : HttpSource) (url : Url) (credentials : List Credential) :
    Prop where
  checked : checkTarget url source.baseUrl source.allowedHosts = .ok ()
  trusted : source.auth ≠ .none → isTrusted url source.baseUrl source.allowedHosts = true
  anonymous : source.auth = .none → credentials = []

lemma HttpSource.Admitted.guarded {url : Url} {credentials : List Credential}
    (h : source.Admitted url credentials) : source.Guarded ⟨url, credentials⟩ := by
  refine ⟨h.checked, fun hauth => h.trusted ?_⟩
  rcases hauth with hauth | hcred
  · exact hauth
  · exact fun hnone => hcred (h.anonymous hnone)

/-- A redirect that the policy follows leads to a URL that a request may start from. -/
lemma HttpSource.Admitted.redirect {url next : Url} {credentials : List Credential}
    {previous : List Url} (h : source.Admitted url credentials)
    (hpolicy : redirectPolicy source.baseUrl source.allowedHosts (source.auth ≠ .none) previous next =
      .ok ()) : source.Admitted next credentials := by
  obtain ⟨-, hchecked, htrusted⟩ := redirectPolicy_eq_ok.mp hpolicy
  exact ⟨hchecked, fun hauth => htrusted (decide_eq_true hauth), h.anonymous⟩

lemma bodyCredentials_of_none (h : source.auth = .none) : source.bodyCredentials = [] := by
  rw [HttpSource.bodyCredentials, HttpSource.customBodyFields, h]
  rfl

/-- The authentication changes the text of the URL at most, and a source without it attaches
nothing. -/
lemma applyAuth_attaches {url : Url} {authed : Url × List Credential}
    (h : source.applyAuth lib w url = .ok authed) :
    (∃ t, authed.1 = { url with text := t }) ∧ (source.auth = .none → authed.2 = []) ∧
      (source.auth ≠ .none → isTrusted url source.baseUrl source.allowedHosts = true) := by
  unfold HttpSource.applyAuth at h
  split_ifs at h with hbuilds hcross
  have htrusted : source.auth ≠ .none → isTrusted url source.baseUrl source.allowedHosts = true := by
    intro hauth
    simpa [hauth] using hcross
  refine ⟨?_, ?_, htrusted⟩
  · cases hauth : source.auth with
    | none =>
        rw [hauth] at h
        cases h
        exact ⟨url.text, rfl⟩
    | header headers =>
        rw [hauth] at h
        obtain ⟨attached, -, h⟩ := Fallible.bind_eq_ok.mp h
        cases h
        exact ⟨url.text, rfl⟩
    | basic username password =>
        rw [hauth] at h
        obtain ⟨value, -, h⟩ := Fallible.bind_eq_ok.mp h
        cases h
        exact ⟨url.text, rfl⟩
    | custom query body =>
        rw [hauth] at h
        obtain ⟨pairs, -, h⟩ := Fallible.bind_eq_ok.mp h
        cases h
        exact ⟨lib.appendPairs url.text pairs, rfl⟩
    | oauth2 =>
        rw [hauth] at h
        obtain ⟨token, -, h⟩ := Fallible.bind_eq_ok.mp h
        cases h
        exact ⟨url.text, rfl⟩
  · intro hnone
    rw [hnone] at h
    cases h
    rfl

lemma applyAuth_admitted {url : Url} {authed : Url × List Credential}
    (hchecked : checkTarget url source.baseUrl source.allowedHosts = .ok ())
    (h : source.applyAuth lib w url = .ok authed) :
    source.Admitted authed.1 (authed.2 ++ source.bodyCredentials) := by
  obtain ⟨⟨t, hurl⟩, hnone, htrusted⟩ := applyAuth_attaches h
  rw [hurl]
  refine ⟨(checkTarget_text t).mpr hchecked, htrusted, fun hauth => ?_⟩
  rw [hnone hauth, bodyCredentials_of_none hauth]
  rfl

/-! ### One request -/

/-- By induction along the hops: each one that is followed is admitted. -/
lemma all_follow {credentials : List Credential} {attempt : ℕ} {previous : List Url} {url : Url}
    (h : source.Admitted url credentials) :
    Logged.All source.Guarded (source.follow w credentials attempt previous url) := by
  fun_induction HttpSource.follow source w credentials attempt previous url with
  | case1 previous url asked resp hserver =>
      intro c hc
      rw [List.mem_singleton.mp hc]
      exact h.guarded
  | case2 previous url asked e hserver =>
      intro c hc
      rw [List.mem_singleton.mp hc]
      exact h.guarded
  | case3 previous url asked next hserver e hpolicy =>
      intro c hc
      rw [List.mem_singleton.mp hc]
      exact h.guarded
  | case4 previous url asked next hserver hpolicy rest ih =>
      intro c hc
      rcases List.mem_cons.mp hc with rfl | hc
      · exact h.guarded
      · exact ih (h.redirect hpolicy) c hc

lemma all_sendWithRetry {credentials : List Credential} {url : Url} {left attempt : ℕ}
    (h : source.Admitted url credentials) :
    Logged.All source.Guarded (source.sendWithRetry w credentials url left attempt) := by
  have hsent : ∀ attempt, Logged.All source.Guarded (source.follow w credentials attempt [] url) :=
    fun attempt => all_follow h
  induction left generalizing attempt with
  | zero => exact hsent attempt
  | succ left ih =>
      unfold HttpSource.sendWithRetry
      dsimp only
      split_ifs with hagain
      · intro c hc
        rcases List.mem_append.mp hc with hc | hc
        · exact hsent attempt c hc
        · exact ih c hc
      · exact hsent attempt

lemma all_exchange {req : Request Url}
    (hchecked : checkTarget req.url source.baseUrl source.allowedHosts = .ok ()) :
    Logged.All source.Guarded (source.exchange lib w req) := by
  refine Logged.all_bind (Logged.all_lift _) fun authed hauth => ?_
  exact all_sendWithRetry (applyAuth_admitted hchecked (Fallible.mapError_eq_ok.mp hauth))

lemma rawUrl_checked {path : String} {query : Option String} {url : Url}
    (h : source.rawUrl lib path query = .ok url) :
    checkTarget url source.baseUrl source.allowedHosts = .ok () := by
  obtain ⟨joined, -, h⟩ := Fallible.bind_eq_ok.mp h
  obtain ⟨u, hcheck, h⟩ := Fallible.bind_eq_ok.mp h
  cases h
  exact Fallible.mapError_eq_ok.mp hcheck

lemma all_rawExchange {path : String} {query : Option String} :
    Logged.All source.Guarded (source.rawExchange lib w path query) := by
  refine Logged.all_bind (Logged.all_lift _) fun url hurl => ?_
  refine Logged.all_bind (Logged.all_lift _) fun authed hauth => ?_
  exact all_follow (w := w) (applyAuth_admitted (rawUrl_checked hurl)
    (Fallible.mapError_eq_ok.mp hauth))

/-! ### The pages -/

/-- The URL of a page is built and checked, or is a next link that was checked. -/
lemma request_checked {U : Type} {client : Client U} {spec : HttpTableSpec} {shape : RequestShape}
    {explode : OrderedMap String (List String)} {P : U → Prop}
    (hcheck : ∀ url pairs, client.checkTarget url = .ok () → P (client.withPairs url pairs))
    {st : FetchState U} (hst : ∀ url, st.url = some url → P url) {req : Request U}
    (h : client.request spec shape explode st = .ok req) : P req.url := by
  have hurl := (request_spec h).1
  cases hnext : st.url with
  | some url =>
      rw [hnext] at hurl
      rw [hurl]
      exact hst url hnext
  | none =>
      rw [hnext] at hurl
      unfold Client.buildUrl at hurl
      obtain ⟨joined, -, hurl⟩ := Fallible.bind_eq_ok.mp hurl
      obtain ⟨u, hchecked, hurl⟩ := Fallible.bind_eq_ok.mp hurl
      rw [← Except.ok.inj hurl]
      exact hcheck joined _ (Fallible.mapError_eq_ok.mp hchecked)

/-- The next link of a page was checked. -/
lemma page_checked {U : Type} {client : Client U} {spec : HttpTableSpec}
    {maxRows limit : Option ℕ} {st st' : FetchState U} {resp : Response}
    (h : client.page spec maxRows limit st resp = .ok (.next st')) {url : U}
    (hurl : st'.url = some url) : client.checkTarget url = .ok () := by
  obtain ⟨config, body, rows, next, -, -, -, -, hadvance⟩ := page_next h
  cases next with
  | params params =>
      cases hadvance
      cases hurl
  | bodyCursor cursor =>
      cases hadvance
      cases hurl
  | url u =>
      obtain ⟨parsed, -, hadvance⟩ := Fallible.bind_eq_ok.mp hadvance
      obtain ⟨v, hchecked, hadvance⟩ := Fallible.bind_eq_ok.mp hadvance
      cases hadvance
      cases hurl
      exact Fallible.mapError_eq_ok.mp hchecked

/-- By induction on the pages left: the URL of the next page is checked, whatever the servers answer. -/
lemma sentRequests_checked {U : Type} {client : Client U} {spec : HttpTableSpec}
    {shape : RequestShape} {explode : OrderedMap String (List String)} {maxRows limit : Option ℕ}
    {send : ℕ → Request U → Except DataFusionError Response} {P : U → Prop}
    (hlink : ∀ url, client.checkTarget url = .ok () → P url)
    (hcheck : ∀ url pairs, client.checkTarget url = .ok () → P (client.withPairs url pairs))
    {left : ℕ} {st : FetchState U} (hst : ∀ url, st.url = some url → P url) :
    ∀ req ∈ client.sentRequests spec shape explode maxRows limit send left st, P req.url := by
  induction left generalizing st with
  | zero => exact fun _ h => absurd h List.not_mem_nil
  | succ left ih =>
      unfold Client.sentRequests
      cases hreq : client.request spec shape explode st with
      | error e => exact fun _ h => absurd h List.not_mem_nil
      | ok req =>
          have hfirst : P req.url := request_checked hcheck hst hreq
          have hone : ∀ r ∈ [req], P r.url := fun r hr => by rwa [List.mem_singleton.mp hr]
          dsimp only
          cases hsend : send st.pageIndex req with
          | error e => exact hone
          | ok resp =>
              dsimp only
              cases hpage : client.page spec maxRows limit st resp with
              | error e => exact hone
              | ok outcome =>
                  cases outcome with
                  | done rows => exact hone
                  | next st' =>
                      intro r hr
                      rcases List.mem_cons.mp hr with rfl | hr
                      · exact hfirst
                      · exact ih (fun url hurl => hlink url (page_checked hpage hurl)) r hr

lemma fetchContacts_guarded {worlds : ℕ → World} {spec : HttpTableSpec}
    {maxPages maxRows limit : Option ℕ} {params : Params}
    {explode : OrderedMap String (List String)} :
    ∀ c ∈ source.fetchContacts lib worlds spec maxPages maxRows limit params explode,
      source.Guarded c := by
  intro c hc
  obtain ⟨log, hlog, hc⟩ := List.mem_flatten.mp hc
  obtain ⟨i, hi, rfl⟩ := List.mem_mapIdx.mp hlog
  refine all_exchange ?_ c hc
  refine sentRequests_checked (P := fun url => checkTarget url source.baseUrl source.allowedHosts =
    .ok ()) (fun _ h => h) (fun url pairs h => ?_) (fun _ h => by cases h) _ (List.getElem_mem hi)
  unfold Client.withPairs
  split_ifs
  · exact h
  · exact (checkTarget_text _).mpr h

lemma rawScan_guarded {worlds : ℕ → World} {filters : List Expr} :
    Logged.All source.Guarded (source.rawScan lib worlds filters) := by
  unfold HttpSource.rawScan
  split_ifs
  · exact Logged.all_lift _
  · refine Logged.all_collect fun x hx => ?_
    obtain ⟨i, hi, rfl⟩ := List.mem_mapIdx.mp hx
    exact Logged.all_bind all_rawExchange fun _ _ => Logged.all_lift _

end

/-- **Credential confinement.**  Every URL that a fetch of a table or a scan of the raw table asks has
passed the guard, and is trusted when the source has credentials. -/
theorem contacts_guarded (source : HttpSource) (lib : Library) (worlds : ℕ → World)
    (spec : HttpTableSpec) (maxPages maxRows limit : Option ℕ) (params : Params)
    (explode : OrderedMap String (List String)) (filters : List Expr) :
    source.AllGuarded (source.fetchContacts lib worlds spec maxPages maxRows limit params explode) ∧
      source.AllGuarded (source.rawScan lib worlds filters).log :=
  ⟨fetchContacts_guarded, rawScan_guarded⟩

end Http
end Pawrly
