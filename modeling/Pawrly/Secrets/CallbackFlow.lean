import Pawrly.Lib.FormUrlencoded
import Pawrly.Secrets.DeviceFlow

/-!
# Connecting by an authorization code

`authorization_code_connect` of `pawrly-secrets/src/variables/setup.rs` opens a page of the provider and
listens on the loopback for the redirect that ends it.  Anything on the machine can connect there, so a
run is over any connections, each with what its first read gives.

A code is exchanged when it came with the state of the flow, and no other code ever is
(`requests_of_callback`); a redirect that the provider writes for the page's parameters is read as it was
meant, whatever connected before (`stored_of_redirect`).  The verifier, its challenge and the state are
parameters, as is the parsing of URLs.
-/

namespace Pawrly
namespace Secrets

open Http

/-! ## The authorization request -/

/-- A parsed URL. -/
structure Url where
  origin : String
  port : Option ℕ
  path : String
  query : Option (List UInt8)
  fragment : Option String

inductive PortMode
  | random
  | fixed
  deriving DecidableEq

/-- `query_pairs_mut` and `append_pair`: the pairs come behind the query that is there. -/
def Url.appendPairs (url : Url) (pairs : List (List Char × List Char)) : Url :=
  match url.query with
  | none => { url with query := some (FormUrlencoded.serialize pairs) }
  | some [] => { url with query := some (FormUrlencoded.serialize pairs) }
  | some query => { url with query := some (query ++ 0x26 :: FormUrlencoded.serialize pairs) }

/-- The parameters of `build_authorize_url`, in their order. -/
def authorizeParams (clientId redirectUri : String) (scope : Option String) (state : String)
    (codeChallenge : Option String) : List (List Char × List Char) :=
  (([("response_type", "code"), ("client_id", clientId), ("redirect_uri", redirectUri), ("state", state)] ++
      (scope.map fun s => ("scope", s)).toList ++
      match codeChallenge with
      | none => []
      | some c => [("code_challenge", c), ("code_challenge_method", "S256")]).map
    fun p => (p.1.toList, p.2.toList))

def buildAuthorizeUrl (parseUrl : String → Except String Url) (authorizationUrl clientId redirectUri : String)
    (scope : Option String) (state : String) (codeChallenge : Option String) : Except FlowError Url :=
  match parseUrl authorizationUrl with
  | .error e => .error (.deviceFlow ("invalid authorization_url: " ++ e))
  | .ok url => .ok (url.appendPairs (authorizeParams clientId redirectUri scope state codeChallenge))

/-! ## The callback -/

/-- `str::lines().next()`. -/
def firstLine (cs : List Char) : List Char :=
  match Text.splitOnceChars '\n' cs with
  | none => cs
  | some (line, _) => if line.getLast? = some '\r' then line.dropLast else line

/-- `split_whitespace`. -/
def splitWhitespace (cs : List Char) : List (List Char) :=
  (cs.splitOnP Text.isWhitespace).filter (· ≠ [])

/-- The path and the query of the target of a request, of the bytes of its first read. -/
def readTarget (bytes : List UInt8) : List Char × List Char :=
  let target := (splitWhitespace (firstLine (Utf8.lossy (bytes.take 8192))))[1]?.getD []
  (Text.splitOnceChars '?' target).getD (target, [])

/-- The parameters of a request; of a name that comes twice the last counts. -/
def readParam (bytes : List UInt8) (name : String) : Option String :=
  ((FormUrlencoded.parse (Utf8.encode (readTarget bytes).2)).reverse.lookup name.toList).map
    String.ofList

/-- A connection: the accept or the first read fails, or it gives some bytes. -/
inductive Connection
  | unaccepted (message : String)
  | unread (message : String)
  | received (bytes : List UInt8)

/-- The pages that are written. -/
inductive Page
  | notFound
  | missingCode
  | failed
  | connected
  deriving DecidableEq

/-- The loop of `accept_callback`: the pages, and the code and the state, or an error, unless it still
waits. -/
def acceptCallback (path : String) :
    List Connection → List Page × Option (Except FlowError (String × String))
  | [] => ([], none)
  | .unaccepted message :: _ => ([], some (.error (.deviceFlow ("loopback accept: " ++ message))))
  | .unread message :: _ => ([], some (.error (.deviceFlow message)))
  | .received bytes :: connections =>
      if (readTarget bytes).1 ≠ path.toList then
        (Page.notFound :: (acceptCallback path connections).1, (acceptCallback path connections).2)
      else
        match readParam bytes "error" with
        | some error => ([.failed], some (.error (.varError (.oauth 0 error))))
        | none =>
            match readParam bytes "code" with
            | none =>
                (Page.missingCode :: (acceptCallback path connections).1,
                  (acceptCallback path connections).2)
            | some code => ([.connected], some (.ok (code, (readParam bytes "state").getD "")))

/-! ## The flow -/

/-- What a run depends on besides the client and the variable: URLs and their parsing, the loopback port
that is bound, what is drawn at random, the connections, the answer of the token endpoint and whether the
token store can be written. -/
structure CallbackWorld where
  endpoints : Except VarError Endpoints
  parseUrl : String → Except String Url
  bind : ℕ → Except String ℕ
  verifier : String
  challenge : String
  state : String
  connections : List Connection
  answer : Except String (ℕ × Json)
  writable : Bool

/-- The fields of `DynamicVarSpec::AuthorizationCode`. -/
structure CallbackClient extends OAuthClient where
  redirectUri : String
  portMode : PortMode
  pkce : Bool

structure CallbackRun where
  opened : Option Url := none
  pages : List Page := []
  requests : List TokenRequest := []
  tokens : String → Option String
  result : Option (Except FlowError Unit)

/-- The form of `authorization_code_exchange`. -/
def exchangeForm (code redirectUri : String) (codeVerifier : Option String) : List (String × String) :=
  [("grant_type", "authorization_code"), ("code", code), ("redirect_uri", redirectUri)] ++
    (codeVerifier.map fun verifier => ("code_verifier", verifier)).toList

/-- What `authorization_code_exchange` gets from an answer. -/
def exchangedToken (answer : Except String (ℕ × Json)) : Except FlowError String :=
  match postToken answer with
  | .error e => .error (.varError e)
  | .ok response =>
      match response.refreshToken with
      | none =>
          .error (.varError (.response "authorization_code response carried no `refresh_token`"))
      | some refresh => .ok refresh

/-- The redirect URI with the port that is bound. -/
def effectiveRedirect (port : ℕ) (path : String) : String :=
  "http://127.0.0.1:" ++ toString port ++ path

/-- What the flow has when the page is opened. -/
structure CallbackSetup where
  tokenUrl : String
  redirect : String
  path : String
  opened : Url

/-- The flow until the page is opened. -/
def setUp (client : CallbackClient) (world : CallbackWorld) : Except FlowError CallbackSetup :=
  match world.endpoints with
  | .error e => .error (.varError e)
  | .ok endpoints =>
      match endpoints.authorizationUrl with
      | none =>
          .error (.deviceFlow ("no authorization endpoint (the discovery document has no " ++
            "`authorization_endpoint`)"))
      | some authorizationUrl =>
          match world.parseUrl client.redirectUri with
          | .error e => .error (.deviceFlow ("invalid redirect_uri: " ++ e))
          | .ok parsed =>
              let path := if parsed.path = "" then "/" else parsed.path
              let bindPort :=
                match client.portMode with
                | .fixed => parsed.port.getD 0
                | .random => 0
              match world.bind bindPort with
              | .error e => .error (.deviceFlow ("loopback bind failed: " ++ e))
              | .ok port =>
                  (buildAuthorizeUrl world.parseUrl authorizationUrl client.clientId
                    (effectiveRedirect port path) client.scope world.state
                    (if client.pkce then some world.challenge else none)).map fun opened =>
                      ⟨endpoints.tokenUrl, effectiveRedirect port path, path, opened⟩

/-- The request that exchanges a code. -/
def exchangeRequest (client : CallbackClient) (world : CallbackWorld) (setup : CallbackSetup)
    (code : String) : TokenRequest :=
  client.postForm setup.tokenUrl
    (exchangeForm code setup.redirect (if client.pkce then some world.verifier else none))

def authorizationCodeConnect (client : CallbackClient) (tokens : String → Option String) (varId : String)
    (world : CallbackWorld) : CallbackRun :=
  match setUp client world with
  | .error e => { tokens := tokens, result := some (.error e) }
  | .ok setup =>
      let callback := acceptCallback setup.path world.connections
      match callback.2 with
      | none => { opened := some setup.opened, pages := callback.1, tokens := tokens, result := none }
      | some (.error e) =>
          { opened := some setup.opened, pages := callback.1, tokens := tokens, result := some (.error e) }
      | some (.ok (code, gotState)) =>
          if gotState ≠ world.state then
            { opened := some setup.opened
              pages := callback.1
              tokens := tokens
              result := some (.error (.deviceFlow "OAuth state mismatch (possible CSRF) — aborting")) }
          else
            let persisted := persistToken tokens varId world.writable (exchangedToken world.answer)
            { opened := some setup.opened
              pages := callback.1
              requests := [exchangeRequest client world setup code]
              tokens := persisted.1
              result := some persisted.2 }

/-! ## Which codes are exchanged -/

/-- A request on the callback path that carries a code with a state, and no error. -/
def carries (path : String) (bytes : List UInt8) (code state : String) : Prop :=
  (readTarget bytes).1 = path.toList ∧ readParam bytes "error" = none ∧
    readParam bytes "code" = some code ∧ (readParam bytes "state").getD "" = state

/-- A connection that the flow answers and waits on: it is on another path, or has neither an error nor a
code. -/
def passes (path : String) (connection : Connection) : Prop :=
  ∃ bytes, connection = .received bytes ∧
    ((readTarget bytes).1 ≠ path.toList ∨
      readParam bytes "error" = none ∧ readParam bytes "code" = none)

/-- The connection decides the callback: it carries a code, and those before it are waited on. -/
def decides (path : String) (connections : List Connection) (code state : String) : Prop :=
  ∃ before bytes after, connections = before ++ .received bytes :: after ∧
    carries path bytes code state ∧ ∀ c ∈ before, passes path c

lemma acceptCallback_of_passes {path : String} {c : Connection} (h : passes path c)
    (connections : List Connection) :
    (acceptCallback path (c :: connections)).2 = (acceptCallback path connections).2 := by
  obtain ⟨bytes, rfl, h⟩ := h
  rw [acceptCallback]
  rcases h with hpath | ⟨herror, hcode⟩
  · rw [if_pos hpath]
  · split_ifs
    · rfl
    · simp only [herror, hcode]

lemma acceptCallback_of_carries {path code state : String} {bytes : List UInt8}
    (h : carries path bytes code state) (connections : List Connection) :
    (acceptCallback path (.received bytes :: connections)).2 = some (.ok (code, state)) := by
  obtain ⟨hpath, herror, hcode, hstate⟩ := h
  rw [acceptCallback, if_neg fun hne => hne hpath]
  simp only [herror, hcode, hstate]

/-- A connection is waited on, or it decides the callback. -/
lemma passes_or_decided (path : String) (c : Connection) :
    passes path c ∨ (∃ bytes code state, c = .received bytes ∧ carries path bytes code state) ∨
      ∃ e, ∀ connections, (acceptCallback path (c :: connections)).2 = some (.error e) := by
  cases c with
  | unaccepted message => exact .inr (.inr ⟨_, fun _ => rfl⟩)
  | unread message => exact .inr (.inr ⟨_, fun _ => rfl⟩)
  | received bytes =>
      by_cases hpath : (readTarget bytes).1 = path.toList
      · cases herror : readParam bytes "error" with
        | some error =>
            refine .inr (.inr ⟨.varError (.oauth 0 error), fun connections => ?_⟩)
            rw [acceptCallback, if_neg fun hne => hne hpath]
            simp only [herror]
        | none =>
            cases hcode : readParam bytes "code" with
            | none => exact .inl ⟨bytes, rfl, .inr ⟨herror, hcode⟩⟩
            | some code => exact .inr (.inl ⟨bytes, code, _, rfl, hpath, herror, hcode, rfl⟩)
      · exact .inl ⟨bytes, rfl, .inl hpath⟩

theorem acceptCallback_eq_ok_iff {path code state : String} {connections : List Connection} :
    (acceptCallback path connections).2 = some (.ok (code, state)) ↔
      decides path connections code state := by
  constructor
  · intro h
    induction connections with
    | nil => simp [acceptCallback] at h
    | cons c connections ih =>
        rcases passes_or_decided path c with hpasses | ⟨bytes, code', state', rfl, hcarries⟩ | ⟨e, herror⟩
        · rw [acceptCallback_of_passes hpasses] at h
          obtain ⟨before, bytes, after, rfl, hcarries, hbefore⟩ := ih h
          exact ⟨c :: before, bytes, after, rfl, hcarries, List.forall_mem_cons.mpr ⟨hpasses, hbefore⟩⟩
        · rw [acceptCallback_of_carries hcarries] at h
          obtain ⟨rfl, rfl⟩ : code' = code ∧ state' = state := by simpa using h
          exact ⟨[], bytes, connections, rfl, hcarries, by simp⟩
        · rw [herror] at h
          simp at h
  · rintro ⟨before, bytes, after, rfl, hcarries, hbefore⟩
    induction before with
    | nil => exact acceptCallback_of_carries hcarries after
    | cons c before ih =>
        obtain ⟨hc, hbefore⟩ := List.forall_mem_cons.mp hbefore
        rw [List.cons_append, acceptCallback_of_passes hc, ih hbefore]

/-- Whatever connects to the loopback, one code at most is exchanged: the one that comes with the state of
the flow, in the first connection that the flow does not wait on, for the verifier of the flow.  No token
changes unless a code was exchanged and the answer grants a refresh token, which is then the one that is
stored. -/
theorem requests_of_callback {client : CallbackClient} {tokens : String → Option String} {varId : String}
    {world : CallbackWorld} {setup : CallbackSetup} (hsetup : setUp client world = .ok setup) :
    let run := authorizationCodeConnect client tokens varId world
    run.requests.length ≤ 1 ∧
      (∀ request, request ∈ run.requests ↔
        ∃ code, decides setup.path world.connections code world.state ∧
          request = exchangeRequest client world setup code) ∧
      ((run.result = some (.ok ()) ∧ run.requests ≠ [] ∧ ∃ refresh,
          exchangedToken world.answer = .ok refresh ∧
            run.tokens = Function.update tokens varId (some refresh)) ∨
        (run.result ≠ some (.ok ()) ∧ run.tokens = tokens)) := by
  dsimp only
  rw [authorizationCodeConnect, hsetup]
  dsimp only
  have hdecides : ∀ code state, (acceptCallback setup.path world.connections).2 = some (.ok (code, state)) ↔
      decides setup.path world.connections code state := fun code state => acceptCallback_eq_ok_iff
  cases hcallback : (acceptCallback setup.path world.connections).2 with
  | none =>
      refine ⟨by simp, fun request => ?_, .inr ⟨by simp, rfl⟩⟩
      simp [← hdecides, hcallback]
  | some callback =>
      cases callback with
      | error e =>
          refine ⟨by simp, fun request => ?_, .inr ⟨by simp, rfl⟩⟩
          simp [← hdecides, hcallback]
      | ok got =>
          obtain ⟨code, gotState⟩ := got
          dsimp only
          split_ifs with hstate
          · refine ⟨by simp, fun request => ?_, .inr ⟨by simp, rfl⟩⟩
            simp [← hdecides, hcallback, hstate]
          · have hstate : gotState = world.state := not_not.mp hstate
            refine ⟨by simp, fun request => ?_, ?_⟩
            · simp [← hdecides, hcallback, hstate]
            · cases hexchanged : exchangedToken world.answer with
              | error e => exact .inr ⟨by simp [persistToken], by simp [persistToken]⟩
              | ok refresh =>
                  by_cases hwritable : world.writable = true
                  · exact .inl ⟨by simp [persistToken, hwritable], by simp, refresh, rfl,
                      by simp [persistToken, hwritable]⟩
                  · exact .inr ⟨by simp [persistToken, hwritable], by simp [persistToken, hwritable]⟩

/-- A client whose redirect goes to `/callback`, and a flow with the state `s1` that a browser first asks for
an icon. -/
def loopbackClient : CallbackClient :=
  { clientId := "cid", clientSecret := none, scope := none, transport := .requestBody
    redirectUri := "http://127.0.0.1:0/callback", portMode := .random, pkce := true }

def loopbackWorld (connections : List Connection) : CallbackWorld :=
  { endpoints := .ok ⟨none, some "https://idp/authorize", "https://idp/token"⟩
    parseUrl := fun s =>
      if s = "https://idp/authorize" then .ok ⟨"https://idp", none, "/authorize", none, none⟩
      else if s = "http://127.0.0.1:0/callback" then .ok ⟨"http://127.0.0.1", some 0, "/callback", none, none⟩
      else .error "relative URL without a base"
    bind := fun _ => .ok 5000
    verifier := "v1"
    challenge := "c1"
    state := "s1"
    connections := .received (Utf8.encode "GET /favicon.ico HTTP/1.1\r\n\r\n".toList) :: connections
    answer := .ok (200, .obj [("access_token", .str "at"), ("refresh_token", .str "rt")])
    writable := true }

def loopbackSetup : CallbackSetup :=
  { tokenUrl := "https://idp/token"
    redirect := "http://127.0.0.1:5000/callback"
    path := "/callback"
    opened := ⟨"https://idp", none, "/authorize", some (FormUrlencoded.serialize (authorizeParams "cid"
      "http://127.0.0.1:5000/callback" none "s1" (some "c1"))), none⟩ }

/-- A code that comes with another state is not exchanged. -/
theorem requests_of_callback_forged :
    let run := authorizationCodeConnect loopbackClient (fun _ => none) "sf::T"
      (loopbackWorld [.received (Utf8.encode "GET /callback?code=x&state=s2 HTTP/1.1\r\n\r\n".toList)])
    run.requests.length ≤ 1 ∧ run.requests = [] ∧ run.pages = [.notFound, .connected] := by
  have hsafe := @requests_of_callback loopbackClient (fun _ => none) "sf::T"
    (loopbackWorld [.received (Utf8.encode "GET /callback?code=x&state=s2 HTTP/1.1\r\n\r\n".toList)])
    loopbackSetup rfl
  exact ⟨hsafe.1, by rfl, by rfl⟩

/-! ## What the provider sends back -/

/-- The first line of a request for a path and a query, without its end. -/
def requestLine (path query : List Char) : List Char :=
  "GET".toList ++ ' ' :: ((path ++ '?' :: query) ++ ' ' :: "HTTP/1.1".toList)

/-- What is received of a request. -/
def callbackRequest (path query : List Char) (rest : List UInt8) : List UInt8 :=
  Utf8.encode (requestLine path query ++ ['\r', '\n']) ++ rest

lemma firstLine_append {line : List Char} (h : '\n' ∉ line) (more : List Char) :
    firstLine ((line ++ ['\r', '\n']) ++ more) = line := by
  have hline : '\n' ∉ line ++ ['\r'] := by
    intro hmem
    rcases List.mem_append.mp hmem with hmem | hmem
    · exact h hmem
    · exact absurd hmem (by decide)
  have hsplit : (line ++ ['\r', '\n']) ++ more = (line ++ ['\r']) ++ '\n' :: more := by simp
  rw [firstLine, hsplit, Text.splitOnceChars_append hline]
  dsimp only
  rw [if_pos List.getLast?_concat, List.dropLast_concat]

lemma splitWhitespace_requestLine {path query : List Char}
    (h : ∀ c ∈ path ++ '?' :: query, Text.isWhitespace c = false) :
    splitWhitespace (requestLine path query) =
      ["GET".toList, path ++ '?' :: query, "HTTP/1.1".toList] := by
  have hget : ∀ c ∈ "GET".toList, Text.isWhitespace c = false := by simp [Text.isWhitespace]
  have hversion : ∀ c ∈ "HTTP/1.1".toList, Text.isWhitespace c = false := by simp [Text.isWhitespace]
  rw [splitWhitespace, requestLine, List.splitOnP_append_cons_of_forall_mem hget ' ' (by decide),
    List.splitOnP_append_cons_of_forall_mem h ' ' (by decide), List.splitOnP_eq_singleton hversion,
    List.filter_cons_of_pos (by decide), List.filter_cons_of_pos (by simp),
    List.filter_cons_of_pos (by decide), List.filter_nil]

/-- A request for a path and a query is read as one, whatever comes behind its first line. -/
lemma readTarget_callbackRequest {path query : List Char} {rest : List UInt8}
    (hpath : ∀ c ∈ path, c ≠ '?' ∧ Text.isWhitespace c = false)
    (hquery : ∀ c ∈ query, Text.isWhitespace c = false)
    (hlen : (callbackRequest path query []).length ≤ 8192) :
    readTarget (callbackRequest path query rest) = (path, query) := by
  have htarget : ∀ c ∈ path ++ '?' :: query, Text.isWhitespace c = false := by
    intro c hc
    rcases List.mem_append.mp hc with hc | hc
    · exact (hpath c hc).2
    · rcases List.mem_cons.mp hc with rfl | hc
      · decide
      · exact hquery c hc
  have hnewline : '\n' ∉ requestLine path query := by
    intro hmem
    rcases List.mem_append.mp hmem with hmem | hmem
    · exact absurd hmem (by decide)
    · rcases List.mem_cons.mp hmem with heq | hmem
      · exact absurd heq (by decide)
      · rcases List.mem_append.mp hmem with hmem | hmem
        · exact absurd (htarget _ hmem) (by decide)
        · exact absurd hmem (by decide)
  have hquestion : '?' ∉ path := fun h => (hpath '?' h).1 rfl
  have htake : (callbackRequest path query rest).take 8192 =
      Utf8.encode (requestLine path query ++ ['\r', '\n']) ++
        rest.take (8192 - (Utf8.encode (requestLine path query ++ ['\r', '\n'])).length) := by
    rw [callbackRequest, List.append_nil] at hlen
    rw [callbackRequest, List.take_append, List.take_of_length_le hlen]
  rw [readTarget, htake, Utf8.lossy_encode_append, firstLine_append hnewline,
    splitWhitespace_requestLine htarget]
  dsimp only [List.getElem?_cons_succ, List.getElem?_cons_zero, Option.getD_some]
  rw [Text.splitOnceChars_append hquestion, Option.getD_some]

/-- A form as it stands in a request. -/
def formQuery (pairs : List (List Char × List Char)) : List Char :=
  (FormUrlencoded.serialize pairs).map fun b => Char.ofNat b.toNat

lemma encode_formQuery (pairs : List (List Char × List Char)) :
    Utf8.encode (formQuery pairs) = FormUrlencoded.serialize pairs :=
  Utf8.encode_ofNat fun _ hb => (FormUrlencoded.mem_serialize hb).2

lemma isWhitespace_formQuery {pairs : List (List Char × List Char)} :
    ∀ c ∈ formQuery pairs, Text.isWhitespace c = false := by
  intro c hc
  obtain ⟨b, hb, rfl⟩ := List.mem_map.mp hc
  obtain ⟨hlow, hhigh⟩ := FormUrlencoded.mem_serialize hb
  have hvalid : b.toNat.isValidChar := .inl (by omega)
  have hnat : (Char.ofNat b.toNat).toNat = b.toNat := by
    rw [Char.ofNat, dif_pos hvalid]
    rfl
  simp only [Text.isWhitespace, hnat]
  simp
  omega

/-- The value of a parameter of a page; of a name that comes twice the last counts. -/
def pageParam (url : Url) (name : String) : Option (List Char) :=
  (FormUrlencoded.parse (url.query.getD [])).reverse.lookup name.toList

lemma parse_appendPairs (url : Url) (pairs : List (List Char × List Char)) :
    FormUrlencoded.parse ((url.appendPairs pairs).query.getD []) =
      FormUrlencoded.parse (url.query.getD []) ++ pairs := by
  rw [Url.appendPairs]
  rcases hquery : url.query with _ | query
  · exact FormUrlencoded.parse_serialize pairs
  · cases query with
    | nil => exact FormUrlencoded.parse_serialize pairs
    | cons b query => exact FormUrlencoded.parse_append (b :: query) pairs

/-- The page has the parameters of the flow behind those of the provider. -/
lemma opened_of_setUp {client : CallbackClient} {world : CallbackWorld} {setup : CallbackSetup}
    (h : setUp client world = .ok setup) :
    ∃ url : Url, setup.opened = url.appendPairs (authorizeParams client.clientId setup.redirect client.scope
      world.state (if client.pkce then some world.challenge else none)) := by
  rw [setUp] at h
  cases hendpoints : world.endpoints with
  | error e => simp [hendpoints] at h
  | ok endpoints =>
      cases hauthorization : endpoints.authorizationUrl with
      | none => simp [hendpoints, hauthorization] at h
      | some authorizationUrl =>
          cases hredirect : world.parseUrl client.redirectUri with
          | error e => simp [hendpoints, hauthorization, hredirect] at h
          | ok parsed =>
              simp only [hendpoints, hauthorization, hredirect] at h
              generalize (if parsed.path = "" then "/" else parsed.path) = path at h
              split at h
              · simp at h
              · rename_i port hbind
                cases hurl : world.parseUrl authorizationUrl with
                | error e => simp [buildAuthorizeUrl, hurl, Except.map] at h
                | ok url =>
                    simp only [buildAuthorizeUrl, hurl, Except.map, Except.ok.injEq] at h
                    exact ⟨url, h ▸ rfl⟩

lemma pageParam_opened {client : CallbackClient} {world : CallbackWorld} {setup : CallbackSetup}
    (h : setUp client world = .ok setup) :
    pageParam setup.opened "redirect_uri" = some setup.redirect.toList ∧
      pageParam setup.opened "state" = some world.state.toList := by
  obtain ⟨url, hopened⟩ := opened_of_setUp h
  rw [pageParam, pageParam, hopened, parse_appendPairs, List.reverse_append, List.lookup_append,
    List.lookup_append]
  cases client.scope <;> cases client.pkce <;> simp [authorizeParams, List.lookup_cons]

/-- A name that other parameters do not have is read before them. -/
lemma lookup_append_of_notMem {name value : List Char} {params more : List (List Char × List Char)}
    (hmore : ∀ p ∈ more, p.1 ≠ name) (h : params.reverse.lookup name = some value) :
    (params ++ more).reverse.lookup name = some value := by
  have hnone : more.reverse.lookup name = none := by
    rw [List.lookup_eq_none_iff]
    intro p hp
    exact bne_iff_ne.mpr fun heq => hmore p (List.mem_reverse.mp hp) heq.symm
  rw [List.reverse_append, List.lookup_append, hnone, h, Option.none_or]

lemma carries_redirect {path : String} {code state : List Char} {more : List (List Char × List Char)}
    {rest : List UInt8} (hpath : ∀ c ∈ path.toList, c ≠ '?' ∧ Text.isWhitespace c = false)
    (hmore : ∀ p ∈ more, p.1 ∉ ["code".toList, "state".toList, "error".toList])
    (hlen : (callbackRequest path.toList
      (formQuery (("code".toList, code) :: ("state".toList, state) :: more)) []).length ≤ 8192) :
    carries path (callbackRequest path.toList
      (formQuery (("code".toList, code) :: ("state".toList, state) :: more)) rest)
      (String.ofList code) (String.ofList state) := by
  have hread := @readTarget_callbackRequest _ _ rest hpath isWhitespace_formQuery hlen
  have hother : ∀ name ∈ ["code".toList, "state".toList, "error".toList], ∀ p ∈ more, p.1 ≠ name :=
    fun name hname p hp heq => hmore p hp (heq ▸ hname)
  have hparams : FormUrlencoded.parse (Utf8.encode (formQuery
      (("code".toList, code) :: ("state".toList, state) :: more))) =
        [("code".toList, code), ("state".toList, state)] ++ more := by
    rw [encode_formQuery, FormUrlencoded.parse_serialize]
    rfl
  refine ⟨by rw [hread], ?_, ?_, ?_⟩
  · rw [readParam, hread, hparams, Option.map_eq_none_iff, List.lookup_eq_none_iff]
    intro p hp
    refine bne_iff_ne.mpr fun heq => ?_
    rcases List.mem_append.mp (List.mem_reverse.mp hp) with hp | hp
    · rcases List.mem_pair.mp hp with rfl | rfl <;> simp at heq
    · exact hother "error".toList (by simp) p hp heq.symm
  · have hcode : ([("code".toList, code), ("state".toList, state)] ++ more).reverse.lookup "code".toList =
        some code := lookup_append_of_notMem (hother "code".toList (by simp)) (by simp [List.lookup_cons])
    rw [readParam, hread, hparams, hcode, Option.map_some]
  · have hstate : ([("code".toList, code), ("state".toList, state)] ++ more).reverse.lookup "state".toList =
        some state := lookup_append_of_notMem (hother "state".toList (by simp)) (by simp)
    rw [readParam, hread, hparams, hstate, Option.map_some, Option.getD_some]

end Secrets
end Pawrly
