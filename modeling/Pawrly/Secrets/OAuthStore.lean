import Pawrly.Http.Json
import Mathlib.Logic.Function.Basic

/-!
# OAuth variables

`RuntimeVariableStore` of `pawrly-secrets/src/variables/mod.rs`: access tokens are cached, and
minted anew when they run out, with a lock for each store and variable.  A reload of the
configuration makes a new store over the same token store; sources registered before keep the old
one, so several stores are in use at a time.
-/

namespace Pawrly
namespace Secrets

open Http

/-! ## Token responses -/

inductive VarError
  | notConnected (id : String)
  | request (message : String)
  | status (code : ℕ)
  | oauth (status : ℕ) (error : String)
  | response (message : String)
  | persist

/-- `DEFAULT_LIFETIME_SECS`. -/
def defaultLifetimeSecs : ℕ := 300

/-- `EXPIRY_SKEW`, in seconds. -/
def expirySkew : ℕ := 30

structure TokenResponse where
  accessToken : String
  expiresIn : ℕ
  refreshToken : Option String

/-- `value.as_str()`. -/
def asStr? : Json → Option String
  | .str s => some s
  | _ => none

/-- `value.as_u64()`. -/
def asU64? : Json → Option ℕ
  | .num text => Text.parseUnsigned (2 ^ 64 - 1) text
  | _ => none

def TokenResponse.parse (body : Json) : Except VarError TokenResponse :=
  match (body.get? "access_token").bind asStr? with
  | none => .error (.response "missing `access_token`")
  | some token =>
      .ok
        { accessToken := token
          expiresIn := ((body.get? "expires_in").bind asU64?).getD defaultLifetimeSecs
          refreshToken := (body.get? "refresh_token").bind asStr? }

def oauthError (status : ℕ) (body : Json) : VarError :=
  match (body.get? "error").bind asStr? with
  | some error => .oauth status error
  | none => .status status

/-- `post_token`, of what the endpoint answers: a transport error, or a status and a body. -/
def postToken (answer : Except String (ℕ × Json)) : Except VarError TokenResponse :=
  match answer with
  | .error message => .error (.request message)
  | .ok (status, body) =>
      if 200 ≤ status ∧ status < 300 then TokenResponse.parse body
      else .error (oauthError status body)

/-- The new refresh token, where the response has one that differs from the one sent. -/
def TokenResponse.rotated (response : TokenResponse) (refresh : String) : Option String :=
  response.refreshToken.filter fun token => token ≠ refresh

/-! ## Stores -/

/-- The kinds of `DynamicVarSpec`. -/
inductive DynamicVarSpec
  | clientCredentials
  | deviceCode
  | authorizationCode
  deriving DecidableEq

structure CachedToken where
  token : String
  expiresAt : ℕ

def TokenResponse.intoCached (now : ℕ) (response : TokenResponse) : CachedToken :=
  { token := response.accessToken, expiresAt := now + response.expiresIn }

/-- Where a mint waits: for the discovery of the endpoints, for the answer to its request (with the
refresh token it sent), or before what it got is kept. -/
inductive Mint
  | discovering (spec : DynamicVarSpec)
  | requesting (refresh : Option String)
  | answered (refresh : Option String) (response : TokenResponse)

/-- The cell of a variable; a mint in progress holds its lock. -/
structure Cell where
  cached : Option CachedToken := none
  mint : Option Mint := none

/-- An exchange of a refresh token: nothing when it failed, else the new token if there is one. -/
structure Exchange where
  id : String
  sent : String
  outcome : Option (Option String)

/-- The token that the exchange put in place of the one it sent. -/
def Exchange.rotated (e : Exchange) : Option String := e.outcome.join

/-- The specs of the stores in the order of their making, the cells of each store, the refresh
tokens that the stores share, and the exchanges made so far, the last first. -/
structure Variables where
  stores : List (String → Option DynamicVarSpec)
  cells : ℕ → String → Cell
  tokens : String → Option String
  log : List Exchange

inductive VarAction
  /-- `reload_config` makes a store. -/
  | reload (specs : String → Option DynamicVarSpec)
  /-- A `resolve` call takes the lock of a cell. -/
  | resolve (store : ℕ) (id : String) (now : ℕ)
  /-- The endpoints are discovered or not, and the token store can be read or not. -/
  | discovered (store : ℕ) (id : String) (endpoints readable : Bool)
  /-- The endpoint answers. -/
  | answered (store : ℕ) (id : String) (answer : Except String (ℕ × Json))
  /-- What was answered is kept; the token store can be written or not. -/
  | kept (store : ℕ) (id : String) (now : ℕ) (writable : Bool)
  /-- The call is dropped while it waits. -/
  | dropped (store : ℕ) (id : String)

namespace Variables

def setCell (s : Variables) (store : ℕ) (id : String) (cell : Cell) : Variables :=
  { s with cells := Function.update s.cells store (Function.update (s.cells store) id cell) }

/-- The mint goes on. -/
def setMint (s : Variables) (store : ℕ) (id : String) (mint : Mint) : Variables :=
  s.setCell store id { s.cells store id with mint := some mint }

/-- The mint ends with an error. -/
def release (s : Variables) (store : ℕ) (id : String) : Variables :=
  s.setCell store id { s.cells store id with mint := none }

/-- The mint ends with a token. -/
def fill (s : Variables) (store : ℕ) (id : String) (cached : CachedToken) : Variables :=
  s.setCell store id { cached := some cached }

/-- A cached token is used while it has more than the skew to live. -/
def fresh (cell : Cell) (now : ℕ) : Bool :=
  cell.cached.any fun cached => now + expirySkew < cached.expiresAt

/-- `mint` once the endpoints are known: an interactive grant sends the stored refresh token. -/
def request (s : Variables) (store : ℕ) (id : String) (spec : DynamicVarSpec) (readable : Bool) :
    Variables :=
  match spec with
  | .clientCredentials => s.setMint store id (.requesting none)
  | .deviceCode | .authorizationCode =>
      if readable then
        match s.tokens id with
        | none => s.release store id
        | some refresh => s.setMint store id (.requesting (some refresh))
      else s.release store id

/-- The answer to a request; that of a refresh token is an exchange. -/
def receive (s : Variables) (store : ℕ) (id : String) (refresh : Option String)
    (answer : Except VarError TokenResponse) : Variables :=
  match refresh, answer with
  | none, .error _ => s.release store id
  | none, .ok response => s.setMint store id (.answered none response)
  | some refresh, .error _ => { s.release store id with log := ⟨id, refresh, none⟩ :: s.log }
  | some refresh, .ok response =>
      { s.setMint store id (.answered (some refresh) response) with
        log := ⟨id, refresh, some (response.rotated refresh)⟩ :: s.log }

/-- A new refresh token is stored before the access token is cached. -/
def keep (s : Variables) (store : ℕ) (id : String) (refresh : Option String)
    (response : TokenResponse) (now : ℕ) (writable : Bool) : Variables :=
  match refresh.bind response.rotated with
  | none => s.fill store id (response.intoCached now)
  | some token =>
      if writable then
        { s.fill store id (response.intoCached now) with
          tokens := Function.update s.tokens id (some token) }
      else s.release store id

def step (s : Variables) : VarAction → Option Variables
  | .reload specs => some { s with stores := s.stores ++ [specs] }
  | .resolve store id now =>
      s.stores[store]?.bind fun specs =>
        match specs id with
        | none => some s
        | some spec =>
            match (s.cells store id).mint with
            | some _ => none
            | none =>
                if fresh (s.cells store id) now then some s
                else some (s.setMint store id (.discovering spec))
  | .discovered store id endpoints readable =>
      match (s.cells store id).mint with
      | some (.discovering spec) =>
          some (if endpoints then s.request store id spec readable else s.release store id)
      | _ => none
  | .answered store id answer =>
      match (s.cells store id).mint with
      | some (.requesting refresh) => some (s.receive store id refresh (postToken answer))
      | _ => none
  | .kept store id now writable =>
      match (s.cells store id).mint with
      | some (.answered refresh response) =>
          some (s.keep store id refresh response now writable)
      | _ => none
  | .dropped store id =>
      match (s.cells store id).mint with
      | some (.discovering _) | some (.requesting _) => some (s.release store id)
      | _ => none

end Variables

end Secrets
end Pawrly
