import Pawrly.Config.Variables
import Pawrly.Http.Credentials

/-!
# The credentials of a source

`parse_auth` reads the auth of a source from its config, and `resolve_dynamic` resolves its credentials
at each request.  A request depends on the variable store through these only (`applyAuth_congr`).
-/

namespace Pawrly
namespace Http

open Fallible
open Config (Serde.optional Serde.defaulted Serde.string Serde.structFields)

/-! ## Reading -/

namespace AuthSpec

/-- A variant of an enum that is told by a field, or by the first item, with its contents. -/
def taggedVariant (tag : String) : Json → Option (String × Json)
  | .obj fields =>
      match fields.lookup tag with
      | some (.str variant) => some (variant, .obj (fields.filter fun f => f.1 ≠ tag))
      | _ => Option.none
  | .arr (.str variant :: rest) => some (variant, .arr rest)
  | _ => Option.none

def readList {α : Type} (read : Json → Option α) (v : Json) : Option (List α) :=
  v.asArray?.bind fun items => items.mapM read

/-- `from_value` for an `AuthHeader`. -/
def readHeader (v : Json) : Option AuthHeader := do
  let fields ← Serde.structFields ["name", "bearer", "value"] false v
  pure
    { name := ← (fields.lookup "name").bind Serde.string
      bearer := ← Serde.optional Serde.string (fields.lookup "bearer")
      value := ← Serde.optional Serde.string (fields.lookup "value") }

/-- `from_value` for a `QueryCredential`. -/
def readPair (v : Json) : Option (String × String) := do
  let fields ← Serde.structFields ["name", "value"] false v
  let name ← (fields.lookup "name").bind Serde.string
  let value ← (fields.lookup "value").bind Serde.string
  pure (name, value)

/-- `from_value` for an `AuthSpec`. -/
def read (v : Json) : Option AuthSpec := do
  let (variant, body) ← taggedVariant "type" v
  if variant = "none" then some .none
  else if variant = "header" then do
    let fields ← Serde.structFields ["headers"] false body
    let headers ← Serde.defaulted (readList readHeader) [] (fields.lookup "headers")
    some (.header headers)
  else if variant = "basic" then do
    let fields ← Serde.structFields ["username", "password"] false body
    let username ← (fields.lookup "username").bind Serde.string
    let password ← (fields.lookup "password").bind Serde.string
    some (.basic username password)
  else if variant = "custom" then do
    let fields ← Serde.structFields ["query", "body"] false body
    let query ← Serde.defaulted (readList readPair) [] (fields.lookup "query")
    let attached ← Serde.defaulted (readList readPair) [] (fields.lookup "body")
    some (.custom query attached)
  else if variant = "oauth2" then do
    let fields ← Serde.structFields ["token_url", "client_id", "client_secret", "scope", "audience"]
      false body
    let _ ← ["token_url", "client_id", "client_secret"].mapM fun f =>
      (fields.lookup f).bind Serde.string
    let _ ← ["scope", "audience"].mapM fun f => Serde.optional Serde.string (fields.lookup f)
    some .oauth2
  else none

def bearer (token : String) : AuthSpec :=
  .header [{ name := "Authorization", bearer := some token }]

end AuthSpec

/-- `parse_auth` on the config of a source. -/
def parseAuth (config : Json) : AuthSpec :=
  match config.get? "token" with
  | some (.str token) => .bearer token
  | _ =>
      match config.get? "auth" with
      | some auth => (AuthSpec.read auth).getD .none
      | none => .none

/-! ## Request time -/

/-- The name in a string that is exactly `${var:NAME}`. -/
def parseVarRef (s : String) : Option String := do
  let rest ← Text.stripPrefix "$\x7b" (Text.trim s)
  let body ← Text.stripSuffix "\x7d" rest
  let (head, target) ← Text.splitOnce ':' body
  if head = "var" then some target else none

/-- The load and the request read references alike. -/
lemma parseVarRef_eq (s : String) : parseVarRef s = Config.parseRef s := rfl

/-- `resolve_dynamic`, with the variables bound for the source and the variable store. -/
def resolveDynamic (dynamic : String → Option String) (resolve : String → Except String String)
    (raw : String) : Except String String :=
  match parseVarRef raw with
  | none => .ok raw
  | some name =>
      match dynamic name with
      | none => .ok raw
      | some id => (resolve id).mapError fun e => "resolve `$\x7bvar:" ++ name ++ "\x7d`: " ++ e

/-- A string reaches the request as it is, whatever the store holds, unless it names a bound
variable. -/
lemma resolveDynamic_verbatim {dynamic : String → Option String} {raw : String} :
    (∀ resolve, resolveDynamic dynamic resolve raw = .ok raw) ↔
      ∀ name, parseVarRef raw = some name → dynamic name = none := by
  unfold resolveDynamic
  cases hname : parseVarRef raw with
  | none => simp
  | some name =>
      cases hid : dynamic name with
      | none => simp [hid]
      | some id =>
          simp only [hid, Option.some.injEq, forall_eq', reduceCtorEq, iff_false, not_forall]
          exact ⟨fun _ => .error "", nofun⟩

/-- The strings that a request resolves. -/
def AuthSpec.credentials : AuthSpec → List String
  | .header headers => headers.filterMap fun h => h.bearer.or h.value
  | .basic _ password => [password]
  | .custom query _ => query.map (·.2)
  | .none | .oauth2 => []

lemma authHeader_congr {w w' : World} {h : AuthHeader}
    (hres : ∀ s ∈ h.bearer.or h.value, w.resolveDynamic s = w'.resolveDynamic s) :
    authHeader w h = authHeader w' h := by
  obtain ⟨name, bearer, value⟩ := h
  unfold authHeader
  cases bearer with
  | some b =>
      have hb := hres b rfl
      simp only [hb]
  | none =>
      cases value with
      | some v =>
          have hv := hres v rfl
          simp only [hv]
      | none => rfl

/-- A request depends on the variable store through the credentials of its source. -/
theorem applyAuth_congr {source : HttpSource} {lib : Library} {w w' : World} {url : Url}
    (hbuilds : w.builds = w'.builds) (hoauth : w.oauthBearer = w'.oauthBearer)
    (hres : ∀ s ∈ source.auth.credentials, w.resolveDynamic s = w'.resolveDynamic s) :
    source.applyAuth lib w url = source.applyAuth lib w' url := by
  unfold HttpSource.applyAuth
  rw [hbuilds]
  split_ifs
  · rfl
  · rfl
  · cases hauth : source.auth with
    | none => rfl
    | header headers =>
        rw [hauth] at hres
        have hheaders : headers.mapM (authHeader w) = headers.mapM (authHeader w') := by
          refine Fallible.mapM_congr fun h hh => authHeader_congr fun s hs => hres s ?_
          exact List.mem_filterMap.mpr ⟨h, hh, hs⟩
        simp only [hheaders]
    | basic username password =>
        rw [hauth] at hres
        have hpassword := hres password (List.mem_singleton_self password)
        simp only [hpassword]
    | custom query body =>
        rw [hauth] at hres
        have hquery : (query.mapM fun q => (w.resolveDynamic q.2).map fun v => (q.1, v)) =
            query.mapM fun q => (w'.resolveDynamic q.2).map fun v => (q.1, v) := by
          refine Fallible.mapM_congr fun q hq => ?_
          rw [hres q.2 (List.mem_map.mpr ⟨q, hq, rfl⟩)]
        simp only [hquery]
    | oauth2 => simp only [hoauth]

end Http
end Pawrly
