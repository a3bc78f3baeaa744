import Pawrly.Lib.IpAddress
import Pawrly.Lib.Fallible
import Pawrly.Text
import Mathlib

/-!
# The outbound-target guard

Which URLs a source may be asked for, on the text of the URL (`check_target`), on the addresses
that a name resolves to (`GuardedResolver`), and on the hops of a redirect (`redirect_policy`).
-/

namespace Pawrly
namespace Http

open IpAddress

/-! ## URLs -/

inductive Host
  | domain (name : String)
  | ipv4 (addr : Ipv4)
  | ipv6 (addr : Ipv6)
  deriving DecidableEq

/-- What the guard reads of a parsed URL.  The text of a domain is the domain. -/
structure Url where
  scheme : String
  host : Option Host
  hostStr : Option String
  port : Option ℕ := none
  text : String
  hostStr_domain : ∀ name, host = some (.domain name) → hostStr = some name

/-- The default port of a scheme. -/
def knownPort : String → Option ℕ
  | "http" | "ws" => some 80
  | "https" | "wss" => some 443
  | "ftp" => some 21
  | _ => none

def Url.portOrKnownDefault (url : Url) : Option ℕ := url.port.or (knownPort url.scheme)

/-- `to_ascii_lowercase`. -/
def lowercase (s : String) : String := String.ofList (s.toList.map Char.toLower)

/-- A host name without the dot of the root, in lower case. -/
def hostName (s : String) : String := lowercase (Text.trimEndChar '.' s)

/-- `s.ends_with(suffix)`. -/
def endsWith (suffix s : String) : Bool := suffix.toList.isSuffixOf s.toList

/-! ## Trust -/

inductive HostPattern
  | exact (host : String)
  | suffix (suffix : String)

def HostPattern.matches (host : String) : HostPattern → Bool
  | exact h => hostName host = h
  | suffix s => s.length < (hostName host).length && endsWith s (hostName host)

def sameOrigin (a b : Url) : Bool :=
  a.scheme = b.scheme && a.hostStr = b.hostStr &&
    a.portOrKnownDefault = b.portOrKnownDefault

def hostAllowed (url : Url) (allowed : List HostPattern) : Bool :=
  url.hostStr.any fun h => allowed.any (HostPattern.matches h)

def isTrusted (url base : Url) (allowed : List HostPattern) : Bool :=
  sameOrigin url base || hostAllowed url allowed

/-! ## Addresses -/

inductive IpClass
  | allow
  | private_
  | alwaysRefuse
  deriving DecidableEq

def classify : IpAddr → IpClass
  | .v4 v4 =>
      if v4.isLoopback then .allow
      else if v4.isLinkLocal || v4.isUnspecified || v4.isBroadcast then .alwaysRefuse
      else if v4.isPrivate || (v4.a = 100 && (64 ≤ (v4.b : ℕ) && (v4.b : ℕ) < 128)) then .private_
      else .allow
  | .v6 v6 =>
      if v6.isLoopback then .allow
      else if v6.isUnspecified || (v6.s0 : ℕ) &&& 0xffc0 = 0xfe80 then .alwaysRefuse
      else if (v6.s0 : ℕ) &&& 0xfe00 = 0xfc00 then .private_
      else .allow

def normalize : IpAddr → IpAddr
  | .v6 v6 => v6.mapped.elim (.v6 v6) .v4
  | v4 => v4

/-! ## The lexical check -/

def refusal (url : Url) (what : String) : String :=
  "refusing cross-origin request to `" ++ url.text ++ "`: " ++ what ++
    " targets are not reachable from a query (declare the host as a source's `base_url` or " ++
    "`allowed_hosts`)"

def checkIp (ip : IpAddr) (url : Url) (allowed : List HostPattern) : Except String Unit :=
  match classify ip with
  | .allow => .ok ()
  | .alwaysRefuse => .error ("refusing cross-origin request to `" ++ url.text ++
      "`: link-local/metadata targets are never reachable from a query")
  | .private_ => if hostAllowed url allowed then .ok () else .error (refusal url "private")

/-- `localhost` and the names under it. -/
def isLocalhost (d : String) : Bool := d = "localhost" || endsWith ".localhost" d

def checkTarget (url base : Url) (allowed : List HostPattern) : Except String Unit :=
  if sameOrigin url base then .ok ()
  else if !(url.scheme = "http" || url.scheme = "https") then
    .error ("refusing `" ++ url.text ++ "`: only http(s) targets are allowed")
  else
    match url.host with
    | none => .error (refusal url "host-less")
    | some (.domain d) =>
        if hostAllowed url allowed || isLocalhost (hostName d) then .ok ()
        else if endsWith ".internal" (hostName d) then .error (refusal url "`.internal`")
        else .ok ()
    | some (.ipv4 ip) => checkIp (.v4 ip) url allowed
    | some (.ipv6 ip) => checkIp (normalize (.v6 ip)) url allowed

/-! ## Redirects -/

/-- `redirect_policy`: the hop to a URL, after the URLs asked before. -/
def redirectPolicy (base : Url) (allowed : List HostPattern) (hasAuth : Bool)
    (previous : List Url) (url : Url) : Except String Unit := do
  if 5 < previous.length then .error "too many redirects"
  else do
    checkTarget url base allowed
    if hasAuth && !isTrusted url base allowed then
      .error "refusing to follow a credentialed redirect to an untrusted host"
    else .ok ()

/-! ## Resolved addresses -/

structure GuardedResolver where
  baseHost : Option String
  allowed : List HostPattern

def GuardedResolver.new (base : Url) (allowed : List HostPattern) : GuardedResolver where
  baseHost := base.hostStr.map lowercase
  allowed := allowed

def nameTrusted (name : String) (baseHost : Option String) (allowed : List HostPattern) : Bool :=
  baseHost.any (fun b => lowercase b = lowercase name) ||
    allowed.any (HostPattern.matches name)

def screenResolved (name : String) (baseHost : Option String) (allowed : List HostPattern) :
    List IpAddr → Except String Unit
  | [] => .ok ()
  | addr :: addrs =>
      match classify (normalize addr) with
      | .allow => screenResolved name baseHost allowed addrs
      | .alwaysRefuse => .error ("refusing `" ++ name ++
          "`: resolves to a link-local/metadata address")
      | .private_ =>
          if !nameTrusted name baseHost allowed then
            .error ("refusing `" ++ name ++ "`: resolves to a private address " ++ addr.display)
          else screenResolved name baseHost allowed addrs

/-- `Resolve::resolve`; `lookup` is the resolver of the host. -/
def GuardedResolver.resolve (resolver : GuardedResolver)
    (lookup : String → Except String (List IpAddr)) (name : String) :
    Except String (List IpAddr) := do
  let host := lowercase name
  let addrs ← lookup host
  screenResolved host resolver.baseHost resolver.allowed addrs
  .ok addrs

/-! ## What the checks say -/

lemma toLower_eq_dot {c : Char} : c.toLower = '.' ↔ c = '.' := by
  constructor
  · intro h
    by_cases hupper : c.isUpper = true
    · have halpha : c.toLower.isAlpha = true := by
        rw [Char.isAlpha_toLower_eq_isAlpha]
        simp [Char.isAlpha, hupper]
      rw [h] at halpha
      exact absurd halpha (by decide)
    · rwa [Char.toLower_eq_of_not_isUpper hupper] at h
  · rintro rfl
    rfl

lemma lowercase_lowercase (s : String) : lowercase (lowercase s) = lowercase s := by
  simp [lowercase, Function.comp_def]

/-- The case of a name does not change what it is compared by. -/
lemma hostName_lowercase (s : String) : hostName (lowercase s) = hostName s := by
  have hdot : ((fun c => decide (c = '.')) ∘ Char.toLower) = fun c => decide (c = '.') := by
    funext c
    simp [toLower_eq_dot]
  simp only [hostName, lowercase, Text.trimEndChar, String.toList_ofList, ← List.map_reverse,
    List.dropWhile_map, hdot, List.map_map]
  simp [Function.comp_def]

lemma matches_lowercase (p : HostPattern) (s : String) :
    p.matches (lowercase s) = p.matches s := by
  cases p <;> simp only [HostPattern.matches, hostName_lowercase]

/-- A resolution passes the screen when no address of it is refused. -/
lemma screenResolved_eq_ok {name : String} {baseHost : Option String}
    {allowed : List HostPattern} {addrs : List IpAddr} :
    screenResolved name baseHost allowed addrs = .ok () ↔ ∀ addr ∈ addrs,
      classify (normalize addr) ≠ .alwaysRefuse ∧
        (classify (normalize addr) = .private_ → nameTrusted name baseHost allowed = true) := by
  induction addrs with
  | nil => simp [screenResolved]
  | cons addr addrs ih =>
      rw [screenResolved, List.forall_mem_cons, ← ih]
      cases hclass : classify (normalize addr) with
      | allow => simp
      | alwaysRefuse => simp
      | private_ =>
          by_cases htrust : nameTrusted name baseHost allowed = true
          · simp [htrust]
          · simp [htrust]

lemma resolve_eq_ok {resolver : GuardedResolver} {lookup : String → Except String (List IpAddr)}
    {name : String} {addrs : List IpAddr} :
    resolver.resolve lookup name = .ok addrs ↔ lookup (lowercase name) = .ok addrs ∧
      screenResolved (lowercase name) resolver.baseHost resolver.allowed addrs = .ok () := by
  unfold GuardedResolver.resolve
  constructor
  · intro h
    obtain ⟨found, hlookup, h⟩ := Fallible.bind_eq_ok.mp h
    obtain ⟨u, hscreen, h⟩ := Fallible.bind_eq_ok.mp h
    cases h
    exact ⟨hlookup, hscreen⟩
  · rintro ⟨hlookup, hscreen⟩
    refine Fallible.bind_eq_ok.mpr ⟨addrs, hlookup, ?_⟩
    exact Fallible.bind_eq_ok.mpr ⟨(), hscreen, rfl⟩

lemma redirectPolicy_eq_ok {base url : Url} {allowed : List HostPattern} {hasAuth : Bool}
    {previous : List Url} :
    redirectPolicy base allowed hasAuth previous url = .ok () ↔ previous.length ≤ 5 ∧
      checkTarget url base allowed = .ok () ∧ (hasAuth = true → isTrusted url base allowed = true) := by
  rw [redirectPolicy]
  by_cases hlong : 5 < previous.length
  · rw [if_pos hlong]
    simp [hlong]
  · rw [if_neg hlong]
    have hle : previous.length ≤ 5 := by omega
    cases hcheck : checkTarget url base allowed with
    | error e => simp [Bind.bind, Except.bind]
    | ok u =>
        cases hasAuth <;> cases isTrusted url base allowed <;> simp [hle, Bind.bind, Except.bind]

lemma checkIp_eq_ok {ip : IpAddr} {url : Url} {allowed : List HostPattern} :
    checkIp ip url allowed = .ok () ↔ classify ip ≠ .alwaysRefuse ∧
      (classify ip = .private_ → hostAllowed url allowed = true) := by
  rw [checkIp]
  cases classify ip with
  | allow => simp
  | alwaysRefuse => simp
  | private_ => by_cases h : hostAllowed url allowed = true <;> simp [h]

end Http
end Pawrly
