import Pawrly.Http.Guard

/-!
# The outbound-target policy

No connection goes to a link-local, unspecified or broadcast address, unless the URL is the address
itself on the origin of the source, and none goes to a private address, unless the URL is on the
origin of the source or its host is allowed; an IPv6 address that carries such an address counts as
that address.  The text of the URL and the addresses of its name are checked apart, with two notions
of trust and one of the ways to carry an address: `TextSafe` and `AnswerSafe` are what is left to
the request.
-/

namespace Pawrly
namespace Http

open IpAddress

/-! ## The policy -/

/-- Link-local, unspecified and broadcast addresses. -/
def Forbidden : IpAddr → Prop
  | .v4 x => x.InBlock ⟨169, 254, 0, 0⟩ 16 ∨ x = ⟨0, 0, 0, 0⟩ ∨ x = ⟨255, 255, 255, 255⟩
  | .v6 x => x.InBlock ⟨0xfe80, 0, 0, 0, 0, 0, 0, 0⟩ 10 ∨ x = ⟨0, 0, 0, 0, 0, 0, 0, 0⟩

/-- Private, shared and unique-local addresses. -/
def PrivateUse : IpAddr → Prop
  | .v4 x => x.InBlock ⟨10, 0, 0, 0⟩ 8 ∨ x.InBlock ⟨172, 16, 0, 0⟩ 12 ∨
      x.InBlock ⟨192, 168, 0, 0⟩ 16 ∨ x.InBlock ⟨100, 64, 0, 0⟩ 10
  | .v6 x => x.InBlock ⟨0xfc00, 0, 0, 0, 0, 0, 0, 0⟩ 7

/-- The address that the host of a URL is written as. -/
def Url.literal? (url : Url) : Option IpAddr :=
  match url.host with
  | some (.ipv4 x) => some (.v4 x)
  | some (.ipv6 x) => some (.v6 x)
  | _ => none

section

variable (base : Url) (allowed : List HostPattern) (lookup : String → Except String (List IpAddr))
  (url : Url)

/-- The policy keeps the URL from an address. -/
def Denied (ip : IpAddr) : Prop :=
  (Forbidden ip ∧ ¬ (url.literal?.isSome = true ∧ sameOrigin url base = true)) ∨
    (PrivateUse ip ∧ isTrusted url base allowed = false)

/-- The scheme is one that the HTTP client speaks. -/
def Url.isWeb : Bool := url.scheme = "http" || url.scheme = "https"

/-- The addresses that a request for the URL may be connected to; `lookup` answers for the names. -/
def connections : List IpAddr :=
  if !url.isWeb then []
  else
    match checkTarget url base allowed, url.host with
    | .ok (), some (.ipv4 x) => [.v4 x]
    | .ok (), some (.ipv6 x) => [.v6 x]
    | .ok (), some (.domain d) =>
        match (GuardedResolver.new base allowed).resolve lookup d with
        | .ok addrs => addrs
        | .error _ => []
    | _, _ => []

/-- No connection goes to an address that is denied or carries one. -/
def Confined : Prop :=
  ∀ ip ∈ connections base allowed lookup url, ¬ Denied base allowed url ip ∧
    ∀ v, ip.embedded = some v → ¬ Denied base allowed url (.v4 v)

/-- The address carries a denied one in another form than the mapped one. -/
def Carries (ip : IpAddr) : Prop :=
  ∃ v, ip.translated = some v ∧ Denied base allowed url (.v4 v)

/-- The name of the URL is refused: it is under `.internal` and not trusted. -/
def NameRefused (d : String) : Prop :=
  isTrusted url base allowed = false ∧ endsWith ".internal" (hostName d) = true

/-- The name is the host of the base URL. -/
def IsBaseName (d : String) : Prop := base.hostStr.any (fun b => lowercase b = lowercase d) = true

/-- The answer to a name is refused for one of its addresses. -/
def AnswerRefused (d : String) (addrs : List IpAddr) : Prop :=
  ∃ ip ∈ addrs, Forbidden (normalize ip) ∨
    PrivateUse (normalize ip) ∧ ¬ IsBaseName base d ∧ hostAllowed url allowed = false

/-- The answer to a name brings no denied address past the screen: none is carried in a form that is
not unfolded, and none is private when only the name speaks for the URL. -/
def AnswerSafe (d : String) (addrs : List IpAddr) : Prop :=
  AnswerRefused base allowed url d addrs ∨
    (∀ ip ∈ addrs, ¬ Carries base allowed url ip) ∧
      (isTrusted url base allowed = false → IsBaseName base d →
        ∀ ip ∈ addrs, ¬ PrivateUse (normalize ip))

/-- When the checks keep a URL from the denied addresses. -/
def TargetSafe : Prop :=
  url.isWeb = true →
    match url.host with
    | some (.domain d) => NameRefused base allowed url d ∨
        ∀ addrs, lookup (lowercase d) = .ok addrs → AnswerSafe base allowed url d addrs
    | _ => ∀ ip, url.literal? = some ip → ¬ Carries base allowed url ip

end

/-! ## The classes -/

lemma classify_v4 (x : Ipv4) :
    (classify (.v4 x) = .alwaysRefuse ↔ Forbidden (.v4 x)) ∧
      (classify (.v4 x) = .private_ ↔ PrivateUse (.v4 x)) := by
  have hforbidden : Forbidden (.v4 x) ↔ (x.isLinkLocal || x.isUnspecified || x.isBroadcast) = true := by
    rw [Bool.or_eq_true, Bool.or_eq_true, Ipv4.isLinkLocal_iff, Ipv4.isUnspecified_iff,
      Ipv4.isBroadcast_iff, or_assoc]
    rfl
  have hprivate : PrivateUse (.v4 x) ↔
      (x.isPrivate || (x.a = 100 && (64 ≤ (x.b : ℕ) && (x.b : ℕ) < 128))) = true := by
    rw [Bool.or_eq_true, Ipv4.isPrivate_iff, or_assoc, or_assoc]
    simp only [Bool.and_eq_true, decide_eq_true_eq, Ipv4.shared_iff]
    rfl
  rw [hforbidden, hprivate, classify]
  by_cases hloop : x.isLoopback = true
  · have ha : x.a = 127 := of_decide_eq_true hloop
    simp [hloop, Ipv4.isLinkLocal, Ipv4.isUnspecified, Ipv4.isBroadcast, Ipv4.isPrivate, ha]
  · rw [if_neg hloop]
    by_cases hf : (x.isLinkLocal || x.isUnspecified || x.isBroadcast) = true
    · have ha : x.a = 169 ∨ x.a = 0 ∨ x.a = 255 := by
        simp only [Ipv4.isLinkLocal, Ipv4.isUnspecified, Ipv4.isBroadcast, Bool.or_eq_true,
          Bool.and_eq_true, decide_eq_true_eq] at hf
        tauto
      rw [if_pos hf]
      rcases ha with ha | ha | ha <;> simp [hf, Ipv4.isPrivate, ha]
    · rw [if_neg hf]
      split_ifs with hp <;> simp [hf, hp]

lemma classify_v6 (x : Ipv6) :
    (classify (.v6 x) = .alwaysRefuse ↔ Forbidden (.v6 x)) ∧
      (classify (.v6 x) = .private_ ↔ PrivateUse (.v6 x)) := by
  have hforbidden : Forbidden (.v6 x) ↔ (x.isUnspecified || (x.s0 : ℕ) &&& 0xffc0 = 0xfe80) = true := by
    rw [Bool.or_eq_true, decide_eq_true_eq, Ipv6.linkLocal_iff, Ipv6.isUnspecified,
      decide_eq_true_eq, or_comm]
    rfl
  have hprivate : PrivateUse (.v6 x) ↔ (x.s0 : ℕ) &&& 0xfe00 = 0xfc00 :=
    (Ipv6.uniqueLocal_iff x).symm
  rw [hforbidden, hprivate, classify]
  by_cases hloop : x.isLoopback = true
  · have hx : x = ⟨0, 0, 0, 0, 0, 0, 0, 1⟩ := of_decide_eq_true hloop
    rw [hx]
    decide
  · rw [if_neg hloop]
    by_cases hf : (x.isUnspecified || (x.s0 : ℕ) &&& 0xffc0 = 0xfe80) = true
    · have hne : ¬ (x.s0 : ℕ) &&& 0xfe00 = 0xfc00 := by
        rcases (Bool.or_eq_true _ _).mp hf with hzero | hlink
        · rw [of_decide_eq_true hzero]
          decide
        · -- the mask of the unique-local block is part of the mask of the link-local one
          have hmask : (x.s0 : ℕ) &&& 0xfe00 = ((x.s0 : ℕ) &&& 0xffc0) &&& 0xfe00 := by
            rw [Nat.land_assoc]
            rfl
          rw [hmask, of_decide_eq_true hlink]
          decide
      rw [if_pos hf]
      simp [hf, hne]
    · rw [if_neg hf]
      split_ifs with hp <;> simp [hf, hp]

lemma classify_eq_alwaysRefuse {ip : IpAddr} : classify ip = .alwaysRefuse ↔ Forbidden ip := by
  cases ip with
  | v4 x => exact (classify_v4 x).1
  | v6 x => exact (classify_v6 x).1

lemma classify_eq_private {ip : IpAddr} : classify ip = .private_ ↔ PrivateUse ip := by
  cases ip with
  | v4 x => exact (classify_v4 x).2
  | v6 x => exact (classify_v6 x).2

/-! ## Carried addresses -/

section

variable {base url : Url} {allowed : List HostPattern}

/-- An address of a translated form passes the checks. -/
lemma classify_of_translated {ip : IpAddr} {v : Ipv4} (h : ip.translated = some v) :
    normalize ip = ip ∧ classify ip = .allow := by
  cases ip with
  | v4 x => cases h
  | v6 x =>
      obtain ⟨hs, hzero, hmapped⟩ := Ipv6.translated_spec h
      obtain ⟨hlink, hunique⟩ := Ipv6.not_inBlock_of_s0 hs
      refine ⟨by rw [normalize, hmapped]; rfl, ?_⟩
      cases hclass : classify (.v6 x) with
      | allow => rfl
      | alwaysRefuse => exact absurd (classify_eq_alwaysRefuse.mp hclass) (not_or.mpr ⟨hlink, hzero⟩)
      | private_ => exact absurd (classify_eq_private.mp hclass) hunique

/-- What is denied of an address and of what it carries, by what the checks look at. -/
lemma denied_iff_normalize (ip : IpAddr) :
    (¬ Denied base allowed url ip ∧ ∀ v, ip.embedded = some v → ¬ Denied base allowed url (.v4 v)) ↔
      ¬ Denied base allowed url (normalize ip) ∧ ¬ Carries base allowed url ip := by
  cases ip with
  | v4 x => simp [normalize, Carries, IpAddr.embedded, IpAddr.translated]
  | v6 x =>
      cases hmapped : x.mapped with
      | none => simp [normalize, Carries, IpAddr.embedded, IpAddr.translated, hmapped]
      | some w =>
          have hnone : x.translated = none := by
            cases htr : x.translated with
            | none => rfl
            | some v => cases hmapped.symm.trans (Ipv6.translated_spec htr).2.2
          have hown : ¬ Denied base allowed url (.v6 x) := by
            obtain ⟨hs, hzero⟩ := Ipv6.mapped_spec hmapped
            obtain ⟨hlink, hunique⟩ := Ipv6.not_inBlock_of_s0 (Or.inl hs)
            rintro (⟨hf, -⟩ | ⟨hp, -⟩)
            · exact hf.elim hlink hzero
            · exact hunique hp
          simp [normalize, Carries, IpAddr.embedded, IpAddr.translated, hmapped, hnone, hown]

/-! ## Addresses that pass -/

/-- A URL on the origin of the source that is an address is connected to that address. -/
lemma not_denied_of_sameOrigin {ip : IpAddr} (hliteral : url.literal?.isSome = true)
    (horigin : sameOrigin url base = true) : ¬ Denied base allowed url ip := by
  rintro (⟨-, hf⟩ | ⟨-, ht⟩)
  · exact hf ⟨hliteral, horigin⟩
  · rw [isTrusted, horigin] at ht
    cases ht

/-- An address in the URL that passes the check is not denied. -/
lemma not_denied_of_checkIp {ip : IpAddr} (h : checkIp ip url allowed = .ok ()) :
    ¬ Denied base allowed url ip := by
  obtain ⟨hrefuse, hpriv⟩ := checkIp_eq_ok.mp h
  rintro (⟨hf, -⟩ | ⟨hp, ht⟩)
  · exact hrefuse (classify_eq_alwaysRefuse.mpr hf)
  · rw [isTrusted, hpriv (classify_eq_private.mpr hp), Bool.or_true] at ht
    cases ht

lemma checkIp_of_translated {ip : IpAddr} {v : Ipv4} (h : ip.translated = some v) :
    checkIp (normalize ip) url allowed = .ok () := by
  obtain ⟨hnorm, hclass⟩ := classify_of_translated h
  rw [checkIp, hnorm, hclass]

lemma isLocalhost_of_internal {d : String} (h : endsWith ".internal" d = true) :
    isLocalhost d = false := by
  rw [endsWith, List.isSuffixOf_iff_suffix] at h
  rw [isLocalhost, Bool.or_eq_false_iff]
  constructor
  · apply decide_eq_false
    rintro rfl
    exact absurd h (by decide)
  · rw [endsWith, ← Bool.not_eq_true, List.isSuffixOf_iff_suffix]
    intro hlocal
    exact absurd (List.suffix_of_suffix_length_le h hlocal (by decide)) (by decide)

/-- When the text check lets a name through. -/
lemma checkTarget_domain {d : String} (hweb : url.isWeb = true) (hhost : url.host = some (.domain d)) :
    checkTarget url base allowed = .ok () ↔ ¬ NameRefused base allowed url d := by
  rw [checkTarget, NameRefused, isTrusted]
  by_cases horigin : sameOrigin url base = true
  · simp [horigin]
  · have hscheme : (url.scheme = "http" || url.scheme = "https") = true := hweb
    rw [if_neg horigin, hscheme, hhost]
    by_cases hallowed : hostAllowed url allowed = true
    · simp [hallowed]
    · by_cases hinternal : endsWith ".internal" (hostName d) = true
      · have hlocal := isLocalhost_of_internal hinternal
        simp [horigin, hallowed, hinternal, hlocal]
      · by_cases hlocal : isLocalhost (hostName d) = true <;>
          simp [hallowed, hinternal, hlocal]

/-- The name that is resolved is trusted when it is the host of the base URL or allowed. -/
lemma nameTrusted_domain {d : String} (hhost : url.host = some (.domain d)) :
    nameTrusted (lowercase d) (GuardedResolver.new base allowed).baseHost allowed = true ↔
      IsBaseName base d ∨ hostAllowed url allowed = true := by
  have hstr : url.hostStr = some d := url.hostStr_domain d hhost
  rw [nameTrusted, Bool.or_eq_true, IsBaseName, hostAllowed, hstr, GuardedResolver.new]
  simp only [Option.any_map, lowercase_lowercase, Option.any_some]
  have hmatch : (HostPattern.matches (lowercase d)) = HostPattern.matches d := by
    funext p
    exact matches_lowercase p d
  rw [hmatch]

/-- An answer passes the screen when it is not refused. -/
lemma screenResolved_domain {d : String} (hhost : url.host = some (.domain d))
    {addrs : List IpAddr} :
    screenResolved (lowercase d) (GuardedResolver.new base allowed).baseHost allowed addrs = .ok () ↔
      ¬ AnswerRefused base allowed url d addrs := by
  rw [screenResolved_eq_ok, AnswerRefused]
  push Not
  refine forall₂_congr fun ip _ => ?_
  rw [nameTrusted_domain hhost, Ne, classify_eq_alwaysRefuse, classify_eq_private]
  refine and_congr Iff.rfl (forall_congr' fun _ => ?_)
  rw [or_iff_not_imp_left, Bool.ne_false_iff]

/-- The addresses of an answer that passes the screen are kept from the denied ones. -/
lemma forall_not_denied_iff {d : String} {addrs : List IpAddr}
    (hpass : ¬ AnswerRefused base allowed url d addrs) :
    (∀ ip ∈ addrs, ¬ Denied base allowed url (normalize ip)) ↔
      (isTrusted url base allowed = false → IsBaseName base d →
        ∀ ip ∈ addrs, ¬ PrivateUse (normalize ip)) := by
  constructor
  · intro h huntrusted _ ip hip hp
    exact h ip hip (Or.inr ⟨hp, huntrusted⟩)
  · rintro h ip hip (⟨hf, -⟩ | ⟨hp, huntrusted⟩)
    · exact hpass ⟨ip, hip, Or.inl hf⟩
    · have hname : IsBaseName base d := by
        by_contra hname
        exact hpass ⟨ip, hip, Or.inr ⟨hp, hname, (Bool.or_eq_false_iff.mp huntrusted).2⟩⟩
      exact h huntrusted hname ip hip hp

/-- The check of a URL that is an address of another origin. -/
lemma checkTarget_literal {ip : IpAddr} (hweb : url.isWeb = true) (hliteral : url.literal? = some ip)
    (horigin : sameOrigin url base = false) :
    checkTarget url base allowed = checkIp (normalize ip) url allowed := by
  have hscheme : (url.scheme = "http" || url.scheme = "https") = true := hweb
  rw [checkTarget, horigin, hscheme]
  rw [Url.literal?] at hliteral
  split at hliteral
  · next x hhost =>
      cases hliteral
      rw [hhost]
      rfl
  · next x hhost =>
      cases hliteral
      rw [hhost]
      rfl
  · cases hliteral

lemma mem_connections_literal {lookup : String → Except String (List IpAddr)} {ip : IpAddr}
    (hweb : url.isWeb = true) (hliteral : url.literal? = some ip) (x : IpAddr) :
    x ∈ connections base allowed lookup url ↔ checkTarget url base allowed = .ok () ∧ x = ip := by
  rw [connections, hweb]
  rw [Url.literal?] at hliteral
  cases hcheck : checkTarget url base allowed with
  | error e => simp
  | ok u =>
      split at hliteral
      · next y hhost =>
          cases hliteral
          simp [hhost]
      · next y hhost =>
          cases hliteral
          simp [hhost]
      · cases hliteral

/-- A URL that is an address is confined unless the address carries a denied one. -/
lemma confined_literal {lookup : String → Except String (List IpAddr)} {ip : IpAddr}
    (hweb : url.isWeb = true) (hliteral : url.literal? = some ip) :
    Confined base allowed lookup url ↔ ¬ Carries base allowed url ip := by
  simp only [Confined, mem_connections_literal hweb hliteral, denied_iff_normalize]
  by_cases horigin : sameOrigin url base = true
  · have hdenied : ∀ ip, ¬ Denied base allowed url ip :=
      fun ip => not_denied_of_sameOrigin (by rw [hliteral]; rfl) horigin
    simp [hdenied, Carries]
  · rw [checkTarget_literal hweb hliteral (by simpa using horigin)]
    constructor
    · rintro h ⟨v, htr, hdenied⟩
      exact (h ip ⟨checkIp_of_translated htr, rfl⟩).2 ⟨v, htr, hdenied⟩
    · rintro h _ ⟨hpass, rfl⟩
      exact ⟨not_denied_of_checkIp hpass, h⟩

/-- The addresses of a URL with a name. -/
lemma mem_connections_domain {lookup : String → Except String (List IpAddr)} {d : String}
    (hweb : url.isWeb = true) (hhost : url.host = some (.domain d)) (ip : IpAddr) :
    ip ∈ connections base allowed lookup url ↔ ¬ NameRefused base allowed url d ∧
      ∃ addrs, lookup (lowercase d) = .ok addrs ∧ ¬ AnswerRefused base allowed url d addrs ∧
        ip ∈ addrs := by
  rw [← checkTarget_domain hweb hhost, connections, hweb, hhost]
  cases hcheck : checkTarget url base allowed with
  | error e => simp
  | ok u =>
      simp only [← screenResolved_domain hhost]
      cases hres : (GuardedResolver.new base allowed).resolve lookup d with
      | error e =>
          constructor
          · intro h
            exact absurd h List.not_mem_nil
          · rintro ⟨-, addrs, hlookup, hscreen, -⟩
            rw [resolve_eq_ok.mpr ⟨hlookup, hscreen⟩] at hres
            cases hres
      | ok addrs =>
          obtain ⟨hlookup, hscreen⟩ := resolve_eq_ok.mp hres
          constructor
          · intro h
            exact ⟨trivial, addrs, hlookup, hscreen, h⟩
          · rintro ⟨-, addrs', hlookup', -, h⟩
            cases hlookup.symm.trans hlookup'
            exact h

lemma confined_domain {lookup : String → Except String (List IpAddr)} {d : String}
    (hweb : url.isWeb = true) (hhost : url.host = some (.domain d)) :
    Confined base allowed lookup url ↔ NameRefused base allowed url d ∨
      ∀ addrs, lookup (lowercase d) = .ok addrs → AnswerSafe base allowed url d addrs := by
  simp only [Confined, mem_connections_domain hweb hhost, denied_iff_normalize]
  constructor
  · intro h
    rw [or_iff_not_imp_left]
    intro hname addrs hlookup
    rw [AnswerSafe, or_iff_not_imp_left]
    intro hpass
    have haddrs : ∀ ip ∈ addrs, ¬ Denied base allowed url (normalize ip) ∧
        ¬ Carries base allowed url ip :=
      fun ip hip => h ip ⟨hname, addrs, hlookup, hpass, hip⟩
    exact ⟨fun ip hip => (haddrs ip hip).2,
      (forall_not_denied_iff hpass).mp fun ip hip => (haddrs ip hip).1⟩
  · rintro h ip ⟨hname, addrs, hlookup, hpass, hip⟩
    obtain ⟨hcarries, hpriv⟩ := ((h.resolve_left hname) addrs hlookup).resolve_left hpass
    exact ⟨(forall_not_denied_iff hpass).mpr hpriv ip hip, hcarries ip hip⟩

end

/-- The checks keep every connection of a URL from the denied addresses exactly when the URL and the
answer to its name carry none past them. -/
theorem confined_iff (base : Url) (allowed : List HostPattern)
    (lookup : String → Except String (List IpAddr)) (url : Url) :
    Confined base allowed lookup url ↔ TargetSafe base allowed lookup url := by
  unfold TargetSafe
  by_cases hweb : url.isWeb = true
  · cases hhost : url.host with
    | none => simp [Confined, connections, Url.literal?, hhost]
    | some host =>
        cases host with
        | domain d => simpa [hweb] using confined_domain hweb hhost
        | ipv4 x =>
            have hliteral : url.literal? = some (.v4 x) := by rw [Url.literal?, hhost]
            simpa [hweb, hliteral] using confined_literal hweb hliteral
        | ipv6 x =>
            have hliteral : url.literal? = some (.v6 x) := by rw [Url.literal?, hhost]
            simpa [hweb, hliteral] using confined_literal hweb hliteral
  · simp [Confined, connections, hweb]

/-- A name of the base's host on another port, which resolves to a private address. -/
def otherPort : Url where
  scheme := "https"
  host := some (.domain "api.example.com")
  hostStr := some "api.example.com"
  port := some 9200
  text := "https://api.example.com:9200/"
  hostStr_domain := by rintro _ ⟨⟩; rfl

theorem otherPort_not_confined :
    ¬ Confined { otherPort with port := none, text := "https://api.example.com/" } []
      (fun _ => .ok [.v4 ⟨10, 0, 0, 5⟩]) otherPort := by
  intro h
  have hconn : IpAddr.v4 ⟨10, 0, 0, 5⟩ ∈ connections
      { otherPort with port := none, text := "https://api.example.com/" } []
      (fun _ => .ok [.v4 ⟨10, 0, 0, 5⟩]) otherPort := by
    decide
  have hprivate : PrivateUse (.v4 ⟨10, 0, 0, 5⟩) := Or.inl (by decide)
  refine (h _ hconn).1 (Or.inr ⟨hprivate, ?_⟩)
  decide

end Http
end Pawrly
