import Pawrly.Http.Fetch
import Pawrly.Cache.Provider
import Pawrly.Secrets.OAuthStore
import Pawrly.Lib.BoundedClock

/-!
# Times computed from server input

The time of the next request, the wait before a retry, the expiry of a token and the expiry of a
cached table.  Each adds a number of seconds that a server or a configuration gives to a time of the
system, whose range is smaller than that of the number; an addition that leaves the range panics.
-/

namespace Pawrly
namespace Http

open BoundedClock

/-! ## Times of the system -/

def nanosPerSec : ℕ := 10 ^ 9

def nanosPerMilli : ℕ := 10 ^ 6

/-- The largest `i64`. -/
def maxI64 : ℕ := 2 ^ 63 - 1

/-- `std::time::SystemTime`: the nanoseconds from the Unix epoch; the seconds fit in an `i64`. -/
abbrev SystemTime := Instant (-(2 ^ 63) * 10 ^ 9) (2 ^ 63 * 10 ^ 9 - 1)

def unixEpoch : SystemTime := ⟨0, by decide, by decide⟩

/-- `DateTime<Utc>`: the nanoseconds from the Unix epoch, from the first to the last year of the
calendar. -/
abbrev DateTime := Instant (-8334601228800 * 10 ^ 9) (8210266876799 * 10 ^ 9 + 999999999)

/-- An arithmetic operation panics with a message. -/
structure Panic where
  message : String
  deriving DecidableEq

/-- The computation does not panic. -/
def Completes {α : Type} (x : Except Panic α) : Prop := ∃ a, x = .ok a

@[simp] lemma completes_ok {α : Type} {a : α} : Completes (Except.ok a : Except Panic α) :=
  ⟨a, rfl⟩

@[simp] lemma not_completes_error {α : Type} {p : Panic} :
    ¬ Completes (Except.error p : Except Panic α) := nofun

lemma completes_bind {α β : Type} {x : Except Panic α} {f : α → Except Panic β} :
    Completes (x >>= f) ↔ ∃ a, x = .ok a ∧ Completes (f a) := by
  cases x with
  | error p => simp [bind, Except.bind]
  | ok a => simp [bind, Except.bind]

lemma completes_map {α β : Type} {x : Except Panic α} {f : α → β} :
    Completes (x.map f) ↔ Completes x := by
  cases x <;> simp [Except.map]

/-- `time + Duration::from_secs(secs)`. -/
def addSecs (t : SystemTime) (secs : ℕ) : Except Panic SystemTime :=
  match t.add? (secs * nanosPerSec) with
  | some u => .ok u
  | none => .error ⟨"overflow when adding duration to instant"⟩

/-- The time after a number of seconds is one of the system. -/
def Reaches (t : SystemTime) (secs : ℕ) : Prop := t.ticks + secs * 10 ^ 9 < 2 ^ 63 * 10 ^ 9

lemma addSecs_completes {t : SystemTime} {secs : ℕ} :
    Completes (addSecs t secs) ↔ Reaches t secs := by
  have hreach : (t.add? (secs * nanosPerSec)).isSome ↔ Reaches t secs := by
    rw [Instant.add?_isSome, Reaches, nanosPerSec]
    omega
  rw [← hreach, addSecs]
  cases t.add? (secs * nanosPerSec) <;> simp

lemma addSecs_ticks {t u : SystemTime} {secs : ℕ} (h : addSecs t secs = .ok u) :
    u.ticks = t.ticks + secs * 10 ^ 9 := by
  unfold addSecs at h
  split at h
  · rename_i v hv
    cases h
    have hticks := Instant.add?_eq_some.mp hv
    rw [nanosPerSec] at hticks
    omega
  · cases h

lemma reaches_unixEpoch {secs : ℕ} : Reaches unixEpoch secs ↔ secs ≤ maxI64 := by
  have hzero : unixEpoch.ticks = 0 := rfl
  rw [Reaches, hzero, maxI64]
  omega

/-! ## Headers -/

structure RetryConfig where
  maxRetries : ℕ := 3
  baseBackoffMs : ℕ := 200
  maxBackoffMs : ℕ := 5000

structure RateLimitPolicy where
  remainingHeader : Option String := none
  resetHeader : Option String := none
  extraStatuses : List ℕ := []

/-! ## Waits and throttles -/

/-- `backoff_ms`. -/
def backoffMs (retry : RetryConfig) (attempt : ℕ) : ℕ :=
  let factor := if attempt < 64 then 2 ^ attempt else maxU64
  min (min maxU64 (retry.baseBackoffMs * factor)) retry.maxBackoffMs

/-- `retry_after_ms`. -/
def retryAfterMs (headers : List (String × String)) : Option ℕ :=
  (headerText headers "retry-after").bind fun value =>
    (Text.parseUnsigned maxU64 (Text.trim value)).map fun secs => min maxU64 (secs * 1000)

/-- The number in the reset header of the policy. -/
def resetEpoch (policy : RateLimitPolicy) (headers : List (String × String)) : Option ℕ :=
  (policy.resetHeader.bind (headerText headers)).bind fun value =>
    Text.parseUnsigned maxU64 (Text.trim value)

/-- `reset_at`. -/
def resetAt (policy : RateLimitPolicy) (headers : List (String × String)) :
    Except Panic (Option SystemTime) :=
  match resetEpoch policy headers with
  | none => .ok none
  | some epoch => (addSecs unixEpoch epoch).map some

/-- The milliseconds from now to a time that is not past, when they fit in a `u64`. -/
def millisUntil (now target : SystemTime) : Option ℕ :=
  (target.since? now).bind fun nanos =>
    if nanos / nanosPerMilli ≤ maxU64 then some (nanos / nanosPerMilli) else none

/-- `reset_wait_ms`. -/
def resetWaitMs (policy : RateLimitPolicy) (headers : List (String × String)) (now : SystemTime) :
    Except Panic (Option ℕ) :=
  (resetAt policy headers).map fun target => target.bind (millisUntil now)

/-- The number in the remaining-quota header of the policy. -/
def remainingQuota (policy : RateLimitPolicy) (headers : List (String × String)) : Option ℤ :=
  (policy.remainingHeader.bind (headerText headers)).bind fun value => Text.parseSigned 64 (Text.trim value)

/-- `compute_throttle`. -/
def computeThrottle (policy : RateLimitPolicy) (headers : List (String × String)) :
    Except Panic (Option SystemTime) :=
  match remainingQuota policy headers with
  | none => .ok none
  | some remaining => if 0 < remaining then .ok none else resetAt policy headers

def RateLimitPolicy.isRateLimit (policy : RateLimitPolicy) (status : ℕ) : Bool :=
  status = 429 || status = 503 || policy.extraStatuses.contains status

def isServerError (status : ℕ) : Bool := 500 ≤ status && status < 600

/-- The wait before a response is asked for again. -/
def retryWaitMs (retry : RetryConfig) (policy : RateLimitPolicy) (resp : Response) (attempt : ℕ)
    (now : SystemTime) : Except Panic ℕ :=
  if policy.isRateLimit resp.status then
    (resetWaitMs policy resp.headers now).map fun wait =>
      (wait.or (retryAfterMs resp.headers)).getD (backoffMs retry attempt)
  else .ok (backoffMs retry attempt)

/-! ## The retry loop -/

/-- What a request is answered with; a refused redirect is not asked for again. -/
inductive Answer
  | response (resp : Response)
  | failure (redirect : Bool) (chain : String)

/-- What the last attempt returns. -/
def Answer.result : Answer → Except DataFusionError Response
  | response resp => .ok resp
  | failure _ chain => .error (.external ("http request failed: " ++ chain))

/-- `send_with_retry_inner`, with the number of retries left: the waits, and what is returned. -/
def sendWithRetry (retry : RetryConfig) (policy : RateLimitPolicy) (answers : ℕ → Answer)
    (clock : ℕ → SystemTime) : ℕ → Except Panic (List ℕ × Except DataFusionError Response)
  | 0 => .ok ([], (answers retry.maxRetries).result)
  | left + 1 => do
      let attempt := retry.maxRetries - (left + 1)
      let answer := answers attempt
      match answer with
      | .failure redirect _ =>
          if redirect then .ok ([], answer.result)
          else
            let (waits, result) ← sendWithRetry retry policy answers clock left
            .ok (backoffMs retry attempt :: waits, result)
      | .response resp =>
          if isServerError resp.status || policy.isRateLimit resp.status then
            let wait ← retryWaitMs retry policy resp attempt (clock attempt)
            let (waits, result) ← sendWithRetry retry policy answers clock left
            .ok (wait :: waits, result)
          else .ok ([], answer.result)

/-! ## Tokens -/

/-- A bearer token of a source, with its expiry. -/
structure BearerToken where
  token : String
  expiresAt : SystemTime

/-- The token of a token response. -/
def accessToken? (body : Json) : Option String :=
  (body.get? "access_token").bind Secrets.asStr?

/-- The lifetime of a token, in seconds. -/
def lifetimeSecs (body : Json) : ℕ :=
  ((body.get? "expires_in").bind Secrets.asU64?).getD Secrets.defaultLifetimeSecs

/-- The body of a token response, or what went wrong; `statusText` prints a status. -/
def tokenBody (statusText : ℕ → String) (answer : Except String (ℕ × Except String Json)) :
    Except String Json :=
  match answer with
  | .error e => .error ("oauth token request failed: " ++ e)
  | .ok (status, body) =>
      if 200 ≤ status ∧ status < 300 then
        body.mapError fun e => "oauth token response was not JSON: " ++ e
      else .error ("oauth token request returned " ++ statusText status)

/-- The token of an answer, with its expiry; `mintClock` is the time when the answer is there. -/
def mintToken (statusText : ℕ → String) (mintClock : SystemTime)
    (answer : Except String (ℕ × Except String Json)) : Except Panic (Except String BearerToken) :=
  match tokenBody statusText answer with
  | .error e => .ok (.error e)
  | .ok body =>
      match accessToken? body with
      | none => .ok (.error "oauth token response missing `access_token`")
      | some token =>
          (addSecs mintClock (lifetimeSecs body)).map fun expiresAt =>
            .ok { token := token, expiresAt := expiresAt }

/-- `oauth_bearer`: the cached token while it is fresh, else a new one.  `soonClock` is the time
when the call starts. -/
def oauthBearer (statusText : ℕ → String) (cached : Option BearerToken)
    (soonClock mintClock : SystemTime) (answer : Except String (ℕ × Except String Json)) :
    Except Panic (Except String BearerToken) := do
  let soon ← addSecs soonClock 30
  match cached.filter fun c => soon.ticks < c.expiresAt.ticks with
  | some c => .ok (.ok c)
  | none => mintToken statusText mintClock answer

/-- `TokenResponse::into_cached`. -/
def cachedToken (now : SystemTime) (response : Secrets.TokenResponse) : Except Panic BearerToken :=
  (addSecs now response.expiresIn).map fun expiresAt =>
    { token := response.accessToken, expiresAt := expiresAt }

/-! ## Cached tables -/

/-- The longest `TimeDelta`, in nanoseconds. -/
def maxTimeDelta : ℕ := (2 ^ 63 - 1) * 10 ^ 6

/-- `ttl_expiry`, of the TTL of a policy in nanoseconds. -/
def ttlExpiry (ttl : Option ℕ) (now : DateTime) : Except Panic (Option DateTime) :=
  match ttl with
  | none => .ok none
  | some ttl =>
      if ttl ≤ maxTimeDelta then
        match now.add? ttl with
        | some expiry => .ok (some expiry)
        | none => .error ⟨"`DateTime + TimeDelta` overflowed"⟩
      else .ok none

/-! ## Which inputs complete -/

/-- The reset header holds no number, or one that is a time of the system. -/
def ResetFits (policy : RateLimitPolicy) (headers : List (String × String)) : Prop :=
  ∀ epoch ∈ resetEpoch policy headers, epoch ≤ maxI64

/-- The headers say that no request is left. -/
def Exhausted (policy : RateLimitPolicy) (headers : List (String × String)) : Prop :=
  ∃ remaining ∈ remainingQuota policy headers, remaining ≤ 0

variable {policy : RateLimitPolicy} {headers : List (String × String)}

lemma resetAt_completes : Completes (resetAt policy headers) ↔ ResetFits policy headers := by
  unfold resetAt ResetFits
  cases resetEpoch policy headers with
  | none => simp
  | some epoch => simp [completes_map, addSecs_completes, reaches_unixEpoch]

lemma computeThrottle_completes :
    Completes (computeThrottle policy headers) ↔
      (Exhausted policy headers → ResetFits policy headers) := by
  unfold computeThrottle Exhausted
  cases remainingQuota policy headers with
  | none => simp
  | some remaining =>
      dsimp only
      split_ifs with hpos
      · simp [hpos]
      · simp [resetAt_completes, not_lt.mp hpos]

lemma retryWaitMs_completes (retry : RetryConfig) {resp : Response} (attempt : ℕ)
    (now : SystemTime) :
    Completes (retryWaitMs retry policy resp attempt now) ↔
      (policy.isRateLimit resp.status → ResetFits policy resp.headers) := by
  unfold retryWaitMs resetWaitMs
  split_ifs with hlimit
  · simp [completes_map, resetAt_completes, hlimit]
  · simp [hlimit]

/-- Every retry loop ends without a panic when the reset headers fit, however late it is. -/
theorem sendWithRetry_completes {retry : RetryConfig} {answers : ℕ → Answer}
    {clock : ℕ → SystemTime}
    (hfits : ∀ n resp, answers n = .response resp → policy.isRateLimit resp.status →
      ResetFits policy resp.headers) (left : ℕ) :
    Completes (sendWithRetry retry policy answers clock left) := by
  induction left with
  | zero => exact completes_ok
  | succ left ih =>
      obtain ⟨rest, hrest⟩ := ih
      rw [sendWithRetry, hrest]
      dsimp only
      cases hanswer : answers (retry.maxRetries - (left + 1)) with
      | failure redirect chain =>
          dsimp only
          split_ifs <;> exact completes_ok
      | response resp =>
          dsimp only
          split_ifs
          · obtain ⟨wait, hwait⟩ := (retryWaitMs_completes retry _ _).mpr (hfits _ resp hanswer)
            exact completes_bind.mpr ⟨wait, hwait, completes_ok⟩
          · exact completes_ok

/-- The cached token is still good in half a minute. -/
def Fresh (cached : Option BearerToken) (soonClock : SystemTime) : Prop :=
  ∃ c ∈ cached, soonClock.ticks + 30 * 10 ^ 9 < c.expiresAt.ticks

/-- The lifetime of the token in an answer, if there is one. -/
def mintedLifetime : Except String (ℕ × Except String Json) → Option ℕ
  | .ok (status, .ok body) =>
      if 200 ≤ status ∧ status < 300 then (accessToken? body).map fun _ => lifetimeSecs body
      else none
  | _ => none

/-- A token is minted with the lifetime that its answer gives. -/
lemma mint_completes (statusText : ℕ → String) {mintClock : SystemTime}
    {answer : Except String (ℕ × Except String Json)} :
    Completes (mintToken statusText mintClock answer) ↔
      ∀ secs ∈ mintedLifetime answer, Reaches mintClock secs := by
  unfold mintToken tokenBody mintedLifetime
  rcases answer with e | ⟨status, body⟩
  · simp
  · dsimp only
    by_cases hstatus : 200 ≤ status ∧ status < 300
    · rw [if_pos hstatus]
      cases body with
      | error e => simp [Except.mapError]
      | ok body =>
          simp only [Except.mapError, if_pos hstatus]
          cases accessToken? body with
          | none => simp
          | some token =>
              simp [completes_map, addSecs_completes]
    · rw [if_neg hstatus]
      cases body <;> simp [hstatus]

lemma oauthBearer_completes (statusText : ℕ → String) {cached : Option BearerToken}
    {soonClock mintClock : SystemTime} {answer : Except String (ℕ × Except String Json)} :
    Completes (oauthBearer statusText cached soonClock mintClock answer) ↔
      Reaches soonClock 30 ∧ (¬ Fresh cached soonClock →
        ∀ secs ∈ mintedLifetime answer, Reaches mintClock secs) := by
  rw [← mint_completes statusText, oauthBearer, completes_bind,
    ← addSecs_completes]
  constructor
  · rintro ⟨soon, hsoon, h⟩
    refine ⟨⟨soon, hsoon⟩, fun hstale => ?_⟩
    have hnone : (cached.filter fun c => soon.ticks < c.expiresAt.ticks) = none := by
      rw [Option.filter_eq_none_iff]
      intro c hc hlate
      rw [decide_eq_true_eq, addSecs_ticks hsoon] at hlate
      exact hstale ⟨c, hc, hlate⟩
    rw [hnone] at h
    exact h
  · rintro ⟨⟨soon, hsoon⟩, h⟩
    refine ⟨soon, hsoon, ?_⟩
    cases hfilter : cached.filter fun c => soon.ticks < c.expiresAt.ticks with
    | some c => exact completes_ok
    | none =>
        apply h
        rintro ⟨c, hc, hlate⟩
        rw [Option.filter_eq_none_iff] at hfilter
        refine hfilter c hc ?_
        rw [decide_eq_true_eq, addSecs_ticks hsoon]
        exact hlate

lemma cachedToken_completes {now : SystemTime} {response : Secrets.TokenResponse} :
    Completes (cachedToken now response) ↔ Reaches now response.expiresIn := by
  rw [cachedToken, completes_map, addSecs_completes]

/-- The expiry of a TTL is none, or a date of the calendar. -/
def TtlFits (ttl : Option ℕ) (now : DateTime) : Prop :=
  ∀ t ∈ ttl, t ≤ maxTimeDelta → now.ticks + t ≤ 8210266876799 * 10 ^ 9 + 999999999

lemma ttlExpiry_completes {ttl : Option ℕ} {now : DateTime} :
    Completes (ttlExpiry ttl now) ↔ TtlFits ttl now := by
  unfold ttlExpiry TtlFits
  cases ttl with
  | none => simp
  | some t =>
      dsimp only
      split_ifs with hdelta
      · have hreach := Instant.add?_isSome (t := now) (d := t)
        cases hadd : now.add? t with
        | none =>
            rw [hadd] at hreach
            simpa [hdelta] using hreach
        | some expiry =>
            rw [hadd] at hreach
            simpa [hdelta] using hreach
      · simp [hdelta]

/-! ## What the times are -/

/-- In whole seconds, the expiry of a token is the one of the store. -/
lemma cachedToken_seconds {now : SystemTime} {response : Secrets.TokenResponse} {c : BearerToken}
    {secs : ℕ} (hnow : now.ticks = secs * 10 ^ 9) (h : cachedToken now response = .ok c) :
    c.token = (response.intoCached secs).token ∧
      c.expiresAt.ticks = (response.intoCached secs).expiresAt * 10 ^ 9 := by
  unfold cachedToken at h
  cases hadd : addSecs now response.expiresIn with
  | error p =>
      rw [hadd] at h
      cases h
  | ok expiry =>
      rw [hadd] at h
      cases h
      refine ⟨rfl, ?_⟩
      have hticks := addSecs_ticks hadd
      show expiry.ticks = ((secs + response.expiresIn : ℕ) : ℤ) * 10 ^ 9
      omega

/-- In whole milliseconds, the expiry of a table is the one of its cache policy. -/
lemma ttlExpiry_millis {now : DateTime} {millis : ℕ} {at_ : Cache.Time} {expiry : Option DateTime}
    (hnow : now.ticks = at_ * 10 ^ 6)
    (h : ttlExpiry (some (millis * nanosPerMilli)) now = .ok expiry) :
    expiry.map Instant.ticks =
      ((Cache.CachePolicy.ttl millis).expiry at_).map fun t => t * 10 ^ 6 := by
  have hdelta : millis * nanosPerMilli ≤ maxTimeDelta ↔ millis ≤ Cache.maxTtl := by
    unfold nanosPerMilli maxTimeDelta Cache.maxTtl
    omega
  unfold ttlExpiry at h
  unfold Cache.CachePolicy.expiry
  dsimp only at h ⊢
  simp only [hdelta] at h
  split_ifs at h ⊢ with hle
  · cases hadd : now.add? (millis * nanosPerMilli) with
    | none =>
        rw [hadd] at h
        cases h
    | some u =>
        rw [hadd] at h
        cases h
        have hticks := Instant.add?_eq_some.mp hadd
        simp only [Option.map_some, Option.some.injEq]
        unfold nanosPerMilli at hticks
        omega
  · cases h
    rfl

/-! ## All of them -/

/-- The times that are computed from a response, a token answer, a token response and a TTL: none of
the computations panics. -/
structure TimesComplete (retry : RetryConfig) (policy : RateLimitPolicy) (resp : Response)
    (attempt : ℕ) (now : SystemTime) (statusText : ℕ → String) (cached : Option BearerToken)
    (soonClock mintClock : SystemTime) (answer : Except String (ℕ × Except String Json))
    (storeClock : SystemTime) (response : Secrets.TokenResponse) (ttl : Option ℕ)
    (today : DateTime) : Prop where
  throttle : Completes (computeThrottle policy resp.headers)
  retryWait : Completes (retryWaitMs retry policy resp attempt now)
  bearer : Completes (oauthBearer statusText cached soonClock mintClock answer)
  stored : Completes (cachedToken storeClock response)
  expiry : Completes (ttlExpiry ttl today)

/-- The times complete exactly when the reset header fits where it is read, the lifetime of a token
reaches from its clock to a time of the system, and the TTL from today to a date of the calendar. -/
theorem timesComplete_iff {retry : RetryConfig} {resp : Response} {attempt : ℕ} {now : SystemTime}
    {statusText : ℕ → String} {cached : Option BearerToken} {soonClock mintClock : SystemTime}
    {answer : Except String (ℕ × Except String Json)} {storeClock : SystemTime}
    {response : Secrets.TokenResponse} {ttl : Option ℕ} {today : DateTime} :
    TimesComplete retry policy resp attempt now statusText cached soonClock mintClock answer
        storeClock response ttl today ↔
      (Exhausted policy resp.headers ∨ policy.isRateLimit resp.status →
        ResetFits policy resp.headers) ∧
      (Reaches soonClock 30 ∧ (¬ Fresh cached soonClock →
        ∀ secs ∈ mintedLifetime answer, Reaches mintClock secs)) ∧
      Reaches storeClock response.expiresIn ∧ TtlFits ttl today := by
  rw [← oauthBearer_completes statusText, ← cachedToken_completes,
    ← ttlExpiry_completes, or_imp, ← computeThrottle_completes,
    ← retryWaitMs_completes retry attempt now]
  constructor
  · rintro ⟨hthrottle, hwait, hbearer, hstored, hexpiry⟩
    exact ⟨⟨hthrottle, hwait⟩, hbearer, hstored, hexpiry⟩
  · rintro ⟨⟨hthrottle, hwait⟩, hbearer, hstored, hexpiry⟩
    exact ⟨hthrottle, hwait, hbearer, hstored, hexpiry⟩

/-- A reset header of 2^63 seconds, a lifetime of 2^64 - 1 seconds and a TTL of 300000 years. -/
theorem times_panic :
    let policy : RateLimitPolicy :=
      { remainingHeader := some "X-RateLimit-Remaining", resetHeader := some "X-RateLimit-Reset" }
    let resp : Response :=
      { status := 429
        headers := [("x-ratelimit-remaining", "0"), ("x-ratelimit-reset", "9223372036854775808")]
        text := .ok "" }
    let token := Json.obj [("access_token", .str "t"), ("expires_in", .num "18446744073709551615")]
    ¬ Completes (computeThrottle policy resp.headers) ∧
      ¬ Completes (retryWaitMs {} policy resp 0 unixEpoch) ∧
      ¬ Completes (oauthBearer toString none unixEpoch unixEpoch (.ok (200, .ok token))) ∧
      ¬ Completes (cachedToken unixEpoch
        { accessToken := "t", expiresIn := 18446744073709551615, refreshToken := none }) ∧
      ¬ Completes (ttlExpiry (some (9467280000000 * nanosPerSec)) ⟨0, by decide, by decide⟩) := by
  have hdecide : ∀ {α : Type} {x : Except Panic α}, x.isOk = false → ¬ Completes x := by
    rintro α x hx ⟨a, rfl⟩
    cases hx
  refine ⟨hdecide ?_, hdecide ?_, hdecide ?_, hdecide ?_, hdecide ?_⟩ <;> decide +kernel

end Http
end Pawrly
