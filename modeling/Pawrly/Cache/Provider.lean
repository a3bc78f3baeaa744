import Pawrly.Cache.Manifest
import Pawrly.Sql.Relation

/-!
# Cached reads of a table

`CachedTableProvider::scan` around a table provider whose data does not change: a fresh file is
read whole, otherwise the provider is asked with the filters and the limit of the call, and its
answer is stored as the table.
-/

namespace Pawrly
namespace Cache

open Sql

/-! ## Table providers -/

/-- What a provider says about a filter (`TableProviderFilterPushDown`). -/
inductive Pushdown
  | unsupported
  | inexact
  | exact
  deriving DecidableEq

/-- The filters of a call that the provider promises to apply. -/
def exactFilters {φ : Type*} (pushdown : List φ → List Pushdown) (filters : List φ) : List φ :=
  ((filters.zip (pushdown filters)).filter fun p => p.2 = .exact).map Prod.fst

/-- The filters the caller applies again. -/
def rechecked {φ : Type*} (pushdown : List φ → List Pushdown) (filters : List φ) : List φ :=
  ((filters.zip (pushdown filters)).filter fun p => p.2 ≠ .exact).map Prod.fst

/-- A table provider over unchanging data, with what the provider interface promises: whole rows
are of type `ρ`, projected ones of type `π`. -/
structure Provider (ρ π φ : Type*) where
  project : Option (List ℕ) → ρ → π
  /-- A filter on a whole row. -/
  test : φ → ρ → Bool
  /-- A filter on a projected row. -/
  holds : Option (List ℕ) → φ → π → Bool
  pushdown : List φ → List Pushdown
  /-- The rows a scan fetches, before they are projected. -/
  fetch : List φ → Option ℕ → List ρ
  pushdown_length : ∀ filters, (pushdown filters).length = filters.length
  /-- A scan without a limit gives rows of the table, in its order: at least those that satisfy
  the filters, and only those that satisfy the exact ones. -/
  narrows : ∀ filters, ∃ keep : ρ → Bool, fetch filters none = (fetch [] none).filter keep ∧
    (∀ r, (filters.all fun f => test f r) = true → keep r = true) ∧
    ∀ r, keep r = true → ((exactFilters pushdown filters).all fun f => test f r) = true
  /-- A limit may cut a scan short after that many rows. -/
  limits : ∀ filters n, (fetch filters (some n)).take n = (fetch filters none).take n

variable {ρ π φ : Type*}

/-- A scan call. -/
structure Call (φ : Type*) where
  projection : Option (List ℕ)
  filters : List φ
  limit : Option ℕ

/-- The provider's answer to a call. -/
def Provider.scan (P : Provider ρ π φ) (c : Call φ) : List π :=
  (P.fetch c.filters c.limit).map (P.project c.projection)

/-- What the caller makes of an answer: the filters that are not exact, then the limit. -/
def Provider.finish (P : Provider ρ π φ) (c : Call φ) (rows : List π) : List π :=
  takeRows c.limit
    (rows.filter fun r => (rechecked P.pushdown c.filters).all fun f => P.holds c.projection f r)

/-- The projection of a call has the columns that its filters are checked on. -/
def Call.Readable (P : Provider ρ π φ) (c : Call φ) : Prop :=
  ∀ f ∈ rechecked P.pushdown c.filters, ∀ r,
    P.holds c.projection f (P.project c.projection r) = P.test f r

/-! ## Policies -/

/-- A cache policy that wraps the provider; without one there is no cache.  A TTL is in
milliseconds. -/
inductive CachePolicy
  | ttl (millis : ℕ)
  | refresh
  | cron
  deriving DecidableEq

/-- The longest duration that a time can be moved by. -/
def maxTtl : ℕ := 2 ^ 63 - 1

/-- `ttl_expiry`. -/
def CachePolicy.expiry (policy : CachePolicy) (now : Time) : Option Time :=
  match policy with
  | ttl millis => if millis ≤ maxTtl then some (now + millis) else none
  | _ => none

/-! ## The cached table -/

/-- The data file of a table. -/
inductive CachedFile (ρ : Type*)
  | missing
  | corrupt
  | rows (rs : List ρ)

/-- The cache of one table: the expiry of its manifest entry, if there is one, and its file. -/
structure TableCache (ρ : Type*) where
  entry : Option (Option Time)
  file : CachedFile ρ

/-- The entry is there and has not expired (`fresh`). -/
def TableCache.fresh (s : TableCache ρ) (now : Time) : Bool :=
  match s.entry with
  | none => false
  | some none => true
  | some (some exp) => now < exp

/-- What fails during a scan; all of it is tolerated. -/
structure ScanFaults where
  quarantineFlush : Bool := false
  fileWrite : Bool := false
  upsert : Bool := false

/-- `quarantine`: drop the entry, move the file aside. -/
def TableCache.quarantine (s : TableCache ρ) (io : ScanFaults) : TableCache ρ where
  entry := if io.quarantineFlush then s.entry else none
  file := .missing

/-- `write_through`: replace the file, then the entry. -/
def TableCache.writeThrough (s : TableCache ρ) (policy : CachePolicy) (now : Time)
    (io : ScanFaults) (rs : List ρ) : TableCache ρ :=
  if io.fileWrite then s
  else
    { entry := if io.upsert then s.entry else some (policy.expiry now)
      file := .rows rs }

/-- Ask the provider and store its answer. -/
def TableCache.miss (s : TableCache ρ) (P : Provider ρ π φ) (policy : CachePolicy) (now : Time)
    (io : ScanFaults) (c : Call φ) : List π × TableCache ρ :=
  let rs := P.fetch c.filters c.limit
  (rs.map (P.project c.projection), s.writeThrough policy now io rs)

/-- `CachedTableProvider::scan`. -/
def TableCache.scan (s : TableCache ρ) (P : Provider ρ π φ) (policy : CachePolicy) (now : Time)
    (io : ScanFaults) (c : Call φ) : List π × TableCache ρ :=
  if s.fresh now then
    match s.file with
    | .rows rs => (rs.map (P.project c.projection), s)
    | _ => (s.quarantine io).miss P policy now io c
  else s.miss P policy now io c

end Cache
end Pawrly
