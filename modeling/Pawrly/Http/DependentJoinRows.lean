import Pawrly.Http.DependentJoin
import Pawrly.Lib.Fallible

/-!
# What a dependent join returns

A dependent join gives the rows of the original join whose driver rows have one of the fetched keys
(`execute_spec`).  Without a limit only `NULL` keys are not fetched; under a limit the keys are
capped by the number of rows that the limit asks for, and a fetched key may match nothing.
`sound_iff` says for which drivers and tables this gives what the plan promises.
-/

namespace Pawrly
namespace Http

open InnerJoin

variable {ν : Type*}

/-! ## Plans that the rule builds -/

/-- The condition of the join compares the two key columns. -/
def DependentJoin.Built (dep : DependentJoin ν) : Prop :=
  dep.join.on = if dep.probeIsRight then
      [(.column dep.driverKeyIdx, .column dep.probeKeyIdx)]
    else [(.column dep.probeKeyIdx, .column dep.driverKeyIdx)]

lemma built_of_tryBuild {join : HashJoin ν} {left right : SourcePlan ν} {limit : Option ℕ}
    {dep : DependentJoin ν} (h : tryBuildDependentJoin join left right limit = some dep) :
    dep.Built ∧ dep.cap = limit := by
  unfold tryBuildDependentJoin at h
  split_ifs at h
  split at h
  · next leftKey rightKey hon =>
      obtain ⟨⟨probeIsRight, d, probeKey, driverKey⟩, hsides, hdep⟩ :=
        Option.bind_eq_some_iff.mp h
      have hkeys : join.on = if probeIsRight then [(driverKey, probeKey)]
          else [(probeKey, driverKey)] := by
        split at hsides
        · cases hsides
          exact hon
        · cases hsides
          exact hon
        · cases hsides
      dsimp only at hdep
      split at hdep
      · split at hdep
        · split_ifs at hdep
          cases hdep
          exact ⟨hkeys, rfl⟩
        · cases hdep
      · cases hdep
  · cases h

/-- Every dependent join of a rewritten plan is one that was built, by induction on the plan. -/
lemma built_of_rewrite {p : SourcePlan ν} {limit : Option ℕ} {dep : DependentJoin ν}
    (h : dep ∈ (rewrite p limit).dependents) : dep.Built := by
  induction p generalizing limit with
  | relation rows => cases h
  | deferred d => cases h
  | hashJoin join left right ihl ihr =>
      unfold rewrite at h
      split at h
      · next dep' hbuild =>
          rw [Plan.dependents, List.mem_singleton] at h
          rw [h]
          exact (built_of_tryBuild hbuild).1
      · rw [Plan.dependents, List.mem_append] at h
        rcases h with h | h
        · exact ihl h
        · exact ihr h
  | globalLimit skip fetch input ih => exact ih h
  | prefixOp op input ih => exact ih h
  | unary name input ih => exact ih h
  | binary name left right ihl ihr =>
      rw [rewrite, Plan.dependents, List.mem_append] at h
      rcases h with h | h
      · exact ihl h
      · exact ihr h
  | dependent join => exact join.elim

/-! ## Limits above a join -/

/-- The operators that a limit is passed through. -/
inductive StackOp (ν : Type*)
  | globalLimit (skip : ℕ) (fetch : Option ℕ)
  | prefixOp (op : PrefixOp ν)

def StackOp.over {δ : Type*} : StackOp ν → Plan ν δ → Plan ν δ
  | .globalLimit skip fetch, input => .globalLimit skip fetch input
  | .prefixOp op, input => .prefixOp op input

/-- Operators above a plan, the top one first. -/
def stack {δ : Type*} (ops : List (StackOp ν)) (p : Plan ν δ) : Plan ν δ := ops.foldr StackOp.over p

/-- The limit that reaches the plan below the operators. -/
def capBelow : List (StackOp ν) → Option ℕ → Option ℕ
  | [], limit => limit
  | .globalLimit skip fetch :: ops, _ => capBelow ops (fetch.map (· + skip))
  | .prefixOp op :: ops, limit => capBelow ops (op.fetch.or limit)

lemma rewrite_stack (ops : List (StackOp ν)) (p : SourcePlan ν) (limit : Option ℕ) :
    rewrite (stack ops p) limit = stack ops (rewrite p (capBelow ops limit)) := by
  induction ops generalizing limit with
  | nil => rfl
  | cons op ops ih =>
      cases op with
      | globalLimit skip fetch =>
          show rewrite (.globalLimit skip fetch (stack ops p)) limit = _
          rw [rewrite, ih]
          rfl
      | prefixOp op =>
          show rewrite (.prefixOp op (stack ops p)) limit = _
          rw [rewrite, ih]
          rfl

/-- The number of rows an operator gives for a number of rows, on one partition. -/
def StackOp.rows : StackOp ν → ℕ → ℕ
  | .globalLimit skip fetch, n => fetch.elim (n - skip) fun f => min f (n - skip)
  | .prefixOp op, n => op.fetch.elim n fun f => min f n

def stackRows (ops : List (StackOp ν)) (n : ℕ) : ℕ := ops.foldr StackOp.rows n

/-- What is below the operators may be cut at the limit that reaches it, where what is above them
is cut at the limit that it has. -/
lemma stackRows_capBelow (above : ℕ → ℕ) (ops : List (StackOp ν)) (limit : Option ℕ)
    (h : ∀ l, limit = some l → ∀ n, above (min l n) = above n) (c : ℕ)
    (hc : capBelow ops limit = some c) (n : ℕ) :
    above (stackRows ops (min c n)) = above (stackRows ops n) := by
  induction ops generalizing limit above with
  | nil => exact h c hc n
  | cons op ops ih =>
      cases op with
      | globalLimit skip fetch =>
          refine ih (fun n => above ((StackOp.globalLimit skip fetch : StackOp ν).rows n))
            (fetch.map (· + skip)) ?_ hc
          intro l hl n
          cases fetch with
          | none => cases hl
          | some f =>
              cases hl
              have hcut : min f (min (f + skip) n - skip) = min f (n - skip) := by omega
              show above (min f (min (f + skip) n - skip)) = above (min f (n - skip))
              rw [hcut]
      | prefixOp op =>
          refine ih (fun n => above ((StackOp.prefixOp op).rows n)) (op.fetch.or limit) ?_ hc
          intro l hl n
          show above (op.fetch.elim (min l n) fun f => min f (min l n)) =
            above (op.fetch.elim n fun f => min f n)
          cases hfetch : op.fetch with
          | none =>
              rw [hfetch] at hl
              exact h l hl n
          | some f =>
              have hcut : min f (min f n) = min f n := by omega
              rw [hfetch] at hl
              have hl' : f = l := Option.some.inj hl
              subst hl'
              show above (min f (min f n)) = above (min f n)
              rw [hcut]

/-- A plan that gives the rows a limit asks for, or all there are, serves the limit. -/
theorem stackRows_eq (ops : List (StackOp ν)) {c given all : ℕ} (hc : capBelow ops none = some c)
    (hgiven : given ≤ all) (henough : min c all ≤ given) :
    stackRows ops given = stackRows ops all := by
  have hnone : ∀ l, (none : Option ℕ) = some l → ∀ n : ℕ, id (min l n) = id n :=
    fun l hl => by cases hl
  have hg := stackRows_capBelow id ops none hnone c hc given
  have ha := stackRows_capBelow id ops none hnone c hc all
  have hsame : min c given = min c all := by omega
  rw [hsame] at hg
  exact hg.symm.trans ha

variable [DecidableEq ν]

/-! ## The keys -/

/-- The first keys of the driver's rows, up to a cap. -/
def firstKeys (rows : List (PlanRow ν)) (idx : ℕ) (cap : Option ℕ) : List ν :=
  cap.elim (rows.filterMap (cell idx)).eraseDups fun n =>
    (rows.filterMap (cell idx)).eraseDups.take n

/-- The loop appends the keys that are new, as far as the cap allows. -/
lemma distinctKeysLoop_eq (idx : ℕ) (cap : Option ℕ) (rows : List (PlanRow ν)) (out : List ν)
    (hcap : ∀ c, cap = some c → out.length ≤ c) :
    distinctKeysLoop idx cap rows out =
      cap.elim (out ++ ((rows.filterMap (cell idx)).filter fun k => k ∉ out).eraseDups) fun n =>
        (out ++ ((rows.filterMap (cell idx)).filter fun k => k ∉ out).eraseDups).take n := by
  induction rows generalizing out with
  | nil =>
      cases cap with
      | none => simp [distinctKeysLoop]
      | some c => simp [distinctKeysLoop, List.take_of_length_le (hcap c rfl)]
  | cons row rows ih =>
      rw [distinctKeysLoop]
      split_ifs with hfull
      · -- the cap is reached
        cases cap with
        | none => cases hfull
        | some c =>
            have hlen : c = out.length := le_antisymm (by simpa using hfull) (hcap c rfl)
            show out = List.take c _
            rw [hlen, List.take_left']
            rfl
      · cases hcell : cell idx row with
        | none =>
            rw [List.filterMap_cons_none hcell]
            exact ih out hcap
        | some k =>
            rw [List.filterMap_cons_some hcell, List.filter_cons]
            dsimp only
            by_cases hk : k ∈ out
            · rw [if_pos hk, if_neg (by simpa using hk)]
              exact ih out hcap
            · have hroom : ∀ c, cap = some c → (out ++ [k]).length ≤ c := by
                rintro c rfl
                have hlt : ¬ c ≤ out.length := by simpa using hfull
                rw [List.length_append, List.length_singleton]
                omega
              have hsame : (((rows.filterMap (cell idx)).filter fun b => b ∉ out).filter
                  fun b => !b == k) = (rows.filterMap (cell idx)).filter fun b => b ∉ out ++ [k] := by
                rw [List.filter_filter]
                apply List.filter_congr
                intro b _
                by_cases hb : b = k
                · simp [hb]
                · simp [hb]
              rw [if_neg hk, if_pos (by simpa using hk), ih _ hroom, List.eraseDups_cons, hsame,
                List.append_assoc]
              rfl

lemma distinctKeys_eq (rows : List (PlanRow ν)) (idx : ℕ) (cap : Option ℕ) :
    distinctKeys rows idx cap = firstKeys rows idx cap := by
  unfold distinctKeys firstKeys
  rw [distinctKeysLoop_eq idx cap rows [] fun c _ => Nat.zero_le c]
  simp

lemma firstKeys_nodup (rows : List (PlanRow ν)) (idx : ℕ) (cap : Option ℕ) :
    (firstKeys rows idx cap).Nodup := by
  have hall : (rows.filterMap (cell idx)).eraseDups.Nodup := nodup_eraseDups _
  unfold firstKeys
  cases cap with
  | none => exact hall
  | some n => exact hall.sublist (List.take_sublist n _)

/-- Without a cap a row has one of the keys unless its key is `NULL`. -/
lemma hasKey_firstKeys {rows : List (PlanRow ν)} {idx : ℕ} {row : PlanRow ν} (hrow : row ∈ rows) :
    hasKey (cell idx) (firstKeys rows idx none) row = false ↔ cell idx row = none := by
  cases hcell : cell idx row with
  | none => simp [hasKey, hcell]
  | some k =>
      have hmem : k ∈ firstKeys rows idx none := by
        show k ∈ (rows.filterMap (cell idx)).eraseDups
        rw [List.mem_eraseDups]
        exact List.mem_filterMap.mpr ⟨row, hrow, hcell⟩
      simp [hasKey, hcell, hmem]

/-! ## The fetched rows -/

namespace DependentJoin

variable (dep : DependentJoin ν)

/-- The endpoint, called with some keys, gives exactly the rows of the table with these keys. -/
def Answers (probe : List (PlanRow ν)) : Prop := ∀ ks rows,
  dep.deferred.call dep.probeKeyCol ks = .ok rows →
    rows.Perm (probe.filter (hasKey (cell dep.probeKeyIdx) ks))

variable {dep} {probe driver : List (PlanRow ν)}

lemma perm_of_collect (h : dep.Answers probe) (requests : List (List ν)) (total : ℕ)
    (rows : List (PlanRow ν)) (hrows : dep.deferred.collect dep.probeKeyCol requests total = .ok rows) :
    rows.Perm (requests.flatMap fun ks => probe.filter (hasKey (cell dep.probeKeyIdx) ks)) := by
  induction requests generalizing total rows with
  | nil =>
      cases hrows
      exact .nil
  | cons ks requests ih =>
      rw [DeferredScan.collect, Fallible.bind_eq_ok] at hrows
      obtain ⟨first, hfirst, hrest⟩ := hrows
      split at hrest
      · cases hrest
      · obtain ⟨more, hmore, heq⟩ := Fallible.bind_eq_ok.mp hrest
        cases heq
        rw [List.flatMap_cons]
        exact (h ks first hfirst).append (ih _ more hmore)

/-- The scan of the keys gives the rows of the table with one of them. -/
lemma perm_of_scan (h : dep.Answers probe) {keys : List ν} (hkeys : keys.Nodup)
    {rows : List (PlanRow ν)}
    (hrows : dep.deferred.scanWithFilters dep.probeKeyCol keys = .ok rows) :
    rows.Perm (probe.filter (hasKey (cell dep.probeKeyIdx) keys)) := by
  unfold DeferredScan.scanWithFilters at hrows
  split at hrows
  · cases hrows
  · split at hrows
    · cases hrows
    · have hcollect := perm_of_collect h _ 0 rows hrows
      unfold DeferredScan.requests at hcollect
      split_ifs at hcollect
      · rw [List.flatMap_singleton] at hcollect
        exact hcollect
      · rw [List.flatMap_map] at hcollect
        exact hcollect.trans (flatMap_hasKey _ hkeys probe)

/-! ## The replayed join -/

variable (dep) in
/-- The residual filter, by the driver's row and the table's. -/
def residual (d r : PlanRow ν) : Bool :=
  if dep.probeIsRight then dep.join.filter d r else dep.join.filter r d

variable (dep) in
/-- A driver row and a row of the table join. -/
def pairs (d r : PlanRow ν) : Bool :=
  keyEq dep.join.nullEqualsNull (cell dep.driverKeyIdx d) (cell dep.probeKeyIdx r) &&
    dep.residual d r

variable (dep) in
def combined (d r : PlanRow ν) : PlanRow ν :=
  if dep.probeIsRight then dep.join.output d r else dep.join.output r d

lemma keyEq_comm (nullEqualsNull : Bool) (a b : Option ν) :
    keyEq nullEqualsNull a b = keyEq nullEqualsNull b a := by
  cases a with
  | none =>
      cases b with
      | none => rfl
      | some b => rfl
  | some a =>
      cases b with
      | none => rfl
      | some b =>
          exact decide_eq_decide.mpr eq_comm

/-- Whichever side the scan is on, the join runs over the driver's rows. -/
lemma replay_perm (hbuilt : dep.Built) (driver probe : List (PlanRow ν)) :
    (dep.replay driver probe).Perm (innerJoin dep.pairs dep.combined driver probe) := by
  unfold Built at hbuilt
  unfold replay HashJoin.rows
  cases hright : dep.probeIsRight with
  | true =>
      rw [hright, if_pos rfl] at hbuilt
      have hjoins : dep.join.joins = dep.pairs := by
        funext d r
        unfold HashJoin.joins pairs residual
        rw [hbuilt, hright]
        simp [KeyExpr.eval]
      have hout : dep.join.output = dep.combined := by
        funext d r
        unfold combined
        rw [hright, if_pos rfl]
      rw [if_pos rfl, hjoins, hout]
  | false =>
      rw [hright, if_neg Bool.false_ne_true] at hbuilt
      have hjoins : (fun d r => dep.join.joins r d) = dep.pairs := by
        funext d r
        unfold HashJoin.joins pairs residual
        rw [hbuilt, hright, keyEq_comm]
        simp [KeyExpr.eval]
      have hout : (fun d r => dep.join.output r d) = dep.combined := by
        funext d r
        unfold combined
        rw [hright, if_neg Bool.false_ne_true]
      rw [if_neg Bool.false_ne_true]
      have hswap : (innerJoin dep.join.joins dep.join.output probe driver).Perm _ :=
        innerJoin_swap probe driver
      rw [hjoins, hout] at hswap
      exact hswap

variable (dep) in
/-- The driver's rows whose key is fetched. -/
def fetched (driver : List (PlanRow ν)) : List (PlanRow ν) :=
  driver.filter (hasKey (cell dep.driverKeyIdx) (firstKeys driver dep.driverKeyIdx dep.cap))

/-- A row of the driver that has a fetched key joins the rows that have it. -/
lemma hasKey_of_pairs {keys : List ν} {d r : PlanRow ν} (h : dep.pairs d r = true) :
    hasKey (cell dep.driverKeyIdx) keys d = hasKey (cell dep.probeKeyIdx) keys r := by
  obtain ⟨hkey, -⟩ := Bool.and_eq_true_iff.mp h
  unfold hasKey
  cases hd : cell dep.driverKeyIdx d with
  | none =>
      cases hr : cell dep.probeKeyIdx r with
      | none => rfl
      | some k =>
          rw [hd, hr] at hkey
          cases hkey
  | some k =>
      cases hr : cell dep.probeKeyIdx r with
      | none =>
          rw [hd, hr] at hkey
          cases hkey
      | some k' =>
          rw [hd, hr] at hkey
          rw [of_decide_eq_true hkey]

/-- A dependent join that does not fail gives the rows of the original join whose driver row has a
fetched key. -/
theorem execute_spec (hbuilt : dep.Built) (h : dep.Answers probe) {out : List (PlanRow ν)}
    (hout : dep.execute driver = .ok out) : out.Perm (dep.replay (dep.fetched driver) probe) := by
  have hkeys := distinctKeys_eq driver dep.driverKeyIdx dep.cap
  unfold execute at hout
  split at hout
  · next hnil =>
      cases hout
      have hnone : dep.fetched driver = [] := by
        unfold fetched
        rw [← hkeys, hnil, List.filter_eq_nil_iff]
        intro d _ hd
        obtain ⟨k, hk, -⟩ := hasKey_iff.mp hd
        cases hk
      rw [hnone]
      exact (replay_perm hbuilt [] probe).symm
  · next k keys hcons =>
      obtain ⟨rows, hrows, heq⟩ := Fallible.bind_eq_ok.mp hout
      cases heq
      rw [← hcons, hkeys] at hrows
      have hscan := perm_of_scan h (firstKeys_nodup _ _ _) hrows
      have hmatch : ∀ d r, dep.pairs d r = true →
          hasKey (cell dep.driverKeyIdx) (firstKeys driver dep.driverKeyIdx dep.cap) d =
            hasKey (cell dep.probeKeyIdx) (firstKeys driver dep.driverKeyIdx dep.cap) r :=
        fun d r => hasKey_of_pairs
      have hreduced : innerJoin dep.pairs dep.combined driver _ =
          innerJoin dep.pairs dep.combined _ probe := innerJoin_reduced hmatch driver probe
      have hjoin := (replay_perm hbuilt driver rows).trans (innerJoin_perm_right hscan driver)
      rw [hreduced] at hjoin
      exact hjoin.trans (replay_perm hbuilt _ probe).symm

/-! ## What a plan promises -/

variable (dep) in
/-- Without a limit, the rows of the original join; under a limit, rows of it, as many as the limit
asks for or all. -/
def Sound (driver probe : List (PlanRow ν)) : Prop := ∀ out, dep.execute driver = .ok out →
  match dep.cap with
  | none => out.Perm (dep.replay driver probe)
  | some n => out.Subperm (dep.replay driver probe) ∧
      min n (dep.replay driver probe).length ≤ out.length

variable (dep) in
/-- The fetch of the keys fails. -/
def Refused (driver : List (PlanRow ν)) : Prop :=
  firstKeys driver dep.driverKeyIdx dep.cap ≠ [] ∧ ∃ err, dep.deferred.scanWithFilters
    dep.probeKeyCol (firstKeys driver dep.driverKeyIdx dep.cap) = .error err

variable (dep) in
/-- Without a limit, no `NULL` keys join; under a limit, the driver's rows that have one of the first
keys have as many partners in the table as the limit asks for, or as there are. -/
def Enough (driver probe : List (PlanRow ν)) : Prop :=
  match dep.cap with
  | none => dep.join.nullEqualsNull = true → ∀ d ∈ driver, cell dep.driverKeyIdx d = none →
      ∀ r ∈ probe, cell dep.probeKeyIdx r = none → dep.residual d r = false
  | some n => min n (dep.replay driver probe).length ≤
      (dep.replay (dep.fetched driver) probe).length

lemma fetched_subperm (hbuilt : dep.Built) :
    (dep.replay (dep.fetched driver) probe).Subperm (dep.replay driver probe) := by
  have hsub : (innerJoin dep.pairs dep.combined (dep.fetched driver) probe).Sublist
      (innerJoin dep.pairs dep.combined driver probe) :=
    innerJoin_sublist List.filter_sublist probe
  exact (replay_perm hbuilt _ probe).subperm.trans
    (hsub.subperm.trans (replay_perm hbuilt driver probe).symm.subperm)

/-- Nothing is lost without a cap exactly when no `NULL` keys join. -/
lemma fetched_all_iff (hbuilt : dep.Built) (hcap : dep.cap = none) :
    (dep.replay driver probe).length ≤ (dep.replay (dep.fetched driver) probe).length ↔
      (dep.join.nullEqualsNull = true → ∀ d ∈ driver, cell dep.driverKeyIdx d = none →
        ∀ r ∈ probe, cell dep.probeKeyIdx r = none → dep.residual d r = false) := by
  rw [(replay_perm hbuilt driver probe).length_eq, (replay_perm hbuilt _ probe).length_eq]
  unfold fetched
  rw [hcap, innerJoin_filter_length_iff]
  constructor
  · intro h hnull d hd hdkey r hr hrkey
    have hpair := h d hd ((hasKey_firstKeys hd).mpr hdkey) r hr
    unfold pairs at hpair
    rw [hdkey, hrkey] at hpair
    simpa [keyEq, hnull] using hpair
  · intro h d hd hfetch r hr
    have hdkey := (hasKey_firstKeys hd).mp hfetch
    unfold pairs
    rw [hdkey]
    cases hrkey : cell dep.probeKeyIdx r with
    | some k => rfl
    | none =>
        show (dep.join.nullEqualsNull && dep.residual d r) = false
        cases hnull : dep.join.nullEqualsNull with
        | false => rfl
        | true =>
            rw [h hnull d hd hdkey r hr hrkey]
            rfl

lemma execute_of_not_refused (h : ¬ dep.Refused driver) : ∃ out, dep.execute driver = .ok out := by
  have hkeys := distinctKeys_eq driver dep.driverKeyIdx dep.cap
  unfold execute
  cases hd : distinctKeys driver dep.driverKeyIdx dep.cap with
  | nil => exact ⟨[], rfl⟩
  | cons k keys =>
      dsimp only
      cases hscan : dep.deferred.scanWithFilters dep.probeKeyCol (k :: keys) with
      | error err =>
          apply absurd _ h
          rw [← hd, hkeys] at hscan
          refine ⟨?_, err, hscan⟩
          rw [← hkeys, hd]
          exact List.cons_ne_nil k keys
      | ok rows => exact ⟨_, rfl⟩

lemma not_ok_of_refused (h : dep.Refused driver) (out : List (PlanRow ν)) :
    dep.execute driver ≠ .ok out := by
  obtain ⟨hne, err, herr⟩ := h
  rw [← distinctKeys_eq] at hne herr
  intro hout
  unfold execute at hout
  split at hout
  · next hnil => exact hne hnil
  · next k keys hcons =>
      rw [hcons] at herr
      rw [herr] at hout
      cases hout

/-- Under a stack of operators with a limit, a dependent join that is sound gives the plan as many
rows as the original join does. -/
theorem stackRows_of_sound {ops : List (StackOp ν)} {join : HashJoin ν} {left right : SourcePlan ν}
    {c : ℕ} (hc : capBelow ops none = some c)
    (hbuild : tryBuildDependentJoin join left right (some c) = some dep)
    (hsound : dep.Sound driver probe) {out : List (PlanRow ν)} (hout : dep.execute driver = .ok out) :
    rewrite (stack ops (.hashJoin join left right)) none = stack ops (.dependent dep) ∧
      stackRows ops out.length = stackRows ops (dep.replay driver probe).length := by
  constructor
  · rw [rewrite_stack, hc, rewrite, hbuild]
  · have hrows := hsound out hout
    rw [(built_of_tryBuild hbuild).2] at hrows
    exact stackRows_eq ops hc hrows.1.length_le hrows.2

/-! ## A key without rows -/

/-- The table of an endpoint: one row with the key 2 and one without a key. -/
def exampleProbe : List (PlanRow ℕ) := [[some 2, some 20], [none, some 30]]

def exampleScan : DeferredScan ℕ where
  name := "detail"
  fields := ["id", "price"]
  keyColumns := ["id"]
  explode _ := false
  maxRows := none
  keyText k := some (toString k)
  call _ ks := .ok (exampleProbe.filter (hasKey (cell 0) ks))

/-- The driver ranks the keys 1 and 2 and has a row without a key. -/
def exampleDriver : List (PlanRow ℕ) := [[some 1], [some 2], [none]]

def exampleJoin (nullEqualsNull : Bool) : HashJoin ℕ where
  joinType := .inner
  on := [(.column 0, .column 0)]
  nullEqualsNull := nullEqualsNull

/-- The join under a limit. -/
def examplePlan (limit : Option ℕ) (nullEqualsNull : Bool) : SourcePlan ℕ :=
  .globalLimit 0 limit (.prefixOp .repartition (.hashJoin (exampleJoin nullEqualsNull)
    (.relation exampleDriver) (.deferred exampleScan)))

def exampleDependent (limit : Option ℕ) (nullEqualsNull : Bool) : DependentJoin ℕ where
  join := exampleJoin nullEqualsNull
  left := .relation exampleDriver
  right := .deferred exampleScan
  probeIsRight := true
  deferred := exampleScan
  probeKeyIdx := 0
  driverKeyIdx := 0
  probeKeyCol := "id"
  cap := limit

lemma mem_examplePlan (limit : Option ℕ) (nullEqualsNull : Bool) :
    exampleDependent limit nullEqualsNull ∈
      (rewrite (examplePlan limit nullEqualsNull) none).dependents := by
  cases limit with
  | none => exact List.mem_singleton.mpr rfl
  | some n => exact List.mem_singleton.mpr rfl

lemma exampleScan_answers (limit : Option ℕ) (nullEqualsNull : Bool) :
    (exampleDependent limit nullEqualsNull).Answers exampleProbe := by
  intro ks rows hrows
  cases hrows
  exact .refl _

end DependentJoin

end Http
end Pawrly
