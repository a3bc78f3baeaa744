import Pawrly.Http.WindowPaging
import Pawrly.Http.Typed

/-!
# Row caps

A table with a cap on its rows stops with an error once it has collected more of them.  The pages
are checked after the `LIMIT`: a page that reaches the limit ends the fetch before its rows are
counted against the cap.  The scan of a table counts them again (`scan_capped`); a function call
does not, so a page that goes from within the cap to a limit beyond it is returned
(`rowCaps_iff`).
-/

namespace Pawrly
namespace Http

section

variable {U : Type} (client : Client U) (spec : HttpTableSpec)

/-! ## The two scans -/

/-- `scan_bound` with `fetch_rows`; the requests of a set of values have a server of their own. -/
def Client.scanBound (maxPages maxRows limit : Option ℕ)
    (send : Params → ℕ → Request U → Except DataFusionError Response) (filters : List Expr)
    (nowEpoch : ℤ) (allowDefer : Bool) : Except DataFusionError (ScanResult Json) :=
  Http.scanBound spec maxRows limit
    (fun bind explode rest => client.fetchRows spec maxPages maxRows rest (send bind) bind explode)
    filters nowEpoch allowDefer

/-- `scan_params`, up to the building of the record batch. -/
def Client.scanParams (maxPages maxRows limit : Option ℕ)
    (send : ℕ → Request U → Except DataFusionError Response) (params : Params) :
    Except DataFusionError (List Json) :=
  client.fetchRows spec maxPages maxRows limit send params .empty

/-! ## The pages of a server -/

/-- The sizes of the pages that the server gives one after the other when nothing caps them. -/
def Client.pageSizes (shape : RequestShape) (explode : OrderedMap String (List String))
    (send : ℕ → Request U → Except DataFusionError Response) : ℕ → FetchState U → List ℕ
  | 0, _ => []
  | left + 1, st =>
      match client.request spec shape explode st >>= send st.pageIndex with
      | .error _ => []
      | .ok resp =>
          match client.responseRows spec resp with
          | .error _ => []
          | .ok rows =>
              rows.length :: match client.page spec none none st resp with
                | .ok (.next st) => Client.pageSizes shape explode send left st
                | _ => []

/-- A page goes from within the cap to the limit. -/
def Overruns (max limit collected : ℕ) (sizes : List ℕ) : Prop :=
  ∃ before size after, sizes = before ++ size :: after ∧
    collected + before.sum ≤ max ∧ limit ≤ collected + before.sum + size

lemma overruns_cons {max limit collected size : ℕ} {sizes : List ℕ} (hmax : collected ≤ max) :
    Overruns max limit collected (size :: sizes) ↔
      limit ≤ collected + size ∨ Overruns max limit (collected + size) sizes := by
  constructor
  · rintro ⟨before, size', after, heq, hle, hlimit⟩
    cases before with
    | nil =>
        cases heq
        exact .inl (by simpa using hlimit)
    | cons b before =>
        cases heq
        rw [List.sum_cons] at hle hlimit
        exact .inr ⟨before, size', after, rfl, by omega, by omega⟩
  · rintro (hlimit | ⟨before, size', after, rfl, hle, hlimit⟩)
    · exact ⟨[], size, sizes, rfl, by simpa using hmax, by simpa using hlimit⟩
    · refine ⟨size :: before, size', after, rfl, ?_, ?_⟩
      · rw [List.sum_cons]
        omega
      · rw [List.sum_cons]
        omega

lemma not_overruns {max limit collected : ℕ} {sizes : List ℕ} (h : max < collected) :
    ¬ Overruns max limit collected sizes := by
  rintro ⟨before, size, after, -, hle, -⟩
  omega

/-! ## One page -/

variable {client spec}

/-- What a page is followed by, apart from the cap and the limit. -/
lemma page_eq {maxRows limit : Option ℕ} {st : FetchState U} {resp : Response} :
    client.page spec maxRows limit st resp =
      if resp.status = 404 && spec.response.allow404Empty then .ok (.done st.rows)
      else client.responseRows spec resp >>= fun rows =>
        if limit.any (· ≤ (st.rows ++ rows).length) then .ok (.done (st.rows ++ rows))
        else match maxRows.filter (· < (st.rows ++ rows).length) with
          | some max => .error (tooManyRows spec.name max)
          | none => client.page spec none none st resp := by
  unfold Client.page Client.responseRows
  split_ifs with h404
  · rfl
  · cases hbody : client.responseBody spec resp with
    | error e => rfl
    | ok body =>
        cases hrows : spec.response.extractRows body with
        | error e =>
            simp [bind, Except.bind, hrows]
        | ok rows =>
            simp only [bind, Except.bind, hrows]
            rfl

/-- The rows collected behind a page. -/
def PageOutcome.rows : PageOutcome U → List Json
  | done rows => rows
  | next st => st.rows

lemma advance_rows {st st' : FetchState U} {all : List Json} {next : NextPage}
    (h : client.advance st all next = .ok st') : st'.rows = all := by
  cases next with
  | params p =>
      cases h
      rfl
  | url u =>
      obtain ⟨parsed, -, h⟩ := Fallible.bind_eq_ok.mp h
      obtain ⟨_, -, heq⟩ := Fallible.bind_eq_ok.mp h
      cases heq
      rfl
  | bodyCursor c =>
      cases h
      rfl

/-- A page adds its rows. -/
lemma page_rows {st : FetchState U} {resp : Response} {out : PageOutcome U}
    (h : client.page spec none none st resp = .ok out) {rows : List Json}
    (hrows : client.responseRows spec resp = .ok rows) : out.rows = st.rows ++ rows := by
  unfold Client.page at h
  unfold Client.responseRows at hrows
  split_ifs at h hrows
  · cases h
    cases hrows
    exact (List.append_nil _).symm
  · obtain ⟨body, hbody, h⟩ := Fallible.bind_eq_ok.mp h
    obtain ⟨rows', hrows', h⟩ := Fallible.bind_eq_ok.mp h
    rw [hbody] at hrows
    obtain rfl : rows' = rows := Except.ok.inj (hrows'.symm.trans hrows)
    simp only [Option.any_none, Bool.false_eq_true, if_false, Option.filter_none] at h
    split at h
    · cases h
      rfl
    · obtain ⟨st', hadvance, heq⟩ := Fallible.bind_eq_ok.mp h
      cases heq
      exact advance_rows hadvance

/-! ## The fetch -/

variable {shape : RequestShape} {explode : OrderedMap String (List String)}
  {send : ℕ → Request U → Except DataFusionError Response} {maxPages : ℕ}

lemma fetchLoop_succ {maxRows limit : Option ℕ} {left : ℕ} {st : FetchState U} :
    client.fetchLoop spec shape explode maxPages maxRows limit send (left + 1) st =
      (client.request spec shape explode st >>= send st.pageIndex) >>= fun resp =>
        client.page spec maxRows limit st resp >>= fun out => match out with
          | .done rows => .ok rows
          | .next st => client.fetchLoop spec shape explode maxPages maxRows limit send left st := by
  rw [Client.fetchLoop]
  cases client.request spec shape explode st with
  | error e => rfl
  | ok req => rfl

/-- With a limit within the cap the cap is never reached. -/
lemma fetchLoop_uncapped {max limit left : ℕ} (hle : limit ≤ max) (st : FetchState U) :
    client.fetchLoop spec shape explode maxPages (some max) (some limit) send left st =
      client.fetchLoop spec shape explode maxPages none (some limit) send left st := by
  induction left generalizing st with
  | zero => rfl
  | succ left ih =>
      rw [fetchLoop_succ, fetchLoop_succ]
      refine bind_congr fun resp => ?_
      have hpage : client.page spec (some max) (some limit) st resp =
          client.page spec none (some limit) st resp := by
        refine page_eq.trans (Eq.trans ?_ page_eq.symm)
        split_ifs with h404
        · rfl
        · refine bind_congr fun rows => ?_
          split_ifs with hlimit
          · rfl
          · have hfilter : (some max).filter (· < (st.rows ++ rows).length) = none := by
              rw [Option.filter_eq_none_iff]
              intro m hm
              cases hm
              simp only [Option.any_some, decide_eq_true_eq] at hlimit ⊢
              omega
            rw [hfilter]
            rfl
      rw [hpage]
      refine bind_congr fun out => ?_
      cases out with
      | done rows => rfl
      | next st => exact ih st

/-- Within the cap, or a page went from within the cap to the limit. -/
lemma fetchLoop_le {max left : ℕ} {limit : Option ℕ} {st : FetchState U} {rows : List Json}
    (hst : st.rows.length ≤ max)
    (h : client.fetchLoop spec shape explode maxPages (some max) limit send left st = .ok rows) :
    rows.length ≤ max ∨ ∃ l ∈ limit,
      Overruns max l st.rows.length (client.pageSizes spec shape explode send left st) := by
  induction left generalizing st with
  | zero => cases h
  | succ left ih =>
      rw [fetchLoop_succ] at h
      obtain ⟨resp, hresp, h⟩ := Fallible.bind_eq_ok.mp h
      obtain ⟨out, hout, h⟩ := Fallible.bind_eq_ok.mp h
      rw [page_eq] at hout
      split_ifs at hout with h404
      · cases hout
        cases h
        exact .inl hst
      · obtain ⟨page, hpage, hout⟩ := Fallible.bind_eq_ok.mp hout
        rw [Client.pageSizes, hresp]
        dsimp only
        rw [hpage]
        simp only [overruns_cons hst]
        split_ifs at hout with hlimit
        · cases limit with
          | none => cases hlimit
          | some l => exact .inr ⟨l, rfl, .inl (by simpa using hlimit)⟩
        · split at hout
          · cases hout
          · next hfilter =>
              have hcap : (st.rows ++ page).length ≤ max := by
                have hnot := Option.filter_eq_none_iff.mp hfilter max rfl
                simpa using hnot
              have hrows := page_rows hout hpage
              cases out with
              | done all =>
                  cases h
                  obtain rfl : rows = st.rows ++ page := hrows
                  exact .inl hcap
              | next st' =>
                  obtain hrows : st'.rows = st.rows ++ page := hrows
                  rw [hout]
                  have hlen : st'.rows.length = st.rows.length + page.length := by
                    rw [hrows, List.length_append]
                  rcases ih (hrows ▸ hcap) h with hle | ⟨l, hl, hover⟩
                  · exact .inl hle
                  · exact .inr ⟨l, hl, .inr (hlen ▸ hover)⟩

/-- A page that goes from within the cap to the limit is the last one. -/
lemma fetchLoop_overruns {max limit left : ℕ} {st : FetchState U} (hlt : max < limit)
    (hst : st.rows.length ≤ max)
    (h : Overruns max limit st.rows.length (client.pageSizes spec shape explode send left st)) :
    ∃ rows, client.fetchLoop spec shape explode maxPages (some max) (some limit) send left st =
      .ok rows ∧ limit ≤ rows.length := by
  have hempty : ∀ n, ¬ Overruns max limit n [] := by
    rintro n ⟨before, size, after, heq, -⟩
    simp at heq
  induction left generalizing st with
  | zero => exact absurd h (hempty _)
  | succ left ih =>
      rw [Client.pageSizes] at h
      rw [fetchLoop_succ]
      cases hresp : client.request spec shape explode st >>= send st.pageIndex with
      | error e =>
          rw [hresp] at h
          exact absurd h (hempty _)
      | ok resp =>
          rw [hresp] at h
          dsimp only at h
          cases hpage : client.responseRows spec resp with
          | error e =>
              rw [hpage] at h
              exact absurd h (hempty _)
          | ok page =>
              rw [hpage] at h
              dsimp only at h
              rw [overruns_cons hst] at h
              show ∃ rows, (client.page spec (some max) (some limit) st resp >>= _) = _ ∧ _
              by_cases h404 : (resp.status = 404 && spec.response.allow404Empty) = true
              · have hnone : client.page spec none none st resp = .ok (.done st.rows) := by
                  rw [page_eq, if_pos h404]
                have hrows : page = [] := by
                  rw [Client.responseRows, if_pos h404] at hpage
                  exact (Except.ok.inj hpage).symm
                rw [hnone, hrows] at h
                rcases h with hle | hover
                · simp only [List.length_nil] at hle
                  omega
                · exact absurd hover (hempty _)
              · rw [page_eq, if_neg h404, hpage]
                dsimp only [bind, Except.bind]
                rw [Option.any_some]
                rcases h with hle | hover
                · rw [if_pos (by simpa using hle)]
                  exact ⟨_, rfl, by simpa using hle⟩
                · split_ifs with hlimit
                  · exact ⟨_, rfl, by simpa using hlimit⟩
                  · cases hout : client.page spec none none st resp with
                    | error e =>
                        rw [hout] at hover
                        exact absurd hover (hempty _)
                    | ok out =>
                        rw [hout] at hover
                        have hrows := page_rows hout hpage
                        cases out with
                        | done all => exact absurd hover (hempty _)
                        | next st' =>
                            obtain hrows : st'.rows = st.rows ++ page := hrows
                            have hlen : st'.rows.length = st.rows.length + page.length := by
                              rw [hrows, List.length_append]
                            have hcap : st'.rows.length ≤ max := by
                              by_contra hmore
                              exact not_overruns (by omega) hover
                            have hfilter :
                                (some max).filter (· < (st.rows ++ page).length) = none := by
                              rw [Option.filter_eq_none_iff]
                              intro m hm
                              cases hm
                              rw [← hrows]
                              simpa using hcap
                            rw [hfilter]
                            exact ih hcap (hlen ▸ hover)

/-! ## Capped runs -/

/-- A run returns no more rows than the cap and the limit, and a limit within the cap keeps the cap
from being reached. -/
structure Capped {β : Type} (max : ℕ) (limit : Option ℕ) (count : β → ℕ)
    (run : Option ℕ → Except DataFusionError β) : Prop where
  count_le : ∀ r, run (some max) = .ok r → count r ≤ max ∧ ∀ l ∈ limit, count r ≤ l
  unaffected : ∀ l ∈ limit, l ≤ max → run (some max) = run none

def ScanResult.count : ScanResult Json → ℕ
  | .rows l => l.length
  | .deferred _ => 0

variable {pages : Option ℕ}

lemma fetchRows_le_limit {maxRows : Option ℕ} {limit : ℕ} {params : Params} {rows : List Json}
    (h : client.fetchRows spec pages maxRows (some limit) send params explode = .ok rows) :
    rows.length ≤ limit := by
  obtain ⟨all, -, heq⟩ := Fallible.bind_eq_ok.mp h
  cases heq
  exact List.length_take_le _ _

lemma fetchRows_uncapped {max limit : ℕ} (hle : limit ≤ max) (params : Params) :
    client.fetchRows spec pages (some max) (some limit) send params explode =
      client.fetchRows spec pages none (some limit) send params explode := by
  unfold Client.fetchRows
  dsimp only
  rw [fetchLoop_uncapped hle]

/-- The loop over the sets of values keeps within the cap and the limit. -/
lemma scanLoop_le {ρ : Type} {max : ℕ} {limit : Option ℕ}
    {fetch : Params → Option ℕ → Except DataFusionError (List ρ)} {sets : List Params} {total : ℕ}
    {rows : List ρ} (hmax : total ≤ max)
    (h : scanLoop spec (some max) limit fetch sets total = .ok rows) :
    total + rows.length ≤ max ∧ ∀ l ∈ limit, total ≤ l → total + rows.length ≤ l := by
  induction sets generalizing total rows with
  | nil =>
      cases h
      exact ⟨by simpa using hmax, fun l _ hl => by simpa using hl⟩
  | cons bind sets ih =>
      rw [scanLoop] at h
      split_ifs at h with hlimit
      · cases h
        exact ⟨by simpa using hmax, fun l _ hl => by simpa using hl⟩
      · obtain ⟨page, -, h⟩ := Fallible.bind_eq_ok.mp h
        split at h
        · cases h
        · next hfilter =>
            obtain ⟨more, hmore, heq⟩ := Fallible.bind_eq_ok.mp h
            cases heq
            have hcap : total + page.length ≤ max := by
              simpa using Option.filter_eq_none_iff.mp hfilter max rfl
            have hkept : (limit.elim page fun l => page.take (l - total)).length ≤ page.length := by
              cases limit with
              | none => exact le_rfl
              | some l => exact List.length_take_le' _ _
            obtain ⟨hle, hlimits⟩ := ih (by omega) hmore
            rw [List.length_append]
            refine ⟨by omega, fun l hl htotal => ?_⟩
            have hbound : (limit.elim page fun l => page.take (l - total)).length ≤ l - total := by
              cases hl
              exact List.length_take_le _ _
            have hrest := hlimits l hl (by omega)
            omega

/-- With a limit within the cap the loop never reaches the cap. -/
lemma scanLoop_uncapped {ρ : Type} {max limit : ℕ} (hle : limit ≤ max)
    {fetch fetch' : Params → Option ℕ → Except DataFusionError (List ρ)}
    (hfetch : ∀ bind l, l ≤ max → fetch bind (some l) = fetch' bind (some l))
    (hrows : ∀ bind l rows, fetch' bind (some l) = .ok rows → rows.length ≤ l)
    (sets : List Params) (total : ℕ) :
    scanLoop spec (some max) (some limit) fetch sets total =
      scanLoop spec none (some limit) fetch' sets total := by
  induction sets generalizing total with
  | nil => rfl
  | cons bind sets ih =>
      rw [scanLoop, scanLoop]
      split_ifs with hlimit
      · rfl
      · rw [Option.map_some, hfetch bind _ (by omega)]
        cases hpage : fetch' bind (some (limit - total)) with
        | error e => rfl
        | ok page =>
            have hlen := hrows bind _ page hpage
            have hfilter : (some max).filter (· < total + page.length) = none := by
              rw [Option.filter_eq_none_iff]
              intro m hm
              cases hm
              simp only [Option.any_some, decide_eq_true_eq] at hlimit ⊢
              omega
            show (match (some max).filter (· < total + page.length) with
              | some max => _
              | none => _) = _
            rw [hfilter]
            show (scanLoop spec _ _ _ _ _ >>= _) = (scanLoop spec _ _ _ _ _ >>= _)
            rw [ih]

/-- **The scan of a table keeps its caps.** -/
lemma scan_capped {max : ℕ} {limit : Option ℕ}
    {sendFor : Params → ℕ → Request U → Except DataFusionError Response} {filters : List Expr}
    {nowEpoch : ℤ} {allowDefer : Bool} :
    Capped max limit ScanResult.count fun maxRows =>
      client.scanBound spec pages maxRows limit sendFor filters nowEpoch allowDefer where
  count_le := by
    intro r h
    obtain ⟨scan, -, h⟩ := Fallible.bind_eq_ok.mp h
    cases scan with
    | deferred names =>
        cases h
        exact ⟨Nat.zero_le _, fun l _ => Nat.zero_le _⟩
    | bound b =>
        obtain ⟨rows, hrows, heq⟩ := Fallible.bind_eq_ok.mp h
        cases heq
        obtain ⟨hmax, hlimit⟩ := scanLoop_le (Nat.zero_le _) hrows
        rw [Nat.zero_add] at hmax
        refine ⟨hmax, fun l hl => ?_⟩
        show rows.length ≤ l
        simpa using hlimit l hl (Nat.zero_le _)
  unaffected := by
    intro l hl hle
    cases hl
    refine bind_congr fun scan => ?_
    cases scan with
    | deferred names => rfl
    | bound b =>
        have hloop : scanLoop spec (some max) (some l) (fun bind rest =>
              client.fetchRows spec pages (some max) rest (sendFor bind) bind b.explode) b.sets 0 =
            scanLoop spec none (some l) (fun bind rest =>
              client.fetchRows spec pages none rest (sendFor bind) bind b.explode) b.sets 0 :=
          scanLoop_uncapped hle (fun bind l hl => fetchRows_uncapped hl bind)
            (fun bind l rows h => fetchRows_le_limit h) b.sets 0
        dsimp only
        rw [hloop]

/-- The pages that a call fetches. -/
def Client.callPages (client : Client U) (spec : HttpTableSpec) (maxPages : Option ℕ)
    (send : ℕ → Request U → Except DataFusionError Response) (params : Params) : List ℕ :=
  client.pageSizes spec (spec.selectRequest params) .empty send (maxPages.getD defaultMaxPages)
    { params := spec.firstParams params }

/-- A call keeps the caps unless a page takes its rows from within the cap to a limit beyond it. -/
lemma call_capped_iff {max : ℕ} {limit : Option ℕ} {params : Params} :
    (Capped max limit List.length fun maxRows =>
      client.scanParams spec pages maxRows limit send params) ↔
    ∀ l ∈ limit, max < l → ¬ Overruns max l 0 (client.callPages spec pages send params) := by
  constructor
  · rintro h l hl hlt hover
    cases hl
    obtain ⟨rows, hrows, hle⟩ := @fetchLoop_overruns _ _ _ _ _ _ (pages.getD defaultMaxPages) _ _ _ _ hlt
      (Nat.zero_le _) hover
    have hrun : client.scanParams spec pages (some max) (some l) send params =
        .ok (rows.take l) := by
      unfold Client.scanParams Client.fetchRows
      dsimp only
      rw [hrows]
      rfl
    have hcount := (h.count_le _ hrun).1
    rw [List.length_take] at hcount
    omega
  · intro h
    refine ⟨fun rows hrows => ?_, fun l hl hle => ?_⟩
    · obtain ⟨all, hall, heq⟩ := Fallible.bind_eq_ok.mp hrows
      cases heq
      refine ⟨?_, fun l hl => ?_⟩
      · cases limit with
        | none =>
            rcases fetchLoop_le (Nat.zero_le _) hall with hle | ⟨l, hl, -⟩
            · exact hle
            · cases hl
        | some l =>
            show (all.take l).length ≤ max
            rw [List.length_take]
            rcases fetchLoop_le (Nat.zero_le _) hall with hle | ⟨l', hl', hover⟩
            · omega
            · cases hl'
              have hnot : ¬ max < l := fun hlt => h l rfl hlt hover
              omega
      · cases hl
        exact List.length_take_le _ _
    · cases hl
      exact fetchRows_uncapped hle params

/-- **Rows are capped** exactly when no page of a call takes its rows from within the cap to a
limit beyond it. -/
theorem rowCaps_iff {max : ℕ} {limit : Option ℕ} {params : Params}
    {sendFor : Params → ℕ → Request U → Except DataFusionError Response} {filters : List Expr}
    {nowEpoch : ℤ} {allowDefer : Bool} :
    ((Capped max limit ScanResult.count fun maxRows =>
        client.scanBound spec pages maxRows limit sendFor filters nowEpoch allowDefer) ∧
      Capped max limit List.length fun maxRows =>
        client.scanParams spec pages maxRows limit send params) ↔
    ∀ l ∈ limit, max < l → ¬ Overruns max l 0 (client.callPages spec pages send params) := by
  rw [← call_capped_iff]
  exact and_iff_right scan_capped

/-! ## A page beyond the cap -/

/-- A server with one page of two rows. -/
def sendTwo (_ : ℕ) (_ : Request (String × List (String × String))) :
    Except DataFusionError Response :=
  .ok { status := 200, headers := [], text := .ok "[1,2]" }

def pairTable : HttpTableSpec where
  name := "pairs"
  endpoint := "pairs"

/-- A cap of one row and a limit of two: a call returns both rows. -/
theorem rowCaps_fails : ¬ ∀ (spec : HttpTableSpec) (max : ℕ) (limit : Option ℕ) (params : Params),
    Capped max limit List.length fun maxRows =>
      (pairClient parseElements).scanParams spec none maxRows limit sendTwo params := by
  intro h
  have hrun : ((pairClient parseElements).scanParams pairTable none (some 1) (some 2) sendTwo
      .empty).toOption.map List.length = some 2 := by
    decide
  obtain ⟨rows, hrows, hlen⟩ := Option.map_eq_some_iff.mp hrun
  have hok : (pairClient parseElements).scanParams pairTable none (some 1) (some 2) sendTwo
      .empty = .ok rows := by
    cases hresult : (pairClient parseElements).scanParams pairTable none (some 1) (some 2) sendTwo
      .empty with
    | error e =>
        rw [hresult] at hrows
        cases hrows
    | ok rows' =>
        rw [hresult] at hrows
        cases hrows
        rfl
  have hcount := ((h pairTable 1 (some 2) .empty).count_le rows hok).1
  omega

end

end Http
end Pawrly
