import Pawrly.Text

/-!
# Errors over the wire

An `EngineError` is sent as a status with its code and its text, and rebuilt from both.  What a text
says besides the variant's own words is kept, but a status carries no payloads: `comesBack_iff` says which
errors come back as they were.
-/

namespace Pawrly
namespace Engine
namespace ErrorWire

/-! ## Durations -/

/-- Seconds and the nanoseconds of a further one. -/
structure Duration where
  secs : ℕ
  nanos : ℕ
  nanos_lt : nanos < 10 ^ 9

namespace Duration

def zero : Duration := ⟨0, 0, by decide⟩

/-- The digits of a fraction, without zeros at its end. -/
def fractionDigits : ℕ → ℕ → String
  | 0, _ => ""
  | k + 1, fraction =>
      if fraction = 0 then ""
      else toString (fraction / 10 ^ k) ++ fractionDigits k (fraction % 10 ^ k)

/-- `fmt_decimal`: a number with so many places behind its point. -/
def decimal (whole fraction places : ℕ) (suffix : String) : String :=
  if fraction = 0 then toString whole ++ suffix
  else toString whole ++ "." ++ fractionDigits places fraction ++ suffix

/-- `{:?}`. -/
def debug (d : Duration) : String :=
  if 0 < d.secs then decimal d.secs d.nanos 9 "s"
  else if 10 ^ 6 ≤ d.nanos then decimal (d.nanos / 10 ^ 6) (d.nanos % 10 ^ 6) 6 "ms"
  else if 10 ^ 3 ≤ d.nanos then decimal (d.nanos / 10 ^ 3) (d.nanos % 10 ^ 3) 3 "µs"
  else decimal d.nanos 0 1 "ns"

end Duration

/-- `{:?}` of a duration that may be missing. -/
def debugOption : Option Duration → String
  | some d => "Some(" ++ d.debug ++ ")"
  | none => "None"

/-! ## Errors -/

inductive SourceError
  | unreachable (name : String)
  | schema (name detail : String)
  | unauthorized (name : String)
  | forbidden (name detail : String)
  | rateLimited (name : String) (retryAfter : Option Duration)
  | unavailable (name detail : String)
  | other (name detail : String)

namespace SourceError

/-- The text of the error. -/
def display : SourceError → String
  | unreachable name => "source `" ++ name ++ "` is unreachable"
  | schema name detail =>
      "source `" ++ name ++ "` returned a schema that does not match its declaration: " ++ detail
  | unauthorized name => "source `" ++ name ++ "` is unauthorized; check credentials"
  | forbidden name detail => "source `" ++ name ++ "` denied the request: " ++ detail
  | rateLimited name retryAfter =>
      "source `" ++ name ++ "` is rate-limited; retry-after " ++ debugOption retryAfter
  | unavailable name detail => "source `" ++ name ++ "` is unavailable in this build: " ++ detail
  | other name detail => "source `" ++ name ++ "`: " ++ detail

end SourceError

inductive SafetyError
  | missingRequiredFilter (table column : String)
  | noFilters (table : String)
  | tooManyRows (table : String) (maxRows : ℕ)
  | tooManyPages (table : String) (maxPages : ℕ)
  | unboundParam (table name : String)
  | predicateUnsatisfied (table predicate reason : String)

namespace SafetyError

/-- The text of the error. -/
def display : SafetyError → String
  | missingRequiredFilter table column =>
      "refusing to scan `" ++ table ++ "` without a filter on `" ++ column ++ "`"
  | noFilters table => "refusing to scan `" ++ table ++ "` without any filter"
  | tooManyRows table maxRows =>
      "refusing to scan `" ++ table ++ "`: would return more than " ++ toString maxRows ++ " rows"
  | tooManyPages table maxPages =>
      "refusing to scan `" ++ table ++ "`: would page more than " ++ toString maxPages ++ " times. " ++
        "A top-level ORDER BY, GROUP BY, or aggregate forces the whole feed to be paged " ++
        "because the LIMIT can no longer push into the scan. Drop the outer sort and rely " ++
        "on the source's default order, or bound the scan first: " ++
        "SELECT ... FROM (SELECT * FROM " ++ table ++ " LIMIT 200) t ORDER BY ..."
  | unboundParam table name =>
      "refusing to scan `" ++ table ++ "`: required predicate references unbound param `" ++ name ++ "`"
  | predicateUnsatisfied table predicate reason =>
      "refusing to scan `" ++ table ++ "`: required predicate `" ++ predicate ++
        "` could not be applied: " ++ reason

def code : SafetyError → String
  | missingRequiredFilter _ _ => "PAWRLY_SAFETY_REQUIRED_FILTER"
  | noFilters _ => "PAWRLY_SAFETY_NO_FILTERS"
  | tooManyRows _ _ => "PAWRLY_SAFETY_TOO_MANY_ROWS"
  | tooManyPages _ _ => "PAWRLY_SAFETY_TOO_MANY_PAGES"
  | unboundParam _ _ => "PAWRLY_SAFETY_UNBOUND_PARAM"
  | predicateUnsatisfied _ _ _ => "PAWRLY_SAFETY_PREDICATE_UNSATISFIED"

end SafetyError

inductive EngineError
  | unknownKind (kind : String)
  | sourceRegistration (name kind : String) (source : SourceError)
  | unknownTable (name : String)
  | unknownFunction (name : String)
  | safety (e : SafetyError)
  | timeout (after : Duration)
  | outOfMemory (bytes : ℕ)
  | invalidSql (message : String)
  | semanticPlan (message : String)
  | cancelled
  | protocol (message : String)
  | internal (message : String)
  | unsupported (message : String)

namespace EngineError

/-- The text of the error. -/
def display : EngineError → String
  | unknownKind kind => "unknown source kind: " ++ kind
  | sourceRegistration name kind source =>
      "source `" ++ name ++ "` (" ++ kind ++ ") failed to register: " ++ source.display
  | unknownTable name => "unknown table `" ++ name ++ "`"
  | unknownFunction name => "unknown function `" ++ name ++ "`"
  | safety e => "safety check failed: " ++ e.display
  | timeout after => "query timed out after " ++ after.debug
  | outOfMemory bytes => "query exceeded memory budget of " ++ toString bytes ++ " bytes"
  | invalidSql message => "invalid SQL: " ++ message
  | semanticPlan message => "semantic plan error: " ++ message
  | cancelled => "query was cancelled"
  | protocol message => "protocol error: " ++ message
  | internal message => "internal error: " ++ message
  | unsupported message => message

def code : EngineError → String
  | unknownKind _ => "PAWRLY_UNKNOWN_KIND"
  | sourceRegistration _ _ _ => "PAWRLY_SOURCE_REGISTRATION"
  | unknownTable _ => "PAWRLY_UNKNOWN_TABLE"
  | unknownFunction _ => "PAWRLY_UNKNOWN_FUNCTION"
  | safety e => e.code
  | timeout _ => "PAWRLY_TIMEOUT"
  | outOfMemory _ => "PAWRLY_OOM"
  | invalidSql _ => "PAWRLY_INVALID_SQL"
  | semanticPlan _ => "PAWRLY_SEMANTIC_PLAN"
  | cancelled => "PAWRLY_CANCELLED"
  | protocol _ => "PAWRLY_PROTOCOL"
  | internal _ => "PAWRLY_INTERNAL"
  | unsupported _ => "PAWRLY_UNSUPPORTED"

/-- The text behind a prefix, or all of it. -/
def tail (message pre : String) : String := (Text.stripPrefix pre message).getD message

/-- The text behind a prefix, without the backticks around it. -/
def backticked (message pre : String) : String :=
  ((Text.stripPrefix "`" (tail message pre)).bind (Text.stripSuffix "`")).getD (tail message pre)

/-- `from_wire`. -/
def fromWire (code message : String) : EngineError :=
  if code = "PAWRLY_CANCELLED" then cancelled
  else if code = "PAWRLY_TIMEOUT" then timeout .zero
  else if code = "PAWRLY_OOM" then outOfMemory 0
  else if code = "PAWRLY_UNKNOWN_KIND" then unknownKind (tail message "unknown source kind: ")
  else if code = "PAWRLY_UNKNOWN_TABLE" then unknownTable (backticked message "unknown table ")
  else if code = "PAWRLY_UNKNOWN_FUNCTION" then
    unknownFunction (backticked message "unknown function ")
  else if code = "PAWRLY_INVALID_SQL" then invalidSql (tail message "invalid SQL: ")
  else if code = "PAWRLY_SEMANTIC_PLAN" then semanticPlan (tail message "semantic plan error: ")
  else if code = "PAWRLY_PROTOCOL" then protocol (tail message "protocol error: ")
  else if code = "PAWRLY_UNSUPPORTED" then unsupported message
  else if code = "PAWRLY_INTERNAL" then internal (tail message "internal error: ")
  else internal (code ++ ": " ++ message)

end EngineError

/-! ## Statuses -/

inductive GrpcCode
  | cancelled
  | invalidArgument
  | deadlineExceeded
  | resourceExhausted
  | failedPrecondition
  | internal
  | unimplemented
  deriving DecidableEq

def grpcCode : EngineError → GrpcCode
  | .unknownKind _ | .unknownTable _ | .unknownFunction _ | .invalidSql _ | .semanticPlan _ =>
      .invalidArgument
  | .safety _ | .sourceRegistration _ _ _ => .failedPrecondition
  | .timeout _ => .deadlineExceeded
  | .outOfMemory _ => .resourceExhausted
  | .cancelled => .cancelled
  | .protocol _ | .internal _ => .internal
  | .unsupported _ => .unimplemented

/-- A status, with the metadata entry `pawrly-error-code`. -/
structure Status where
  code : GrpcCode
  message : String
  errorCode : Option String

/-- A metadata value: visible ASCII characters. -/
def metadataValue (s : String) : Option String :=
  if s.toList.all fun c => c = '\t' || (32 ≤ c.toNat && c.toNat < 127) then some s else none

/-- `engine_error_to_status`. -/
def engineErrorToStatus (e : EngineError) : Status where
  code := grpcCode e
  message := e.display
  errorCode := metadataValue e.code

/-- `status_to_engine_error`. -/
def statusToEngineError (status : Status) : EngineError :=
  .fromWire ((status.errorCode.bind metadataValue).getD "PAWRLY_INTERNAL") status.message

/-- What comes back for an error. -/
def resent (e : EngineError) : EngineError := statusToEngineError (engineErrorToStatus e)

/-- The error comes back with its code and its text, and what comes back does so unchanged. -/
structure ComesBack (e : EngineError) : Prop where
  code : (resent e).code = e.code
  display : (resent e).display = e.display
  stable : resent (resent e) = resent e

/-! ## What comes back -/

section

open ErrorWire.EngineError

lemma tail_append (pre s : String) : tail (pre ++ s) pre = s := by
  have hstrip : Text.stripPrefix pre (pre ++ s) = some s :=
    Text.stripPrefix_eq_some.mpr (String.toList_append ..)
  rw [tail, hstrip, Option.getD_some]

lemma stripSuffix_append (s pat : String) : Text.stripSuffix pat (s ++ pat) = some s := by
  have hsuffix : pat.toList.isSuffixOf (s ++ pat).toList = true := by
    rw [List.isSuffixOf_iff_suffix, String.toList_append]
    exact List.suffix_append _ _
  rw [Text.stripSuffix, if_pos hsuffix, String.toList_append, List.length_append, Nat.add_sub_cancel,
    List.take_left, String.ofList_toList]

/-- A text in backticks is what it was, whatever backticks it has itself. -/
lemma backticked_append (pre s : String) : backticked (pre ++ ("`" ++ (s ++ "`"))) pre = s := by
  have hstrip : Text.stripPrefix "`" ("`" ++ (s ++ "`")) = some (s ++ "`") :=
    Text.stripPrefix_eq_some.mpr (String.toList_append ..)
  rw [backticked, tail_append, hstrip, Option.bind_some, stripSuffix_append, Option.getD_some]

lemma metadataValue_code (e : EngineError) : metadataValue e.code = some e.code := by
  have hvisible : ∀ code ∈ ["PAWRLY_UNKNOWN_KIND", "PAWRLY_SOURCE_REGISTRATION",
      "PAWRLY_UNKNOWN_TABLE", "PAWRLY_UNKNOWN_FUNCTION", "PAWRLY_SAFETY_REQUIRED_FILTER",
      "PAWRLY_SAFETY_NO_FILTERS", "PAWRLY_SAFETY_TOO_MANY_ROWS", "PAWRLY_SAFETY_TOO_MANY_PAGES",
      "PAWRLY_SAFETY_UNBOUND_PARAM", "PAWRLY_SAFETY_PREDICATE_UNSATISFIED", "PAWRLY_TIMEOUT",
      "PAWRLY_OOM", "PAWRLY_INVALID_SQL", "PAWRLY_SEMANTIC_PLAN", "PAWRLY_CANCELLED",
      "PAWRLY_PROTOCOL", "PAWRLY_INTERNAL", "PAWRLY_UNSUPPORTED"],
      metadataValue code = some code := by
    decide
  refine hvisible _ ?_
  cases e with
  | safety e => cases e <;> simp [code, SafetyError.code]
  | unknownKind | sourceRegistration | unknownTable | unknownFunction | timeout | outOfMemory |
      invalidSql | semanticPlan | cancelled | protocol | internal | unsupported =>
      simp [code]

/-- An error is rebuilt from its code and its text. -/
lemma resent_eq (e : EngineError) : resent e = fromWire e.code e.display := by
  rw [resent, statusToEngineError, engineErrorToStatus, metadataValue_code, Option.bind_some,
    metadataValue_code, Option.getD_some]

/-- What a status does not say: the payloads of a timeout and of a memory error, and what kind of error a
safety or a registration error is. -/
def Plain : EngineError → Prop
  | sourceRegistration _ _ _ | safety _ => False
  | timeout after => after.secs = 0 ∧ after.nanos = 0
  | outOfMemory bytes => bytes = 0
  | _ => True

/-- The text of a name in backticks, behind the words of its variant. -/
lemma append_backticks (pre s : String) : pre ++ "`" ++ s ++ "`" = pre ++ ("`" ++ (s ++ "`")) := by
  rw [String.append_assoc, String.append_assoc]

lemma resent_of_plain {e : EngineError} (h : Plain e) : resent e = e := by
  rw [resent_eq]
  cases e with
  | sourceRegistration | safety => exact h.elim
  | unknownTable name =>
      have hdisplay : (unknownTable name).display = "unknown table " ++ ("`" ++ (name ++ "`")) :=
        append_backticks "unknown table " name
      rw [hdisplay]
      simp [fromWire, code, backticked_append]
  | unknownFunction name =>
      have hdisplay : (unknownFunction name).display = "unknown function " ++ ("`" ++ (name ++ "`")) :=
        append_backticks "unknown function " name
      rw [hdisplay]
      simp [fromWire, code, backticked_append]
  | timeout after =>
      obtain ⟨secs, nanos, hnanos⟩ := after
      obtain ⟨rfl, rfl⟩ := h
      rfl
  | outOfMemory bytes =>
      obtain rfl := h
      rfl
  | unknownKind kind =>
      have hdisplay : (unknownKind kind).display = "unknown source kind: " ++ kind := rfl
      rw [hdisplay]
      simp [fromWire, code, tail_append]
  | invalidSql message =>
      have hdisplay : (invalidSql message).display = "invalid SQL: " ++ message := rfl
      rw [hdisplay]
      simp [fromWire, code, tail_append]
  | semanticPlan message =>
      have hdisplay : (semanticPlan message).display = "semantic plan error: " ++ message := rfl
      rw [hdisplay]
      simp [fromWire, code, tail_append]
  | protocol message =>
      have hdisplay : (protocol message).display = "protocol error: " ++ message := rfl
      rw [hdisplay]
      simp [fromWire, code, tail_append]
  | internal message =>
      have hdisplay : (internal message).display = "internal error: " ++ message := rfl
      rw [hdisplay]
      simp [fromWire, code, tail_append]
  | cancelled | unsupported => rfl

/-- A safety or a registration error comes back as an internal one. -/
lemma resent_safety (e : SafetyError) :
    resent (safety e) = internal (e.code ++ ": " ++ (safety e).display) := by
  rw [resent_eq]
  cases e <;> simp [fromWire, code, SafetyError.code]

lemma resent_registration (name kind : String) (source : SourceError) :
    resent (sourceRegistration name kind source) = internal
      ("PAWRLY_SOURCE_REGISTRATION" ++ ": " ++ (sourceRegistration name kind source).display) := by
  rw [resent_eq]
  simp [fromWire, code]

lemma resent_timeout (after : Duration) : resent (timeout after) = timeout .zero := by
  rw [resent_eq]
  simp [fromWire, code]

lemma resent_outOfMemory (bytes : ℕ) : resent (outOfMemory bytes) = outOfMemory 0 := by
  rw [resent_eq]
  simp [fromWire, code]

/-- **Stability**: what comes back is an error that comes back as it is. -/
lemma resent_resent (e : EngineError) : resent (resent e) = resent e := by
  have hplain : ∀ e, Plain e → Plain (resent e) := fun e h => by rwa [resent_of_plain h]
  apply resent_of_plain
  cases e with
  | safety e =>
      rw [resent_safety]
      trivial
  | sourceRegistration name kind source =>
      rw [resent_registration]
      trivial
  | timeout after =>
      rw [resent_timeout]
      exact ⟨rfl, rfl⟩
  | outOfMemory bytes =>
      rw [resent_outOfMemory]
      exact rfl
  | unknownKind s => exact hplain (unknownKind s) trivial
  | unknownTable s => exact hplain (unknownTable s) trivial
  | unknownFunction s => exact hplain (unknownFunction s) trivial
  | invalidSql s => exact hplain (invalidSql s) trivial
  | semanticPlan s => exact hplain (semanticPlan s) trivial
  | cancelled => exact hplain cancelled trivial
  | protocol s => exact hplain (protocol s) trivial
  | internal s => exact hplain (internal s) trivial
  | unsupported s => exact hplain (unsupported s) trivial

/-! ## Which errors survive -/

/-- A text that begins with a number and is that of the empty duration begins with zero. -/
lemma whole_eq_zero {whole : ℕ} {rest : String}
    (hrest : ∀ c ∈ rest.toList.head?, c.isDigit = false) (h : toString whole ++ rest = "0ns") :
    whole = 0 := by
  have hdigits := Text.isDigits_toString whole
  rw [Text.isDigits, Bool.and_eq_true, List.all_eq_true] at hdigits
  have hnone : rest.toList.takeWhile Char.isDigit = [] := by
    cases hcs : rest.toList with
    | nil => rfl
    | cons c cs =>
        rw [hcs] at hrest
        rw [List.takeWhile_cons_of_neg]
        rw [hrest c rfl]
        exact Bool.false_ne_true
  have htake := congrArg (fun s : String => s.toList.takeWhile Char.isDigit) h
  rw [String.toList_append, List.takeWhile_append_of_pos hdigits.2, hnone, List.append_nil] at htake
  have hzero : "0ns".toList.takeWhile Char.isDigit = (toString 0).toList := by decide
  rw [hzero] at htake
  exact Text.toString_inj.mp (String.toList_inj.mp htake)

lemma decimal_eq_zero {whole fraction places : ℕ} {suffix : String}
    (hsuffix : ∀ c ∈ suffix.toList.head?, c.isDigit = false)
    (h : Duration.decimal whole fraction places suffix = "0ns") : whole = 0 := by
  unfold Duration.decimal at h
  split_ifs at h with hfraction
  · exact whole_eq_zero hsuffix h
  · rw [String.append_assoc, String.append_assoc] at h
    refine whole_eq_zero ?_ h
    rw [String.toList_append]
    rintro c ⟨rfl⟩
    rfl

/-- Only the empty duration is shown as one. -/
lemma debug_eq_zero {d : Duration} (h : d.debug = Duration.zero.debug) :
    d.secs = 0 ∧ d.nanos = 0 := by
  have hzero : Duration.zero.debug = "0ns" := by decide
  rw [hzero] at h
  unfold Duration.debug at h
  split_ifs at h with hsecs hmillis hmicros
  · have hwhole := decimal_eq_zero (by rintro c ⟨rfl⟩; rfl) h
    omega
  · have hwhole := decimal_eq_zero (by rintro c ⟨rfl⟩; rfl) h
    omega
  · have hwhole := decimal_eq_zero (by rintro c ⟨rfl⟩; rfl) h
    omega
  · have hwhole := decimal_eq_zero (by rintro c ⟨rfl⟩; rfl) h
    omega

lemma append_left_cancel {pre s t : String} (h : pre ++ s = pre ++ t) : s = t := by
  have hlist := congrArg String.toList h
  rw [String.toList_append, String.toList_append] at hlist
  exact String.toList_inj.mp (List.append_cancel_left hlist)

lemma append_right_cancel {s t post : String} (h : s ++ post = t ++ post) : s = t := by
  have hlist := congrArg String.toList h
  rw [String.toList_append, String.toList_append] at hlist
  exact String.toList_inj.mp (List.append_cancel_right hlist)

/-- **Which errors survive**: all but safety and registration errors, and timeouts and memory errors with a
payload. -/
theorem comesBack_iff (e : EngineError) : ComesBack e ↔ Plain e := by
  constructor
  · intro h
    cases e with
    | safety e =>
        have hcode := h.code
        rw [resent_safety] at hcode
        cases e <;> simp [code, SafetyError.code] at hcode
    | sourceRegistration name kind source =>
        have hcode := h.code
        rw [resent_registration] at hcode
        simp [code] at hcode
    | timeout after =>
        have hdisplay := h.display
        rw [resent_timeout] at hdisplay
        exact debug_eq_zero (append_left_cancel hdisplay).symm
    | outOfMemory bytes =>
        have hdisplay := h.display
        rw [resent_outOfMemory] at hdisplay
        exact (Text.toString_inj.mp (append_left_cancel (append_right_cancel hdisplay))).symm
    | unknownKind | unknownTable | unknownFunction | invalidSql | semanticPlan | cancelled | protocol |
        internal | unsupported =>
        trivial
  · intro h
    have hsame := resent_of_plain h
    exact ⟨by rw [hsame], by rw [hsame], resent_resent e⟩

/-- The code of a safety error is lost, and the length of a timeout and the size of a memory budget are. -/
theorem comesBack_fails :
    ¬ ComesBack (.safety (.noFilters "shop.orders")) ∧ ¬ ComesBack (.timeout ⟨30, 0, by decide⟩) ∧
      ¬ ComesBack (.outOfMemory 1024) := by
  refine ⟨fun h => ?_, fun h => ?_, fun h => ?_⟩
  · have hcode := h.code
    revert hcode
    decide
  · have hdisplay := h.display
    revert hdisplay
    decide
  · have hdisplay := h.display
    revert hdisplay
    decide

end

end ErrorWire
end Engine
end Pawrly
