import Pawrly.Lib.KeyValue
import Pawrly.Secrets.OAuthStore

/-!
# Connection strings of attached databases

`postgres_mysql_conn` and `snowflake_conn` (`pawrly-engine/src/duckdb_source.rs`) join the fields of a
source as they are, between blanks and between semicolons.  Such a text gives back the fields exactly
when no value has a character that the format reads for itself (`connectionStrings_iff`).
-/

namespace Pawrly
namespace Engine

open Http KeyValue
open Secrets (asStr? asU64?)

/-! ## The strings -/

def getStr (config : Json) (key : String) : Option String := (config.get? key).bind asStr?

/-- `config.port`, a number or a text. -/
def portText (config : Json) : Option String :=
  (config.get? "port").bind fun port =>
    match asU64? port with
    | some p => some (toString p)
    | none => asStr? port

/-- `config.dbname`, or else `config.database`. -/
def dbnameText (config : Json) : Option String :=
  ((config.get? "dbname").or (config.get? "database")).bind asStr?

/-- `format!("{key}={value}")`, where there is a value. -/
def part (key : String) (value : Option String) : List String :=
  (value.map fun v => key ++ "=" ++ v).toList

def postgresMysqlConn (config : Json) : Except String String :=
  match getStr config "dsn" with
  | some dsn => .ok dsn
  | none =>
      match getStr config "host" with
      | none =>
          .error "postgres/mysql require `config.dsn` or `config.host` + `config.database`"
      | some host =>
          .ok (Text.join " " (("host=" ++ host) :: part "port" (portText config) ++
            part "dbname" (dbnameText config) ++ part "user" (getStr config "user") ++
            part "password" (getStr config "password")))

def snowflakeConn (config : Json) : Except String String :=
  match getStr config "account", getStr config "user", getStr config "password" with
  | some account, some user, some password =>
      .ok (Text.join ";" (["account=" ++ account, "user=" ++ user, "password=" ++ password] ++
        ["database", "schema", "warehouse", "role"].flatMap fun key =>
          part key (getStr config key)))
  | _, _, _ =>
      .error "snowflake requires `config.account`, `config.user`, `config.password`"

/-! ## The fields -/

/-- The fields that are configured. -/
def configured (fields : List (String × Option String)) : List Pair :=
  fields.flatMap fun f => (f.2.map fun v => (f.1.toList, v.toList)).toList

def postgresFields (config : Json) : List Pair :=
  configured [("host", getStr config "host"), ("port", portText config),
    ("dbname", dbnameText config), ("user", getStr config "user"),
    ("password", getStr config "password")]

def snowflakeFields (config : Json) : List Pair :=
  configured [("account", getStr config "account"), ("user", getStr config "user"),
    ("password", getStr config "password"), ("database", getStr config "database"),
    ("schema", getStr config "schema"), ("warehouse", getStr config "warehouse"),
    ("role", getStr config "role")]

/-- A string is made of the fields: there is a host, and no string that is used instead. -/
def Assembled (config : Json) : Prop :=
  getStr config "dsn" = none ∧ (getStr config "host").isSome

def SnowflakeAssembled (config : Json) : Prop :=
  (getStr config "account").isSome ∧ (getStr config "user").isSome ∧
    (getStr config "password").isSome

/-- The string made of the fields gives them back, and no others. -/
def PostgresRoundTrips (config : Json) : Prop :=
  Assembled config → ∀ conn, postgresMysqlConn config = .ok conn →
    ∃ read, readKeywords conn.toList = some read ∧ SameFields read (postgresFields config)

def SnowflakeRoundTrips (config : Json) : Prop :=
  ∀ conn, snowflakeConn config = .ok conn →
    ∃ read, readSemicolons conn.toList = .ok read ∧ SameFields read (snowflakeFields config)

/-! ## The strings are joined fields -/

@[simp] lemma configured_nil : configured [] = [] := rfl

lemma toList_parts (f : String × Option String) (fields : List (String × Option String)) :
    (configured (f :: fields)).map pairText =
      (part f.1 f.2).map String.toList ++ (configured fields).map pairText := by
  obtain ⟨key, value⟩ := f
  cases value <;> simp [part, configured, pairText]

lemma postgres_toList {config : Json} {conn : String} (hassembled : Assembled config)
    (h : postgresMysqlConn config = .ok conn) : conn.toList = render ' ' (postgresFields config) := by
  obtain ⟨hdsn, hhost⟩ := hassembled
  obtain ⟨host, hhost⟩ := Option.isSome_iff_exists.mp hhost
  rw [postgresMysqlConn, hdsn, hhost] at h
  cases h
  rw [Text.join, String.toList_intercalate, render, postgresFields, hhost]
  simp [toList_parts, part]

lemma snowflake_toList {config : Json} {conn : String} (h : snowflakeConn config = .ok conn) :
    conn.toList = render ';' (snowflakeFields config) := by
  unfold snowflakeConn at h
  split at h
  · rename_i account user password haccount huser hpassword
    cases h
    rw [Text.join, String.toList_intercalate, render, snowflakeFields, haccount, huser, hpassword]
    simp [toList_parts, part]
  · cases h

/-- The keys are given once, whichever of them have a value. -/
lemma keys_configured (fields : List (String × Option String)) :
    ((configured fields).map Prod.fst).Sublist (fields.map fun f => f.1.toList) := by
  induction fields with
  | nil => exact List.Sublist.refl _
  | cons f fields ih =>
      obtain ⟨key, value⟩ := f
      cases value with
      | none => exact ih.cons _
      | some value => exact ih.cons_cons _

lemma isKeyword_of_mem {key : List Char}
    (h : key ∈ ["host", "port", "dbname", "user", "password"].map String.toList) :
    IsKeyword key := by
  simp only [List.map_cons, List.map_nil, List.mem_cons, List.not_mem_nil, or_false] at h
  rcases h with rfl | rfl | rfl | rfl | rfl <;> exact ⟨by simp [isBlank], by simp⟩

lemma postgres_key {config : Json} {p : Pair} (hp : p ∈ postgresFields config) :
    IsKeyword p.1 :=
  isKeyword_of_mem ((keys_configured _).subset (List.mem_map_of_mem hp))

lemma snowflake_key {config : Json} {p : Pair} (hp : p ∈ snowflakeFields config) :
    '=' ∉ p.1 ∧ ';' ∉ p.1 := by
  have hkeys : ∀ key ∈ ["account", "user", "password", "database", "schema", "warehouse",
      "role"].map String.toList, '=' ∉ key ∧ ';' ∉ key := by decide
  exact hkeys _ ((keys_configured _).subset (List.mem_map_of_mem hp))

/-! ## Round trips -/

lemma postgresRoundTrips_iff (config : Json) :
    PostgresRoundTrips config ↔ (Assembled config → AllPlain (postgresFields config)) := by
  refine forall_congr' fun hassembled => ?_
  obtain ⟨hdsn, hhost⟩ := id hassembled
  obtain ⟨host, hhost⟩ := Option.isSome_iff_exists.mp hhost
  have hne : postgresFields config ≠ [] := by
    simp [postgresFields, hhost, configured]
  have hdistinct : (["host", "port", "dbname", "user", "password"].map String.toList).Nodup := by
    decide
  have hnodup : ((postgresFields config).map Prod.fst).Nodup :=
    List.Nodup.sublist (keys_configured _) hdistinct
  rw [← readKeywords_iff hne hnodup fun p hp => postgres_key hp]
  constructor
  · intro h
    obtain ⟨conn, hconn⟩ : ∃ conn, postgresMysqlConn config = .ok conn := by
      rw [postgresMysqlConn, hdsn, hhost]
      exact ⟨_, rfl⟩
    rw [← postgres_toList hassembled hconn]
    exact h conn hconn
  · intro h conn hconn
    rwa [postgres_toList hassembled hconn]

lemma snowflakeRoundTrips_iff (config : Json) :
    SnowflakeRoundTrips config ↔
      (SnowflakeAssembled config → ∀ p ∈ snowflakeFields config, ';' ∉ p.2) := by
  have hdistinct : (["account", "user", "password", "database", "schema", "warehouse",
      "role"].map String.toList).Nodup := by decide
  have hnodup : ((snowflakeFields config).map Prod.fst).Nodup :=
    List.Nodup.sublist (keys_configured _) hdistinct
  constructor
  · intro h hassembled
    obtain ⟨haccount, huser, hpassword⟩ := hassembled
    obtain ⟨account, haccount⟩ := Option.isSome_iff_exists.mp haccount
    obtain ⟨user, huser⟩ := Option.isSome_iff_exists.mp huser
    obtain ⟨password, hpassword⟩ := Option.isSome_iff_exists.mp hpassword
    have hne : snowflakeFields config ≠ [] := by
      simp [snowflakeFields, haccount, configured]
    obtain ⟨conn, hconn⟩ : ∃ conn, snowflakeConn config = .ok conn := by
      rw [snowflakeConn, haccount, huser, hpassword]
      exact ⟨_, rfl⟩
    rw [← readSemicolons_iff hne hnodup fun p hp => snowflake_key hp, ← snowflake_toList hconn]
    exact h conn hconn
  · intro h conn hconn
    have hassembled : SnowflakeAssembled config := by
      unfold snowflakeConn at hconn
      split at hconn
      · rename_i account user password haccount huser hpassword
        simp [SnowflakeAssembled, haccount, huser, hpassword]
      · cases hconn
    have hne : snowflakeFields config ≠ [] := by
      obtain ⟨account, haccount⟩ := Option.isSome_iff_exists.mp hassembled.1
      simp [snowflakeFields, haccount, configured]
    rw [snowflake_toList hconn, readSemicolons_iff hne hnodup fun p hp => snowflake_key hp]
    exact h hassembled

/-- **Connection strings**: the fields come back exactly when the values of a keyword/value string
stand for themselves and those of a Snowflake string have no semicolon. -/
theorem connectionStrings_iff (config : Json) :
    (PostgresRoundTrips config ↔ (Assembled config → AllPlain (postgresFields config))) ∧
      (SnowflakeRoundTrips config ↔
        (SnowflakeAssembled config → ∀ p ∈ snowflakeFields config, ';' ∉ p.2)) :=
  ⟨postgresRoundTrips_iff config, snowflakeRoundTrips_iff config⟩

/-- A password of two words, the second of which names another host. -/
def injectedHost : Json :=
  .obj [("host", .str "db"), ("user", .str "ro"), ("password", .str "p host=evil")]

theorem injectedHost_read : ¬ ∀ config, PostgresRoundTrips config ∧ SnowflakeRoundTrips config := by
  intro h
  have hassembled : Assembled injectedHost := ⟨rfl, rfl⟩
  obtain ⟨read, hread, hsame⟩ := (h injectedHost).1 hassembled
    "host=db user=ro password=p host=evil" (by decide)
  have hpairs : readKeywords "host=db user=ro password=p host=evil".toList =
      some [("host".toList, "db".toList), ("user".toList, "ro".toList),
        ("password".toList, "p".toList), ("host".toList, "evil".toList)] := by decide
  rw [hpairs, Option.some.injEq] at hread
  subst hread
  have hhost := hsame "host".toList
  exact absurd hhost (by decide)

end Engine
end Pawrly
