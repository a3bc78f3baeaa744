import Pawrly.Engine.ConnectionStrings
import Pawrly.Http.SourceAuth
import Pawrly.Lib.Separated
import Pawrly.Sql.SelectText
import Pawrly.Sql.Spelling

/-!
# Secrets of remote files

`build_secret_sql` (`pawrly-engine/src/duckdb_source.rs`) makes one secret for each origin of the
locations of a source, under the name of the source and what is left of the authority.  Two secrets may
have one name, and then the later one replaces the other: `secretScoping_iff` says when all are kept,
and when each origin has a secret of its own source only.
-/

namespace Pawrly
namespace Engine
namespace DuckDbSecrets

open Http (Json AuthSpec AuthHeader)
open Secrets (asStr?)
open Sql (Token lit)

/-! ## Locations -/

inductive StorageScheme
  | localPath
  | http
  | s3
  | gcs
  | azure
  deriving DecidableEq

/-- `path.split_once("://")`. -/
def splitScheme : List Char → Option (List Char × List Char)
  | ':' :: '/' :: '/' :: rest => some ([], rest)
  | c :: cs => (splitScheme cs).map fun parts => (c :: parts.1, parts.2)
  | [] => none

def StorageScheme.classify (path : String) : StorageScheme :=
  match splitScheme path.toList with
  | none => .localPath
  | some (scheme, _) =>
      let scheme := String.ofList (scheme.map Char.toLower)
      if scheme = "http" ∨ scheme = "https" then .http
      else if scheme = "s3" then .s3
      else if scheme = "gs" ∨ scheme = "gcs" then .gcs
      else if scheme = "az" ∨ scheme = "azure" ∨ scheme = "abfss" then .azure
      else .localPath

def StorageScheme.defaultStorageType : StorageScheme → Option String
  | .localPath => none
  | .http => some "http"
  | .s3 => some "s3"
  | .gcs => some "gcs"
  | .azure => some "azure"

/-- `origin_prefix`: the scheme and the authority, up to the first slash or question mark. -/
def originPrefix (path : String) : Option String :=
  (splitScheme path.toList).bind fun parts =>
    let authority := parts.2.takeWhile fun c => c ≠ '/' && c ≠ '?'
    if authority = [] then none
    else some (String.ofList (parts.1 ++ "://".toList ++ authority ++ ['/']))

/-- A source and the configs of its tables. -/
structure SourceDef where
  name : String
  config : Json
  tables : List Json

def location (cfg : Json) : Option String :=
  ((cfg.get? "path").or (cfg.get? "location")).bind asStr?

def storageTypeOf (cfg : Json) : Option String :=
  (location cfg).bind fun p => (StorageScheme.classify p).defaultStorageType

def effectiveStorageType (d : SourceDef) : Option String :=
  match ((d.config.get? "storage").bind fun s => s.get? "type").bind asStr? with
  | some t => some t
  | none => (d.config :: d.tables).findSome? storageTypeOf

/-- One more config of `secret_origins`. -/
def pushOrigin (provider : String) (out : List String) (cfg : Json) : List String :=
  match (location cfg).bind originPrefix with
  | none => out
  | some origin =>
      if (StorageScheme.classify origin).defaultStorageType = some provider ∧ origin ∉ out then
        out ++ [origin]
      else out

def secretOrigins (d : SourceDef) (provider : String) : List String :=
  (d.config :: d.tables).foldl (pushOrigin provider) []

/-! ## Statements -/

def sanitizeAuthority (origin : String) : String :=
  let authority :=
    match splitScheme origin.toList with
    | none => origin
    | some (_, rest) => Text.trimEndChar '/' (String.ofList rest)
  String.ofList (authority.toList.map fun c => if c.isAlphanum then c else '_')

def sqlQuote (v : String) : String := Text.replaceChar '\'' "''" v

def scopedSecrets (d : SourceDef) (provider inner : String) : List String :=
  let base := Text.replaceChar '"' "\"\"" d.name
  match secretOrigins d provider with
  | [] => ["CREATE OR REPLACE SECRET \"" ++ base ++ "\" (" ++ inner ++ ")"]
  | origins =>
      origins.map fun origin =>
        "CREATE OR REPLACE SECRET \"" ++ base ++ "__" ++ sanitizeAuthority origin ++ "\" (" ++ inner ++
          ", SCOPE '" ++ sqlQuote origin ++ "')"

/-- An option of a secret; the provider is a keyword. -/
def secretOption (option : String × Option String) : Option String :=
  option.2.map fun v =>
    if option.1 = "PROVIDER" then option.1 ++ " " ++ v else option.1 ++ " '" ++ sqlQuote v ++ "'"

/-- The options that `build_object_store_secret_sql` reads from `config.storage`. -/
def objectStoreOptions (provider : String) (storage : Json) : List String :=
  let auth := storage.get? "auth"
  let fromAuth := fun key => auth.bind fun a => getStr a key
  let authType := (fromAuth "type").getD "access_key"
  let region := getStr storage "region"
  let pairs :=
    if authType = "credential_chain" ∨ authType = "chain" then
      [("PROVIDER", some "credential_chain"), ("REGION", region), ("ENDPOINT", fromAuth "endpoint"),
        ("ACCOUNT_NAME", fromAuth "account_name")]
    else if provider = "s3" then
      [("KEY_ID", fromAuth "access_key_id"), ("SECRET", fromAuth "secret_access_key"),
        ("SESSION_TOKEN", fromAuth "session_token"), ("REGION", region),
        ("ENDPOINT", fromAuth "endpoint"), ("URL_STYLE", fromAuth "url_style")]
    else if provider = "gcs" then
      [("KEY_ID", fromAuth "access_key_id"), ("SECRET", fromAuth "secret_access_key")]
    else
      [("CONNECTION_STRING", fromAuth "connection_string"),
        ("ACCOUNT_NAME", fromAuth "account_name")]
  pairs.filterMap secretOption

/-- The statements with some options; there are none without. -/
def secretStatements (d : SourceDef) (provider : String) (options : List String) : List String :=
  let params := ("TYPE " ++ provider) :: options
  if params.length = 1 then [] else scopedSecrets d provider (Text.join ", " params)

def buildObjectStoreSecretSql (d : SourceDef) (provider : String) : List String :=
  match d.config.get? "storage" with
  | none => []
  | some storage => secretStatements d provider (objectStoreOptions provider storage)

/-- What is asked of others: Base64, and the text of an error of the JSON reader. -/
structure Host where
  base64 : String → String
  serdeError : Json → String

/-- The bearer token and the other headers. -/
abbrev HttpCredential := Option String × List (String × String)

def pushHeader (out : HttpCredential) (h : AuthHeader) : HttpCredential :=
  match h.bearer, h.value with
  | some t, _ =>
      if h.name.toList.map Char.toLower = "authorization".toList ∧ out.1 = none then (some t, out.2)
      else (out.1, out.2 ++ [(h.name, "Bearer " ++ t)])
  | none, some v => (out.1, out.2 ++ [(h.name, v)])
  | none, none => out

def httpCredential (host : Host) : AuthSpec → Except String HttpCredential
  | .none => .ok (none, [])
  | .header headers => .ok (headers.foldl pushHeader (none, []))
  | .basic username password =>
      .ok (none, [("Authorization", "Basic " ++ host.base64 (username ++ ":" ++ password))])
  | .custom _ _ =>
      .error ("storage auth type `custom` (query-string credentials) is not supported for http " ++
        "storage; DuckDB HTTP secrets carry only headers/bearer tokens")
  | .oauth2 =>
      .error ("storage auth type `oauth2` is not yet supported for http storage; use type: header " ++
        "with a pre-fetched bearer token")

def headerEntry (h : String × String) : String :=
  "'" ++ sqlQuote h.1 ++ "': '" ++ sqlQuote h.2 ++ "'"

def httpOptions (credential : HttpCredential) : List String :=
  (credential.1.map fun t => "BEARER_TOKEN '" ++ sqlQuote t ++ "'").toList ++
    if credential.2.isEmpty then []
    else ["EXTRA_HTTP_HEADERS MAP \x7b " ++ Text.join ", " (credential.2.map headerEntry) ++ " \x7d"]

def buildHttpSecretSql (host : Host) (d : SourceDef) : Except String (List String) :=
  match (d.config.get? "storage").bind fun s => s.get? "auth" with
  | none => .ok []
  | some v =>
      match AuthSpec.read v with
      | none => .error ("invalid http storage `auth`: " ++ host.serdeError v)
      | some auth => (httpCredential host auth).map fun c => secretStatements d "http" (httpOptions c)

def buildSecretSql (host : Host) (d : SourceDef) : Except String (List String) :=
  match effectiveStorageType d with
  | none => .ok []
  | some provider =>
      if provider = "http" then buildHttpSecretSql host d
      else if provider ∈ ["s3", "gcs", "azure"] then .ok (buildObjectStoreSecretSql d provider)
      else .ok []

/-- The statements of a source that is registered. -/
def secretTexts (host : Host) (d : SourceDef) : List String := (buildSecretSql host d).toOption.getD []

/-! ## The secrets of the database -/

structure Secret where
  credential : List Token
  scope : Option (List Char)

/-- The options of a secret, of which the scope is the last. -/
def readOptions (ts : List Token) : Option Secret :=
  match Sql.cutAt (Token.isWord "SCOPE") 0 ts with
  | (credential, none) => some ⟨credential, none⟩
  | (credential, some [.str origin]) =>
      if credential.getLast? = some (.symbol ',') then some ⟨credential.dropLast, some origin⟩ else none
  | _ => none

/-- `CREATE OR REPLACE SECRET <name> (<options>)`. -/
def readSecret : List Token → Option (List Char × Secret)
  | c :: o :: r :: s :: .ident name :: .symbol '(' :: rest =>
      if c.isWord "CREATE" && o.isWord "OR" && r.isWord "REPLACE" && s.isWord "SECRET" &&
          rest.getLast? = some (.symbol ')') then
        (readOptions rest.dropLast).map fun secret => (name, secret)
      else none
  | _ => none

def readText (text : String) : Option (List Char × Secret) := (Sql.lex text).bind readSecret

/-- How names are compared: the case of letters may not count. -/
structure NameFolding where
  fold : Char → Char
  underscore : fold '_' = '_'

abbrev Store := List Char → Option Secret

def execute (f : NameFolding) (s : Store) (text : String) : Option Store :=
  (readText text).map fun e => Function.update s (e.1.map f.fold) (some e.2)

/-- The registration of sources, one after the other. -/
def register (host : Host) (f : NameFolding) (defs : List SourceDef) : Option Store :=
  (defs.flatMap (secretTexts host)).foldlM (execute f) fun _ => none

/-! ## What is asked for -/

/-- The origins of the remote locations of a source. -/
def remoteOrigins (d : SourceDef) : List String :=
  ((d.config :: d.tables).filterMap fun cfg => (location cfg).bind originPrefix).filter fun origin =>
    (StorageScheme.classify origin).defaultStorageType.isSome

/-- The name of the secret of a statement. -/
def secretName (f : NameFolding) (text : String) : Option (List Char) :=
  (readText text).map fun e => e.1.map f.fold

/-- The statement of a source has put its secret with the origin as its scope. -/
def Covers (f : NameFolding) (store : Store) (origin text : String) : Prop :=
  ∃ name secret, readText text = some (name, secret) ∧ secret.scope = some origin.toList ∧
    store (name.map f.fold) = some secret

/-- No secret replaces another one, and each remote origin of a source with credentials is the scope of
one of its secrets. -/
structure Scoped (host : Host) (f : NameFolding) (defs : List SourceDef) : Prop where
  distinct : ((defs.flatMap (secretTexts host)).map (secretName f)).Nodup
  covered : ∃ store, register host f defs = some store ∧
    (∀ text ∈ defs.flatMap (secretTexts host), ∃ name secret, readText text = some (name, secret) ∧
      store (name.map f.fold) = some secret) ∧
    ∀ d ∈ defs, secretTexts host d ≠ [] → ∀ o ∈ remoteOrigins d,
      ∃! text, text ∈ secretTexts host d ∧ Covers f store o text

/-- The scopes of the second source do not cover the origins of the first one. -/
def Alone (host : Host) (d e : SourceDef) : Prop :=
  secretTexts host d ≠ [] → ∀ o ∈ remoteOrigins d, ∀ text ∈ secretTexts host e,
    ∀ name secret scope, readText text = some (name, secret) → secret.scope = some scope →
      ¬ scope <+: o.toList

def Exclusive (host : Host) (defs : List SourceDef) : Prop :=
  defs.Pairwise fun d e => Alone host d e ∧ Alone host e d

/-! ## The condition -/

/-- The provider of a source and the options that it has for it. -/
def credentialOptions (host : Host) (d : SourceDef) : Option (String × List String) :=
  (effectiveStorageType d).bind fun provider =>
    if provider = "http" then
      (((d.config.get? "storage").bind fun s => s.get? "auth").bind AuthSpec.read).bind fun auth =>
        (httpCredential host auth).toOption.map fun c => ("http", httpOptions c)
    else if provider ∈ ["s3", "gcs", "azure"] then
      (d.config.get? "storage").map fun storage => (provider, objectStoreOptions provider storage)
    else none

/-- The source has a credential for its provider. -/
def HasCredential (host : Host) (d : SourceDef) (provider : String) : Prop :=
  ∃ options, credentialOptions host d = some (provider, options) ∧ options ≠ []

/-- A source with one of its origins, or without any. -/
abbrev SecretKey := String × Option String

def secretKeys (host : Host) (d : SourceDef) : List SecretKey :=
  match credentialOptions host d with
  | some (provider, _ :: _) =>
      match secretOrigins d provider with
      | [] => [(d.name, none)]
      | origins => origins.map fun origin => (d.name, some origin)
  | _ => []

/-- Two secrets have one name: their sources have, and their authorities differ in other characters
than letters and digits only; or the name of one source goes on with underscores where the authority of
the other does. -/
def Clash (f : NameFolding) (p q : SecretKey) : Prop :=
  match p.2, q.2 with
  | none, none => p.1.toList.map f.fold = q.1.toList.map f.fold
  | some o, none => q.1.toList.map f.fold =
      Separated.joined '_' (p.1.toList.map f.fold) ((sanitizeAuthority o).toList.map f.fold)
  | none, some o => p.1.toList.map f.fold =
      Separated.joined '_' (q.1.toList.map f.fold) ((sanitizeAuthority o).toList.map f.fold)
  | some o, some o' =>
      (p.1.toList.map f.fold = q.1.toList.map f.fold ∧
        (sanitizeAuthority o).toList.map f.fold = (sanitizeAuthority o').toList.map f.fold) ∨
      Separated.Shifted '_' (p.1.toList.map f.fold) ((sanitizeAuthority o).toList.map f.fold)
        (q.1.toList.map f.fold) ((sanitizeAuthority o').toList.map f.fold) ∨
      Separated.Shifted '_' (q.1.toList.map f.fold) ((sanitizeAuthority o').toList.map f.fold)
        (p.1.toList.map f.fold) ((sanitizeAuthority o).toList.map f.fold)

/-- No two secrets clash, and a source with a credential has locations of its provider only. -/
structure Apart (host : Host) (f : NameFolding) (defs : List SourceDef) : Prop where
  names : (defs.flatMap (secretKeys host)).Pairwise fun p q => ¬ Clash f p q
  providers : ∀ d ∈ defs, ∀ provider, HasCredential host d provider → ∀ o ∈ remoteOrigins d,
    (StorageScheme.classify o).defaultStorageType = some provider

/-- Two sources with credentials have no origin in common. -/
def OwnOrigins (host : Host) (defs : List SourceDef) : Prop :=
  defs.Pairwise fun d e => ∀ provider provider', HasCredential host d provider →
    HasCredential host e provider' → ∀ o ∈ remoteOrigins d, o ∉ remoteOrigins e

/-! ## Reading the statements -/

lemma sqlQuote_eq (v : String) : "'" ++ sqlQuote v ++ "'" = lit v := rfl

lemma scanChars_lit (v : String) :
    Sql.scanChars .ground (lit v).toList = ([], .strQuote v.toList.reverse) := by
  rw [Sql.toList_lit, Sql.scanChars]
  have hopen : Sql.LexState.step .ground '\'' = ([], .str []) := by decide
  rw [hopen, Sql.scanChars_append, Sql.scanChars_escaped]
  simp [Sql.scanChars, Sql.LexState.step]

lemma spells_lit (v : String) : Sql.Spells (lit v) [.str v.toList] := by
  refine Sql.spells_iff.mpr ⟨.strQuote v.toList.reverse, [.str v.toList.reverse.reverse], ?_, rfl, rfl, ?_⟩
  · rw [scanChars_lit]
  · rw [scanChars_lit, List.reverse_reverse]
    rfl

/-- The text has tokens, and none of them is looked for. -/
def Plain (text : String) : Prop :=
  ∃ ts, Sql.Spells text ts ∧ ∀ t ∈ ts, Sql.passes (Token.isWord "SCOPE") t = true

lemma passes_str (v : List Char) : Sql.passes (Token.isWord "SCOPE") (.str v) = true := rfl

/-- A keyword and a literal. -/
lemma plain_option {key : String} {k : List Token} (hkey : Sql.Scans (key ++ " ") k)
    (hpasses : ∀ t ∈ k, Sql.passes (Token.isWord "SCOPE") t = true) (v : String) :
    Plain (key ++ " '" ++ sqlQuote v ++ "'") := by
  have htext : key ++ " '" ++ sqlQuote v ++ "'" = key ++ " " ++ lit v := by
    rw [← String.toList_inj]
    simp [← sqlQuote_eq]
  rw [htext]
  refine ⟨_, (spells_lit v).after hkey, ?_⟩
  rw [List.forall_mem_append, List.forall_mem_singleton]
  exact ⟨hpasses, passes_str _⟩

lemma plain_join {texts : List String} (hne : texts ≠ []) (h : ∀ text ∈ texts, Plain text) :
    Plain (Text.join ", " texts) := by
  induction texts with
  | nil => exact absurd rfl hne
  | cons text texts ih =>
      rw [List.forall_mem_cons] at h
      obtain ⟨ts, hspells, hpasses⟩ := h.1
      cases texts with
      | nil => exact ⟨ts, hspells, hpasses⟩
      | cons text' texts =>
          obtain ⟨rest, hrest, hpasses'⟩ := ih (List.cons_ne_nil _ _) h.2
          have hcomma : Sql.Scans ", " [.symbol ','] := by decide
          rw [Text.join_cons _ _ (List.cons_ne_nil _ _)]
          refine ⟨_, hrest.after (hspells.scans hcomma (by decide) (by decide)), ?_⟩
          rw [List.forall_mem_append, List.forall_mem_append, List.forall_mem_singleton]
          exact ⟨⟨hpasses, by decide⟩, hpasses'⟩

lemma plain_headerEntry (h : String × String) : Plain (headerEntry h) := by
  have htext : headerEntry h = lit h.1 ++ ": " ++ lit h.2 := by
    rw [← String.toList_inj]
    simp [headerEntry, ← sqlQuote_eq]
  have hname : Sql.Scans (lit h.1 ++ ": ") [.str h.1.toList, .symbol ':'] := by
    have hcolon : Sql.scanChars (.strQuote h.1.toList.reverse) ": ".toList =
        ([.str h.1.toList.reverse.reverse, .symbol ':'], .ground) := rfl
    rw [Sql.Scans, String.toList_append, Sql.scanChars_append, scanChars_lit]
    dsimp only
    rw [hcolon, List.reverse_reverse]
    rfl
  rw [htext]
  refine ⟨_, (spells_lit h.2).after hname, ?_⟩
  simp only [List.cons_append, List.nil_append, List.forall_mem_cons]
  exact ⟨rfl, rfl, rfl, List.forall_mem_nil _⟩

/-- The keywords of options whose value is a literal. -/
def optionKeys : List String :=
  ["KEY_ID", "SECRET", "SESSION_TOKEN", "REGION", "ENDPOINT", "URL_STYLE", "CONNECTION_STRING",
    "ACCOUNT_NAME", "BEARER_TOKEN"]

lemma plain_key {key : String} (h : key ∈ optionKeys) (v : String) :
    Plain (key ++ " '" ++ sqlQuote v ++ "'") := by
  have hall : ∀ key ∈ optionKeys, Sql.Scans (key ++ " ") [.word key.toList] ∧
      Sql.passes (Token.isWord "SCOPE") (.word key.toList) = true := by decide
  exact plain_option (hall key h).1 (List.forall_mem_singleton.mpr (hall key h).2) v

lemma plain_objectStoreOptions (provider : String) (storage : Json) :
    ∀ option ∈ objectStoreOptions provider storage, Plain option := by
  have hkey : ∀ pair : String × Option String, pair.1 ∈ optionKeys → ∀ option,
      secretOption pair = some option → Plain option := by
    rintro ⟨key, v⟩ hmem option hoption
    obtain ⟨v, rfl, rfl⟩ := Option.map_eq_some_iff.mp hoption
    have hprovider : key ≠ "PROVIDER" := by
      have hnot : "PROVIDER" ∉ optionKeys := by decide
      rintro rfl
      exact hnot hmem
    dsimp only
    rw [if_neg hprovider]
    exact plain_key hmem v
  have hchain : Plain "PROVIDER credential_chain" :=
    ⟨[.word "PROVIDER".toList, .word "credential_chain".toList], ⟨by decide, by decide⟩, by decide⟩
  intro option hoption
  obtain ⟨pair, hpair, hoption⟩ := List.mem_filterMap.mp hoption
  split_ifs at hpair
  · rcases List.mem_cons.mp hpair with rfl | hpair
    · obtain rfl : "PROVIDER credential_chain" = option := Option.some.inj hoption
      exact hchain
    · refine hkey pair ?_ option hoption
      simp only [List.mem_cons, List.not_mem_nil, or_false] at hpair
      rcases hpair with rfl | rfl | rfl <;> simp [optionKeys]
  · refine hkey pair ?_ option hoption
    simp only [List.mem_cons, List.not_mem_nil, or_false] at hpair
    rcases hpair with rfl | rfl | rfl | rfl | rfl | rfl <;> simp [optionKeys]
  · refine hkey pair ?_ option hoption
    simp only [List.mem_cons, List.not_mem_nil, or_false] at hpair
    rcases hpair with rfl | rfl <;> simp [optionKeys]
  · refine hkey pair ?_ option hoption
    simp only [List.mem_cons, List.not_mem_nil, or_false] at hpair
    rcases hpair with rfl | rfl <;> simp [optionKeys]

lemma plain_httpOptions (credential : HttpCredential) :
    ∀ option ∈ httpOptions credential, Plain option := by
  intro option hoption
  rcases List.mem_append.mp hoption with hoption | hoption
  · obtain ⟨t, -, rfl⟩ := Option.map_eq_some_iff.mp (Option.mem_toList.mp hoption)
    exact @plain_key "BEARER_TOKEN" (by simp [optionKeys]) t
  · split_ifs at hoption with hempty
    · cases hoption
    · rw [List.mem_singleton.mp hoption]
      have hne : credential.2.map headerEntry ≠ [] := by
        simpa [List.isEmpty_iff] using hempty
      obtain ⟨ts, hspells, hpasses⟩ := plain_join hne fun text htext => by
        obtain ⟨h, -, rfl⟩ := List.mem_map.mp htext
        exact plain_headerEntry h
      have hopen : Sql.Scans "EXTRA_HTTP_HEADERS MAP \x7b "
          [.word "EXTRA_HTTP_HEADERS".toList, .word "MAP".toList, .symbol '\x7b'] := by decide
      have hclose : Sql.Spells " \x7d" [.symbol '\x7d'] := ⟨by decide, by decide⟩
      refine ⟨_, (hspells.after hopen).append hclose (by decide), ?_⟩
      rw [List.forall_mem_append, List.forall_mem_append]
      exact ⟨⟨by decide, hpasses⟩, by decide⟩

/-- The options of a source can be read. -/
lemma plain_credentialOptions {host : Host} {d : SourceDef} {provider : String}
    {options : List String} (h : credentialOptions host d = some (provider, options)) :
    Plain (Text.join ", " (("TYPE " ++ provider) :: options)) := by
  have htype : ∀ provider ∈ ["http", "s3", "gcs", "azure"], Plain ("TYPE " ++ provider) := by
    have hall : ∀ provider ∈ ["http", "s3", "gcs", "azure"],
        Sql.lex ("TYPE " ++ provider) = some [.word "TYPE".toList, .word provider.toList] ∧
          Sql.Closed ("TYPE " ++ provider) ∧
          Sql.passes (Token.isWord "SCOPE") (.word provider.toList) = true := by decide
    intro provider hprovider
    obtain ⟨hlex, hclosed, hpasses⟩ := hall provider hprovider
    refine ⟨_, ⟨hlex, hclosed⟩, ?_⟩
    rw [List.forall_mem_cons, List.forall_mem_singleton]
    exact ⟨by decide, hpasses⟩
  obtain ⟨effective, -, hoptions⟩ := Option.bind_eq_some_iff.mp h
  split_ifs at hoptions with hhttp hstore
  · obtain ⟨auth, -, hcredential⟩ := Option.bind_eq_some_iff.mp hoptions
    obtain ⟨c, -, hpair⟩ := Option.map_eq_some_iff.mp hcredential
    obtain ⟨rfl, rfl⟩ := Prod.mk.inj hpair
    exact plain_join (List.cons_ne_nil _ _)
      (List.forall_mem_cons.mpr ⟨htype "http" (by simp), plain_httpOptions c⟩)
  · obtain ⟨storage, -, hpair⟩ := Option.map_eq_some_iff.mp hoptions
    obtain ⟨rfl, rfl⟩ := Prod.mk.inj hpair
    exact plain_join (List.cons_ne_nil _ _)
      (List.forall_mem_cons.mpr ⟨htype effective (List.mem_cons_of_mem _ hstore),
        plain_objectStoreOptions effective storage⟩)

/-- The statements of a source are those with its options. -/
lemma secretTexts_eq (host : Host) (d : SourceDef) : secretTexts host d =
    match credentialOptions host d with
    | some (provider, options) => secretStatements d provider options
    | none => [] := by
  unfold secretTexts buildSecretSql credentialOptions
  cases effectiveStorageType d with
  | none => rfl
  | some provider =>
      rw [Option.bind_some]
      dsimp only
      split_ifs with hhttp hstore
      · unfold buildHttpSecretSql
        cases (d.config.get? "storage").bind fun s => s.get? "auth" with
        | none => rfl
        | some v =>
            rw [Option.bind_some]
            dsimp only
            cases AuthSpec.read v with
            | none => rfl
            | some auth =>
                rw [Option.bind_some]
                dsimp only
                cases httpCredential host auth <;> rfl
      · unfold buildObjectStoreSecretSql
        cases d.config.get? "storage" <;> rfl
      · rfl

/-- A statement as it is read. -/
lemma readSecret_eq (name : List Char) (body : List Token) :
    readSecret (.word "CREATE".toList :: .word "OR".toList :: .word "REPLACE".toList ::
      .word "SECRET".toList :: .ident name :: .symbol '(' :: (body ++ [.symbol ')'])) =
        (readOptions body).map fun secret => (name, secret) := by
  have hkeywords : (Token.word "CREATE".toList).isWord "CREATE" = true ∧
      (Token.word "OR".toList).isWord "OR" = true ∧
      (Token.word "REPLACE".toList).isWord "REPLACE" = true ∧
      (Token.word "SECRET".toList).isWord "SECRET" = true := by decide
  obtain ⟨hcreate, hor, hreplace, hsecret⟩ := hkeywords
  rw [readSecret, hcreate, hor, hreplace, hsecret, List.getLast?_concat, List.dropLast_concat]
  rfl

/-- The text up to the options. -/
lemma scans_opening (name : String) :
    Sql.Scans ("CREATE OR REPLACE SECRET " ++ Sql.quoteIdent name ++ " (")
      ([.word "CREATE".toList, .word "OR".toList, .word "REPLACE".toList, .word "SECRET".toList] ++
        [.ident name.toList] ++ [.symbol '(']) := by
  have hbefore : Sql.scanChars .ground ("CREATE OR REPLACE SECRET ".toList ++ ['"']) =
      ([.word "CREATE".toList, .word "OR".toList, .word "REPLACE".toList, .word "SECRET".toList],
        .ident []) := by decide
  have hopen : Sql.Scans " (" [.symbol '('] := by decide
  exact (Sql.spells_ident hbefore).scans hopen (by decide) (by decide)

lemma readText_unscoped {inner : String} {ts : List Token} (h : Sql.Spells inner ts)
    (hpasses : ∀ t ∈ ts, Sql.passes (Token.isWord "SCOPE") t = true) (name : String) :
    readText ("CREATE OR REPLACE SECRET " ++ Sql.quoteIdent name ++ " (" ++ inner ++ ")") =
      some (name.toList, ⟨ts, none⟩) := by
  have hclose : Sql.Spells ")" [.symbol ')'] := ⟨by decide, by decide⟩
  have hoptions : readOptions ts = some ⟨ts, none⟩ := by
    have hcut := Sql.cutAt_append hpasses []
    rw [List.append_nil, Sql.cutAt, List.append_nil] at hcut
    rw [readOptions, hcut]
  rw [readText, ((h.after (scans_opening name)).append hclose (by decide)).lex_eq, Option.bind_some]
  refine (readSecret_eq name.toList ts).trans ?_
  rw [hoptions]
  rfl

lemma readText_scoped {inner : String} {ts : List Token} (h : Sql.Spells inner ts)
    (hpasses : ∀ t ∈ ts, Sql.passes (Token.isWord "SCOPE") t = true) (name origin : String) :
    readText ("CREATE OR REPLACE SECRET " ++ Sql.quoteIdent name ++ " (" ++ inner ++ ", SCOPE " ++
      lit origin ++ ")") = some (name.toList, ⟨ts, some origin.toList⟩) := by
  have hclose : Sql.Spells ")" [.symbol ')'] := ⟨by decide, by decide⟩
  have hscope : Sql.Scans ", SCOPE " [.symbol ',', .word "SCOPE".toList] := by decide
  have hoptions : readOptions (ts ++ [.symbol ',', .word "SCOPE".toList, .str origin.toList]) =
      some ⟨ts, some origin.toList⟩ := by
    have hcut := Sql.cutAt_append hpasses
      [.symbol ',', .word "SCOPE".toList, .str origin.toList]
    have hcomma : Sql.cutAt (Token.isWord "SCOPE") 0
        [.symbol ',', .word "SCOPE".toList, .str origin.toList] =
          ([.symbol ','], some [.str origin.toList]) := rfl
    rw [hcomma] at hcut
    rw [readOptions, hcut]
    dsimp only
    rw [List.getLast?_concat, if_pos rfl, List.dropLast_concat]
  have htext := (h.after (scans_opening name)).scans hscope (by decide) (by decide)
  rw [readText, (((spells_lit origin).after htext).append hclose (by decide)).lex_eq,
    Option.bind_some]
  refine (congrArg readSecret (by simp)).trans ((readSecret_eq name.toList
    (ts ++ [.symbol ',', .word "SCOPE".toList, .str origin.toList])).trans ?_)
  rw [hoptions]
  rfl

/-! ## The names of the secrets -/

/-- The name of a secret, as it is meant. -/
def keyName (key : SecretKey) : List Char :=
  match key.2 with
  | none => key.1.toList
  | some origin => Separated.joined '_' key.1.toList (sanitizeAuthority origin).toList

lemma quote_notMem_sanitize (origin : String) : '"' ∉ (sanitizeAuthority origin).toList := by
  rw [sanitizeAuthority, String.toList_ofList]
  intro hmem
  obtain ⟨c, -, hc⟩ := List.mem_map.mp hmem
  split_ifs at hc with halpha
  · rw [hc] at halpha
    exact absurd halpha (by decide)
  · exact absurd hc (by decide)

lemma quoteIdent_key (name : String) {suffix : String} (h : '"' ∉ suffix.toList) :
    "\"" ++ Text.replaceChar '"' "\"\"" name ++ "__" ++ suffix ++ "\"" =
      Sql.quoteIdent (name ++ "__" ++ suffix) := by
  have hsame : ∀ cs : List Char, '"' ∉ cs →
      (cs.flatMap fun a => if a = '"' then "\"\"".toList else [a]) = cs := by
    intro cs hcs
    induction cs with
    | nil => rfl
    | cons c cs ih =>
        rw [List.mem_cons, not_or] at hcs
        rw [List.flatMap_cons, ih hcs.2, if_neg (Ne.symm hcs.1)]
        rfl
  rw [← String.toList_inj]
  simp only [Sql.quoteIdent, Text.replaceChar, String.toList_append, String.toList_ofList,
    List.flatMap_append, hsame _ h]
  rw [hsame "__".toList (by decide)]
  simp

/-- The statement of a key, with the options of its source. -/
def keyText (inner : String) (key : SecretKey) : String :=
  match key.2 with
  | none => "CREATE OR REPLACE SECRET \"" ++ Text.replaceChar '"' "\"\"" key.1 ++ "\" (" ++ inner ++ ")"
  | some origin =>
      "CREATE OR REPLACE SECRET \"" ++ Text.replaceChar '"' "\"\"" key.1 ++ "__" ++
        sanitizeAuthority origin ++ "\" (" ++ inner ++ ", SCOPE '" ++ sqlQuote origin ++ "')"

lemma readText_keyText {inner : String} {ts : List Token} (h : Sql.Spells inner ts)
    (hpasses : ∀ t ∈ ts, Sql.passes (Token.isWord "SCOPE") t = true) (key : SecretKey) :
    readText (keyText inner key) = some (keyName key, ⟨ts, key.2.map String.toList⟩) := by
  obtain ⟨name, origin⟩ := key
  cases origin with
  | none =>
      have hshape : ∀ base : String, "CREATE OR REPLACE SECRET \"" ++ base ++ "\" (" ++ inner ++ ")" =
          "CREATE OR REPLACE SECRET " ++ ("\"" ++ base ++ "\"") ++ " (" ++ inner ++ ")" := by
        intro base
        rw [← String.toList_inj]
        simp
      rw [keyText]
      dsimp only
      rw [hshape]
      exact readText_unscoped h hpasses name
  | some origin =>
      have hshape : ∀ base suffix scope : String,
          "CREATE OR REPLACE SECRET \"" ++ base ++ "__" ++ suffix ++ "\" (" ++ inner ++
              ", SCOPE '" ++ scope ++ "')" =
            "CREATE OR REPLACE SECRET " ++ ("\"" ++ base ++ "__" ++ suffix ++ "\"") ++ " (" ++
              inner ++ ", SCOPE " ++ ("'" ++ scope ++ "'") ++ ")" := by
        intro base suffix scope
        rw [← String.toList_inj]
        simp
      have hname : (name ++ "__" ++ sanitizeAuthority origin).toList =
          keyName (name, some origin) := by
        simp [keyName, Separated.joined]
      rw [keyText]
      dsimp only
      rw [hshape, quoteIdent_key name (quote_notMem_sanitize origin), sqlQuote_eq,
        readText_scoped h hpasses, hname]
      rfl

/-- The keys of a source with a credential. -/
lemma secretKeys_eq {host : Host} {d : SourceDef} {provider : String} {options : List String}
    (h : credentialOptions host d = some (provider, options)) (hne : options ≠ []) :
    secretKeys host d =
      if secretOrigins d provider = [] then [(d.name, none)]
      else (secretOrigins d provider).map fun origin => (d.name, some origin) := by
  obtain ⟨option, options, rfl⟩ := List.exists_cons_of_ne_nil hne
  rw [secretKeys, h]
  dsimp only
  cases secretOrigins d provider <;> rfl

lemma hasCredential_or (host : Host) (d : SourceDef) :
    (∃ provider, HasCredential host d provider) ∨ secretTexts host d = [] ∧ secretKeys host d = [] := by
  rw [secretTexts_eq, secretKeys]
  cases hoptions : credentialOptions host d with
  | none => exact .inr ⟨rfl, rfl⟩
  | some found =>
      obtain ⟨provider, options⟩ := found
      cases options with
      | nil => exact .inr ⟨rfl, rfl⟩
      | cons option options =>
          exact .inl ⟨provider, _, hoptions, List.cons_ne_nil _ _⟩

/-- The statements of a source are read as secrets with one credential, whose names and scopes are
those of its keys. -/
lemma exists_secretTexts (host : Host) (d : SourceDef) : ∃ inner credential,
    secretTexts host d = (secretKeys host d).map (keyText inner) ∧
      ∀ key, readText (keyText inner key) =
        some (keyName key, ⟨credential, key.2.map String.toList⟩) := by
  rcases hasCredential_or host d with ⟨provider, options, hoptions, hne⟩ | ⟨htexts, hkeys⟩
  · obtain ⟨ts, hspells, hpasses⟩ := plain_credentialOptions hoptions
    refine ⟨_, ts, ?_, readText_keyText hspells hpasses⟩
    rw [secretTexts_eq, hoptions, secretKeys_eq hoptions hne]
    dsimp only
    rw [secretStatements, if_neg (by simpa using hne), scopedSecrets]
    cases secretOrigins d provider with
    | nil => rfl
    | cons origin origins =>
        rw [if_neg (List.cons_ne_nil _ _), List.map_map]
        rfl
  · have hinner : Plain "TYPE http" :=
      ⟨[.word "TYPE".toList, .word "http".toList], ⟨by decide, by decide⟩, by decide⟩
    obtain ⟨ts, hspells, hpasses⟩ := hinner
    refine ⟨_, ts, ?_, readText_keyText hspells hpasses⟩
    rw [htexts, hkeys]
    rfl

/-- Two secrets have one name where they clash. -/
lemma keyName_eq_iff (f : NameFolding) (p q : SecretKey) :
    (keyName p).map f.fold = (keyName q).map f.fold ↔ Clash f p q := by
  have hjoined : ∀ a b : List Char, (Separated.joined '_' a b).map f.fold =
      Separated.joined '_' (a.map f.fold) (b.map f.fold) := by
    intro a b
    simp [Separated.joined, f.underscore]
  obtain ⟨n, o⟩ := p
  obtain ⟨n', o'⟩ := q
  cases o with
  | none =>
      cases o' with
      | none => rfl
      | some o' => rw [keyName, keyName, hjoined]; rfl
  | some o =>
      cases o' with
      | none => rw [keyName, keyName, hjoined]; exact eq_comm
      | some o' => rw [keyName, keyName, hjoined, hjoined, Separated.joined_eq_iff]; rfl

/-- The statements of all sources are read one by one. -/
lemma readText_all (host : Host) (defs : List SourceDef) : ∃ secrets : List (SecretKey × Secret),
    secrets.map Prod.fst = defs.flatMap (secretKeys host) ∧
      (defs.flatMap (secretTexts host)).map readText =
        secrets.map fun e => some (keyName e.1, e.2) := by
  induction defs with
  | nil => exact ⟨[], rfl, rfl⟩
  | cons d defs ih =>
      obtain ⟨secrets, hkeys, htexts⟩ := ih
      obtain ⟨inner, credential, hd, hread⟩ := exists_secretTexts host d
      refine ⟨((secretKeys host d).map fun key => (key, ⟨credential, key.2.map String.toList⟩)) ++
        secrets, ?_, ?_⟩
      · rw [List.map_append, hkeys, List.flatMap_cons, List.map_map]
        exact congrArg (· ++ _) (List.map_id _)
      · rw [List.flatMap_cons, List.map_append, List.map_append, htexts, hd, List.map_map, List.map_map]
        congr 1
        exact List.map_congr_left fun key _ => hread key

/-- The names are distinct where no two secrets clash. -/
lemma distinct_iff (host : Host) (f : NameFolding) (defs : List SourceDef) :
    ((defs.flatMap (secretTexts host)).map (secretName f)).Nodup ↔
      (defs.flatMap (secretKeys host)).Pairwise fun p q => ¬ Clash f p q := by
  obtain ⟨secrets, hkeys, htexts⟩ := readText_all host defs
  have hnames : (defs.flatMap (secretTexts host)).map (secretName f) =
      (defs.flatMap (secretKeys host)).map fun key => some ((keyName key).map f.fold) := by
    have hname : secretName f = (Option.map fun e : List Char × Secret => e.1.map f.fold) ∘ readText :=
      rfl
    rw [hname, ← List.map_map, htexts, ← hkeys, List.map_map, List.map_map]
    rfl
  rw [hnames, List.Nodup, List.pairwise_map]
  refine List.Pairwise.iff_of_mem ?_
  intro p q _ _
  rw [← keyName_eq_iff, ne_eq, Option.some.injEq]

/-! ## Registration -/

/-- Secrets that are put one after the other. -/
def putAll (f : NameFolding) (s : Store) (secrets : List (List Char × Secret)) : Store :=
  secrets.foldl (fun s e => Function.update s (e.1.map f.fold) (some e.2)) s

lemma putAll_of_notMem {f : NameFolding} {secrets : List (List Char × Secret)} {name : List Char}
    (h : name ∉ secrets.map fun e => e.1.map f.fold) (s : Store) :
    putAll f s secrets name = s name := by
  induction secrets generalizing s with
  | nil => rfl
  | cons e secrets ih =>
      rw [List.map_cons, List.mem_cons, not_or] at h
      exact (ih h.2 _).trans (Function.update_of_ne h.1 _ _)

/-- Under distinct names every secret is kept. -/
lemma putAll_of_nodup {f : NameFolding} {secrets : List (List Char × Secret)}
    (h : (secrets.map fun e => e.1.map f.fold).Nodup) (s : Store) :
    ∀ e ∈ secrets, putAll f s secrets (e.1.map f.fold) = some e.2 := by
  induction secrets generalizing s with
  | nil => exact List.forall_mem_nil _
  | cons e secrets ih =>
      rw [List.map_cons, List.nodup_cons] at h
      rw [List.forall_mem_cons]
      exact ⟨(putAll_of_notMem h.1 _).trans (Function.update_self _ _ _), ih h.2 _⟩

lemma foldlM_execute {f : NameFolding} {texts : List String} {secrets : List (List Char × Secret)}
    (h : texts.map readText = secrets.map some) (s : Store) :
    texts.foldlM (execute f) s = some (putAll f s secrets) := by
  induction texts generalizing secrets s with
  | nil =>
      obtain rfl := List.map_eq_nil_iff.mp h.symm
      rfl
  | cons text texts ih =>
      cases secrets with
      | nil => cases h
      | cons e secrets =>
          obtain ⟨hhead, htail⟩ := List.cons.inj h
          rw [List.foldlM_cons, execute, hhead]
          exact ih htail _

/-- Under distinct names the registration keeps the secret of every statement. -/
lemma exists_register {host : Host} {f : NameFolding} {defs : List SourceDef}
    (h : ((defs.flatMap (secretTexts host)).map (secretName f)).Nodup) :
    ∃ store, register host f defs = some store ∧
      ∀ text ∈ defs.flatMap (secretTexts host), ∃ name secret, readText text = some (name, secret) ∧
        store (name.map f.fold) = some secret := by
  obtain ⟨secrets, -, htexts⟩ := readText_all host defs
  have hread : (defs.flatMap (secretTexts host)).map readText =
      (secrets.map fun e => (keyName e.1, e.2)).map some := by
    rw [htexts, List.map_map]
    rfl
  have hname : secretName f = (Option.map fun e : List Char × Secret => e.1.map f.fold) ∘ readText :=
    rfl
  rw [hname, ← List.map_map, hread, List.map_map] at h
  have hnames : ((secrets.map fun e => (keyName e.1, e.2)).map fun e => e.1.map f.fold).Nodup := by
    refine List.Nodup.of_map some ?_
    rw [List.map_map]
    exact h
  refine ⟨_, foldlM_execute hread _, fun text htext => ?_⟩
  obtain ⟨e, he, htext⟩ := List.mem_map.mp (hread ▸ List.mem_map_of_mem htext)
  exact ⟨e.1, e.2, htext.symm, putAll_of_nodup hnames _ e he⟩

/-! ## Origins -/

lemma mem_foldl_pushOrigin {provider o : String} (cfgs : List Json) (out : List String) :
    o ∈ cfgs.foldl (pushOrigin provider) out ↔ o ∈ out ∨
      ∃ cfg ∈ cfgs, (location cfg).bind originPrefix = some o ∧
        (StorageScheme.classify o).defaultStorageType = some provider := by
  induction cfgs generalizing out with
  | nil => simp
  | cons cfg cfgs ih =>
      have hpush : o ∈ pushOrigin provider out cfg ↔ o ∈ out ∨
          (location cfg).bind originPrefix = some o ∧
            (StorageScheme.classify o).defaultStorageType = some provider := by
        unfold pushOrigin
        cases horigin : (location cfg).bind originPrefix with
        | none => simp
        | some origin =>
            dsimp only
            split_ifs with hnew
            · rw [List.mem_append, List.mem_singleton, Option.some.injEq]
              refine or_congr_right ⟨?_, fun h => h.1.symm⟩
              rintro rfl
              exact ⟨rfl, hnew.1⟩
            · refine ⟨.inl, ?_⟩
              rintro (hmem | ⟨hsame, htype⟩)
              · exact hmem
              · obtain rfl := Option.some.inj hsame
                by_contra hnot
                exact hnew ⟨htype, hnot⟩
      rw [List.foldl_cons, ih, hpush, List.exists_mem_cons_iff, or_assoc]

lemma mem_secretOrigins {d : SourceDef} {provider o : String} : o ∈ secretOrigins d provider ↔
    o ∈ remoteOrigins d ∧ (StorageScheme.classify o).defaultStorageType = some provider := by
  rw [secretOrigins, mem_foldl_pushOrigin, remoteOrigins, List.mem_filter, List.mem_filterMap]
  constructor
  · rintro (h | ⟨cfg, hcfg, horigin, htype⟩)
    · cases h
    · exact ⟨⟨⟨cfg, hcfg, horigin⟩, by rw [htype]; rfl⟩, htype⟩
  · rintro ⟨⟨⟨cfg, hcfg, horigin⟩, -⟩, htype⟩
    exact .inr ⟨cfg, hcfg, horigin, htype⟩

/-- The origins of the provider are those that the secrets of a source have as scopes. -/
lemma covers_iff {host : Host} {d : SourceDef} {provider : String}
    (h : HasCredential host d provider) {o : String} (ho : o ∈ remoteOrigins d) :
    (∃! text, text ∈ secretTexts host d ∧ ∃ name secret, readText text = some (name, secret) ∧
      secret.scope = some o.toList) ↔
        (StorageScheme.classify o).defaultStorageType = some provider := by
  obtain ⟨options, hoptions, hne⟩ := h
  obtain ⟨inner, credential, htexts, hread⟩ := exists_secretTexts host d
  have hkey : ∀ key ∈ secretKeys host d, key.2 = some o →
      key = (d.name, some o) ∧ o ∈ secretOrigins d provider := by
    intro key hkey hkeyOrigin
    rw [secretKeys_eq hoptions hne] at hkey
    split_ifs at hkey with hnil
    · rw [List.mem_singleton.mp hkey] at hkeyOrigin
      cases hkeyOrigin
    · obtain ⟨o', ho', rfl⟩ := List.mem_map.mp hkey
      obtain rfl := Option.some.inj hkeyOrigin
      exact ⟨rfl, ho'⟩
  have hscope : ∀ text ∈ secretTexts host d, ∀ name secret, readText text = some (name, secret) →
      secret.scope = some o.toList →
        text = keyText inner (d.name, some o) ∧ o ∈ secretOrigins d provider := by
    intro text htext name secret hsecret hscope
    rw [htexts] at htext
    obtain ⟨key, hmem, rfl⟩ := List.mem_map.mp htext
    obtain ⟨-, rfl⟩ := Prod.mk.inj (Option.some.inj ((hread key).symm.trans hsecret))
    obtain ⟨origin, horigin, hsame⟩ := Option.map_eq_some_iff.mp hscope
    rw [String.toList_inj] at hsame
    obtain ⟨rfl, ho'⟩ := hkey key hmem (by rw [horigin, hsame])
    exact ⟨rfl, ho'⟩
  constructor
  · rintro ⟨text, ⟨htext, name, secret, hsecret, hsame⟩, -⟩
    exact (mem_secretOrigins.mp (hscope text htext name secret hsecret hsame).2).2
  · intro htype
    have horigin : o ∈ secretOrigins d provider := mem_secretOrigins.mpr ⟨ho, htype⟩
    have hmem : (d.name, some o) ∈ secretKeys host d := by
      rw [secretKeys_eq hoptions hne, if_neg (List.ne_nil_of_mem horigin)]
      exact List.mem_map_of_mem horigin
    refine ⟨keyText inner (d.name, some o), ⟨?_, _, _, hread _, rfl⟩, ?_⟩
    · rw [htexts]
      exact List.mem_map_of_mem hmem
    · rintro text ⟨htext, name, secret, hsecret, hsame⟩
      exact (hscope text htext name secret hsecret hsame).1

lemma secretTexts_ne_nil_iff (host : Host) (d : SourceDef) :
    secretTexts host d ≠ [] ↔ ∃ provider, HasCredential host d provider := by
  constructor
  · intro hne
    rcases hasCredential_or host d with h | ⟨hnil, -⟩
    · exact h
    · exact absurd hnil hne
  · rintro ⟨provider, options, hoptions, hne⟩
    obtain ⟨inner, credential, htexts, -⟩ := exists_secretTexts host d
    rw [htexts, secretKeys_eq hoptions hne]
    split_ifs with hnil
    · simp
    · simpa using hnil

lemma scoped_iff (host : Host) (f : NameFolding) (defs : List SourceDef) :
    Scoped host f defs ↔ Apart host f defs := by
  have hcovers : ∀ store : Store, (∀ text ∈ defs.flatMap (secretTexts host), ∃ name secret,
      readText text = some (name, secret) ∧ store (name.map f.fold) = some secret) →
        ∀ d ∈ defs, ∀ o text, (text ∈ secretTexts host d ∧ Covers f store o text) ↔
          (text ∈ secretTexts host d ∧ ∃ name secret, readText text = some (name, secret) ∧
            secret.scope = some o.toList) := by
    intro store hkept d hd o text
    refine and_congr_right fun htext => ⟨?_, ?_⟩
    · rintro ⟨name, secret, hread, hscope, -⟩
      exact ⟨name, secret, hread, hscope⟩
    · rintro ⟨name, secret, hread, hscope⟩
      obtain ⟨name', secret', hread', hstore⟩ := hkept text (List.mem_flatMap.mpr ⟨d, hd, htext⟩)
      obtain ⟨rfl, rfl⟩ := Prod.mk.inj (Option.some.inj (hread.symm.trans hread'))
      exact ⟨name, secret, hread, hscope, hstore⟩
  constructor
  · rintro ⟨hdistinct, store, -, hkept, hcovered⟩
    refine ⟨(distinct_iff host f defs).mp hdistinct, ?_⟩
    intro d hd provider hcredential o ho
    have hone := hcovered d hd ((secretTexts_ne_nil_iff host d).mpr ⟨provider, hcredential⟩) o ho
    simp only [hcovers store hkept d hd] at hone
    exact (covers_iff hcredential ho).mp hone
  · rintro ⟨hnames, hproviders⟩
    have hdistinct := (distinct_iff host f defs).mpr hnames
    obtain ⟨store, hstore, hkept⟩ := exists_register hdistinct
    refine ⟨hdistinct, store, hstore, hkept, ?_⟩
    intro d hd hne o ho
    obtain ⟨provider, hcredential⟩ := (secretTexts_ne_nil_iff host d).mp hne
    simp only [hcovers store hkept d hd]
    exact (covers_iff hcredential ho).mpr (hproviders d hd provider hcredential o ho)

/-! ## Origins as scopes -/

lemma splitScheme_spec {cs scheme rest : List Char} (h : splitScheme cs = some (scheme, rest)) :
    cs = scheme ++ "://".toList ++ rest ∧
      ∀ tail, splitScheme (scheme ++ "://".toList ++ tail) = some (scheme, tail) := by
  induction cs using splitScheme.induct generalizing scheme rest with
  | case1 tail =>
      rw [splitScheme] at h
      obtain ⟨rfl, rfl⟩ := Prod.mk.inj (Option.some.inj h)
      exact ⟨rfl, fun _ => rfl⟩
  | case2 c cs hnot ih =>
      rw [splitScheme.eq_2 c cs hnot] at h
      obtain ⟨⟨scheme', rest'⟩, hparts, hpair⟩ := Option.map_eq_some_iff.mp h
      obtain ⟨rfl, rfl⟩ := Prod.mk.inj hpair
      obtain ⟨rfl, htail⟩ := ih hparts
      refine ⟨rfl, fun tail => ?_⟩
      -- no separator begins earlier with another text behind it
      have hnot' : ∀ rest, c = ':' → scheme' ++ "://".toList ++ tail = '/' :: '/' :: rest → False := by
        intro rest hc hrest
        match scheme', hrest with
        | [], hrest => cases hrest
        | [a], hrest => cases hrest
        | a :: b :: scheme', hrest =>
            obtain ⟨ha, hmore⟩ := List.cons.inj hrest
            obtain ⟨hb, -⟩ := List.cons.inj hmore
            subst ha hb
            exact hnot _ hc rfl
      have hstep := splitScheme.eq_2 c (scheme' ++ "://".toList ++ tail) hnot'
      rw [htail tail] at hstep
      exact hstep
  | case3 => cases h

/-- The scheme of a remote location is a word. -/
lemma slash_notMem_scheme {path : String} {scheme rest : List Char}
    (h : splitScheme path.toList = some (scheme, rest))
    (hremote : (StorageScheme.classify path).defaultStorageType.isSome = true) : '/' ∉ scheme := by
  have hword : String.ofList (scheme.map Char.toLower) ∈
      ["http", "https", "s3", "gs", "gcs", "az", "azure", "abfss"] := by
    unfold StorageScheme.classify at hremote
    rw [h] at hremote
    dsimp only at hremote
    generalize String.ofList (scheme.map Char.toLower) = word at hremote ⊢
    split_ifs at hremote with hhttp hs3 hgcs hazure
    · rcases hhttp with rfl | rfl <;> simp
    · simp [hs3]
    · rcases hgcs with rfl | rfl <;> simp
    · rcases hazure with rfl | rfl | rfl <;> simp
    · cases hremote
  have hwords : ∀ word ∈ ["http", "https", "s3", "gs", "gcs", "az", "azure", "abfss"],
      '/' ∉ word.toList := by decide
  intro hmem
  refine hwords _ hword ?_
  rw [String.toList_ofList]
  exact List.mem_map.mpr ⟨'/', hmem, by decide⟩

/-- An origin of a remote location has three slashes, and the last of them at its end. -/
lemma slashes_of_mem {d : SourceDef} {o : String} (h : o ∈ remoteOrigins d) :
    o.toList.count '/' = 3 ∧ o.toList.getLast? = some '/' := by
  obtain ⟨horigin, hremote⟩ := List.mem_filter.mp h
  obtain ⟨cfg, -, hlocation⟩ := List.mem_filterMap.mp horigin
  obtain ⟨path, -, hpath⟩ := Option.bind_eq_some_iff.mp hlocation
  obtain ⟨⟨scheme, rest⟩, hparts, hauthority⟩ := Option.bind_eq_some_iff.mp hpath
  dsimp only at hauthority
  split_ifs at hauthority with hempty
  obtain rfl := Option.some.inj hauthority
  have hsplit : splitScheme (String.ofList (scheme ++ "://".toList ++
      (rest.takeWhile fun c => c ≠ '/' && c ≠ '?') ++ ['/'])).toList =
        some (scheme, (rest.takeWhile fun c => c ≠ '/' && c ≠ '?') ++ ['/']) := by
    rw [String.toList_ofList, List.append_assoc (scheme ++ _)]
    exact (splitScheme_spec hparts).2 _
  have hscheme : scheme.count '/' = 0 :=
    List.count_eq_zero.mpr (slash_notMem_scheme hsplit hremote)
  have hauthority : (rest.takeWhile fun c => c ≠ '/' && c ≠ '?').count '/' = 0 := by
    rw [List.count_eq_zero]
    intro hmem
    have hslash := List.mem_takeWhile_imp hmem
    simp at hslash
  rw [String.toList_ofList]
  refine ⟨?_, List.getLast?_concat⟩
  rw [List.count_append, List.count_append, List.count_append, hscheme, hauthority]
  rfl

/-- An origin begins with no other one. -/
lemma origin_prefix_iff {d e : SourceDef} {o o' : String} (h : o ∈ remoteOrigins d)
    (h' : o' ∈ remoteOrigins e) : o'.toList <+: o.toList ↔ o' = o := by
  constructor
  · rintro ⟨tail, htail⟩
    obtain ⟨hcount, hlast⟩ := slashes_of_mem h
    obtain ⟨hcount', -⟩ := slashes_of_mem h'
    rw [← htail, List.count_append, hcount'] at hcount
    have hnone : '/' ∉ tail := List.count_eq_zero.mp (by omega)
    cases hend : tail.getLast? with
    | some c =>
        rw [← htail, List.getLast?_append, hend] at hlast
        obtain rfl := Option.some.inj hlast
        exact absurd (List.mem_of_getLast? hend) hnone
    | none =>
        rw [List.getLast?_eq_none_iff.mp hend, List.append_nil] at htail
        exact String.toList_inj.mp htail
  · rintro rfl
    exact List.prefix_rfl

/-- The scopes of a source are its origins, where these are all of its provider. -/
lemma exists_scope_iff {host : Host} {e : SourceDef} {provider : String}
    (h : HasCredential host e provider) (hprovider : ∀ o ∈ remoteOrigins e,
      (StorageScheme.classify o).defaultStorageType = some provider) (scope : List Char) :
    (∃ text ∈ secretTexts host e, ∃ name secret, readText text = some (name, secret) ∧
      secret.scope = some scope) ↔ ∃ o ∈ remoteOrigins e, scope = o.toList := by
  obtain ⟨options, hoptions, hne⟩ := h
  obtain ⟨inner, credential, htexts, hread⟩ := exists_secretTexts host e
  rw [htexts, secretKeys_eq hoptions hne]
  constructor
  · rintro ⟨text, htext, name, secret, hsecret, hscope⟩
    obtain ⟨key, hkey, rfl⟩ := List.mem_map.mp htext
    obtain ⟨-, rfl⟩ := Prod.mk.inj (Option.some.inj ((hread key).symm.trans hsecret))
    obtain ⟨o, ho, rfl⟩ := Option.map_eq_some_iff.mp hscope
    split_ifs at hkey with hnil
    · rw [List.mem_singleton.mp hkey] at ho
      cases ho
    · obtain ⟨o', ho', rfl⟩ := List.mem_map.mp hkey
      obtain rfl := Option.some.inj ho
      exact ⟨o', (mem_secretOrigins.mp ho').1, rfl⟩
  · rintro ⟨o, ho, rfl⟩
    have horigin : o ∈ secretOrigins e provider := mem_secretOrigins.mpr ⟨ho, hprovider o ho⟩
    rw [if_neg (List.ne_nil_of_mem horigin)]
    exact ⟨_, List.mem_map_of_mem (List.mem_map_of_mem horigin), _, _, hread _, rfl⟩

/-- Scopes cover the origins of other sources where these have an origin in common. -/
lemma exclusive_iff {host : Host} {f : NameFolding} {defs : List SourceDef}
    (h : Apart host f defs) : Exclusive host defs ↔ OwnOrigins host defs := by
  have halone : ∀ d ∈ defs, ∀ e ∈ defs, Alone host d e ↔ ∀ provider provider',
      HasCredential host d provider → HasCredential host e provider' →
        ∀ o ∈ remoteOrigins d, o ∉ remoteOrigins e := by
    intro d hd e he
    constructor
    · intro hnone provider provider' hcredential hcredential' o ho ho'
      have hne := (secretTexts_ne_nil_iff host d).mpr ⟨provider, hcredential⟩
      obtain ⟨text, htext, name, secret, hread, hscope⟩ :=
        (exists_scope_iff hcredential' (h.providers e he provider' hcredential') o.toList).mpr
          ⟨o, ho', rfl⟩
      exact hnone hne o ho text htext name secret _ hread hscope List.prefix_rfl
    · intro hown hne o ho text htext name secret scope hread hscope hstarts
      obtain ⟨provider, hcredential⟩ := (secretTexts_ne_nil_iff host d).mp hne
      obtain ⟨provider', hcredential'⟩ :=
        (secretTexts_ne_nil_iff host e).mp (List.ne_nil_of_mem htext)
      obtain ⟨o', ho', rfl⟩ :=
        (exists_scope_iff hcredential' (h.providers e he provider' hcredential') scope).mp
          ⟨text, htext, name, secret, hread, hscope⟩
      obtain rfl := (origin_prefix_iff ho ho').mp hstarts
      exact hown provider provider' hcredential hcredential' o' ho ho'
  refine List.Pairwise.iff_of_mem fun {d e} hd he => ?_
  rw [halone d hd e he, halone e he d hd]
  constructor
  · exact fun hboth => hboth.1
  · refine fun hown => ⟨hown, fun provider provider' hcredential hcredential' o ho ho' => ?_⟩
    exact hown provider' provider hcredential' hcredential o ho' ho

/-- **The secrets of remote files**: all are kept under names of their own, and each remote origin of a
source with a credential has one, exactly when no two of them clash and every such source has locations
of its provider only; and then no other source's secret covers it where the sources have no origin in
common. -/
theorem secretScoping_iff (host : Host) (f : NameFolding) (defs : List SourceDef) :
    (Scoped host f defs ↔ Apart host f defs) ∧
      (Scoped host f defs ∧ Exclusive host defs ↔ Apart host f defs ∧ OwnOrigins host defs) := by
  refine ⟨scoped_iff host f defs, ?_⟩
  rw [scoped_iff]
  exact and_congr_right exclusive_iff

/-! ## Secrets that are replaced -/

/-- A source of files on an object store, with an access key. -/
def storeSource (name provider key : String) (paths : List String) : SourceDef where
  name := name
  config := .obj [("storage", .obj [("type", .str provider),
    ("auth", .obj [("access_key_id", .str key)])])]
  tables := paths.map fun path => .obj [("path", .str path)]

def anyHost : Host := ⟨id, fun _ => "invalid type"⟩

/-- Names as they are spelled. -/
def exactNames : NameFolding := ⟨id, rfl⟩

/-- Two buckets of one source that differ in a hyphen, and two sources of which the name of one goes on
where the bucket of the other begins. -/
theorem replacedSecrets_fail :
    ¬ Scoped anyHost exactNames
        [storeSource "lake" "s3" "k" ["s3://data-eu/a.parquet", "s3://data.eu/b.parquet"]] ∧
      ¬ Scoped anyHost exactNames [storeSource "lake" "gcs" "k" ["gs://eu__raw/a.parquet"],
        storeSource "lake__eu" "gcs" "l" ["gs://raw/b.parquet"]] := by
  have hclash : ∀ {defs : List SourceDef} {p q : SecretKey},
      defs.flatMap (secretKeys anyHost) = [p, q] → Clash exactNames p q →
        ¬ Scoped anyHost exactNames defs := by
    intro defs p q hkeys hclash h
    have hnames := (distinct_iff anyHost exactNames defs).mp h.distinct
    rw [hkeys, List.pairwise_pair] at hnames
    exact hnames hclash
  constructor
  · refine @hclash _ ("lake", some "s3://data-eu/") ("lake", some "s3://data.eu/") (by decide) ?_
    exact .inl ⟨rfl, by decide⟩
  · refine @hclash _ ("lake", some "gs://eu__raw/") ("lake__eu", some "gs://raw/") (by decide) ?_
    exact (keyName_eq_iff exactNames _ _).mp (by decide)

end DuckDbSecrets
end Engine
end Pawrly
