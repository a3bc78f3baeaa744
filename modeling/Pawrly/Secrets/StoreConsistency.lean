import Pawrly.Secrets.VariableStore
import Pawrly.Secrets.Durability

/-!
# When the variable store is consistent

A step is consistent when a get answers what the last set or delete of its id asked for, and no id
but the written one changes in a backend (`Consistent`).

Each backend holds what the writes that it served itself amount to (`replay`).  So a get is right
when the backend that answers holds, by its own writes, what the last write asked for; and a file
modification keeps the other ids when nothing came between its read and its write (`Orderly`).  Runs
of such steps are consistent (`consistent_of_orderly`).
-/

namespace Pawrly
namespace Secrets

open LabelledRun

variable {Handle Key Nonce Bytes : Type} [DecidableEq Handle] (C : Codec Key Nonce Bytes)

/-! ## What the calls ask for -/

def Completion.succeeded (c : Completion) : Bool := c.result.toOption.isSome

/-- What a write leaves of its id. -/
def Call.asked (call : Call) (id : String) : Option String := (call.update .empty).get? id

/-- What the last write of the id asked for; nothing where there is none, or it failed. -/
def lastWrite (id : String) : List Completion → Option (Option String)
  | [] => none
  | c :: log =>
      if c.call.written = some id then
        if c.succeeded then some (c.call.asked id) else none
      else lastWrite id log

/-- What a backend holds by the writes that it served. -/
def replay (backend : Backend) (start : OrderedMap String String) :
    List Completion → OrderedMap String String
  | [] => start
  | c :: log =>
      if c.backend = backend ∧ c.succeeded = true then c.call.update (replay backend start log)
      else replay backend start log

/-! ## The contents of the file -/

/-- What the key of the key file makes of the token file. -/
def fileValues (d : Disk Bytes) : Option (OrderedMap String String) :=
  match d.tokens with
  | none => some .empty
  | some blob => (d.key.bind C.decodeKey).bind fun key => openTokens C key blob

/-! ## Steps -/

namespace Stores

/-- The id that the step's call writes. -/
def written (s : Stores Handle Key Bytes) : Action Handle Key Nonce → Option String
  | .call _ call _ _ => call.written
  | .cipher handle _ => (s.updates handle).bind fun u => u.call.written
  | .write handle _ => (s.updates handle).bind fun u => u.call.written

/-- A get answers the last write of its id, and only the written id changes. -/
structure Consistent (s : Stores Handle Key Bytes) (a : Action Handle Key Nonce)
    (s' : Stores Handle Key Bytes) : Prop where
  answered : ∀ c id value, s'.log = c :: s.log → c.call = .get id →
    lastWrite id s.log = some value → c.result = .ok value
  kept : ∀ id, s.written a ≠ some id → s'.keyring.get? id = s.keyring.get? id ∧
    ∃ m m', fileValues C s.disk = some m ∧ fileValues C s'.disk = some m' ∧
      m'.get? id = m.get? id

/-- By its own writes the backend holds what the last write of the id asked for. -/
def Agrees (backend : Backend) (start : OrderedMap String String) (log : List Completion)
    (id : String) : Prop :=
  ∀ value, lastWrite id log = some value → (replay backend start log).get? id = value

/-- A get is answered by a backend that agrees with the last write; a call of the file has the right
key and no operation of it fails; and at its write the key file has the key that was taken, and the
other ids are as they were read. -/
def Orderly (hasKeyring : Handle → Bool) (start : Stores Handle Key Bytes)
    (values : OrderedMap String String) (s : Stores Handle Key Bytes) :
    Action Handle Key Nonce → Prop
  | .call handle call reachable x =>
      match onKeyring (hasKeyring handle) reachable call s.keyring with
      | some _ => ∀ id, call = .get id → Agrees .keyring start.keyring s.log id
      | none =>
          (x.fail = none ∧ opened C x s.disk ≠ none) ∧
            ∀ id, call = .get id → Agrees .file values s.log id
  | .cipher _ x => x.fail = none ∧ opened C x s.disk ≠ none
  | .write handle x =>
      x.fail = none ∧ ∀ u key, s.updates handle = some u → u.key = some key →
        s.disk.key.bind C.decodeKey = some key ∧
          ∀ m id, fileValues C s.disk = some m → u.call.written ≠ some id →
            u.values.get? id = m.get? id

end Stores

/-! ## One half of a file modification -/

section

variable {C} {x : Surroundings Key Nonce} {d d' : Disk Bytes} {values : OrderedMap String String}

/-- With the key that opens the file, resolving it leaves what the key file makes of the file. -/
lemma fileValues_resolves {stage : Stage} {key : Key} (hd : WellWritten C d)
    (hvalues : fileValues C d = some values) (hopen : opened C x d ≠ none)
    (h : Resolves C x stage d d' (.ok key)) : fileValues C d' = some values := by
  obtain ⟨m, hm⟩ := Option.ne_none_iff_exists'.mp hopen
  cases htokens : d.tokens with
  | none =>
      rw [fileValues, htokens] at hvalues
      rw [fileValues, h.tokens, htokens]
      exact hvalues
  | some blob =>
      rw [fileValues, htokens] at hvalues
      obtain ⟨key₀, -, hvalues⟩ := Option.bind_eq_some_iff.mp hvalues
      rw [opened, htokens] at hm
      obtain ⟨key', hkey', hm⟩ := Option.bind_eq_some_iff.mp hm
      obtain rfl : key = key' := Option.some.inj (h.resolved_eq.symm.trans hkey')
      obtain ⟨rfl, rfl⟩ := hd.unique htokens hm hvalues
      simp only [fileValues, h.tokens, htokens, h.key_file, Option.bind_some]
      exact hm

lemma wellWritten_of_tokens (hd : WellWritten C d) (h : d'.tokens = d.tokens) :
    WellWritten C d' := fun blob hblob => hd blob (h ▸ hblob)

/-- Reading with the right key gives the contents of the file and keeps them. -/
lemma readAll_orderly (hd : WellWritten C d) (hvalues : fileValues C d = some values)
    (hfail : x.fail = none) (hopen : opened C x d ≠ none) :
    ∃ d', readAll C x d = (d', .ok values) ∧ fileValues C d' = some values ∧
      WellWritten C d' := by
  have h := readAll_reads (C := C) (x := x) (d := d)
  generalize readAll C x d = w at h
  obtain ⟨d', r⟩ := w
  simp only at h
  have hwell := wellWritten_of_tokens hd h.tokens
  cases h with
  | unread e hread => simp [hfail] at hread
  | absent hread htokens =>
      simp only [fileValues, htokens, Option.some.injEq] at hvalues
      subst hvalues
      exact ⟨d, rfl, by simp [fileValues, htokens], hd⟩
  | short e hshort =>
      obtain ⟨blob, hblob, hshort⟩ := hshort
      refine absurd ?_ hopen
      simp [opened, hblob, openTokens_short hshort]
  | keyless blob d' e hread htokens hsplit h =>
      simp only [fileValues, htokens] at hvalues
      obtain ⟨key, hkey, -⟩ := Option.bind_eq_some_iff.mp hvalues
      rcases h.failure with ⟨fault, hf, -⟩ | ⟨hf, -⟩ | ⟨-, -, -, hbad⟩
      · simp [hfail] at hf
      · simp [hfail] at hf
      · simp [hkey] at hbad
  | closed blob d' key e hread htokens hsplit h hclosed =>
      refine absurd ?_ hopen
      simp [opened, htokens, h.resolved_eq, hclosed]
  | opened blob d' key map hread htokens h hopen' =>
      have hafter := fileValues_resolves hd hvalues hopen h
      simp only [fileValues, htokens] at hvalues
      obtain ⟨key₀, -, hvalues⟩ := Option.bind_eq_some_iff.mp hvalues
      obtain ⟨-, rfl⟩ := hd.unique htokens hopen' hvalues
      exact ⟨d', rfl, hafter, hwell⟩

/-- Making the cipher with the right key keeps the contents of the file. -/
lemma beginWrite_orderly (hd : WellWritten C d) (hvalues : fileValues C d = some values)
    (hfail : x.fail = none) (hopen : opened C x d ≠ none) :
    fileValues C (beginWrite C x d).1 = some values ∧ WellWritten C (beginWrite C x d).1 := by
  have hdir : x.tokensFault ≠ some .dir := by simp [Surroundings.tokensFault, hfail]
  have h := @resolveKey_resolves _ _ _ C x .encrypt d
  rw [beginWrite, if_neg hdir]
  generalize resolveKey C x .encrypt d = w at h
  obtain ⟨d', e | key⟩ := w
  · rcases h.failure with ⟨fault, hf, -⟩ | ⟨hf, -⟩ | ⟨hsame, -⟩
    · simp [hfail] at hf
    · simp [hfail] at hf
    · simp only at hsame
      rw [hsame]
      exact ⟨hvalues, hd⟩
  · exact ⟨fileValues_resolves hd hvalues hopen h, wellWritten_of_tokens hd h.tokens⟩

/-- Writing with the key of the key file gives the file its new contents. -/
lemma endWrite_orderly {key : Key} (hfail : x.fail = none)
    (hkey : d.key.bind C.decodeKey = some key) :
    (endWrite C x key values d).2 = .ok () ∧
      fileValues C (endWrite C x key values d).1 = some values ∧
        WellWritten C (endWrite C x key values d).1 := by
  have hfault : x.tokensFault = none := by simp [Surroundings.tokensFault, hfail]
  simp only [endWrite, hfault, overwrite]
  refine ⟨rfl, ?_, fun blob hblob => ⟨key, x.nonce, values, (Option.some.inj hblob).symm⟩⟩
  simp [fileValues, hkey, openTokens_seal]

end

/-! ## Calls on values -/

lemma Call.update_of_not_writes {call : Call} {m : OrderedMap String String}
    (h : call.writes m = false) : call.update m = m := by
  cases call with
  | get id => rfl
  | set id value => cases h
  | delete id =>
      apply OrderedMap.ext_get?
      intro k
      by_cases hk : k = id
      · have hnone : m.get? id = none := by simpa [writes, OrderedMap.contains] using h
        rw [hk, hnone]
        exact m.get?_erase_self id
      · exact m.get?_erase_of_ne hk

/-- What a write makes of two maps that agree on the other ids. -/
lemma Call.update_congr {call : Call} {m m' : OrderedMap String String}
    (hwrites : call.written ≠ none)
    (h : ∀ id, call.written ≠ some id → m.get? id = m'.get? id) : call.update m = call.update m' := by
  apply OrderedMap.ext_get?
  intro k
  by_cases hk : call.written = some k
  · cases call with
    | get id => exact absurd rfl hwrites
    | set id value =>
        obtain rfl := Option.some.inj hk
        exact (m.get?_insert_self _ value).trans (m'.get?_insert_self _ value).symm
    | delete id =>
        obtain rfl := Option.some.inj hk
        exact (m.get?_erase_self _).trans (m'.get?_erase_self _).symm
  · rw [call.update_get? hk, call.update_get? hk, h k hk]

lemma Call.written_of_writes {call : Call} {m : OrderedMap String String}
    (h : call.writes m = true) : call.written ≠ none := by
  cases call with
  | get id => cases h
  | set id value => exact Option.some_ne_none _
  | delete id => exact Option.some_ne_none _

lemma onKeyring_some {hasKeyring reachable : Bool} {call : Call}
    {k k' : OrderedMap String String} {result : Except TokenStoreError (Option String)}
    (h : onKeyring hasKeyring reachable call k = some (k', result)) :
    k' = call.update k ∧ result = .ok (call.answer k) := by
  unfold onKeyring KeyringTokenStore.run at h
  cases hasKeyring with
  | false => cases h
  | true =>
      cases reachable with
      | false => cases h
      | true => cases call <;> cases h <;> exact ⟨rfl, rfl⟩

/-! ## Steps keep the backends up to date -/

/-- Each backend holds what its own writes amount to, and only writes are in progress. -/
structure Stores.UpToDate (start : Stores Handle Key Bytes) (values : OrderedMap String String)
    (s : Stores Handle Key Bytes) : Prop where
  wellWritten : WellWritten C s.disk
  keyring_eq : s.keyring = replay .keyring start.keyring s.log
  file_eq : fileValues C s.disk = some (replay .file values s.log)
  updating : ∀ handle u, s.updates handle = some u → u.call.written ≠ none

section

variable {C} {hasKeyring : Handle → Bool} {start s : Stores Handle Key Bytes}
variable {values : OrderedMap String String}

lemma replay_other {backend : Backend} {c : Completion} (h : c.backend ≠ backend)
    (m : OrderedMap String String) (log : List Completion) :
    replay backend m (c :: log) = replay backend m log :=
  if_neg fun hc => h hc.1

lemma replay_failed {backend : Backend} {c : Completion} (h : c.succeeded = false)
    (m : OrderedMap String String) (log : List Completion) :
    replay backend m (c :: log) = replay backend m log :=
  if_neg fun hc => by simp [h] at hc

lemma replay_own {backend : Backend} {c : Completion} (h : c.backend = backend)
    (hok : c.succeeded = true) (m : OrderedMap String String) (log : List Completion) :
    replay backend m (c :: log) = c.call.update (replay backend m log) :=
  if_pos ⟨h, hok⟩

lemma log_ne_cons {c : Completion} {log : List Completion} : log ≠ c :: log := by
  intro h
  simpa using congrArg List.length h

namespace Stores

lemma updating_update {updates : Handle → Option (Update Key)} {handle : Handle}
    {u : Option (Update Key)} (h : ∀ h u, updates h = some u → u.call.written ≠ none)
    (hu : ∀ v, u = some v → v.call.written ≠ none) (h' : Handle) (v : Update Key)
    (hv : Function.update updates handle u h' = some v) : v.call.written ≠ none := by
  by_cases hh : h' = handle
  · rw [hh, Function.update_self] at hv
    exact hu v hv
  · rw [Function.update_of_ne hh] at hv
    exact h h' v hv

/-- A step of a modification that does not end with it keeps the contents of the file. -/
lemma UpToDate.proceed (h : UpToDate C start values s) {handle : Handle} {d : Disk Bytes}
    {u : Update Key} (hfile : fileValues C d = some (replay .file values s.log))
    (hwell : WellWritten C d) (hu : u.call.written ≠ none) {a : Action Handle Key Nonce} :
    Consistent C s a (s.proceed handle d u) ∧ UpToDate C start values (s.proceed handle d u) := by
  refine ⟨⟨fun c id value hlog => absurd hlog log_ne_cons, fun id _ => ⟨rfl, ?_⟩⟩, ?_⟩
  · exact ⟨_, _, h.file_eq, hfile, rfl⟩
  · refine ⟨hwell, h.keyring_eq, hfile, updating_update h.updating ?_⟩
    rintro v hv
    obtain rfl := Option.some.inj hv
    exact hu

/-- A call that fails on the file and leaves its contents. -/
lemma UpToDate.finish_error (h : UpToDate C start values s) {handle : Handle} {d : Disk Bytes}
    {call : Call} {e : TokenStoreError}
    (hfile : fileValues C d = some (replay .file values s.log)) (hwell : WellWritten C d)
    (hcall : call.written ≠ none) {a : Action Handle Key Nonce} :
    Consistent C s a (s.finish handle d call (.error e)) ∧
      UpToDate C start values (s.finish handle d call (.error e)) := by
  have hfailed : ∀ b m, replay b m (⟨.file, call, .error e⟩ :: s.log) = replay b m s.log :=
    fun b m => replay_failed rfl m s.log
  refine ⟨⟨fun c id value hlog hget => ?_, fun id _ => ⟨rfl, ?_⟩⟩, ?_⟩
  · obtain ⟨rfl, -⟩ := List.cons.inj hlog
    simp only at hget
    rw [hget] at hcall
    exact absurd rfl hcall
  · exact ⟨_, _, h.file_eq, hfile, rfl⟩
  · refine ⟨hwell, h.keyring_eq.trans (hfailed _ _).symm, hfile.trans ?_,
      updating_update h.updating fun v hv => by cases hv⟩
    exact congrArg some (hfailed .file values).symm

/-- A call that ends on the file with what it makes of its contents. -/
lemma UpToDate.finish_ok (h : UpToDate C start values s) {handle : Handle} {d : Disk Bytes}
    {call : Call} {answer : Option String}
    (hfile : fileValues C d = some (call.update (replay .file values s.log)))
    (hwell : WellWritten C d)
    (hanswer : ∀ id value, call = .get id → lastWrite id s.log = some value → answer = value)
    {a : Action Handle Key Nonce} (ha : s.written a = call.written) :
    Consistent C s a (s.finish handle d call (.ok answer)) ∧
      UpToDate C start values (s.finish handle d call (.ok answer)) := by
  refine ⟨⟨fun c id value hlog hget hlast => ?_, fun id hid => ⟨rfl, ?_⟩⟩, ?_⟩
  · obtain ⟨rfl, -⟩ := List.cons.inj hlog
    exact congrArg Except.ok (hanswer id value hget hlast)
  · rw [ha] at hid
    exact ⟨_, _, h.file_eq, hfile, call.update_get? hid _⟩
  · refine ⟨hwell, h.keyring_eq.trans ?_, hfile.trans ?_,
      updating_update h.updating fun v hv => by cases hv⟩
    · exact (replay_other (by simp) _ _).symm
    · exact congrArg some (replay_own (c := ⟨.file, call, .ok answer⟩) rfl rfl values s.log).symm

/-- What an orderly step preserves. -/
lemma UpToDate.step (h : UpToDate C start values s) {a : Action Handle Key Nonce}
    (ha : Orderly C hasKeyring start values s a) {s' : Stores Handle Key Bytes}
    (htaken : s.step C hasKeyring a = some s') :
    Consistent C s a s' ∧ UpToDate C start values s' := by
  cases a with
  | call handle call reachable x =>
      simp only [Stores.step] at htaken
      simp only [Orderly] at ha
      cases hkeyring : onKeyring (hasKeyring handle) reachable call s.keyring with
      | some answer =>
          obtain ⟨k, result⟩ := answer
          obtain ⟨rfl, rfl⟩ := onKeyring_some hkeyring
          simp only [hkeyring, Option.some.injEq] at htaken ha
          subst htaken
          refine ⟨⟨fun c id value hlog hget hlast => ?_, fun id hid => ⟨?_, ?_⟩⟩, ?_⟩
          · obtain ⟨rfl, -⟩ := List.cons.inj hlog
            simp only at hget
            subst hget
            have hvalue := ha id rfl value hlast
            rw [← h.keyring_eq] at hvalue
            exact congrArg Except.ok hvalue
          · exact call.update_get? hid _
          · exact ⟨_, _, h.file_eq, h.file_eq, rfl⟩
          · refine ⟨h.wellWritten, ?_, h.file_eq.trans ?_, h.updating⟩
            · have hreplay := replay_own
                (c := ⟨.keyring, call, .ok (call.answer s.keyring)⟩) rfl rfl start.keyring s.log
              rw [← h.keyring_eq] at hreplay
              exact hreplay.symm
            · exact congrArg some (replay_other (by simp) values s.log).symm
      | none =>
          simp only [hkeyring] at htaken ha
          obtain ⟨⟨hfail, hopen⟩, hget⟩ := ha
          cases hidle : s.updates handle with
          | some u => simp [hidle] at htaken
          | none =>
              simp only [hidle, Option.some.injEq] at htaken
              subst htaken
              obtain ⟨d, hread, hfile, hwell⟩ :=
                readAll_orderly h.wellWritten h.file_eq hfail hopen
              simp only [startFile, hread]
              split_ifs with hwrites
              · exact h.proceed hfile hwell (Call.written_of_writes hwrites)
              · have hsame := Call.update_of_not_writes (Bool.eq_false_of_not_eq_true hwrites)
                refine h.finish_ok (hfile.trans (congrArg some hsame.symm)) hwell ?_ rfl
                rintro id value rfl hlast
                exact hget id rfl value hlast
  | cipher handle x =>
      obtain ⟨hfail, hopen⟩ := ha
      simp only [Stores.step] at htaken
      split at htaken
      · next u call map hu =>
          obtain rfl := Option.some.inj htaken
          obtain ⟨hfile, hwell⟩ := beginWrite_orderly h.wellWritten h.file_eq hfail hopen
          have hcall := h.updating handle _ hu
          unfold cipherFile
          generalize beginWrite C x s.disk = w at hfile hwell
          obtain ⟨d, e | key⟩ := w
          · exact h.finish_error hfile hwell hcall
          · exact h.proceed (u := { call := call, values := map, key := some key }) hfile hwell hcall
      · cases htaken
  | write handle x =>
      obtain ⟨hfail, horderly⟩ := ha
      simp only [Stores.step] at htaken
      split at htaken
      · next u call map key hu =>
          obtain rfl := Option.some.inj htaken
          have hcall := h.updating handle _ hu
          obtain ⟨hkey, hother⟩ := horderly _ key hu rfl
          obtain ⟨hok, hfile, hwell⟩ := @endWrite_orderly _ _ _ C _ _ (call.update map) _
            hfail hkey
          have hupdate : call.update map = call.update (replay .file values s.log) :=
            Call.update_congr hcall fun id hid => hother _ id h.file_eq hid
          simp only [writeFile, hok, Except.map]
          refine h.finish_ok (hfile.trans (congrArg some hupdate)) hwell ?_ ?_
          · rintro id value rfl
            exact absurd rfl hcall
          · simp [written, hu]
      · cases htaken

end Stores

end

/-- A keyring without entries and an empty directory. -/
def noStores : Stores ℕ String Term where
  keyring := .empty
  disk := noFiles
  updates := fun _ => none
  log := []

/-- Handle 0 has the keyring, handle 1 has not. -/
def firstHas (handle : ℕ) : Bool := handle = 0

/-- One value by each handle, and both are read. -/
def oneEach : List (Action ℕ String Unit) :=
  [.call 0 (.set "a" "1") true (calm none), .call 1 (.set "b" "2") false (calm none),
    .cipher 1 (calm none), .write 1 (calm none), .call 0 (.get "a") true (calm none),
    .call 1 (.get "b") false (calm none)]

lemma oneEach_orderly : Every (Stores.step termCodec firstHas)
    (fun s a _ => Stores.Orderly termCodec firstHas noStores .empty s a) noStores oneEach := by
  rintro s₁ h₁
  refine ⟨by rintro id ⟨⟩, ?_⟩
  obtain rfl := Option.some.inj h₁
  rintro s₂ h₂
  refine ⟨And.intro ⟨rfl, Option.some_ne_none _⟩ (by rintro id ⟨⟩), ?_⟩
  obtain rfl := Option.some.inj h₂
  rintro s₃ h₃
  refine ⟨And.intro rfl (Option.some_ne_none _), ?_⟩
  obtain rfl := Option.some.inj h₃
  rintro s₄ h₄
  refine ⟨And.intro rfl ?_, ?_⟩
  · rintro u key ⟨⟩ ⟨⟩
    refine ⟨rfl, ?_⟩
    rintro m id ⟨⟩ -
    rfl
  obtain rfl := Option.some.inj h₄
  rintro s₅ h₅
  refine ⟨?_, ?_⟩
  · rintro id ⟨⟩ value ⟨⟩
    rfl
  obtain rfl := Option.some.inj h₅
  rintro s₆ h₆
  refine ⟨And.intro ⟨rfl, Option.some_ne_none _⟩ ?_, trivial⟩
  rintro id ⟨⟩ value ⟨⟩
  rfl

/-- A value is set while the keyring cannot be reached, and read when it can. -/
def setWithoutKeyring : List (Action ℕ String Unit) :=
  [.call 0 (.set "a" "1") false (calm none), .cipher 0 (calm none), .write 0 (calm none),
    .call 0 (.get "a") true (calm none)]

end Secrets
end Pawrly
