import Pawrly.Secrets.EncryptedFile

/-!
# What a call of the encrypted token file leads to

The outcomes of resolving the key (`Resolves`), of reading the token file (`Reads`) and of writing
it (`Writes`), each with what must have happened, and the calls as compositions of the three
(`Call.run_cases`).
-/

namespace Pawrly
namespace Secrets

variable {Key Nonce Bytes : Type} (C : Codec Key Nonce Bytes)

/-! ## Calls -/

inductive Call
  | get (id : String)
  | set (id value : String)
  | delete (id : String)

/-- The id that the call writes. -/
def Call.written : Call → Option String
  | get _ => none
  | set id _ => some id
  | delete id => some id

def Call.run (x : Surroundings Key Nonce) (d : Disk Bytes) :
    Call → Disk Bytes × Except TokenStoreError Unit
  | get id => ((Secrets.get C x id d).1, (Secrets.get C x id d).2.map fun _ => ())
  | set id value => Secrets.set C x id value d
  | delete id => Secrets.delete C x id d

/-- The call writes the token file if this is what it reads. -/
def Call.writes (map : OrderedMap String String) : Call → Bool
  | get _ => false
  | set _ _ => true
  | delete id => map.contains id

/-- What the call makes of the values. -/
def Call.update (map : OrderedMap String String) : Call → OrderedMap String String
  | get _ => map
  | set id value => map.insert id value
  | delete id => map.erase id

/-! ## What a call resolves and opens -/

/-- The key of an environment: its password's, or the one of the key file. -/
def keyIn (env : Option String) (d : Disk Bytes) : Option Key :=
  match password env with
  | some pass => some (C.digest pass)
  | none => d.key.bind C.decodeKey

/-- Resolving the key writes what the key file holds already, or nothing. -/
def KeySettled (x : Surroundings Key Nonce) (d : Disk Bytes) : Prop :=
  match password x.env with
  | some pass => d.key = some (C.encodeKey (C.digest pass))
  | none => d.key ≠ none

/-- The key that the environment resolves to, a new one where there is none. -/
def resolved (x : Surroundings Key Nonce) (d : Disk Bytes) : Option Key :=
  match password x.env, d.key with
  | none, none => some x.fresh
  | _, _ => keyIn C x.env d

/-- What the environment makes of the token file. -/
def opened (x : Surroundings Key Nonce) (d : Disk Bytes) : Option (OrderedMap String String) :=
  match d.tokens with
  | none => some .empty
  | some blob => (resolved C x d).bind fun key => openTokens C key blob

/-- The token file is too short to be tried with a key. -/
def TooShort (d : Disk Bytes) : Prop := ∃ blob, d.tokens = some blob ∧ C.split blob = none

/-! ## The token file -/

section

variable {C} {x : Surroundings Key Nonce} {d d' : Disk Bytes}

lemma openTokens_seal (key : Key) (nonce : Nonce) (map : OrderedMap String String) :
    openTokens C key (sealTokens C key nonce map) = some map := by
  unfold openTokens sealTokens
  rw [C.split_join, Option.bind_some, C.decrypt_encrypt, Option.bind_some, C.fromSlice_toVec]

lemma openTokens_short {blob : Bytes} (h : C.split blob = none) (key : Key) :
    openTokens C key blob = none := by
  unfold openTokens
  rw [h]
  rfl

lemma keyFault_eq {stage : Stage} {fault : WriteFault} (h : x.keyFault stage = some fault) :
    x.fail = some (.writeKey stage fault) := by
  unfold Surroundings.keyFault at h
  split at h
  · next stage' fault' hfail =>
      split_ifs at h with hstage
      rw [hfail, hstage, Option.some.inj h]
  · cases h

lemma tokensFault_eq {fault : WriteFault} (h : x.tokensFault = some fault) :
    x.fail = some (.writeTokens fault) := by
  unfold Surroundings.tokensFault at h
  split at h
  · next fault' hfail => rw [hfail, Option.some.inj h]
  · cases h

end

/-! ## The outcomes of resolving the key -/

/-- What resolving the key leads to. -/
inductive Resolves (x : Surroundings Key Nonce) (stage : Stage) (d : Disk Bytes) :
    Disk Bytes → Except TokenStoreError Key → Prop
  | written (key : Key) (hkey : resolved C x d = some key)
      (hcomes : password x.env = none → d.key = none ∧ x.fail ≠ some (.readKey stage))
      (hfault : x.keyFault stage = none) :
      Resolves x stage d { d with key := some (C.encodeKey key) } (.ok key)
  | unwritten (key : Key) (e : TokenStoreError) (fault : WriteFault)
      (hkey : resolved C x d = some key)
      (hcomes : password x.env = none → d.key = none ∧ x.fail ≠ some (.readKey stage))
      (hfault : x.keyFault stage = some fault) :
      Resolves x stage d { d with key := (overwrite C (some fault) d.key (C.encodeKey key)).1 }
        (.error e)
  | found (key : Key) (hpass : password x.env = none) (hread : x.fail ≠ some (.readKey stage))
      (hkey : d.key.bind C.decodeKey = some key) : Resolves x stage d d (.ok key)
  | unread (e : TokenStoreError) (hpass : password x.env = none)
      (hread : x.fail = some (.readKey stage)) : Resolves x stage d d (.error e)
  | undecodable (e : TokenStoreError) (hpass : password x.env = none) (hkey : d.key ≠ none)
      (hnone : d.key.bind C.decodeKey = none) : Resolves x stage d d (.error e)

section

variable {C} {x : Surroundings Key Nonce} {stage : Stage} {d d' : Disk Bytes}

lemma writeKey_resolves (stage : Stage) {key : Key} (hkey : resolved C x d = some key)
    (hcomes : password x.env = none → d.key = none ∧ x.fail ≠ some (.readKey stage)) :
    Resolves C x stage d (writeKey C x stage key d).1
      ((writeKey C x stage key d).2.map fun _ => key) := by
  unfold writeKey
  cases hfault : x.keyFault stage with
  | none => exact .written key hkey hcomes hfault
  | some fault => cases fault <;> exact .unwritten key .io _ hkey hcomes hfault

lemma resolveKey_resolves :
    Resolves C x stage d (resolveKey C x stage d).1 (resolveKey C x stage d).2 := by
  unfold resolveKey
  cases hpass : password x.env with
  | some pass =>
      have hkey : resolved C x d = some (C.digest pass) := by simp [resolved, keyIn, hpass]
      have h := writeKey_resolves stage hkey (by simp [hpass])
      simp only
      generalize writeKey C x stage (C.digest pass) d = w at h
      rcases w with ⟨d', _ | ⟨⟩⟩ <;> exact h
  | none =>
      unfold readKey
      by_cases hread : x.fail = some (.readKey stage)
      · simp only [hread, if_true]
        exact .unread _ hpass hread
      simp only [hread, if_false]
      cases hraw : d.key with
      | none =>
          have hkey : resolved C x d = some x.fresh := by simp [resolved, hpass, hraw]
          have h := writeKey_resolves stage hkey fun _ => ⟨hraw, hread⟩
          simp only
          generalize writeKey C x stage x.fresh d = w at h
          rcases w with ⟨d', _ | ⟨⟩⟩ <;> exact h
      | some raw =>
          cases hdecode : C.decodeKey raw with
          | none =>
              simp only [hdecode]
              exact .undecodable _ hpass (by simp [hraw]) (by simp [hraw, hdecode])
          | some key =>
              simp only [hdecode]
              exact .found key hpass hread (by simp [hraw, hdecode])

namespace Resolves

variable {r : Except TokenStoreError Key} {key : Key}

lemma tokens (h : Resolves C x stage d d' r) : d'.tokens = d.tokens := by
  cases h <;> rfl

lemma resolved_eq (h : Resolves C x stage d d' (.ok key)) : resolved C x d = some key := by
  cases h with
  | written key hkey hcomes hfault => exact hkey
  | found key hpass hread hkey =>
      obtain ⟨raw, hraw, hdecode⟩ := Option.bind_eq_some_iff.mp hkey
      simp [resolved, keyIn, hpass, hraw, hdecode]

/-- The key file holds the key afterwards. -/
lemma key_file (h : Resolves C x stage d d' (.ok key)) : d'.key.bind C.decodeKey = some key := by
  cases h with
  | written key hkey hcomes hfault => exact C.decodeKey_encodeKey key
  | found key hpass hread hkey => exact hkey

/-- Resolving again gives the same key. -/
lemma resolved_again (h : Resolves C x stage d d' (.ok key)) : resolved C x d' = some key := by
  obtain ⟨raw, hraw, hdecode⟩ := Option.bind_eq_some_iff.mp h.key_file
  have hkey := h.resolved_eq
  cases hpass : password x.env with
  | none => simp [resolved, keyIn, hpass, hraw, hdecode]
  | some pass => simpa [resolved, keyIn, hpass] using hkey

/-- A settled key file changes only when it is cut. -/
lemma settled (h : Resolves C x stage d d' r) (hd : KeySettled C x d) :
    d' = d ∨ ∃ n, x.fail = some (.writeKey stage (.cut n)) ∧
      (password x.env = none → d.key = none) := by
  have hsame : ∀ key, resolved C x d = some key → (password x.env = none → d.key = none) →
      d.key = some (C.encodeKey key) := by
    intro key hkey hcomes
    unfold KeySettled at hd
    cases hpass : password x.env with
    | none =>
        rw [hpass] at hd
        exact absurd (hcomes hpass) hd
    | some pass =>
        rw [hpass] at hd
        obtain rfl : C.digest pass = key := by simpa [resolved, keyIn, hpass] using hkey
        exact hd
  cases h with
  | written key hkey hcomes hfault =>
      left
      rw [← hsame key hkey fun hpass => (hcomes hpass).1]
  | unwritten key e fault hkey hcomes hfault =>
      have hold := hsame key hkey fun hpass => (hcomes hpass).1
      cases fault with
      | dir => exact .inl rfl
      | create => exact .inl rfl
      | cut n => exact .inr ⟨n, keyFault_eq hfault, fun hpass => (hcomes hpass).1⟩
      | mode =>
          left
          show { d with key := some (C.encodeKey key) } = d
          rw [← hold]
  | found => exact .inl rfl
  | unread => exact .inl rfl
  | undecodable => exact .inl rfl

/-- The failures that stop before the key is written leave the key file and give no key. -/
lemma early (h : Resolves C x stage d d' r)
    (hfail : (x.fail = some (.readKey stage) ∧ password x.env = none) ∨
      ∃ fault, x.fail = some (.writeKey stage fault) ∧ (fault = .dir ∨ fault = .create) ∧
        (password x.env = none → d.key = none)) :
    d' = d ∧ ∃ e, r = .error e := by
  cases h with
  | written key hkey hcomes hfault =>
      rcases hfail with ⟨hread, hpass⟩ | ⟨fault, hwrite, -, -⟩
      · exact absurd hread (hcomes hpass).2
      · simp [Surroundings.keyFault, hwrite] at hfault
  | unwritten key e fault hkey hcomes hfault =>
      refine ⟨?_, e, rfl⟩
      rcases hfail with ⟨hread, hpass⟩ | ⟨fault', hwrite, hearly, -⟩
      · exact absurd hread (hcomes hpass).2
      · obtain rfl : fault' = fault := by simpa [Surroundings.keyFault, hwrite] using hfault
        rcases hearly with rfl | rfl <;> rfl
  | found key hpass hread hkey =>
      rcases hfail with ⟨hread', -⟩ | ⟨fault, -, -, hcomes⟩
      · exact absurd hread' hread
      · rw [hcomes hpass] at hkey
        cases hkey
  | unread e hpass hread => exact ⟨rfl, e, rfl⟩
  | undecodable e hpass hkey hnone => exact ⟨rfl, e, rfl⟩

/-- Without a key, an operation failed or the key file cannot be decoded. -/
lemma failure {e : TokenStoreError} (h : Resolves C x stage d d' (.error e)) :
    (∃ fault, x.fail = some (.writeKey stage fault) ∧ (password x.env = none → d.key = none)) ∨
      (x.fail = some (.readKey stage) ∧ password x.env = none) ∨
      (d' = d ∧ password x.env = none ∧ d.key ≠ none ∧ d.key.bind C.decodeKey = none) := by
  cases h with
  | unwritten key e fault hkey hcomes hfault =>
      exact .inl ⟨fault, keyFault_eq hfault, fun hpass => (hcomes hpass).1⟩
  | unread e hpass hread => exact .inr (.inl ⟨hread, hpass⟩)
  | undecodable e hpass hkey hnone => exact .inr (.inr ⟨rfl, hpass, hkey, hnone⟩)

end Resolves

/-! ## The outcomes of reading and writing -/

/-- What reading the token file leads to. -/
inductive Reads (C : Codec Key Nonce Bytes) (x : Surroundings Key Nonce) (d : Disk Bytes) :
    Disk Bytes → Except TokenStoreError (OrderedMap String String) → Prop
  | unread (e : TokenStoreError) (hread : x.fail = some .readTokens) : Reads C x d d (.error e)
  | absent (hread : x.fail ≠ some .readTokens) (htokens : d.tokens = none) :
      Reads C x d d (.ok .empty)
  | short (e : TokenStoreError) (h : TooShort C d) : Reads C x d d (.error e)
  | keyless (blob : Bytes) (d' : Disk Bytes) (e : TokenStoreError)
      (hread : x.fail ≠ some .readTokens) (htokens : d.tokens = some blob)
      (hsplit : C.split blob ≠ none) (h : Resolves C x .decrypt d d' (.error e)) :
      Reads C x d d' (.error e)
  | closed (blob : Bytes) (d' : Disk Bytes) (key : Key) (e : TokenStoreError)
      (hread : x.fail ≠ some .readTokens) (htokens : d.tokens = some blob)
      (hsplit : C.split blob ≠ none) (h : Resolves C x .decrypt d d' (.ok key))
      (hclosed : openTokens C key blob = none) : Reads C x d d' (.error e)
  | opened (blob : Bytes) (d' : Disk Bytes) (key : Key) (map : OrderedMap String String)
      (hread : x.fail ≠ some .readTokens) (htokens : d.tokens = some blob)
      (h : Resolves C x .decrypt d d' (.ok key)) (hopen : openTokens C key blob = some map) :
      Reads C x d d' (.ok map)

lemma readAll_reads : Reads C x d (readAll C x d).1 (readAll C x d).2 := by
  unfold readAll
  by_cases hread : x.fail = some .readTokens
  · simp only [hread, if_true]
    exact .unread _ hread
  simp only [hread, if_false]
  cases htokens : d.tokens with
  | none => exact .absent hread htokens
  | some blob =>
      cases hsplit : C.split blob with
      | none =>
          simp only [hsplit]
          exact .short _ ⟨blob, htokens, hsplit⟩
      | some nc =>
          obtain ⟨nonce, ciphertext⟩ := nc
          have hne : C.split blob ≠ none := by simp [hsplit]
          have h := @resolveKey_resolves _ _ _ C x .decrypt d
          simp only [hsplit]
          generalize resolveKey C x .decrypt d = w at h
          obtain ⟨d', e | key⟩ := w
          · exact .keyless blob d' e hread htokens hne h
          cases hplain : C.decrypt key nonce ciphertext with
          | none =>
              simp only [hplain]
              exact .closed blob d' key _ hread htokens hne h
                (by simp [openTokens, hsplit, hplain])
          | some plain =>
              cases hmap : C.fromSlice plain with
              | none =>
                  simp only [hplain, hmap]
                  exact .closed blob d' key _ hread htokens hne h
                    (by simp [openTokens, hsplit, hplain, hmap])
              | some map =>
                  simp only [hplain, hmap]
                  exact .opened blob d' key map hread htokens h
                    (by simp [openTokens, hsplit, hplain, hmap])

/-- What writing the token file leads to. -/
inductive Writes (C : Codec Key Nonce Bytes) (x : Surroundings Key Nonce)
    (map : OrderedMap String String) (d : Disk Bytes) :
    Disk Bytes → Except TokenStoreError Unit → Prop
  | dirless (e : TokenStoreError) (hdir : x.fail = some (.writeTokens .dir)) :
      Writes C x map d d (.error e)
  | keyless (d' : Disk Bytes) (e : TokenStoreError) (hdir : x.fail ≠ some (.writeTokens .dir))
      (h : Resolves C x .encrypt d d' (.error e)) : Writes C x map d d' (.error e)
  | written (d' : Disk Bytes) (key : Key) (hdir : x.fail ≠ some (.writeTokens .dir))
      (h : Resolves C x .encrypt d d' (.ok key)) :
      Writes C x map d { d' with tokens := some (sealTokens C key x.nonce map) } (.ok ())
  | failed (d' : Disk Bytes) (key : Key) (e : TokenStoreError) (fault : WriteFault)
      (hdir : x.fail ≠ some (.writeTokens .dir)) (h : Resolves C x .encrypt d d' (.ok key))
      (hfault : x.fail = some (.writeTokens fault)) :
      Writes C x map d
        { d' with tokens := (overwrite C (some fault) d'.tokens (sealTokens C key x.nonce map)).1 }
        (.error e)

lemma writeAll_writes (map : OrderedMap String String) :
    Writes C x map d (writeAll C x map d).1 (writeAll C x map d).2 := by
  unfold writeAll beginWrite
  by_cases hdir : x.tokensFault = some .dir
  · simp only [hdir, if_true]
    exact .dirless _ (tokensFault_eq hdir)
  have hfail : x.fail ≠ some (.writeTokens .dir) := by
    intro h
    simp [Surroundings.tokensFault, h] at hdir
  simp only [hdir, if_false]
  have h := @resolveKey_resolves _ _ _ C x .encrypt d
  generalize resolveKey C x .encrypt d = w at h
  obtain ⟨d', e | key⟩ := w
  · exact .keyless d' e hfail h
  simp only [endWrite]
  cases hfault : x.tokensFault with
  | none => exact .written d' key hfail h
  | some fault => cases fault <;> exact .failed d' key .io _ hfail h (tokensFault_eq hfault)

namespace Reads

variable {r : Except TokenStoreError (OrderedMap String String)} {map : OrderedMap String String}

lemma tokens (h : Reads C x d d' r) : d'.tokens = d.tokens := by
  cases h with
  | keyless _ _ _ _ _ _ h => exact h.tokens
  | closed _ _ _ _ _ _ _ h _ => exact h.tokens
  | opened _ _ _ _ _ _ h _ => exact h.tokens
  | _ => rfl

lemma opened_eq (h : Reads C x d d' (.ok map)) : Secrets.opened C x d = some map := by
  cases h with
  | absent hread htokens => simp [Secrets.opened, htokens]
  | opened blob d' key map hread htokens h hopen =>
      simp [Secrets.opened, htokens, h.resolved_eq, hopen]

end Reads

/-! ## The outcomes of a call -/

lemma Call.update_get? {call : Call} {id : String} (h : call.written ≠ some id)
    (map : OrderedMap String String) : (call.update map).get? id = map.get? id := by
  cases call with
  | get _ => rfl
  | set id' value => exact map.get?_insert_of_ne (by rintro rfl; exact h rfl) value
  | delete id' => exact map.get?_erase_of_ne (by rintro rfl; exact h rfl)

/-- Reading fails, or there is nothing to write, or the values are written. -/
lemma Call.run_cases {call : Call} {r : Except TokenStoreError Unit}
    (h : call.run C x d = (d', r)) :
    (∃ e, Reads C x d d' (.error e) ∧ r = .error e) ∨
      (∃ map, Reads C x d d' (.ok map) ∧ call.writes map = false ∧ r = .ok ()) ∨
        ∃ map d₁, Reads C x d d₁ (.ok map) ∧ call.writes map = true ∧
          Writes C x (call.update map) d₁ d' r := by
  have hreads := readAll_reads (C := C) (x := x) (d := d)
  cases call with
  | get id =>
      simp only [run, Secrets.get] at h
      generalize readAll C x d = w at h hreads
      obtain ⟨d₁, e | map⟩ := w
      · cases h
        exact .inl ⟨e, hreads, rfl⟩
      · cases h
        exact .inr (.inl ⟨map, hreads, rfl, rfl⟩)
  | set id value =>
      simp only [run, Secrets.set] at h
      generalize readAll C x d = w at h hreads
      obtain ⟨d₁, e | map⟩ := w
      · cases h
        exact .inl ⟨e, hreads, rfl⟩
      · have hwrites := writeAll_writes (C := C) (x := x) (d := d₁) (map.insert id value)
        simp only at h
        rw [h] at hwrites
        exact .inr (.inr ⟨map, d₁, hreads, rfl, hwrites⟩)
  | delete id =>
      simp only [run, Secrets.delete] at h
      generalize readAll C x d = w at h hreads
      obtain ⟨d₁, e | map⟩ := w
      · cases h
        exact .inl ⟨e, hreads, rfl⟩
      cases hid : map.contains id with
      | false =>
          simp only [hid] at h
          cases h
          exact .inr (.inl ⟨map, hreads, hid, rfl⟩)
      | true =>
          have hwrites := writeAll_writes (C := C) (x := x) (d := d₁) (map.erase id)
          simp only [hid, if_true] at h
          rw [h] at hwrites
          exact .inr (.inr ⟨map, d₁, hreads, hid, hwrites⟩)

end

end Secrets
end Pawrly
