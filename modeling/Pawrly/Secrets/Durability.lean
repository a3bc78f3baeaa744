import Pawrly.Secrets.CallOutcomes
import Pawrly.Lib.LabelledRun

/-!
# When the encrypted token file is durable

A call is durable when a failure leaves both files as they were, and every environment that could
read the store still can, with all values but the written one (`Durable`).

The cipher key is resolved before it is tried on the token file, and resolving it overwrites the key
file.  So a call is durable in three cases (`Safe`): the key that its environment resolves to is in
the key file already and no file is torn; the call ends before the key is written; or the key opens
the token file and no operation of the call fails.  Runs of such calls are durable
(`durable_of_safe`).
-/

namespace Pawrly
namespace Secrets

open LabelledRun

variable {Key Nonce Bytes : Type} (C : Codec Key Nonce Bytes)

/-! ## What can be read -/

/-- What the store holds in an environment; without a token file there is nothing to read. -/
def contents (env : Option String) (d : Disk Bytes) : Option (OrderedMap String String) :=
  d.tokens.bind fun blob => (keyIn C env d).bind fun key => openTokens C key blob

/-- A failure changes nothing, and what could be read before can be read afterwards. -/
structure Durable (x : Surroundings Key Nonce) (call : Call) (d : Disk Bytes) : Prop where
  failed : ∀ d' e, call.run C x d = (d', .error e) → d' = d
  readable : ∀ env m, contents C env d = some m →
    ∃ m', contents C env (call.run C x d).1 = some m' ∧
      ∀ id, call.written ≠ some id → m'.get? id = m.get? id

/-- The token file was written by the store. -/
def WellWritten (d : Disk Bytes) : Prop :=
  ∀ blob, d.tokens = some blob → ∃ key nonce map, blob = sealTokens C key nonce map

/-! ## What a call needs -/

/-- The call comes to make its cipher at the stage. -/
def Ciphers (x : Surroundings Key Nonce) (call : Call) (d : Disk Bytes) : Stage → Prop
  | .decrypt => ∃ blob, d.tokens = some blob ∧ C.split blob ≠ none
  | .encrypt => ∃ map, opened C x d = some map ∧ call.writes map = true

/-- The call comes to the operation, unless another one fails before. -/
def Reaches (x : Surroundings Key Nonce) (call : Call) (d : Disk Bytes) : Failure → Prop
  | .readTokens => True
  | .readKey stage => password x.env = none ∧ Ciphers C x call d stage
  | .writeKey stage _ => (password x.env = none → d.key = none) ∧ Ciphers C x call d stage
  | .writeTokens _ => Ciphers C x call d .encrypt

/-- The file is not as it was, or holds what a failed call has written. -/
def Failure.tears : Failure → Prop
  | .writeKey _ fault => ∃ n, fault = .cut n
  | .writeTokens fault => (∃ n, fault = .cut n) ∨ fault = .mode
  | _ => False

/-- The failure strikes before the key is written. -/
def Failure.early (d : Disk Bytes) : Failure → Prop
  | .readTokens => True
  | .readKey stage => stage = .encrypt → d.tokens = none
  | .writeKey stage fault =>
      (stage = .encrypt → d.tokens = none) ∧ (fault = .dir ∨ fault = .create)
  | .writeTokens fault => d.tokens = none ∧ fault = .dir

/-- The resolved key is in the key file and no file is torn; or the call ends before the key is
written; or the key opens the token file and no operation of the call fails. -/
def Safe (x : Surroundings Key Nonce) (call : Call) (d : Disk Bytes) : Prop :=
  (KeySettled C x d ∧ ∀ f, x.fail = some f → Reaches C x call d f → ¬ f.tears) ∨
    (TooShort C d ∨ ∃ f, x.fail = some f ∧ Reaches C x call d f ∧ f.early d) ∨
      (opened C x d ≠ none ∧ ∀ f, x.fail = some f → ¬ Reaches C x call d f)

section

variable {C} {x : Surroundings Key Nonce} {d d' : Disk Bytes}

/-- A token file that the store wrote is opened by one key only. -/
lemma WellWritten.unique (h : WellWritten C d) {blob : Bytes} (hblob : d.tokens = some blob)
    {key key' : Key} {m m' : OrderedMap String String} (hm : openTokens C key blob = some m)
    (hm' : openTokens C key' blob = some m') : key = key' ∧ m = m' := by
  obtain ⟨k, n, map, rfl⟩ := h blob hblob
  have hopen : ∀ k' m', openTokens C k' (sealTokens C k n map) = some m' → k = k' := by
    intro k' m' hk'
    by_contra hne
    unfold openTokens sealTokens at hk'
    rw [C.split_join, Option.bind_some, C.decrypt_wrong k k' n _ hne] at hk'
    cases hk'
  obtain rfl := hopen key m hm
  obtain rfl := hopen key' m' hm'
  rw [hm] at hm'
  exact ⟨rfl, Option.some.inj hm'⟩

/-! ## Calls that succeed -/

lemma keyIn_of_file {env : Option String} {key : Key} (h : keyIn C env d = some key)
    (hfile : d'.key.bind C.decodeKey = some key) : keyIn C env d' = some key := by
  unfold keyIn at h ⊢
  cases hpass : password env with
  | none => exact hfile
  | some pass =>
      rw [hpass] at h
      exact h

/-- What could be read before a call that succeeds can be read afterwards. -/
lemma readable_of_ok {call : Call} (hd : WellWritten C d) (h : call.run C x d = (d', .ok ()))
    {env : Option String} {m : OrderedMap String String} (hm : contents C env d = some m) :
    ∃ m', contents C env d' = some m' ∧
      ∀ id, call.written ≠ some id → m'.get? id = m.get? id := by
  obtain ⟨blob, hblob, hm⟩ := Option.bind_eq_some_iff.mp hm
  obtain ⟨key, hkey, hm⟩ := Option.bind_eq_some_iff.mp hm
  -- the key that the call resolves is the one that the environment had
  have hreads : ∀ d₁ map, Reads C x d d₁ (.ok map) →
      map = m ∧ d₁.key.bind C.decodeKey = some key ∧ resolved C x d₁ = some key := by
    intro d₁ map h
    cases h with
    | absent hread htokens =>
        rw [hblob] at htokens
        cases htokens
    | opened blob' d₁ key' map hread htokens h hopen =>
        obtain rfl : blob' = blob := Option.some.inj (htokens.symm.trans hblob)
        obtain ⟨rfl, rfl⟩ := hd.unique hblob hopen hm
        exact ⟨rfl, h.key_file, h.resolved_again⟩
  rcases Call.run_cases h with ⟨e, -, he⟩ | ⟨map, hread, -, -⟩ | ⟨map, d₁, hread, -, hwrite⟩
  · cases he
  · obtain ⟨rfl, hfile, -⟩ := hreads d' map hread
    refine ⟨map, ?_, fun _ _ => rfl⟩
    unfold contents
    rw [hread.tokens, hblob, Option.bind_some, keyIn_of_file hkey hfile, Option.bind_some, hm]
  · obtain ⟨rfl, -, hres⟩ := hreads d₁ map hread
    refine ⟨call.update map, ?_, fun id hid => Call.update_get? hid map⟩
    cases hwrite with
    | written d₂ key₂ hdir h₂ =>
        obtain rfl : key = key₂ := Option.some.inj (hres.symm.trans h₂.resolved_eq)
        have hafter := keyIn_of_file hkey
          (show ({ d₂ with tokens := some (sealTokens C key x.nonce (call.update map)) } :
            Disk Bytes).key.bind C.decodeKey = some key from h₂.key_file)
        unfold contents
        rw [Option.bind_some, hafter, Option.bind_some, openTokens_seal]

lemma wellWritten_of_ok {call : Call} (hd : WellWritten C d)
    (h : call.run C x d = (d', .ok ())) : WellWritten C d' := by
  intro blob hblob
  rcases Call.run_cases h with ⟨e, -, he⟩ | ⟨map, hread, -, -⟩ | ⟨map, d₁, hread, -, hwrite⟩
  · cases he
  · exact hd blob (hread.tokens ▸ hblob)
  · cases hwrite with
    | written d₂ key hdir h₂ => exact ⟨key, x.nonce, call.update map, (Option.some.inj hblob).symm⟩

/-! ## Calls that fail -/

/-- A settled key file changes only when it is cut. -/
lemma Reads.settled {r : Except TokenStoreError (OrderedMap String String)} (call : Call)
    (h : Reads C x d d' r) (hd : KeySettled C x d) :
    d' = d ∨ ∃ f, x.fail = some f ∧ Reaches C x call d f ∧ f.tears := by
  have hkey : ∀ blob d' r, d.tokens = some blob → C.split blob ≠ none →
      Resolves C x .decrypt d d' r →
      d' = d ∨ ∃ f, x.fail = some f ∧ Reaches C x call d f ∧ f.tears := by
    intro blob d' r htokens hsplit h
    rcases h.settled hd with hsame | ⟨n, hfail, hcomes⟩
    · exact .inl hsame
    · exact .inr ⟨_, hfail, ⟨hcomes, blob, htokens, hsplit⟩, n, rfl⟩
  cases h with
  | unread => exact .inl rfl
  | absent => exact .inl rfl
  | short => exact .inl rfl
  | keyless blob d' e hread htokens hsplit h => exact hkey blob _ _ htokens hsplit h
  | closed blob d' key e hread htokens hsplit h hclosed => exact hkey blob _ _ htokens hsplit h
  | opened blob d' key map hread htokens h hopen =>
      refine hkey blob _ _ htokens (fun hshort => ?_) h
      rw [openTokens_short hshort] at hopen
      cases hopen

/-- A call that fails though the key is settled changes no file, unless it tears one. -/
lemma settled_failed {call : Call} {e : TokenStoreError} (hd : KeySettled C x d)
    (h : call.run C x d = (d', .error e)) :
    d' = d ∨ ∃ f, x.fail = some f ∧ Reaches C x call d f ∧ f.tears := by
  rcases Call.run_cases h with ⟨e, hread, -⟩ | ⟨map, -, -, he⟩ | ⟨map, d₁, hread, hw, hwrite⟩
  · exact hread.settled call hd
  · cases he
  rcases hread.settled call hd with rfl | htorn
  · have hciphers : Ciphers C x call d₁ .encrypt := ⟨map, hread.opened_eq, hw⟩
    have hkey : ∀ d' r, Resolves C x .encrypt d₁ d' r →
        d' = d₁ ∨ ∃ f, x.fail = some f ∧ Reaches C x call d₁ f ∧ f.tears := by
      intro d' r h
      rcases h.settled hd with hsame | ⟨n, hfail, hcomes⟩
      · exact .inl hsame
      · exact .inr ⟨_, hfail, ⟨hcomes, hciphers⟩, n, rfl⟩
    cases hwrite with
    | dirless => exact .inl rfl
    | keyless d' e hdir h₂ => exact hkey _ _ h₂
    | failed d₂ key e fault hdir h₂ hfault =>
        rcases hkey _ _ h₂ with rfl | htorn
        · cases fault with
          | dir => exact .inl rfl
          | create => exact .inl rfl
          | cut n => exact .inr ⟨_, hfault, hciphers, .inl ⟨n, rfl⟩⟩
          | mode => exact .inr ⟨_, hfault, hciphers, .inr rfl⟩
        · exact .inr htorn
  · exact .inr htorn

/-- A token file that is too short ends the call. -/
lemma short_failed {call : Call} {e : TokenStoreError} (hd : TooShort C d)
    (h : call.run C x d = (d', .error e)) : d' = d := by
  obtain ⟨blob, hblob, hshort⟩ := hd
  have hsame : ∀ d' r, Reads C x d d' r → d' = d ∧ ∃ e, r = .error e := by
    intro d' r h
    cases h with
    | unread e => exact ⟨rfl, e, rfl⟩
    | absent hread htokens =>
        rw [hblob] at htokens
        cases htokens
    | short e => exact ⟨rfl, e, rfl⟩
    | keyless blob' d' e hread htokens hsplit h =>
        obtain rfl := Option.some.inj (htokens.symm.trans hblob)
        exact absurd hshort hsplit
    | closed blob' d' key e hread htokens hsplit h hclosed =>
        obtain rfl := Option.some.inj (htokens.symm.trans hblob)
        exact absurd hshort hsplit
    | opened blob' d' key map hread htokens h hopen =>
        obtain rfl := Option.some.inj (htokens.symm.trans hblob)
        rw [openTokens_short hshort] at hopen
        cases hopen
  rcases Call.run_cases h with ⟨e, hread, -⟩ | ⟨map, -, -, he⟩ | ⟨map, d₁, hread, -, -⟩
  · exact (hsame _ _ hread).1
  · cases he
  · obtain ⟨-, e, he⟩ := hsame _ _ hread
    cases he

/-- A failure before the key is written ends the call, with nothing changed. -/
lemma early_failed {call : Call} {e : TokenStoreError} {f : Failure} (hfail : x.fail = some f)
    (hreach : Reaches C x call d f) (hearly : f.early d)
    (h : call.run C x d = (d', .error e)) : d' = d := by
  -- the failure of the key at a stage, as `Resolves.early` wants it
  have hkey : ∀ stage, (∃ fault, f = .readKey stage ∨ f = .writeKey stage fault) →
      (x.fail = some (.readKey stage) ∧ password x.env = none) ∨
        ∃ fault, x.fail = some (.writeKey stage fault) ∧ (fault = .dir ∨ fault = .create) ∧
          (password x.env = none → d.key = none) := by
    rintro stage ⟨fault, rfl | rfl⟩
    · exact .inl ⟨hfail, hreach.1⟩
    · exact .inr ⟨fault, hfail, hearly.2, hreach.1⟩
  cases htokens : d.tokens with
  | some blob =>
      have hread : ∀ d' r, Reads C x d d' r → d' = d ∧ ∃ e, r = .error e := by
        intro d' r h
        have hsome : d.tokens ≠ none := by simp [htokens]
        have hdecrypt : x.fail ≠ some .readTokens →
            ∃ fault, f = .readKey .decrypt ∨ f = .writeKey .decrypt fault := by
          intro hne
          cases f with
          | readTokens => exact absurd hfail hne
          | readKey stage =>
              cases stage with
              | decrypt => exact ⟨.dir, .inl rfl⟩
              | encrypt => exact absurd (hearly rfl) hsome
          | writeKey stage fault =>
              cases stage with
              | decrypt => exact ⟨fault, .inr rfl⟩
              | encrypt => exact absurd (hearly.1 rfl) hsome
          | writeTokens fault => exact absurd hearly.1 hsome
        cases h with
        | unread e => exact ⟨rfl, e, rfl⟩
        | absent hread hnone => exact absurd hnone hsome
        | short e => exact ⟨rfl, e, rfl⟩
        | keyless blob d' e hread htokens hsplit h =>
            exact ⟨(h.early (hkey .decrypt (hdecrypt hread))).1, e, rfl⟩
        | closed blob d' key e hread htokens hsplit h hclosed =>
            obtain ⟨-, e, he⟩ := h.early (hkey .decrypt (hdecrypt hread))
            cases he
        | opened blob d' key map hread htokens h hopen =>
            obtain ⟨-, e, he⟩ := h.early (hkey .decrypt (hdecrypt hread))
            cases he
      rcases Call.run_cases h with ⟨e, h, -⟩ | ⟨map, -, -, he⟩ | ⟨map, d₁, h, -, -⟩
      · exact (hread _ _ h).1
      · cases he
      · obtain ⟨-, e, he⟩ := hread _ _ h
        cases he
  | none =>
      have hsame : ∀ d' r, Reads C x d d' r → d' = d := by
        intro d' r h
        cases h with
        | unread => rfl
        | absent => rfl
        | short => rfl
        | keyless blob _ _ _ hsome => simp [htokens] at hsome
        | closed blob _ _ _ _ hsome => simp [htokens] at hsome
        | opened blob _ _ _ _ hsome => simp [htokens] at hsome
      rcases Call.run_cases h with ⟨e, h, -⟩ | ⟨map, -, -, he⟩ | ⟨map, d₁, h, -, hwrite⟩
      · exact hsame _ _ h
      · cases he
      obtain rfl := hsame _ _ h
      have hread : x.fail ≠ some .readTokens := by
        cases h with
        | absent hread _ => exact hread
        | opened _ _ _ _ hread _ _ _ => exact hread
      have hencrypt : x.fail ≠ some (.writeTokens .dir) →
          ∃ fault, f = .readKey .encrypt ∨ f = .writeKey .encrypt fault := by
        intro hne
        have hno : ¬ Ciphers C x call d₁ .decrypt := by
          rintro ⟨blob, hblob, -⟩
          simp [htokens] at hblob
        cases f with
        | readTokens => exact absurd hfail hread
        | readKey stage =>
            cases stage with
            | decrypt => exact absurd hreach.2 hno
            | encrypt => exact ⟨.dir, .inl rfl⟩
        | writeKey stage fault =>
            cases stage with
            | decrypt => exact absurd hreach.2 hno
            | encrypt => exact ⟨fault, .inr rfl⟩
        | writeTokens fault =>
            obtain ⟨-, rfl⟩ := hearly
            exact absurd hfail hne
      cases hwrite with
      | dirless => rfl
      | keyless d' e hdir h₂ => exact (h₂.early (hkey .encrypt (hencrypt hdir))).1
      | failed d₂ key e fault hdir h₂ hfault =>
          obtain ⟨-, e, he⟩ := h₂.early (hkey .encrypt (hencrypt hdir))
          cases he

/-- With the right key a call fails only at an operation, or over a key file that is not written. -/
lemma opened_failed {call : Call} {e : TokenStoreError} (hopen : opened C x d ≠ none)
    (hkey : ¬ KeySettled C x d) (h : call.run C x d = (d', .error e)) :
    ∃ f, x.fail = some f ∧ Reaches C x call d f := by
  have hnone : password x.env = none → d.key = none := by
    intro hpass
    by_contra hne
    exact hkey (by simpa [KeySettled, hpass] using hne)
  -- a failure to resolve the key at a stage where the key file has not become undecodable
  have hfailure : ∀ stage d₁ d' e, Ciphers C x call d stage →
      (password x.env = none → d₁.key = none ∨ d₁.key.bind C.decodeKey ≠ none) →
      (d₁.key = none → d.key = none) → Resolves C x stage d₁ d' (.error e) →
      ∃ f, x.fail = some f ∧ Reaches C x call d f := by
    intro stage d₁ d' e hciphers hdecode hback h
    rcases h.failure with ⟨fault, hfail, hcomes⟩ | ⟨hfail, hpass⟩ | ⟨-, hpass, hne, hbad⟩
    · exact ⟨_, hfail, fun hpass => hback (hcomes hpass), hciphers⟩
    · exact ⟨_, hfail, hpass, hciphers⟩
    · exact ((hdecode hpass).elim hne fun hgood => hgood hbad).elim
  have hread : ∀ d' e, Reads C x d d' (.error e) → ∃ f, x.fail = some f ∧ Reaches C x call d f := by
    intro d' e h
    cases h with
    | unread e hread => exact ⟨_, hread, trivial⟩
    | short e hshort =>
        obtain ⟨blob, hblob, hshort⟩ := hshort
        refine absurd ?_ hopen
        simp [opened, hblob, openTokens_short hshort]
    | keyless blob d' e hread htokens hsplit h =>
        exact hfailure .decrypt d d' e ⟨blob, htokens, hsplit⟩ (fun hpass => .inl (hnone hpass))
          (fun hd => hd) h
    | closed blob d' key e hread htokens hsplit h hclosed =>
        refine absurd ?_ hopen
        simp [opened, htokens, h.resolved_eq, hclosed]
  rcases Call.run_cases h with ⟨e, h, -⟩ | ⟨map, -, -, he⟩ | ⟨map, d₁, h, hw, hwrite⟩
  · exact hread _ _ h
  · cases he
  have hciphers : Ciphers C x call d .encrypt := ⟨map, h.opened_eq, hw⟩
  cases hwrite with
  | dirless e hdir => exact ⟨_, hdir, hciphers⟩
  | failed d₂ key e fault hdir h₂ hfault => exact ⟨_, hfault, hciphers⟩
  | keyless d' e hdir h₂ =>
      cases h with
      | absent hread htokens =>
          exact hfailure .encrypt d d' e hciphers (fun hpass => .inl (hnone hpass)) (fun hd => hd) h₂
      | opened blob d₁ key map hread htokens h hopen =>
          refine hfailure .encrypt d₁ d' e hciphers (fun _ => .inr ?_) (fun hd => ?_) h₂
          · simp [h.key_file]
          · have hfile := h.key_file
            rw [hd] at hfile
            cases hfile

end

/-! ## Safe calls and their runs -/

section

variable {C} {x : Surroundings Key Nonce} {call : Call} {d : Disk Bytes}

/-- A safe call that fails changes no file. -/
lemma Safe.failed (h : Safe C x call d) {d' : Disk Bytes} {e : TokenStoreError}
    (hrun : call.run C x d = (d', .error e)) : d' = d := by
  rcases h with ⟨hsettled, hwhole⟩ | (hshort | ⟨f, hfail, hreach, hearly⟩) | ⟨hopen, hno⟩
  · rcases settled_failed hsettled hrun with hsame | ⟨f, hfail, hreach, htears⟩
    · exact hsame
    · exact absurd htears (hwhole f hfail hreach)
  · exact short_failed hshort hrun
  · exact early_failed hfail hreach hearly hrun
  · by_cases hsettled : KeySettled C x d
    · rcases settled_failed hsettled hrun with hsame | ⟨f, hfail, hreach, -⟩
      · exact hsame
      · exact absurd hreach (hno f hfail)
    · obtain ⟨f, hfail, hreach⟩ := opened_failed hopen hsettled hrun
      exact absurd hreach (hno f hfail)

/-- What a safe call preserves. -/
lemma Safe.durable (h : Safe C x call d) (hd : WellWritten C d) :
    Durable C x call d ∧ WellWritten C (call.run C x d).1 := by
  rcases hrun : call.run C x d with ⟨d', e | ⟨⟩⟩
  · obtain rfl := h.failed hrun
    refine ⟨⟨fun d' e herr => ?_, fun env m hm => ⟨m, ?_, fun _ _ => rfl⟩⟩, hd⟩
    · exact h.failed herr
    · rw [hrun]
      exact hm
  · refine ⟨⟨fun d₁ e herr => ?_, fun env m hm => ?_⟩, wellWritten_of_ok hd hrun⟩
    · rw [hrun] at herr
      cases herr
    · rw [hrun]
      exact readable_of_ok hd hrun hm

end

/-- One call of a sequence, in its surroundings. -/
def callStep (d : Disk Bytes) (label : Surroundings Key Nonce × Call) : Option (Disk Bytes) :=
  some (label.2.run C label.1 d).1

/-- **Durability of safe runs.**  Where every call of a sequence is safe, every call of it is
durable. -/
theorem durable_of_safe {d : Disk Bytes} (hd : WellWritten C d)
    {labels : List (Surroundings Key Nonce × Call)}
    (hsafe : Every (callStep C) (fun d label _ => Safe C label.1 label.2 d) d labels) :
    Every (callStep C) (fun d label _ => Durable C label.1 label.2 d) d labels := by
  refine Every.mono_of_invariant (I := WellWritten C) ?_ hd labels hsafe
  intro d label d' hd hsafe htaken
  obtain rfl := Option.some.inj htaken
  exact hsafe.durable hd

/-! ## Runs on fixed inputs -/

/-- Files as terms. -/
inductive Term
  | values (map : OrderedMap String String)
  | key (text : String)
  | sealed (key : String) (content : Term)
  | framed (content : Term)
  | torn

/-- The codec of terms. -/
def termCodec : Codec String Unit Term where
  digest := fun pass => pass
  encodeKey := .key
  decodeKey := fun | .key text => some text | _ => none
  toVec := .values
  fromSlice := fun | .values map => some map | _ => none
  encrypt := fun key _ content => .sealed key content
  decrypt := fun key _ file =>
    match file with
    | .sealed key' content => if key' = key then some content else none
    | _ => none
  join := fun _ content => .framed content
  split := fun | .framed content => some ((), content) | _ => none
  take := fun _ _ => .torn
  decodeKey_encodeKey := fun _ => rfl
  fromSlice_toVec := fun _ => rfl
  decrypt_encrypt := fun _ _ _ => if_pos rfl
  decrypt_wrong := fun _ _ _ _ h => if_neg h
  split_join := fun _ _ => rfl

/-- A call in which nothing fails. -/
def calm (env : Option String) : Surroundings String Unit :=
  { env := env, fail := none, fresh := "generated", nonce := () }

/-- An empty directory. -/
def noFiles : Disk Term := {}

lemma noFiles_wellWritten : WellWritten termCodec noFiles := fun _ h => by cases h

/-- A password sets a value, and it is read under the password and without it. -/
def setThenRead : List (Surroundings String Unit × Call) :=
  [(calm (some "right"), .set "a" "1"), (calm (some "right"), .get "a"), (calm none, .get "a")]

lemma setThenRead_safe : Every (callStep termCodec)
    (fun d label _ => Safe termCodec label.1 label.2 d) noFiles setThenRead := by
  have hcalm : ∀ env f, (calm env).fail = some f → False := fun env f h => by cases h
  rintro d₁ h₁
  refine ⟨.inr (.inr ⟨by simp [opened, noFiles], fun f hf _ => hcalm _ f hf⟩), ?_⟩
  obtain rfl := Option.some.inj h₁
  rintro d₂ h₂
  refine ⟨.inl ⟨rfl, fun f hf _ _ => hcalm _ f hf⟩, ?_⟩
  obtain rfl := Option.some.inj h₂
  rintro d₃ h₃
  have hsettled : KeySettled termCodec (calm none)
      (Call.run termCodec (calm (some "right")) (Call.run termCodec (calm (some "right")) noFiles
        (.set "a" "1")).1 (.get "a")).1 := Option.some_ne_none _
  exact ⟨.inl ⟨hsettled, fun f hf _ _ => hcalm _ f hf⟩, trivial⟩

theorem setThenRead_durable :
    (WellWritten termCodec noFiles ∧
      Every (callStep termCodec) (fun d label _ => Safe termCodec label.1 label.2 d) noFiles
        setThenRead) ∧
    Every (callStep termCodec) (fun d label _ => Durable termCodec label.1 label.2 d) noFiles
      setThenRead :=
  ⟨⟨noFiles_wellWritten, setThenRead_safe⟩,
    durable_of_safe termCodec noFiles_wellWritten setThenRead_safe⟩

/-- A value is set with a generated key and read under a password. -/
def readUnderPassword : List (Surroundings String Unit × Call) :=
  [(calm none, .set "a" "1"), (calm (some "wrong"), .get "a")]

/-- The read fails and leaves the password's key in place of the key of the values. -/
theorem readUnderPassword_not_durable :
    ¬ Every (callStep termCodec) (fun d label _ => Durable termCodec label.1 label.2 d) noFiles
      readUnderPassword := by
  intro h
  obtain ⟨hget, -⟩ := (h _ rfl).2 _ rfl
  have hfile : some (Term.key "wrong") = some (Term.key "generated") :=
    congrArg Disk.key (hget.failed _ (.corrupt _) rfl)
  simp at hfile

end Secrets
end Pawrly
