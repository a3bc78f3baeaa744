import Pawrly.Lib.OrderedMap
import Mathlib.Data.String.Basic

/-!
# The encrypted token file

`EncryptedFileTokenStore` of `pawrly-secrets/src/variables/tokens.rs`: a file of encrypted values
and, beside it, the file of the key.  A call reads the environment variable `PAWRLY_TOKEN_KEY`, may
write both files in place, and ends at the first operation on a file that fails.
-/

namespace Pawrly
namespace Secrets

/-! ## Outside code -/

/-- Hashing, encoding and encryption: a ciphertext is opened by the key that made it and by no
other. -/
structure Codec (Key Nonce Bytes : Type) where
  digest : String → Key
  encodeKey : Key → Bytes
  decodeKey : Bytes → Option Key
  toVec : OrderedMap String String → Bytes
  fromSlice : Bytes → Option (OrderedMap String String)
  encrypt : Key → Nonce → Bytes → Bytes
  decrypt : Key → Nonce → Bytes → Option Bytes
  /-- The nonce, then the ciphertext. -/
  join : Nonce → Bytes → Bytes
  /-- Nothing when the file is shorter than a nonce. -/
  split : Bytes → Option (Nonce × Bytes)
  take : ℕ → Bytes → Bytes
  decodeKey_encodeKey : ∀ k, decodeKey (encodeKey k) = some k
  fromSlice_toVec : ∀ m, fromSlice (toVec m) = some m
  decrypt_encrypt : ∀ k n p, decrypt k n (encrypt k n p) = some p
  decrypt_wrong : ∀ k k' n p, k ≠ k' → decrypt k' n (encrypt k n p) = none
  split_join : ∀ n c, split (join n c) = some (n, c)

/-! ## Files -/

/-- The key file and the token file. -/
structure Disk (Bytes : Type) where
  key : Option Bytes := none
  tokens : Option Bytes := none

/-- The two places of a call where the cipher is made. -/
inductive Stage
  | decrypt
  | encrypt
  deriving DecidableEq

/-- Where the writing of a file fails: at its directory, before it is opened, after some of its bytes,
or when its mode is set. -/
inductive WriteFault
  | dir
  | create
  | cut (bytes : ℕ)
  | mode
  deriving DecidableEq

/-- The operation on a file that fails. -/
inductive Failure
  | readTokens
  | readKey (stage : Stage)
  | writeKey (stage : Stage) (fault : WriteFault)
  | writeTokens (fault : WriteFault)
  deriving DecidableEq

inductive TokenStoreError
  | io
  | corrupt (message : String)
  | keyring

/-- What a call meets: the environment variable, the operation that fails, and random bytes. -/
structure Surroundings (Key Nonce : Type) where
  env : Option String
  fail : Option Failure
  fresh : Key
  nonce : Nonce

section

variable {Key Nonce Bytes : Type} (C : Codec Key Nonce Bytes)

/-- A password that is set; an empty one counts as unset. -/
def password (env : Option String) : Option String := env.filter fun pass => pass ≠ ""

/-- `create_dir_all`, `fs::write` and `set_owner_only`: what the file is afterwards, and whether all
went well. -/
def overwrite (fault : Option WriteFault) (old : Option Bytes) (content : Bytes) :
    Option Bytes × Bool :=
  match fault with
  | none => (some content, true)
  | some .dir => (old, false)
  | some .create => (old, false)
  | some (.cut n) => (some (C.take n content), false)
  | some .mode => (some content, false)

namespace Surroundings

variable {C}

def keyFault (x : Surroundings Key Nonce) (stage : Stage) : Option WriteFault :=
  match x.fail with
  | some (.writeKey stage' fault) => if stage' = stage then some fault else none
  | _ => none

def tokensFault (x : Surroundings Key Nonce) : Option WriteFault :=
  match x.fail with
  | some (.writeTokens fault) => some fault
  | _ => none

end Surroundings

variable (x : Surroundings Key Nonce)

/-! ## The key -/

def writeKey (stage : Stage) (key : Key) (d : Disk Bytes) :
    Disk Bytes × Except TokenStoreError Unit :=
  ({ d with key := (overwrite C (x.keyFault stage) d.key (C.encodeKey key)).1 },
    if (overwrite C (x.keyFault stage) d.key (C.encodeKey key)).2 then .ok () else .error .io)

def readKey (stage : Stage) (d : Disk Bytes) : Except TokenStoreError (Option Key) :=
  if x.fail = some (.readKey stage) then .error .io
  else
    match d.key with
    | none => .ok none
    | some raw =>
        match C.decodeKey raw with
        | some key => .ok (some key)
        | none => .error (.corrupt "key file")

/-- `resolve_key`: the password's key, which is also written to the key file, or the key of the file,
or a new one. -/
def resolveKey (stage : Stage) (d : Disk Bytes) : Disk Bytes × Except TokenStoreError Key :=
  match password x.env with
  | some pass =>
      match writeKey C x stage (C.digest pass) d with
      | (d', .ok ()) => (d', .ok (C.digest pass))
      | (d', .error e) => (d', .error e)
  | none =>
      match readKey C x stage d with
      | .error e => (d, .error e)
      | .ok (some key) => (d, .ok key)
      | .ok none =>
          match writeKey C x stage x.fresh d with
          | (d', .ok ()) => (d', .ok x.fresh)
          | (d', .error e) => (d', .error e)

/-! ## The token file -/

/-- What a key makes of the token file. -/
def openTokens (key : Key) (blob : Bytes) : Option (OrderedMap String String) :=
  ((C.split blob).bind fun nc => C.decrypt key nc.1 nc.2).bind C.fromSlice

def readAll (d : Disk Bytes) :
    Disk Bytes × Except TokenStoreError (OrderedMap String String) :=
  if x.fail = some .readTokens then (d, .error .io)
  else
    match d.tokens with
    | none => (d, .ok .empty)
    | some blob =>
        match C.split blob with
        | none => (d, .error (.corrupt "file shorter than a nonce"))
        | some (nonce, ciphertext) =>
            match resolveKey C x .decrypt d with
            | (d', .error e) => (d', .error e)
            | (d', .ok key) =>
                match C.decrypt key nonce ciphertext with
                | none => (d', .error (.corrupt "decryption failed (wrong key or tampered file)"))
                | some plain =>
                    match C.fromSlice plain with
                    | none => (d', .error (.corrupt "invalid JSON"))
                    | some map => (d', .ok map)

/-- The bytes of the token file. -/
def sealTokens (key : Key) (nonce : Nonce) (map : OrderedMap String String) : Bytes :=
  C.join nonce (C.encrypt key nonce (C.toVec map))

/-- `write_all` up to its cipher. -/
def beginWrite (d : Disk Bytes) : Disk Bytes × Except TokenStoreError Key :=
  if x.tokensFault = some .dir then (d, .error .io) else resolveKey C x .encrypt d

/-- The rest of `write_all`. -/
def endWrite (key : Key) (map : OrderedMap String String) (d : Disk Bytes) :
    Disk Bytes × Except TokenStoreError Unit :=
  ({ d with tokens := (overwrite C x.tokensFault d.tokens (sealTokens C key x.nonce map)).1 },
    if (overwrite C x.tokensFault d.tokens (sealTokens C key x.nonce map)).2 then .ok ()
    else .error .io)

def writeAll (map : OrderedMap String String) (d : Disk Bytes) :
    Disk Bytes × Except TokenStoreError Unit :=
  match beginWrite C x d with
  | (d', .error e) => (d', .error e)
  | (d', .ok key) => endWrite C x key map d'

/-! ## The calls -/

def get (id : String) (d : Disk Bytes) : Disk Bytes × Except TokenStoreError (Option String) :=
  ((readAll C x d).1, (readAll C x d).2.map fun map => map.get? id)

def set (id value : String) (d : Disk Bytes) : Disk Bytes × Except TokenStoreError Unit :=
  match readAll C x d with
  | (d', .error e) => (d', .error e)
  | (d', .ok map) => writeAll C x (map.insert id value) d'

/-- A value that is not there is not removed. -/
def delete (id : String) (d : Disk Bytes) : Disk Bytes × Except TokenStoreError Unit :=
  match readAll C x d with
  | (d', .error e) => (d', .error e)
  | (d', .ok map) => if map.contains id then writeAll C x (map.erase id) d' else (d', .ok ())

end

end Secrets
end Pawrly
