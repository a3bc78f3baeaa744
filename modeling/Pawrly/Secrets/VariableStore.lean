import Pawrly.Secrets.CallOutcomes
import Pawrly.Lib.LabelledRun
import Mathlib.Logic.Function.Basic

/-!
# The variable store over its two backends

`VariableTokenStore` of `pawrly-secrets/src/variables/tokens.rs`: the operating system's keyring,
and the encrypted file where the keyring answers with an error.  Any number of handles share both.
A handle's mutex covers its own calls of the file, so a file modification is a read of the whole
file (`readAll`), the making of the cipher (`beginWrite`) and a write of the whole file
(`endWrite`), between which the calls of other handles may come.
-/

namespace Pawrly
namespace Secrets

/-! ## The keyring -/

/-- `KeyringTokenStore`, when the keyring can be reached or not. -/
def KeyringTokenStore.run (reachable : Bool) (call : Call) (k : OrderedMap String String) :
    OrderedMap String String × Except TokenStoreError (Option String) :=
  if reachable then
    match call with
    | .get id => (k, .ok (k.get? id))
    | .set id value => (k.insert id value, .ok none)
    | .delete id => (k.erase id, .ok none)
  else (k, .error .keyring)

/-- The keyring's answer; nothing when the call falls through to the file. -/
def onKeyring (hasKeyring reachable : Bool) (call : Call) (k : OrderedMap String String) :
    Option (OrderedMap String String × Except TokenStoreError (Option String)) :=
  if hasKeyring then
    match KeyringTokenStore.run reachable call k with
    | (_, .error .keyring) => none
    | answer => some answer
  else none

/-! ## Handles -/

inductive Backend
  | keyring
  | file
  deriving DecidableEq

/-- A call that has ended. -/
structure Completion where
  backend : Backend
  call : Call
  result : Except TokenStoreError (Option String)

/-- A file modification between its read and its write. -/
structure Update (Key : Type) where
  call : Call
  values : OrderedMap String String
  key : Option Key := none

/-- The two backends, what the handles are doing, and the calls that have ended, the last first. -/
structure Stores (Handle Key Bytes : Type) where
  keyring : OrderedMap String String
  disk : Disk Bytes
  updates : Handle → Option (Update Key)
  log : List Completion

inductive Action (Handle Key Nonce : Type)
  | call (handle : Handle) (call : Call) (reachable : Bool) (x : Surroundings Key Nonce)
  | cipher (handle : Handle) (x : Surroundings Key Nonce)
  | write (handle : Handle) (x : Surroundings Key Nonce)

/-- What a call that does not write the file answers. -/
def Call.answer (map : OrderedMap String String) : Call → Option String
  | get id => map.get? id
  | _ => none

section

variable {Handle Key Nonce Bytes : Type} [DecidableEq Handle] (C : Codec Key Nonce Bytes)
variable (hasKeyring : Handle → Bool)

namespace Stores

/-- The handle ends its call on the file. -/
def finish (s : Stores Handle Key Bytes) (handle : Handle) (disk : Disk Bytes) (call : Call)
    (result : Except TokenStoreError (Option String)) : Stores Handle Key Bytes :=
  { s with
    disk := disk
    updates := Function.update s.updates handle none
    log := ⟨.file, call, result⟩ :: s.log }

/-- The handle goes on with its modification. -/
def proceed (s : Stores Handle Key Bytes) (handle : Handle) (disk : Disk Bytes)
    (u : Update Key) : Stores Handle Key Bytes :=
  { s with disk := disk, updates := Function.update s.updates handle (some u) }

/-- A call on the file as far as its read: it ends there unless it has something to write. -/
def startFile (s : Stores Handle Key Bytes) (handle : Handle) (call : Call)
    (x : Surroundings Key Nonce) : Stores Handle Key Bytes :=
  match readAll C x s.disk with
  | (d, .error e) => s.finish handle d call (.error e)
  | (d, .ok map) =>
      if call.writes map then s.proceed handle d { call := call, values := map }
      else s.finish handle d call (.ok (call.answer map))

/-- Whether a handle makes its cipher, with the key it has then. -/
def cipherFile (s : Stores Handle Key Bytes) (handle : Handle) (u : Update Key)
    (x : Surroundings Key Nonce) : Stores Handle Key Bytes :=
  match beginWrite C x s.disk with
  | (d, .error e) => s.finish handle d u.call (.error e)
  | (d, .ok key) => s.proceed handle d { u with key := some key }

def writeFile (s : Stores Handle Key Bytes) (handle : Handle) (u : Update Key) (key : Key)
    (x : Surroundings Key Nonce) : Stores Handle Key Bytes :=
  s.finish handle (endWrite C x key (u.call.update u.values) s.disk).1 u.call
    ((endWrite C x key (u.call.update u.values) s.disk).2.map fun _ => none)

/-- One step of one handle.  A handle whose file is being modified waits with its other calls of the
file, not with those that the keyring answers. -/
def step (s : Stores Handle Key Bytes) : Action Handle Key Nonce → Option (Stores Handle Key Bytes)
  | .call handle call reachable x =>
      match onKeyring (hasKeyring handle) reachable call s.keyring with
      | some (k, result) =>
          some { s with keyring := k, log := ⟨.keyring, call, result⟩ :: s.log }
      | none =>
          match s.updates handle with
          | some _ => none
          | none => some (s.startFile C handle call x)
  | .cipher handle x =>
      match s.updates handle with
      | some { call, values, key := none } =>
          some (s.cipherFile C handle { call := call, values := values } x)
      | _ => none
  | .write handle x =>
      match s.updates handle with
      | some { call, values, key := some key } =>
          some (s.writeFile C handle { call := call, values := values, key := some key } key x)
      | _ => none

end Stores

/-! ## One handle alone -/

/-- The three steps of a file modification, one after the other, are the call of the encrypted file. -/
theorem Stores.alone {s : Stores Handle Key Bytes} {handle : Handle} {call : Call}
    {reachable : Bool} {x : Surroundings Key Nonce} {d₁ d₂ : Disk Bytes}
    {map : OrderedMap String String} {key : Key} (hidle : s.updates handle = none)
    (hfile : onKeyring (hasKeyring handle) reachable call s.keyring = none)
    (hread : readAll C x s.disk = (d₁, .ok map)) (hwrites : call.writes map = true)
    (hkey : beginWrite C x d₁ = (d₂, .ok key)) :
    (LabelledRun.exec (Stores.step C hasKeyring) s
      [.call handle call reachable x, .cipher handle x, .write handle x]).map Stores.disk =
      some (call.run C x s.disk).1 := by
  have hrun : call.run C x s.disk = endWrite C x key (call.update map) d₂ := by
    cases call with
    | get id => cases hwrites
    | set id value =>
        show Secrets.set C x id value s.disk = _
        simp only [Secrets.set, hread, writeAll, hkey]
        rfl
    | delete id =>
        have hid : map.contains id = true := hwrites
        show Secrets.delete C x id s.disk = _
        simp only [Secrets.delete, hread, hid, if_true, writeAll, hkey]
        rfl
  simp [LabelledRun.exec, step, hfile, hidle, startFile, hread, hwrites, proceed, cipherFile, hkey,
    writeFile, finish, hrun]

end

end Secrets
end Pawrly
