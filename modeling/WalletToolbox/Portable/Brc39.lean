import WalletToolbox.Lib.BigEndian
import WalletToolbox.Portable.Validate
import WalletToolbox.Sdk

/-! # BRC-39 files

The encrypted container of a document: a header of 33 bytes, the salt, the nonce, the ciphertext
with its tag.
Nothing protects the header, so it is checked before any of it is used. -/

namespace WalletToolbox.Portable

open WalletToolbox.Lib
open WalletToolbox.Storage (Bytes)

/-- What is used of the cryptographic libraries: the normal form of a password, the checks on the
cost of the key derivation, the derivation, and the cipher. -/
structure Kit where
  nfc : String → String
  params : (memoryKib iterations parallelism : Nat) → Except String Unit
  argon2id : (memoryKib iterations parallelism : Nat) → (password salt : Bytes) → Except String Bytes
  encrypt : (key nonce plaintext : Bytes) → Except String Bytes
  decrypt : (key nonce ciphertextAndTag : Bytes) → Except String Bytes

/-- How a call on bytes ends that does not return a value: an index out of range stops the program. -/
inductive Stop where
  | panic
  | error (e : WalletError)
deriving DecidableEq, Repr

def orError {α : Type} (p : Except WalletError α) : Except Stop α := p.mapError .error

def brc39Magic : Bytes := [0x57, 0x44, 0x41, 0x54]

def brc39HeaderLength : Nat := 33

def brc39TagLength : Nat := 16

def brc39DefaultIterations : UInt32 := 7

def brc39DefaultMemoryKib : UInt32 := 131072

def brc39DefaultParallelism : UInt8 := 1

def brc39HashLength : Nat := 32

/-- 4 GiB. -/
def brc39MaxKdfMemoryKib : UInt32 := 4 * 1024 * 1024

def brc39MaxKdfIterations : UInt32 := 4096

def toBeBytes (n : UInt32) : Bytes := (BigEndian.digits 256 4 n.toNat).map UInt8.ofNat

def fromBeBytes (bytes : Bytes) : UInt32 := UInt32.ofNat (BigEndian.value 256 (bytes.map UInt8.toNat))

/-! ## The key -/

def validateKdfParams (iterations memoryKib : UInt32) (parallelism hashLength : UInt8) :
    Except WalletError Unit := do
  if iterations = 0 then throw (bad "Invalid BRC-39 Argon2id iterations")
  if memoryKib = 0 then throw (bad "Invalid BRC-39 Argon2id memoryKiB")
  -- Refused before anything is allocated.
  if memoryKib > brc39MaxKdfMemoryKib then
    throw (bad (s!"BRC-39 Argon2id memoryKiB {memoryKib} exceeds the {brc39MaxKdfMemoryKib} ceiling " ++
      s!"\u2014 refusing to allocate {memoryKib / (1024 * 1024)} GiB for an unauthenticated file header"))
  if iterations > brc39MaxKdfIterations then
    throw (bad s!"BRC-39 Argon2id iterations {iterations} exceeds the {brc39MaxKdfIterations} ceiling")
  if parallelism = 0 then throw (bad "Invalid BRC-39 Argon2id parallelism")
  if hashLength.toNat ≠ brc39HashLength then throw (bad "Invalid BRC-39 Argon2id hashLength")

/-- Argon2id over the normal form of the password. -/
def deriveBrc39Key (kit : Kit) (password : String) (salt : Bytes) (iterations memoryKib : UInt32)
    (parallelism : UInt8) : Except WalletError Bytes := do
  let normalized := kit.nfc password
  match kit.params memoryKib.toNat iterations.toNat parallelism.toNat with
  | .error e => throw (bad s!"Invalid BRC-39 Argon2id parameters: {e}")
  | .ok () => pure ()
  match kit.argon2id memoryKib.toNat iterations.toNat parallelism.toNat normalized.toUTF8.data.toList
      salt with
  | .error e => throw (.internal s!"BRC-39 key derivation failed: {e}")
  | .ok key => return key

/-! ## Writing -/

/-- Assemble a file from explicit KDF inputs. -/
def encryptWithParams {chrono : Chrono} (kit : Kit) (serde : SerdeJson) (data : Brc38WalletData chrono)
    (password : String) (salt nonce : Bytes) (iterations memoryKib : UInt32) (parallelism : UInt8) :
    Except WalletError Bytes := do
  validateKdfParams iterations memoryKib parallelism (UInt8.ofNat brc39HashLength)
  let plaintext ← canonicalize serde.display data.value
  let key ← deriveBrc39Key kit password salt iterations memoryKib parallelism
  match kit.encrypt key nonce plaintext.toUTF8.data.toList with
  | .error e => throw (.internal s!"BRC-39 encryption failed: {e}")
  | .ok ciphertextAndTag =>
    return brc39Magic ++ [1, 1, 38, 1, 0] ++
      -- The lengths are cut to a byte.
      [UInt8.ofNat salt.length, UInt8.ofNat nonce.length] ++
      toBeBytes iterations ++ toBeBytes memoryKib ++ [parallelism, UInt8.ofNat brc39HashLength] ++
      List.replicate (brc39HeaderLength - 21) 0 ++ salt ++ nonce ++ ciphertextAndTag

/-- Cost overrides. -/
structure Brc39Options where
  iterations : Option UInt32 := none
  memoryKib : Option UInt32 := none
  parallelism : Option UInt8 := none

/-- Encrypt a document; the salt and the nonce are fresh random bytes, 32 of each. -/
def encryptBrc39 {chrono : Chrono} (kit : Kit) (serde : SerdeJson) (data : Brc38WalletData chrono)
    (password : String) (options : Option Brc39Options) (salt nonce : Bytes) :
    Except WalletError Bytes := do
  let iterations := (options.bind (·.iterations)).getD brc39DefaultIterations
  let memoryKib := (options.bind (·.memoryKib)).getD brc39DefaultMemoryKib
  let parallelism := (options.bind (·.parallelism)).getD brc39DefaultParallelism
  if iterations < brc39DefaultIterations then
    throw (bad "BRC-39 export iterations must not be weaker than the canonical default")
  if memoryKib < brc39DefaultMemoryKib then
    throw (bad "BRC-39 export memoryKiB must not be weaker than the canonical default")
  encryptWithParams kit serde data password salt nonce iterations memoryKib parallelism

/-! ## Reading -/

/-- `bytes[start..stop]`. -/
def slice (bytes : Bytes) (start stop : Nat) : Except Stop Bytes :=
  if start ≤ stop ∧ stop ≤ bytes.length then .ok ((bytes.drop start).take (stop - start))
  else .error .panic

/-- `bytes[i]`. -/
def byteAt (bytes : Bytes) (i : Nat) : Except Stop UInt8 :=
  match bytes[i]? with
  | some b => .ok b
  | none => .error .panic

structure Brc39Header where
  saltLength : Nat
  nonceLength : Nat
  iterations : UInt32
  memoryKib : UInt32
  parallelism : UInt8
deriving DecidableEq, Repr

/-- Parse and check the fixed header. -/
def parseBrc39Header (file : Bytes) : Except Stop Brc39Header := do
  let err message : Except Stop PUnit := throw (.error (bad message))
  if file.length < brc39HeaderLength + brc39TagLength + 2 then err "Invalid BRC-39 file: too short"
  if (← slice file 0 4) ≠ brc39Magic then err "Invalid BRC-39 file: bad magic"
  if (← byteAt file 4) ≠ 1 then err "Unsupported BRC-39 format version"
  if (← byteAt file 5) ≠ 1 then err "Unsupported BRC-39 protector type"
  if (← byteAt file 6) ≠ 38 then err "Unsupported BRC-39 inner format"
  if (← byteAt file 7) ≠ 1 then err "Unsupported BRC-39 KDF type"
  if (← byteAt file 8) ≠ 0 then err "Invalid BRC-39 flags"
  if (← slice file 21 brc39HeaderLength).any (· != 0) then err "Invalid BRC-39 reserved bytes"
  let saltLength := (← byteAt file 9).toNat
  let nonceLength := (← byteAt file 10).toNat
  if saltLength = 0 then err "Invalid BRC-39 salt length"
  if nonceLength = 0 then err "Invalid BRC-39 nonce length"
  let iterations := fromBeBytes (← slice file 11 15)
  let memoryKib := fromBeBytes (← slice file 15 19)
  let parallelism ← byteAt file 19
  let hashLength ← byteAt file 20
  orError (validateKdfParams iterations memoryKib parallelism hashLength)
  return { saltLength, nonceLength, iterations, memoryKib, parallelism }

/-- Parse and validate the JSON text of a document. -/
def parseBrc38Json (chrono : Chrono) (serde : SerdeJson) (json : String) :
    Except WalletError (Brc38WalletData chrono) := do
  match serde.fromStr json with
  | .error e => throw (bad s!"Invalid BRC-38 JSON: {e}")
  | .ok value => validateBrc38 chrono value

/-- Decrypt a file to its validated document. -/
def decryptBrc39 (chrono : Chrono) (kit : Kit) (serde : SerdeJson) (bytes : Bytes) (password : String) :
    Except Stop (Brc38WalletData chrono) := do
  let header ← parseBrc39Header bytes
  let payloadStart := brc39HeaderLength + header.saltLength + header.nonceLength
  if bytes.length ≤ payloadStart + brc39TagLength then
    throw (.error (bad "Invalid BRC-39 ciphertext"))
  let salt ← slice bytes brc39HeaderLength (brc39HeaderLength + header.saltLength)
  let nonce ← slice bytes (brc39HeaderLength + header.saltLength) payloadStart
  let ciphertextAndTag ← slice bytes payloadStart bytes.length
  let key ← orError (deriveBrc39Key kit password salt header.iterations header.memoryKib
    header.parallelism)
  match kit.decrypt key nonce ciphertextAndTag with
  | .error _ => throw (.error (bad "BRC-39 authentication failed"))
  | .ok plaintext =>
    match utf8? plaintext with
    | none => throw (.error (bad "BRC-39 plaintext is not UTF-8"))
    | some json => orError (parseBrc38Json chrono serde json)

end WalletToolbox.Portable
