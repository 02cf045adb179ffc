import WalletToolbox.Permissions.TokenCrud

/-! # UMP tokens

The encrypted key material of a user, kept on chain as the fields of a PushDrop script.
The layout is positional: eleven fields, then the profiles if there are any, then for version 3
the version byte, the name of the password KDF and its parameters as JSON. -/

namespace WalletToolbox.AuthManager

open WalletToolbox.Storage

/-- `UMP_VERSION_V3`. -/
def umpVersionV3 : UInt8 := 3

/-- `KDF_ALGORITHM_PBKDF2`. -/
def kdfAlgorithmPbkdf2 : String := "pbkdf2-sha512"

/-- `KDF_ALGORITHM_ARGON2ID`. -/
def kdfAlgorithmArgon2id : String := "argon2id"

def argon2idDefaultIterations : UInt32 := 7

def argon2idDefaultMemoryKib : UInt32 := 131072

def argon2idDefaultParallelism : UInt32 := 1

def argon2idDefaultHashLength : UInt32 := 32

/-- `PBKDF2_NUM_ROUNDS`. -/
def pbkdf2NumRounds : UInt32 := 7777

structure PasswordKdf where
  algorithm : String
  iterations : UInt32
  memoryKib : Option UInt32
  parallelism : Option UInt32
  hashLength : Option UInt32
deriving DecidableEq

structure UMPToken where
  passwordSalt : Bytes
  passwordPresentationPrimary : Bytes
  passwordRecoveryPrimary : Bytes
  presentationRecoveryPrimary : Bytes
  passwordPrimaryPrivileged : Bytes
  presentationRecoveryPrivileged : Bytes
  presentationHash : Bytes
  recoveryHash : Bytes
  presentationKeyEncrypted : Bytes
  passwordKeyEncrypted : Bytes
  recoveryKeyEncrypted : Bytes
  profilesEncrypted : Option Bytes
  umpVersion : Option UInt8
  passwordKdf : Option PasswordKdf
  currentOutpoint : Option String
deriving DecidableEq

/-! ## Fields -/

/-- `build_kdf_params_json`. -/
def buildKdfParamsJson (kdf : PasswordKdf) : String :=
  let json := "\x7b\"iterations\":" ++ toString kdf.iterations.toNat
  let json := match kdf.memoryKib with
    | some m => json ++ ",\"memoryKiB\":" ++ toString m.toNat
    | none => json
  let json := match kdf.parallelism with
    | some p => json ++ ",\"parallelism\":" ++ toString p.toNat
    | none => json
  let json := match kdf.hashLength with
    | some h => json ++ ",\"hashLength\":" ++ toString h.toNat
    | none => json
  json.push '\x7d'

/-- `encode_ump_token_fields`. -/
def encodeUmpTokenFields (token : UMPToken) : List Bytes :=
  [token.passwordSalt, token.passwordPresentationPrimary, token.passwordRecoveryPrimary,
    token.presentationRecoveryPrimary, token.passwordPrimaryPrivileged,
    token.presentationRecoveryPrivileged, token.presentationHash, token.recoveryHash,
    token.presentationKeyEncrypted, token.passwordKeyEncrypted, token.recoveryKeyEncrypted] ++
  token.profilesEncrypted.toList ++
  if token.umpVersion = some umpVersionV3 then
    match token.passwordKdf with
    | some kdf => [[umpVersionV3], kdf.algorithm.toUTF8.toList,
        (buildKdfParamsJson kdf).toUTF8.toList]
    | none => []
  else []

/-- What the JSON parser makes of a text, as far as it is asked: nothing when the text is not
JSON, else the members that are unsigned integers of 64 bits. -/
abbrev JsonReader := Bytes → Option (String → Option UInt64)

/-- The KDF of a params field. A member that is wider than 32 bits is cut. -/
def readKdf (fromSlice : JsonReader) (algorithm params : Bytes) : Option PasswordKdf :=
  (fromSlice params).map fun get =>
    { algorithm := String.ofList (Permissions.fromUtf8Lossy algorithm)
      iterations := ((get "iterations").getD 0).toUInt32
      memoryKib := (get "memoryKiB").map (·.toUInt32)
      parallelism := (get "parallelism").map (·.toUInt32)
      hashLength := (get "hashLength").map (·.toUInt32) }

/-- `decode_ump_token_fields`. -/
def decodeUmpTokenFields (fromSlice : JsonReader) (fields : List Bytes) :
    Except WalletError UMPToken :=
  match fields with
  | f₀ :: f₁ :: f₂ :: f₃ :: f₄ :: f₅ :: f₆ :: f₇ :: f₈ :: f₉ :: f₁₀ :: rest =>
    -- The version byte is at index 12 after the profiles, else at index 11.
    let hasV3WithProfiles := 4 ≤ rest.length ∧ rest[1]? = some [umpVersionV3]
    let hasV3WithoutProfiles := 3 ≤ rest.length ∧ rest[0]? = some [umpVersionV3]
    let hasProfilesField := hasV3WithProfiles ∨ ¬ hasV3WithoutProfiles
    let metadata :=
      if hasV3WithProfiles then rest.drop 1 else if hasV3WithoutProfiles then rest else []
    .ok
      { passwordSalt := f₀
        passwordPresentationPrimary := f₁
        passwordRecoveryPrimary := f₂
        presentationRecoveryPrimary := f₃
        passwordPrimaryPrivileged := f₄
        presentationRecoveryPrivileged := f₅
        presentationHash := f₆
        recoveryHash := f₇
        presentationKeyEncrypted := f₈
        passwordKeyEncrypted := f₉
        recoveryKeyEncrypted := f₁₀
        profilesEncrypted := if hasProfilesField then rest[0]?.filter (· ≠ []) else none
        umpVersion := metadata[0]?.bind (·.head?)
        passwordKdf :=
          match metadata with
          | _ :: algorithm :: params :: _ => readKdf fromSlice algorithm params
          | _ => none
        currentOutpoint := none }
  | _ => .error (.internal s!"UMP token requires at least 11 fields, got {fields.length}")

/-! ## Keys -/

/-- The parameters of Argon2id. -/
structure Params where
  memory : UInt32
  iterations : UInt32
  parallelism : UInt32
  hashLength : Nat
deriving DecidableEq

/-- The cryptography that the SDK and the Argon2 crate provide; a symmetric key is the bytes it
is built from, and the nonce of an encryption is drawn at random. -/
structure Crypto where
  /-- `SymmetricKey::from_bytes`. -/
  symmetricKey : Bytes → Except String Bytes
  /-- `SymmetricKey::encrypt`, with the key, the nonce and the plaintext. -/
  encrypt : Bytes → Bytes → Bytes → Except String Bytes
  /-- `SymmetricKey::decrypt`. -/
  decrypt : Bytes → Bytes → Except String Bytes
  /-- `pbkdf2_hmac_sha512`, with the password, the salt, the rounds and the length. -/
  pbkdf2 : Bytes → Bytes → UInt32 → Nat → Bytes
  /-- `Params::new` of Argon2. -/
  checkParams : Params → Except String Unit
  /-- `Argon2::hash_password_into`, version 0x13, with the password and the salt. -/
  argon2id : Params → Bytes → Bytes → Except String Bytes
  sha256 : Bytes → Bytes

/-- An error of the SDK with the text that the wallet puts before it. -/
def mapErr {α : Type} (text : String) : Except String α → Except WalletError α
  | .ok a => .ok a
  | .error e => .error (.internal (text ++ e))

/-- `derive_password_key`. -/
def derivePasswordKey (crypto : Crypto) (salt password : Bytes) (kdf : Option PasswordKdf) :
    Except WalletError Bytes :=
  match kdf with
  | none => .ok (crypto.pbkdf2 password salt pbkdf2NumRounds 32)
  | some kdf =>
    if kdf.algorithm = kdfAlgorithmPbkdf2 then
      let iterations := if kdf.iterations = 0 then pbkdf2NumRounds else kdf.iterations
      .ok (crypto.pbkdf2 password salt iterations (kdf.hashLength.getD 32).toNat)
    else if kdf.algorithm = kdfAlgorithmArgon2id then do
      let params : Params :=
        { memory := kdf.memoryKib.getD argon2idDefaultMemoryKib
          iterations := if kdf.iterations = 0 then argon2idDefaultIterations else kdf.iterations
          parallelism := kdf.parallelism.getD argon2idDefaultParallelism
          hashLength := (kdf.hashLength.getD argon2idDefaultHashLength).toNat }
      mapErr "Invalid Argon2id params: " (crypto.checkParams params)
      mapErr "Argon2id derivation failed: " (crypto.argon2id params password salt)
    else .error (.internal s!"Unsupported KDF algorithm: {kdf.algorithm}")

/-- `xor_keys`, as a release build runs it: up to the length of the shorter key. -/
def xorKeys (key₁ key₂ : Bytes) : Bytes :=
  List.zipWith (· ^^^ ·) key₁ key₂

/-- `derive_root_primary_key`. -/
def deriveRootPrimaryKey (crypto : Crypto) (token : UMPToken) (presentationKey password : Bytes) :
    Except WalletError Bytes := do
  if presentationKey.length ≠ 32 then
    throw (.internal s!"Presentation key must be 32 bytes, got {presentationKey.length}")
  let passwordKey ← derivePasswordKey crypto token.passwordSalt password token.passwordKdf
  if passwordKey.length ≠ presentationKey.length then
    throw (.internal (s!"Derived password key length {passwordKey.length} does not match " ++
      s!"presentation key length {presentationKey.length}"))
  let sym ← mapErr "Failed to build decryption key: "
    (crypto.symmetricKey (xorKeys presentationKey passwordKey))
  mapErr "Failed to decrypt root primary key (wrong password?): "
    (crypto.decrypt sym token.passwordPresentationPrimary)

/-- The bytes of `random_bytes(32)`. -/
abbrev Random32 := { bytes : Bytes // bytes.length = 32 }

/-- What is drawn at random for a new token, with a nonce for each encryption. -/
structure Draws where
  recoveryKey : Random32
  passwordSalt : Random32
  rootPrimaryKey : Random32
  rootPrivilegedKey : Random32
  nonces : Fin 8 → Bytes

/-- `sym_key`. -/
def symKey (crypto : Crypto) (bytes : Bytes) : Except WalletError Bytes :=
  mapErr "Failed to build symmetric key: " (crypto.symmetricKey bytes)

/-- The encryption of a field of a new token. -/
def enc (crypto : Crypto) (sym nonce plaintext : Bytes) : Except WalletError Bytes :=
  mapErr "UMP token field encryption failed: " (crypto.encrypt sym nonce plaintext)

/-- `build_new_user_ump_token`. -/
def buildNewUserUmpToken (crypto : Crypto) (draws : Draws) (presentationKey password : Bytes)
    (kdf : PasswordKdf) : Except WalletError UMPToken := do
  if presentationKey.length ≠ 32 then
    throw (.internal ("Presentation key must be 32 bytes for UMP token derivation, got " ++
      toString presentationKey.length))
  let passwordKey ← derivePasswordKey crypto draws.passwordSalt password (some kdf)
  if passwordKey.length ≠ 32 then
    throw (.internal s!"Derived password key must be 32 bytes for XOR, got {passwordKey.length}")
  let presentationPassword ← symKey crypto (xorKeys presentationKey passwordKey)
  let presentationRecovery ← symKey crypto (xorKeys presentationKey draws.recoveryKey)
  let recoveryPassword ← symKey crypto (xorKeys draws.recoveryKey passwordKey)
  let primaryPassword ← symKey crypto (xorKeys draws.rootPrimaryKey passwordKey)
  let privilegedWrap ← symKey crypto draws.rootPrivilegedKey
  return {
    passwordSalt := draws.passwordSalt
    passwordPresentationPrimary :=
      ← enc crypto presentationPassword (draws.nonces 0) draws.rootPrimaryKey
    passwordRecoveryPrimary := ← enc crypto recoveryPassword (draws.nonces 1) draws.rootPrimaryKey
    presentationRecoveryPrimary :=
      ← enc crypto presentationRecovery (draws.nonces 2) draws.rootPrimaryKey
    passwordPrimaryPrivileged :=
      ← enc crypto primaryPassword (draws.nonces 3) draws.rootPrivilegedKey
    presentationRecoveryPrivileged :=
      ← enc crypto presentationRecovery (draws.nonces 4) draws.rootPrivilegedKey
    presentationHash := crypto.sha256 presentationKey
    recoveryHash := crypto.sha256 draws.recoveryKey
    presentationKeyEncrypted := ← enc crypto privilegedWrap (draws.nonces 5) presentationKey
    passwordKeyEncrypted := ← enc crypto privilegedWrap (draws.nonces 6) passwordKey
    recoveryKeyEncrypted := ← enc crypto privilegedWrap (draws.nonces 7) draws.recoveryKey
    profilesEncrypted := none
    umpVersion := some umpVersionV3
    passwordKdf := some kdf
    currentOutpoint := none }

end WalletToolbox.AuthManager
