import WalletToolbox.Sync.GetSyncChunk
import WalletToolbox.Sync.ProcessSyncChunk

/-! # The provider's calls for an authenticated user

The calls of the wallet storage provider beyond the four actions: giving outputs and certificates
up, the state of a sync pair, and the user's choice of the active store.
The identity key is what the transport verified; a user id that comes with it is only a claim. -/

namespace WalletToolbox.Storage

open WalletToolbox.Lib

structure AuthId where
  identityKey : String
  userId : Option Nat := none

/-- `resolve_user_scope`: the id of the user who holds the identity key. -/
def resolveUserScope (auth : AuthId) : StorageProg Nat := do
  let (user, _) ← findOrInsertUser auth.identityKey
  match auth.userId with
  | some claimed =>
    if claimed != 0 && claimed != user.userId then
      .fail (.unauthorized
        s!"auth user_id {claimed} does not match identity key owner {user.userId}")
    else pure user.userId
  | none => pure user.userId

/-! ## Giving up outputs and certificates -/

/-- The digits of a decimal number. -/
def digits? : List Char → Option Nat
  | [] => none
  | cs => if cs.all Char.isDigit then some (cs.foldl (fun n c => n * 10 + (c.toNat - '0'.toNat)) 0)
    else none

/-- `str::parse::<i32>`. -/
def parseI32 (s : List Char) : Option Int :=
  let value := match s with
    | '-' :: cs => (digits? cs).map fun n => -(n : Int)
    | '+' :: cs => (digits? cs).map fun n => (n : Int)
    | cs => (digits? cs).map fun n => (n : Int)
  value.filter fun v => -2147483648 ≤ v && v ≤ 2147483647

/-- `rsplitn(2, '.')`: what stands after the last dot and what before it. -/
def splitOutpoint (outpoint : String) : Option (List Char × String) :=
  let reversed := outpoint.toList.reverse
  match reversed.dropWhile (· != '.') with
  | [] => none
  | _ :: txid => some ((reversed.takeWhile (· != '.')).reverse, String.ofList txid.reverse)

/-- `relinquish_output`: take an output of the caller out of its basket. -/
def relinquishOutput (auth : AuthId) (output : String) : StorageProg Nat := do
  let userId ← resolveUserScope auth
  match splitOutpoint output with
  | none =>
    .fail (.invalidParameter "output" "a valid outpoint string (txid.vout)")
  | some (index, txid) =>
    match parseI32 index with
    | none =>
      .fail (.invalidParameter "output" "a valid outpoint string with numeric vout")
    | some vout =>
      let rows ← find fun s => s.outputs.find fun o =>
        o.userId == userId && o.txid == some txid && (o.vout : Int) == vout
      let row ← Prog.ofExcept (verifyOne rows)
      exec' (.updateOutput row.outputId { basketId := some 0 })
      pure 1

/-- A certificate by its certifier, its serial number and its type, as texts. -/
structure RelinquishCertificateArgs where
  certifier : String
  serialNumber : String
  certType : String

/-- `relinquish_certificate`: mark a certificate of the caller as deleted. -/
def relinquishCertificate (auth : AuthId) (args : RelinquishCertificateArgs) : StorageProg Nat := do
  let userId ← resolveUserScope auth
  let rows ← find fun s => s.certificates.find fun c =>
    c.userId == userId && c.certifier == args.certifier && c.serialNumber == args.serialNumber &&
      c.certType == args.certType
  let row ← Prog.ofExcept (verifyOne rows)
  exec' (.updateCertificate row.certificateId { isDeleted := some true })
  pure 1

/-- `check_owner`: the owner of a new row; zero stands for the caller. -/
def checkOwner (userId owner : Nat) : Except WalletError Nat :=
  if owner != 0 && owner != userId then
    .error (.unauthorized s!"record user_id {owner} does not match authenticated user {userId}")
  else .ok userId

/-- `insert_certificate_auth`. -/
def insertCertificateAuth (auth : AuthId) (certificate : Certificate) : StorageProg Nat := do
  let userId ← resolveUserScope auth
  let owner ← Prog.ofExcept (checkOwner userId certificate.userId)
  exec (.insertCertificate { certificate with userId := owner })

/-! ## The state of a sync pair -/

/-- `find_or_insert_sync_state_auth`; the reference number is random. -/
def findOrInsertSyncStateAuth (refNum : String) (auth : AuthId)
    (storageIdentityKey storageName : String) : StorageProg (SyncState × Bool) := do
  let userId ← resolveUserScope auth
  match ← findSyncState userId storageIdentityKey with
  | some ss => pure (ss, false)
  | none =>
    let now ← utcNow
    let row : SyncState :=
      { createdAt := now, updatedAt := now, userId, storageIdentityKey, storageName
        status := .unknown, init := false, refNum, syncMap := .blank, syncedAt := none }
    let id ← exec (.insertSyncState row)
    pure ({ row with syncStateId := id }, true)

/-- `set_active` of the provider: the user's choice, stamped by the engine's clock. -/
def setActive (auth : AuthId) (newActiveStorageIdentityKey : String) : StorageProg Nat := do
  let userId ← resolveUserScope auth
  exec (.updateUser userId { activeStorage := some newActiveStorageIdentityKey })

end WalletToolbox.Storage
