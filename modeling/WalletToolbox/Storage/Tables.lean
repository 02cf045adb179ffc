import WalletToolbox.Lib.Table

/-! # Rows of the wallet database

The row types of the tables that the wallet operations read and write, with the statuses and
the partial rows of the update statements.
Database ids are natural numbers and `0` is never an id.
Times are milliseconds; an insert or an unstamped update stores whole seconds.
The JSON columns `history` and `notify` hold the parsed value, or `none` when the text does
not parse.
The `settings` and `monitor_events` tables have no reader here and are left out. -/

namespace WalletToolbox.Storage

open WalletToolbox.Lib

/-- Raw bytes of a transaction, a script, a merkle path or a BEEF. -/
abbrev Bytes := List UInt8

/-- A JSON document. -/
inductive Json where
  | null
  | bool (b : Bool)
  | num (n : Int)
  | str (s : String)
  | arr (items : List Json)
  | obj (fields : List (String × Json))
deriving Inhabited

/-- The member of an object with the given name. -/
def Json.get? : Json → String → Option Json
  | .obj fields, name => (fields.find? fun f => f.1 == name).map (·.2)
  | _, _ => none

/-- The items of an array; nothing for any other value. -/
def Json.items : Json → List Json
  | .arr items => items
  | _ => []

/-- The value of an integer number. -/
def Json.asInt? : Json → Option Int
  | .num n => some n
  | _ => none

/-! ## Statuses -/

inductive TransactionStatus where
  | completed | failed | unprocessed | sending | unproven | unsigned | nosend | nonfinal | unfail
deriving DecidableEq

/-- The camel case text stored for a status. -/
def TransactionStatus.toString : TransactionStatus → String
  | .completed => "completed"
  | .failed => "failed"
  | .unprocessed => "unprocessed"
  | .sending => "sending"
  | .unproven => "unproven"
  | .unsigned => "unsigned"
  | .nosend => "nosend"
  | .nonfinal => "nonfinal"
  | .unfail => "unfail"

inductive ProvenTxReqStatus where
  | sending | unsent | nosend | unknown | nonfinal | unprocessed | unmined | callback
  | unconfirmed | completed | invalid | doubleSpend | unfail
deriving DecidableEq

inductive StorageProvidedBy where
  | storage | you | youAndStorage
deriving DecidableEq

/-! ## Errors -/

/-- The toolbox errors that the modelled code raises. `sqlx` is a statement the database
refused. -/
inductive WalletError where
  | internal (message : String)
  | invalidParameter (parameter mustBe : String)
  | invalidOperation (message : String)
  | unauthorized (message : String)
  | insufficientFunds (message : String) (totalSatoshisNeeded moreSatoshisNeeded : Int)
  | invalidMerkleRoot (message blockHash : String) (blockHeight : Nat) (merkleRoot : String)
      (txid : Option String)
  | sqlx (message : String)
deriving DecidableEq

/-- `verify_one_or_none`: a result set of at most one row. -/
def verifyOneOrNone {α : Type} : List α → Except WalletError (Option α)
  | [] => .ok none
  | [a] => .ok (some a)
  | results => .error (.internal s!"Expected at most one result, got {results.length}")

/-- `verify_one`: a result set of exactly one row. -/
def verifyOne {α : Type} : List α → Except WalletError α
  | [a] => .ok a
  | results => .error (.internal s!"Expected exactly one result, got {results.length}")

/-! ## Rows -/

structure User where
  createdAt : Nat := 0
  updatedAt : Nat := 0
  userId : Nat := 0
  identityKey : String
  activeStorage : String

structure OutputBasket where
  createdAt : Nat := 0
  updatedAt : Nat := 0
  basketId : Nat := 0
  userId : Nat
  name : String
  numberOfDesiredUtxos : Int
  minimumDesiredUtxoValue : Int
  isDeleted : Bool

structure Transaction where
  createdAt : Nat := 0
  updatedAt : Nat := 0
  transactionId : Nat := 0
  userId : Nat
  provenTxId : Option Nat
  status : TransactionStatus
  reference : String
  isOutgoing : Bool
  satoshis : Int
  description : String
  version : Option Int
  lockTime : Option Int
  txid : Option String
  inputBeef : Option Bytes
  rawTx : Option Bytes

structure Output where
  createdAt : Nat := 0
  updatedAt : Nat := 0
  outputId : Nat := 0
  userId : Nat
  transactionId : Nat
  basketId : Option Nat
  spendable : Bool
  change : Bool
  outputDescription : Option String
  vout : Nat
  satoshis : Int
  providedBy : StorageProvidedBy
  purpose : String
  outputType : String
  txid : Option String
  senderIdentityKey : Option String
  derivationPrefix : Option String
  derivationSuffix : Option String
  customInstructions : Option String
  spentBy : Option Nat
  sequenceNumber : Option Int
  spendingDescription : Option String
  scriptLength : Option Int
  scriptOffset : Option Int
  lockingScript : Option Bytes

structure ProvenTx where
  createdAt : Nat := 0
  updatedAt : Nat := 0
  provenTxId : Nat := 0
  txid : String
  height : Nat
  index : Nat
  merklePath : Bytes
  rawTx : Bytes
  blockHash : String
  merkleRoot : String

structure ProvenTxReq where
  createdAt : Nat := 0
  updatedAt : Nat := 0
  provenTxReqId : Nat := 0
  provenTxId : Option Nat
  status : ProvenTxReqStatus
  attempts : Int
  notified : Bool
  txid : String
  batch : Option String
  history : Option Json
  notify : Option Json
  rawTx : Bytes
  inputBeef : Option Bytes

structure TxLabel where
  createdAt : Nat := 0
  updatedAt : Nat := 0
  txLabelId : Nat := 0
  userId : Nat
  label : String
  isDeleted : Bool

/-- A link of `tx_labels_map`, with the row id that the engine keeps for it. -/
structure TxLabelMap where
  rowId : Nat := 0
  createdAt : Nat := 0
  updatedAt : Nat := 0
  txLabelId : Nat
  transactionId : Nat
  isDeleted : Bool

structure OutputTag where
  createdAt : Nat := 0
  updatedAt : Nat := 0
  outputTagId : Nat := 0
  userId : Nat
  tag : String
  isDeleted : Bool

/-- A link of `output_tags_map`, with the row id that the engine keeps for it. -/
structure OutputTagMap where
  rowId : Nat := 0
  createdAt : Nat := 0
  updatedAt : Nat := 0
  outputTagId : Nat
  outputId : Nat
  isDeleted : Bool

structure Certificate where
  createdAt : Nat := 0
  updatedAt : Nat := 0
  certificateId : Nat := 0
  userId : Nat
  certType : String
  serialNumber : String
  certifier : String
  subject : String
  verifier : Option String
  revocationOutpoint : String
  signature : String
  isDeleted : Bool

/-- A row of `certificate_fields`, with the row id that the engine keeps for it. -/
structure CertificateField where
  rowId : Nat := 0
  createdAt : Nat := 0
  updatedAt : Nat := 0
  userId : Nat
  certificateId : Nat
  fieldName : String
  fieldValue : String
  masterKey : String

structure Commission where
  createdAt : Nat := 0
  updatedAt : Nat := 0
  commissionId : Nat := 0
  userId : Nat
  transactionId : Nat
  satoshis : Int
  keyOffset : String
  isRedeemed : Bool
  lockingScript : Bytes

/-! ## Sync state -/

/-- The ids, the newest time and the number of rows received for one entity type. -/
structure EntitySyncMap where
  entityName : String
  idMap : List (Nat × Nat) := []
  maxUpdatedAt : Option Nat := none
  count : Nat := 0

/-- The sync maps of the twelve entity types. -/
structure SyncMap where
  provenTx : EntitySyncMap := { entityName := "provenTx" }
  outputBasket : EntitySyncMap := { entityName := "outputBasket" }
  transaction : EntitySyncMap := { entityName := "transaction" }
  output : EntitySyncMap := { entityName := "output" }
  txLabel : EntitySyncMap := { entityName := "txLabel" }
  txLabelMap : EntitySyncMap := { entityName := "txLabelMap" }
  outputTag : EntitySyncMap := { entityName := "outputTag" }
  outputTagMap : EntitySyncMap := { entityName := "outputTagMap" }
  certificate : EntitySyncMap := { entityName := "certificate" }
  certificateField : EntitySyncMap := { entityName := "certificateField" }
  commission : EntitySyncMap := { entityName := "commission" }
  provenTxReq : EntitySyncMap := { entityName := "provenTxReq" }

inductive SyncStatus where
  | success | error | identified | updated | unknown
deriving DecidableEq

/-- What the `syncMap` column holds: nothing yet, a map, or a text that does not parse. -/
inductive SyncMapText where
  | blank
  | parsed (map : SyncMap)
  | invalid

structure SyncState where
  createdAt : Nat := 0
  updatedAt : Nat := 0
  syncStateId : Nat := 0
  userId : Nat
  storageIdentityKey : String
  storageName : String
  status : SyncStatus
  init : Bool
  refNum : String
  syncMap : SyncMapText
  syncedAt : Option Nat

instance : Keyed User := ⟨User.userId⟩
instance : Keyed OutputBasket := ⟨OutputBasket.basketId⟩
instance : Keyed Transaction := ⟨Transaction.transactionId⟩
instance : Keyed Output := ⟨Output.outputId⟩
instance : Keyed ProvenTx := ⟨ProvenTx.provenTxId⟩
instance : Keyed ProvenTxReq := ⟨ProvenTxReq.provenTxReqId⟩
instance : Keyed TxLabel := ⟨TxLabel.txLabelId⟩
instance : Keyed TxLabelMap := ⟨TxLabelMap.rowId⟩
instance : Keyed OutputTag := ⟨OutputTag.outputTagId⟩
instance : Keyed OutputTagMap := ⟨OutputTagMap.rowId⟩
instance : Keyed Certificate := ⟨Certificate.certificateId⟩
instance : Keyed CertificateField := ⟨CertificateField.rowId⟩
instance : Keyed Commission := ⟨Commission.commissionId⟩
instance : Keyed SyncState := ⟨SyncState.syncStateId⟩

end WalletToolbox.Storage
