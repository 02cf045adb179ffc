import Mathlib.Data.List.Sort
import WalletToolbox.Storage.Provider

/-! # What is synchronized

Twelve kinds of rows travel from one store to another, each kind with its own sync map.
The source has one field for each kind in a chunk and in a sync map; here a kind is a value, so
what the twelve have in common is said once. -/

namespace WalletToolbox.Storage

open WalletToolbox.Lib

/-- The kinds of synchronized rows, in the order in which a chunk is filled. -/
inductive Entity where
  | provenTx | outputBasket | outputTag | txLabel | transaction | output | txLabelMap
  | outputTagMap | certificate | certificateField | commission | provenTxReq
deriving DecidableEq

namespace Entity

/-- `ENTITY_ORDER`. -/
def all : List Entity :=
  [.provenTx, .outputBasket, .outputTag, .txLabel, .transaction, .output, .txLabelMap,
   .outputTagMap, .certificate, .certificateField, .commission, .provenTxReq]

theorem mem_all (e : Entity) : e ∈ all := by
  cases e <;> decide

/-- The name on the wire. -/
def name : Entity → String
  | .provenTx => "provenTx"
  | .outputBasket => "outputBasket"
  | .outputTag => "outputTag"
  | .txLabel => "txLabel"
  | .transaction => "transaction"
  | .output => "output"
  | .txLabelMap => "txLabelMap"
  | .outputTagMap => "outputTagMap"
  | .certificate => "certificate"
  | .certificateField => "certificateField"
  | .commission => "commission"
  | .provenTxReq => "provenTxReq"

abbrev Row : Entity → Type
  | .provenTx => ProvenTx
  | .outputBasket => OutputBasket
  | .outputTag => OutputTag
  | .txLabel => TxLabel
  | .transaction => Transaction
  | .output => Output
  | .txLabelMap => TxLabelMap
  | .outputTagMap => OutputTagMap
  | .certificate => Certificate
  | .certificateField => CertificateField
  | .commission => Commission
  | .provenTxReq => ProvenTxReq

instance : (e : Entity) → Keyed e.Row
  | .provenTx => inferInstanceAs (Keyed ProvenTx)
  | .outputBasket => inferInstanceAs (Keyed OutputBasket)
  | .outputTag => inferInstanceAs (Keyed OutputTag)
  | .txLabel => inferInstanceAs (Keyed TxLabel)
  | .transaction => inferInstanceAs (Keyed Transaction)
  | .output => inferInstanceAs (Keyed Output)
  | .txLabelMap => inferInstanceAs (Keyed TxLabelMap)
  | .outputTagMap => inferInstanceAs (Keyed OutputTagMap)
  | .certificate => inferInstanceAs (Keyed Certificate)
  | .certificateField => inferInstanceAs (Keyed CertificateField)
  | .commission => inferInstanceAs (Keyed Commission)
  | .provenTxReq => inferInstanceAs (Keyed ProvenTxReq)

/-- `entity_updated_at`. -/
def updatedAt : (e : Entity) → e.Row → Nat
  | .provenTx, r => ProvenTx.updatedAt r
  | .outputBasket, r => OutputBasket.updatedAt r
  | .outputTag, r => OutputTag.updatedAt r
  | .txLabel, r => TxLabel.updatedAt r
  | .transaction, r => Transaction.updatedAt r
  | .output, r => Output.updatedAt r
  | .txLabelMap, r => TxLabelMap.updatedAt r
  | .outputTagMap, r => OutputTagMap.updatedAt r
  | .certificate, r => Certificate.updatedAt r
  | .certificateField, r => CertificateField.updatedAt r
  | .commission, r => Commission.updatedAt r
  | .provenTxReq, r => ProvenTxReq.updatedAt r

/-- The kinds that have a primary id of their own, which the sync map translates. -/
def hasId : Entity → Bool
  | .txLabelMap | .outputTagMap | .certificateField => false
  | _ => true

end Entity

/-- The table of a kind. -/
def Tables.table (d : Tables) : (e : Entity) → Table e.Row
  | .provenTx => d.provenTxs
  | .outputBasket => d.outputBaskets
  | .outputTag => d.outputTags
  | .txLabel => d.txLabels
  | .transaction => d.transactions
  | .output => d.outputs
  | .txLabelMap => d.txLabelMaps
  | .outputTagMap => d.outputTagMaps
  | .certificate => d.certificates
  | .certificateField => d.certificateFields
  | .commission => d.commissions
  | .provenTxReq => d.provenTxReqs

/-! ## Sync maps -/

namespace EntitySyncMap

/-- `update_max`. -/
def updateMax (m : EntitySyncMap) (updatedAt : Nat) : EntitySyncMap :=
  match m.maxUpdatedAt with
  | some current => if updatedAt ≤ current then m else { m with maxUpdatedAt := some updatedAt }
  | none => { m with maxUpdatedAt := some updatedAt }

/-- `get_local_id`. -/
def getLocalId (m : EntitySyncMap) (foreignId : Nat) : Option Nat :=
  (m.idMap.find? (·.1 == foreignId)).map (·.2)

/-- `map_id`: an id keeps the local id that it has. -/
def mapId (m : EntitySyncMap) (foreignId localId : Nat) : Except WalletError EntitySyncMap :=
  match m.getLocalId foreignId with
  | some existing =>
    if existing == localId then .ok m
    else .error (.internal (s!"EntitySyncMap[{m.entityName}]: cannot override mapping " ++
      s!"{foreignId}=>{existing} with {localId}"))
  | none => .ok { m with idMap := m.idMap ++ [(foreignId, localId)] }

end EntitySyncMap

namespace SyncMap

def get (m : SyncMap) : Entity → EntitySyncMap
  | .provenTx => m.provenTx
  | .outputBasket => m.outputBasket
  | .outputTag => m.outputTag
  | .txLabel => m.txLabel
  | .transaction => m.transaction
  | .output => m.output
  | .txLabelMap => m.txLabelMap
  | .outputTagMap => m.outputTagMap
  | .certificate => m.certificate
  | .certificateField => m.certificateField
  | .commission => m.commission
  | .provenTxReq => m.provenTxReq

def set (m : SyncMap) (e : Entity) (v : EntitySyncMap) : SyncMap :=
  match e with
  | .provenTx => { m with provenTx := v }
  | .outputBasket => { m with outputBasket := v }
  | .outputTag => { m with outputTag := v }
  | .txLabel => { m with txLabel := v }
  | .transaction => { m with transaction := v }
  | .output => { m with output := v }
  | .txLabelMap => { m with txLabelMap := v }
  | .outputTagMap => { m with outputTagMap := v }
  | .certificate => { m with certificate := v }
  | .certificateField => { m with certificateField := v }
  | .commission => { m with commission := v }
  | .provenTxReq => { m with provenTxReq := v }

@[simp] theorem get_set_self (m : SyncMap) (e : Entity) (v : EntitySyncMap) :
    (m.set e v).get e = v := by
  cases e <;> rfl

theorem get_set_of_ne (m : SyncMap) {e e' : Entity} (v : EntitySyncMap) (h : e' ≠ e) :
    (m.set e v).get e' = m.get e' := by
  cases e <;> cases e' <;> first | rfl | exact absurd rfl h

/-- The counts of all kinds at zero. -/
def resetCounts (m : SyncMap) : SyncMap :=
  Entity.all.foldl (fun m e => m.set e { m.get e with count := 0 }) m

/-- `sync_map_max_updated_at`. -/
def maxUpdatedAt (m : SyncMap) : Option Nat :=
  (Entity.all.filterMap fun e => (m.get e).maxUpdatedAt).max?

end SyncMap

/-- What the `syncMap` column says; a state that is new has no map yet. -/
def SyncState.map (ss : SyncState) (failure : String) : Except WalletError SyncMap :=
  match ss.syncMap with
  | .blank => .ok {}
  | .parsed m => .ok m
  | .invalid => .error (.internal failure)

/-! ## Requests and chunks -/

/-- `RequestSyncChunkArgs`. -/
structure RequestSyncChunkArgs where
  fromStorageIdentityKey : String
  toStorageIdentityKey : String
  identityKey : String
  since : Option Nat
  maxRoughSize : Int
  maxItems : Int
  offsets : List (String × Int)

/-- An array that was not reached is absent. -/
structure SyncChunk where
  fromStorageIdentityKey : String
  toStorageIdentityKey : String
  userIdentityKey : String
  user : Option User
  rows : (e : Entity) → Option (List e.Row)

/-- Every array of the chunk is present and empty. -/
def SyncChunk.isEmpty (chunk : SyncChunk) : Bool :=
  Entity.all.all fun e => (chunk.rows e).any (·.isEmpty)

end WalletToolbox.Storage
