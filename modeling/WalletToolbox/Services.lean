import WalletToolbox.Sdk

/-! # Network services

The answers of the chain and broadcast services, as the wallet sees them.
A `Services` value fixes the answers of one run of an operation; results hold for every
value, so a service may answer anything. -/

namespace WalletToolbox

open WalletToolbox.Storage

/-- What one provider says about one broadcast transaction. -/
structure PostTxResultForTxid where
  txid : String
  status : String
  alreadyKnown : Option Bool := none
  doubleSpend : Option Bool := none
  blockHash : Option String := none
  blockHeight : Option UInt32 := none
  competingTxs : Option (List String) := none
  serviceError : Option Bool := none
  orphanMempool : Option Bool := none

structure PostBeefResult where
  name : String
  status : String
  error : Option String := none
  txidResults : List PostTxResultForTxid

/-- `PostBeefResult::timeout`. -/
def PostBeefResult.timeout (providerName : String) (txids : List String) (timeoutMs : Nat) :
    PostBeefResult where
  name := providerName
  status := "error"
  error := some s!"Service timeout after {timeoutMs}ms"
  txidResults := txids.map fun txid => { txid, status := "error", serviceError := some true }

structure StatusForTxidResult where
  txid : String
  status : String

structure GetStatusForTxidsResult where
  status : String
  error : Option String := none
  results : List StatusForTxidResult := []

structure BlockHeader where
  height : Nat
  hash : String
  merkleRoot : String

structure GetMerklePathResult where
  merklePath : Option Bytes := none
  header : Option BlockHeader := none

structure Services where
  postBeef : Bytes → List String → List PostBeefResult
  getStatusForTxids : List String → GetStatusForTxidsResult
  isUtxo : Bytes → String → Nat → Except String Bool
  getMerklePath : String → GetMerklePathResult

/-- The error of a failed SDK call. -/
def internalError {α : Type} (message : String) (r : Except String α) :
    Except WalletError α :=
  r.mapError fun e => .internal (message ++ e)

end WalletToolbox
