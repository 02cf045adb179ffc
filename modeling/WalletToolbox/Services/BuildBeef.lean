import WalletToolbox.Lib.Explore
import WalletToolbox.Services
import WalletToolbox.Storage.Beef

/-! # BEEFs from the services

The chain services are asked for raw transactions and merkle paths, and the ancestry of a
transaction is walked down to the first proven ancestor of each branch. -/

namespace WalletToolbox

open WalletToolbox.Lib.Explore
open WalletToolbox.Storage (BumpSdk Bytes WalletError)

/-- `BeefTxSource`. -/
structure BeefTxSource where
  sourceMerklePath : String → Except WalletError (Option Bytes)
  sourceRawTx : String → Except WalletError (Option Bytes)

/-- The functions of the SDK that make a BEEF entry. -/
structure BuilderSdk extends Sdk, BumpSdk where
  /-- `BeefTx::from_tx`. -/
  fromTx : Tx → Option Nat → Except String BeefTx

/-- `merge_txid_into_beef` up to the recursion: the transaction is added, and the txids to go on with
are returned. A mined transaction ends its branch. -/
def addTxid (sdk : BuilderSdk) (source : BeefTxSource) (txid : String) (beef : Beef) :
    Except WalletError (Beef × List String) := do
  match ← source.sourceRawTx txid with
  | none => .error (.internal s!"Could not retrieve raw transaction for txid {txid}")
  | some rawTx =>
    let tx ← internalError s!"Failed to parse transaction {txid}: " (sdk.parseTx rawTx)
    match ← source.sourceMerklePath txid with
    | some mpBytes =>
      let merklePath ← internalError s!"Failed to parse merkle path for {txid}: "
        (sdk.parseBump mpBytes)
      let bumpIndex := beef.bumps.length
      let beefTx ← internalError s!"Failed to build BeefTx for {txid}: "
        (sdk.fromTx tx (some bumpIndex))
      .ok ({ beef with bumps := beef.bumps ++ [merklePath], txs := beef.txs ++ [beefTx] }, [])
    | none =>
      let inputTxids := tx.inputs.filterMap (·.sourceTxid)
      let beefTx ← internalError s!"Failed to build BeefTx for {txid}: " (sdk.fromTx tx none)
      .ok ({ beef with txs := beef.txs ++ [beefTx] }, inputTxids)

/-- `merge_txid_into_beef`. -/
def mergeTxidIntoBeef (sdk : BuilderSdk) (source : BeefTxSource) (depth : Nat)
    (txid : String) (w : Walk String Beef) : Option (Except WalletError (Walk String Beef)) :=
  explore (addTxid sdk source) depth txid w

/-- `build_beef_for_txid`; `none` when the recursion needs more depth. -/
def buildBeefForTxid (sdk : BuilderSdk) (source : BeefTxSource) (depth : Nat)
    (txid : String) : Option (Except WalletError Beef) :=
  (mergeTxidIntoBeef sdk source depth txid { state := Beef.empty, visited := [] }).map fun r => do
    let w ← r
    if w.state.txs.isEmpty then
      .error (.internal s!"Could not retrieve raw transaction for txid {txid}")
    else .ok w.state

end WalletToolbox
