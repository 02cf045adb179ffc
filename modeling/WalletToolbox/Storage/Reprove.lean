import WalletToolbox.Services
import WalletToolbox.Storage.Provider

/-! # Proofs after a reorganization

`reprove_proven` and `reprove_header` of the storage manager ask the services for the proof that a
stored transaction has now, and write to the active storage what an update of `proven_txs` takes:
the height and the hash of the block. -/

namespace WalletToolbox.Storage

open WalletToolbox.Lib

structure ReproveProvenUpdate where
  update : ProvenTx
  logUpdate : String

structure ReproveProvenResult where
  updated : Option ReproveProvenUpdate := none
  unchanged : Bool := false
  unavailable : Bool := false

structure ReproveHeaderResult where
  updated : List ProvenTx := []
  unchanged : List ProvenTx := []
  unavailable : List ProvenTx := []

/-- The record with the new proof; `index` is left as it is. -/
def ProvenTx.reproved (ptx : ProvenTx) (merklePath : Bytes) (header : BlockHeader) : ProvenTx :=
  { ptx with
    height := header.height, blockHash := header.hash, merkleRoot := header.merkleRoot, merklePath }

/-- The update that both functions make of a new record. -/
def ProvenTx.reproveUpdate (updated : ProvenTx) : ProvenTxPartial where
  height := some updated.height
  blockHash := some updated.blockHash

/-- `reprove_proven`. -/
def reproveProven (services : Services) (ptx : ProvenTx) (noUpdate : Bool) :
    StorageProg ReproveProvenResult :=
  match (services.getMerklePath ptx.txid).merklePath, (services.getMerklePath ptx.txid).header with
  | some merklePath, some header =>
    if ptx.height = header.height ∧ ptx.blockHash = header.hash ∧
        ptx.merkleRoot = header.merkleRoot ∧ ptx.merklePath = merklePath then
      pure { unchanged := true }
    else do
      let updated := ptx.reproved merklePath header
      if !noUpdate then
        exec' (.updateProvenTx ptx.provenTxId updated.reproveUpdate)
      pure { updated := some ⟨updated, "reproved txid=" ++ ptx.txid ++ " old_block=" ++ ptx.blockHash ++
        " new_block=" ++ header.hash ++ " height=" ++ toString header.height⟩ }
  | _, _ => pure { unavailable := true }

/-- What `reprove_header` collects before it writes: its report, without the updated records, and
the records to write. -/
structure Reproving where
  result : ReproveHeaderResult := {}
  updates : List ProvenTx := []

def Reproving.add (r : Reproving) (ptx : ProvenTx) (result : ReproveProvenResult) : Reproving :=
  if result.unavailable then
    { r with result := { r.result with unavailable := r.result.unavailable ++ [ptx] } }
  else if result.unchanged then
    { r with result := { r.result with unchanged := r.result.unchanged ++ [ptx] } }
  else
    match result.updated with
    | some ru => { r with updates := r.updates ++ [ru.update] }
    | none => r

/-- `reprove_header`: all proofs of the block are asked for first, then the new ones are written. -/
def reproveHeader (services : Services) (deactivatedHash : String) :
    StorageProg ReproveHeaderResult := do
  let provenTxs ← find fun s => s.provenTxs.find (·.blockHash == deactivatedHash)
  let reproving ← provenTxs.foldlM (fun (r : Reproving) ptx => do
    let result ← reproveProven services ptx true
    pure (r.add ptx result)) {}
  forM reproving.updates fun updated =>
    exec' (.updateProvenTx updated.provenTxId updated.reproveUpdate)
  pure { reproving.result with updated := reproving.updates }

end WalletToolbox.Storage
