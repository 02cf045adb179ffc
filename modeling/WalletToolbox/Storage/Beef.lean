import WalletToolbox.Sdk
import WalletToolbox.Storage.Store

/-! # BEEF construction from storage

Collects a transaction and its unproven ancestors from the rows of the storage and assembles them to
a BEEF.
The source has the walk twice, once for each storage trait; the two read the same rows. -/

namespace WalletToolbox.Storage

open WalletToolbox.Lib

/-- How wallet-created transactions are treated. -/
inductive TrustSelf where
  | known | knownAndNew | no
deriving DecidableEq

structure CollectedTx where
  rawTx : Bytes
  txid : String
  merklePath : Option Bytes
  txidOnly : Bool
  inputBeef : Option Bytes

/-- An entry for a transaction that the receiver is trusted to know. -/
def CollectedTx.only (txid : String) : CollectedTx :=
  { rawTx := [], txid, merklePath := none, txidOnly := true, inputBeef := none }

/-- What a walk has collected, in order, and the txids it has visited. -/
structure Walk where
  collected : List CollectedTx := []
  visited : List String := []

def Walk.push (w : Walk) (tx : CollectedTx) : Walk :=
  { w with collected := w.collected ++ [tx] }

def Walk.visit (w : Walk) (txid : String) : Walk :=
  { w with visited := txid :: w.visited }

/-- A txid that cannot be collected is an entry when the receiver knows it. -/
def Walk.pushKnown (w : Walk) (known : List String) (txid : String) : Walk :=
  if known.contains txid then w.push (.only txid) else w

/-- `collect_tx_recursive`. Only a stored transaction is walked further, and never twice, so the walk
is at most one deeper than there are transactions. -/
def collectTxRecursive (sdk : Sdk) (d : Tables) (trustSelf : TrustSelf) (known : List String) :
    Nat → String → Walk → Except String Walk
  | 0, _, w => .ok w
  | depth + 1, txid, w =>
    if w.visited.contains txid then .ok w
    else
      let w := w.visit txid
      match d.provenTxs.first (·.txid == txid) with
      | some ptx =>
        if trustSelf = .known then .ok (w.push (.only txid))
        else
          .ok (w.push { rawTx := ptx.rawTx, txid, merklePath := some ptx.merklePath
                        txidOnly := false, inputBeef := none })
      | none =>
        match d.transactions.first (·.txid == some txid) with
        | none => .ok (w.pushKnown known txid)
        | some tx =>
          if trustSelf = .known then .ok (w.push (.only txid))
          else
            match tx.rawTx with
            | none => .ok (w.pushKnown known txid)
            | some rawTx => do
              let parsed ← sdk.parseTx rawTx
              let w ← parsed.inputs.foldlM (fun (w : Walk) input =>
                match input.sourceTxid with
                | none => .ok w
                | some source =>
                  if w.visited.contains source then .ok w
                  else if known.contains source then .ok ((w.visit source).push (.only source))
                  else collectTxRecursive sdk d trustSelf known depth source w) w
              .ok (w.push { rawTx, txid, merklePath := none, txidOnly := false
                            inputBeef := tx.inputBeef.filter (!·.isEmpty) })

/-- The functions of the SDK that put proofs into a BEEF. -/
structure BumpSdk where
  /-- `MerklePath::from_binary`. -/
  parseBump : Bytes → Except String MerklePath
  /-- `Beef::merge_bump`: the BEEF and the index of the bump in it. -/
  mergeBump : Beef → MerklePath → Except String (Beef × Nat)
  /-- `Beef::merge_raw_tx` with the index of a bump. -/
  mergeProvenTx : Beef → Bytes → Nat → Except String Beef

/-- Add one collected transaction to the BEEF. -/
def addCollected (sdk : Sdk) (bumps : BumpSdk) (beef : Beef) (ctx : CollectedTx) :
    Except String Beef :=
  if ctx.txidOnly then
    if (beef.findTxid ctx.txid).isNone then
      .ok { beef with
        txs := beef.txs ++ [{ txid := ctx.txid, tx := none, bumpIndex := none, inputTxids := [] }] }
    else .ok beef
  else do
    let beef ← match ctx.merklePath with
      | some bytes => do
        let mp ← bumps.parseBump bytes
        let (beef, bumpIndex) ← bumps.mergeBump beef mp
        bumps.mergeProvenTx beef ctx.rawTx bumpIndex
      | none => sdk.mergeRawTx beef ctx.rawTx
    match ctx.inputBeef with
    | some inputBeef => sdk.mergeBeef beef inputBeef
    | none => .ok beef

/-- `build_beef_from_collected`. -/
def buildBeefFromCollected (sdk : Sdk) (bumps : BumpSdk) (collected : List CollectedTx) :
    Except String (Option Bytes) :=
  if collected.isEmpty then .ok none
  else do
    let beef ← collected.foldlM (addCollected sdk bumps) Beef.empty
    let bytes ← sdk.beefBytes (sdk.sortTxs beef)
    .ok (some bytes)

/-- `get_valid_beef_for_txid`. -/
def getValidBeefForTxid (sdk : Sdk) (bumps : BumpSdk) (trustSelf : TrustSelf) (known : List String)
    (d : Tables) (txid : String) : Except String (Option Bytes) := do
  let w ← collectTxRecursive sdk d trustSelf known (d.transactions.rows.length + 1) txid {}
  buildBeefFromCollected sdk bumps w.collected

end WalletToolbox.Storage
