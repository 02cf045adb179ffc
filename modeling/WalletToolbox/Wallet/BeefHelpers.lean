import WalletToolbox.Storage.Beef

/-! # Txid-only entries of a returned BEEF

Before a BEEF leaves the wallet, each of its txid-only entries is replaced by the transaction that
the wallet's own BEEF holds for it, unless the receiver knows it.
The errors are the texts of the internal errors of the source. -/

namespace WalletToolbox

open WalletToolbox.Storage

/-- `Beef::merge_raw_tx`, with the index of a bump or without one. -/
def mergeRawTx (sdk : Sdk) (bumps : BumpSdk) (beef : Beef) (raw : Bytes) (bumpIndex : Option Nat) :
    Except String Beef :=
  match bumpIndex with
  | some i => bumps.mergeProvenTx beef raw i
  | none => sdk.mergeRawTx beef raw

/-- Merge the bump of the wallet's entry for a txid; the result is the index that it has in the
BEEF. -/
def mergeBumpOf (bumps : BumpSdk) (walletBeef beef : Beef) (txid : String) (bumpIndex : Option Nat) :
    Except String (Beef × Option Nat) :=
  match bumpIndex with
  | none => .ok (beef, none)
  | some bi =>
    match walletBeef.bumps[bi]? with
    | none => .error s!"wallet beef entry {txid} names bump {bi} which does not exist"
    | some bump => do
      let (beef, mergedBumpIndex) ← (bumps.mergeBump beef bump).mapError fun e =>
        s!"unable to merge bump for txid {txid} into beef: {e}"
      .ok (beef, some mergedBumpIndex)

/-- The pass of the loop for one entry: merge the wallet's entry for the txid and nothing else. -/
def mergeFullTx (sdk : Sdk) (bumps : BumpSdk) (walletBeef beef : Beef) (txid : String) :
    Except String Beef :=
  match walletBeef.findTxid txid with
  | none => .error s!"unable to merge txid {txid} into beef"
  | some fullBtx =>
    match fullBtx.tx with
    | none => .error s!"unable to merge txid {txid} into beef"
    | some fullTx => do
      let (beef, mergedBumpIndex) ← mergeBumpOf bumps walletBeef beef txid fullBtx.bumpIndex
      let raw ← (sdk.txBytes fullTx).mapError fun e => s!"unable to serialize txid {txid}: {e}"
      (mergeRawTx sdk bumps beef raw mergedBumpIndex).mapError fun e =>
        s!"unable to merge txid {txid} into beef: {e}"

/-- The receiver knows the transaction. -/
def isKnown (knownTxids : Option (List String)) (txid : String) : Bool :=
  knownTxids.any (·.contains txid)

/-- `verify_returned_txid_only`; the BEEF that it leaves when it succeeds. -/
def verifyReturnedTxidOnly (sdk : Sdk) (bumps : BumpSdk) (beef walletBeef : Beef)
    (returnTxidOnly : Bool) (knownTxids : Option (List String)) : Except String Beef :=
  if returnTxidOnly then .ok beef
  else do
    let txidOnly := (beef.txs.filter (·.isTxidOnly)).map (·.txid)
    let beef ← txidOnly.foldlM (fun beef txid =>
      if isKnown knownTxids txid then .ok beef else mergeFullTx sdk bumps walletBeef beef txid) beef
    match beef.txs.find? fun btx => btx.isTxidOnly && !isKnown knownTxids btx.txid with
    | some btx => .error s!"remaining txidOnly {btx.txid} is not known"
    | none => .ok beef

/-- `verify_returned_txid_only_atomic_beef`; `toBinaryAtomic` is `Beef::to_binary_atomic`. -/
def verifyReturnedTxidOnlyAtomicBeef (sdk : Sdk) (bumps : BumpSdk)
    (toBinaryAtomic : Beef → String → Except String Bytes) (beefBytes : Bytes) (walletBeef : Beef)
    (returnTxidOnly : Bool) (knownTxids : Option (List String)) : Except String Bytes :=
  if returnTxidOnly then .ok beefBytes
  else do
    let beef ← (sdk.parseBeef beefBytes).mapError fun e => s!"failed to parse AtomicBEEF: {e}"
    match beef.atomicTxid with
    | none => .error "AtomicBEEF missing atomic txid"
    | some atomicTxid => do
      let beef ← verifyReturnedTxidOnly sdk bumps beef walletBeef returnTxidOnly knownTxids
      (toBinaryAtomic beef atomicTxid).mapError fun e => s!"failed to serialize AtomicBEEF: {e}"

/-- `verify_returned_txid_only_beef`. -/
def verifyReturnedTxidOnlyBeef (sdk : Sdk) (bumps : BumpSdk) (beefBytes : Bytes) (walletBeef : Beef)
    (returnTxidOnly : Bool) : Except String Bytes :=
  if returnTxidOnly then .ok beefBytes
  else do
    let beef ← (sdk.parseBeef beefBytes).mapError fun e => s!"failed to parse BEEF: {e}"
    let beef ← verifyReturnedTxidOnly sdk bumps beef walletBeef returnTxidOnly none
    (sdk.beefBytes beef).mapError fun e => s!"failed to serialize BEEF: {e}"

end WalletToolbox
