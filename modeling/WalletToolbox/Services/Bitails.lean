import WalletToolbox.Methods.CreateAction
import WalletToolbox.Services.WhatsOnChain

/-! # Bitails

The transactions of a BEEF are posted in one request, and each entry of the answer is about the
txid that it names or about the transaction at its position.
The report starts with a success for every requested transaction. -/

namespace WalletToolbox.Bitails

open WalletToolbox.Storage (Bytes bytesToHex)

/-- `BitailsPostRawsResultEntry`, with the code of its error. -/
structure PostRawsEntry where
  txid : Option String := none
  errorCode : Option Int := none

/-- `raw_txids`: the computed txids of the raw transactions in the BEEF. -/
def rawTxids (sdk : HashSdk) (parsed : Beef) : List String :=
  parsed.txs.filterMap fun beefTx => beefTx.tx.bind fun tx =>
    (sdk.txBytes tx).toOption.map fun buf => bytesToHex (doubleSha256Be sdk buf)

/-- The txid that an entry of the answer is about. -/
def namedTxid (rawTxids : List String) (answered : PostRawsEntry × Nat) : String :=
  answered.1.txid.getD (rawTxids.getD answered.2 "")

/-- What an entry of the answer does to the result of its transaction. -/
def judge (entry : PostRawsEntry) (r : PostTxResultForTxid) : PostTxResultForTxid :=
  match entry.errorCode with
  | some code =>
    if code = -27 then { r with alreadyKnown := some true }
    else if code = -25 then { r with status := "error", doubleSpend := some true }
    else { r with status := "error", serviceError := some true }
  | none => r

/-- The first result of the txid is changed. -/
def modifyFirst (txid : String) (f : PostTxResultForTxid → PostTxResultForTxid) :
    List PostTxResultForTxid → List PostTxResultForTxid
  | [] => []
  | r :: results => if r.txid == txid then f r :: results else r :: modifyFirst txid f results

/-- One turn of the loop over the answer. -/
def settle (rawTxids : List String) (results : List PostTxResultForTxid)
    (answered : PostRawsEntry × Nat) : List PostTxResultForTxid :=
  modifyFirst (namedTxid rawTxids answered) (judge answered.1) results

/-- `Bitails::post_beef`. -/
def postBeef (sdk : HashSdk) (answer : HttpAnswer (List PostRawsEntry)) (beef : Bytes)
    (txids : List String) : PostBeefResult :=
  match sdk.parseBeef beef with
  | .error e => .allFailed "Bitails" s!"Failed to parse BEEF: {e}" txids
  | .ok parsed =>
    let rawTxids := rawTxids sdk parsed
    let result : PostBeefResult :=
      { name := "Bitails", status := "success"
        txidResults := txids.map fun txid => { txid, status := "success" } }
    if rawTxids.isEmpty then
      { result with status := "error", error := some "No raw transactions extracted from BEEF" }
    else
      match answer with
      | .error e => .allFailed "Bitails" s!"HTTP request failed: {e}" txids
      | .ok response =>
        if !response.isSuccess then
          .allFailed "Bitails" s!"Bitails postBeef status {response.statusText}" txids
        else
          match response.body with
          | .error e =>
            { result with status := "error", error := some s!"Failed to parse response: {e}" }
          | .ok entries =>
            if entries.length ≠ rawTxids.length then
              { result with status := "error", error := some "Response results count mismatch" }
            else
              let txidResults := entries.zipIdx.foldl (settle rawTxids) result.txidResults
              { result with
                txidResults
                status := if txidResults.any (·.status != "success") then "error"
                  else result.status }

end WalletToolbox.Bitails
