import WalletToolbox.Lib.Paging
import WalletToolbox.Lib.Waves
import WalletToolbox.Services.Http

/-! # Arcade

Every requested transaction is posted on its own, in Extended Format.
The loop goes in waves: a wave posts what spends no requested transaction that is still pending, at
most four at a time. -/

namespace WalletToolbox.Arcade

open WalletToolbox.Lib
open WalletToolbox.Storage (Bytes)

/-- `ArcadeResponse`. -/
structure ArcadeResponse where
  txid : String
  txStatus : String := ""
  competingTxs : Option (List String) := none

/-- The functions of the SDK that look a transaction up in a BEEF and write it in Extended Format. -/
structure ArcadeSdk extends Sdk where
  /-- `Beef::find_atomic_transaction`. -/
  findAtomicTransaction : Beef → String → Option Tx
  /-- `Transaction::to_hex_ef`. -/
  toHexEf : Tx → Except String String

/-- `post_ef`. -/
def postEf (txid : String) (answer : HttpAnswer ArcadeResponse) : PostTxResultForTxid :=
  match answer with
  | .error _ => .serviceFailure txid
  | .ok response =>
    match response.body with
    | .error _ => .serviceFailure txid
    | .ok body =>
      let isDoubleSpend := body.txStatus == "DOUBLE_SPEND_ATTEMPTED"
      let isOrphanMempool := body.txStatus == "SEEN_IN_ORPHAN_MEMPOOL"
      let accepted := response.isSuccess && !isDoubleSpend && !isOrphanMempool
      let serviceError := [408, 429, 476].contains response.status || response.isServerError
      { txid := body.txid
        status := if accepted then "success" else "error"
        doubleSpend := if isDoubleSpend then some true else none
        competingTxs := body.competingTxs
        serviceError := if accepted then none else some serviceError
        orphanMempool := if isOrphanMempool then some true else none }

/-- A requested transaction: what is posted, and the requested transactions that it spends. -/
structure Prepared where
  txid : String
  efHex : Option String
  dependencies : List String

/-- What is prepared for one of the requested transactions. -/
def prepare (sdk : ArcadeSdk) (parsed : Beef) (txids : List String) (txid : String) : Prepared :=
  let transaction := sdk.findAtomicTransaction parsed txid
  { txid
    dependencies := (transaction.map fun tx => (tx.inputs.filterMap (·.sourceTxid)).filter
      fun sourceTxid => sourceTxid ≠ txid ∧ sourceTxid ∈ txids).getD []
    efHex := transaction.bind fun tx => (sdk.toHexEf tx).toOption }

def prepareAll (sdk : ArcadeSdk) (parsed : Beef) (txids : List String) : List Prepared :=
  txids.map (prepare sdk parsed txids)

/-! ## The schedule -/

/-- `index_by_txid`: a txid that is requested twice has its last position. -/
def indexByTxid (prepared : List Prepared) (txid : String) : Option Nat :=
  (prepared.zipIdx.filter fun p => p.1.txid = txid).getLast?.map Prod.snd

/-- A pending transaction does not wait for another pending one. -/
def isReady (prepared : List Prepared) (pending : List Nat) (index : Nat) : Bool :=
  ((prepared[index]?.map (·.dependencies)).getD []).all fun dependency =>
    ((indexByTxid prepared dependency).map fun i => !pending.contains i).getD true

/-- The groups of positions that are posted at the same time, one after the other: the waves of the
loop, at most four at a time. The set of pending positions is kept in order. -/
def schedule (prepared : List Prepared) : Option (List (List Nat)) :=
  (Waves.waves (isReady prepared) prepared.length (List.range prepared.length)).map
    (·.flatMap (chunks 4))

/-! ## The report -/

/-- The result of one position. -/
def txResult (answers : Nat → HttpAnswer ArcadeResponse) (index : Nat) (p : Prepared) :
    PostTxResultForTxid :=
  match p.efHex with
  | some _ => postEf p.txid (answers index)
  | none => .serviceFailure p.txid

/-- The results are filed by their positions. -/
def fileResult (prepared : List Prepared) (answers : Nat → HttpAnswer ArcadeResponse)
    (results : List (Option PostTxResultForTxid)) (index : Nat) :
    List (Option PostTxResultForTxid) :=
  match prepared[index]? with
  | some p => results.set index (some (txResult answers index p))
  | none => results

/-- The results in the order of the txids. -/
def collectResults (prepared : List Prepared) (answers : Nat → HttpAnswer ArcadeResponse)
    (txids : List String) (groups : List (List Nat)) : List PostTxResultForTxid :=
  let filed := groups.flatten.foldl (fileResult prepared answers)
    (List.replicate prepared.length none)
  filed.zipIdx.map fun (result, index) => result.getD (.serviceFailure (txids.getD index ""))

def bodyErrorDescription (txid : String) (found : Bool) : String :=
  if found then s!"Could not build Extended Format transaction {txid}"
  else s!"Transaction {txid} not found in BEEF"

/-- One failed entry fails the report. -/
def report (parsed : Beef) (txidResults : List PostTxResultForTxid) : PostBeefResult :=
  match txidResults.find? (·.status == "error") with
  | some failed =>
    { name := "ArcadeBeef"
      status := "error"
      error := some (bodyErrorDescription failed.txid (parsed.findTxid failed.txid).isSome)
      txidResults }
  | none => { name := "ArcadeBeef", status := "success", txidResults }

/-- `ArcadeProvider::post_beef`, for the answers to the posts by the positions of their txids; `none`
when the loop does not end. -/
def postBeef (sdk : ArcadeSdk) (answers : Nat → HttpAnswer ArcadeResponse) (beef : Bytes)
    (txids : List String) : Option PostBeefResult :=
  match sdk.parseBeef beef with
  | .error error => some (.allFailed "ArcadeBeef" s!"Failed to parse BEEF: {error}" txids)
  | .ok parsed =>
    let prepared := prepareAll sdk parsed txids
    (schedule prepared).map fun groups =>
      report parsed (collectResults prepared answers txids groups)

/-! ## What is seen of the posts -/

/-- A post is sent, or a position has its result. -/
inductive Event where
  | post (index : Nat)
  | answered (index : Nat)
deriving DecidableEq

/-- What happens at one position, in this order. -/
def events (prepared : List Prepared) (index : Nat) : List Event :=
  match prepared[index]? with
  | some p => if p.efHex.isSome then [.post index, .answered index] else [.answered index]
  | none => []

/-- The runs of groups of posts. -/
abbrev Posts (prepared : List Prepared) : List (List Nat) → List Event → Prop :=
  Waves.Run (events prepared)

end WalletToolbox.Arcade
