import WalletToolbox.Services.Http

/-! # ARC

One request posts the whole BEEF and is answered for one transaction; the others are queried one by
one. -/

namespace WalletToolbox.Arc

/-- `ArcResponse`. -/
structure ArcResponse where
  txid : String
  extraInfo : Option String := none
  txStatus : Option String := none
  competingTxs : Option (List String) := none

/-- `ArcGetTxData`, without the extra info that nothing reads. -/
structure ArcGetTxData where
  txid : String := ""
  txStatus : Option String := none
  blockHash : Option String := none
  blockHeight : Option UInt32 := none
  competingTxs : Option (List String) := none

/-- `get_tx_data`. -/
def getTxData (answer : HttpAnswer ArcGetTxData) : Option ArcGetTxData :=
  match answer with
  | .ok response => if response.isSuccess then response.body.toOption else none
  | .error _ => none

/-- The status that refuses a transaction, whatever the status of the response. -/
def isDoubleSpend (txStatus : String) : Bool := txStatus == "DOUBLE_SPEND_ATTEMPTED"

def isOrphanMempool (txStatus : String) : Bool := txStatus == "SEEN_IN_ORPHAN_MEMPOOL"

/-- The entry for the transaction that the answer names. -/
def primaryResult (response : HttpResponse ArcResponse) (arcResp : ArcResponse) :
    PostTxResultForTxid :=
  let txStatus := arcResp.txStatus.getD ""
  let isRejection := isDoubleSpend txStatus || isOrphanMempool txStatus
  { txid := arcResp.txid
    status := if response.isSuccess && !isRejection then "success" else "error"
    doubleSpend := if isDoubleSpend txStatus then some true else none
    competingTxs := arcResp.competingTxs
    serviceError := if !response.isSuccess && !isRejection then some true else none
    orphanMempool := if isOrphanMempool txStatus then some true else none }

/-- The entry for another transaction, from what a query tells. -/
def extraResult (txid : String) (data : Option ArcGetTxData) : PostTxResultForTxid :=
  match data with
  | some data =>
    let status :=
      if data.txStatus = some "SEEN_ON_NETWORK" ∨ data.txStatus = some "STORED" then "success"
      else "error"
    { txid, status
      blockHash := data.blockHash
      blockHeight := data.blockHeight
      competingTxs := data.competingTxs
      serviceError := if status == "error" then some true else none }
  | none => .serviceFailure txid

/-- The loop over the requested txids: the overall status and the entries. -/
def queryRest (named : String) (queries : Nat → HttpAnswer ArcGetTxData)
    (acc : String × List PostTxResultForTxid) (requested : String × Nat) :
    String × List PostTxResultForTxid :=
  let (txid, i) := requested
  if txid == named then acc
  else
    let data := getTxData (queries i)
    let result := extraResult txid data
    let overall :=
      match data with
      | some _ => if result.status == "error" && acc.1 == "success" then "error" else acc.1
      | none => "error"
    (overall, acc.2 ++ [result])

/-- `ArcProvider::post_beef`, for an answer to the post and answers to the queries, by the position
of the txid. -/
def postBeef (name : String) (answer : HttpAnswer ArcResponse)
    (queries : Nat → HttpAnswer ArcGetTxData) (txids : List String) : PostBeefResult :=
  match answer with
  | .error e => .allFailed name s!"Request failed: {e}" txids
  | .ok response =>
    match response.body with
    | .error e => .allFailed name s!"HTTP {response.statusText} - parse error: {e}" txids
    | .ok arcResp =>
      let txStatus := arcResp.txStatus.getD ""
      let extraInfo := arcResp.extraInfo.getD ""
      let primary := primaryResult response arcResp
      let (status, txidResults) :=
        txids.zipIdx.foldl (queryRest arcResp.txid queries) (primary.status, [primary])
      { name, status
        error :=
          if txStatus ≠ "success" ∧ txStatus ≠ "" ∧ (isDoubleSpend txStatus ∨ !response.isSuccess) then
            some s!"{txStatus} {extraInfo}"
          else none
        txidResults }

end WalletToolbox.Arc
