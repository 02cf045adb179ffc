import WalletToolbox.Services

/-! # Answers of HTTP services

A provider sends requests and reads a status and a body.
What it gets is a parameter here: any status, a body that reads or does not, or no answer at all. -/

namespace WalletToolbox

variable {β : Type}

/-- The answer to a request: its status, how that is printed, and the body or why it cannot be
read. -/
structure HttpResponse (β : Type) where
  status : Nat
  statusText : String
  body : Except String β

/-- A response, or why there is none. -/
abbrev HttpAnswer (β : Type) := Except String (HttpResponse β)

def HttpResponse.isSuccess (r : HttpResponse β) : Bool :=
  200 ≤ r.status && r.status < 300

def HttpResponse.isServerError (r : HttpResponse β) : Bool :=
  500 ≤ r.status && r.status < 600

/-- The entry of a transaction that a provider could not process. -/
def PostTxResultForTxid.serviceFailure (txid : String) : PostTxResultForTxid where
  txid
  status := "error"
  serviceError := some true

/-- The report of a provider that could not process any of the transactions. -/
def PostBeefResult.allFailed (name error : String) (txids : List String) : PostBeefResult where
  name
  status := "error"
  error := some error
  txidResults := txids.map PostTxResultForTxid.serviceFailure

end WalletToolbox
