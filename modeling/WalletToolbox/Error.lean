import Mathlib.Logic.Function.Iterate
import Mathlib.Tactic.Common

/-! # Errors and their wire object

A storage server sends its error as an object and the client rebuilds an error from it.
The review results of the SDK pass through untouched, so their types are parameters; an error of the
database, of I/O or of the JSON library is its text. -/

namespace WalletToolbox.Wire

variable {ρ σ ω : Type}

/-- `WalletError`, over the SDK's `ReviewActionResult`, `SendWithResult` and `OutpointString`. -/
inductive WalletError (ρ σ ω : Type) where
  | internal (message : String)
  | invalidParameter (parameter mustBe : String)
  | notImplemented (message : String)
  | badRequest (message : String)
  | unauthorized (message : String)
  | notActive (message : String)
  | invalidOperation (message : String)
  | missingParameter (parameter : String)
  | insufficientFunds (message : String) (totalSatoshisNeeded moreSatoshisNeeded : Int64)
  | broadcastUnavailable
  | networkChain (message : String)
  | invalidPublicKey (message key : String)
  | reviewActions (message : String) (reviewActionResults : List ρ) (sendWithResults : List σ)
      (txid : Option String) (tx : Option (List UInt8)) (noSendChange : List ω)
  | invalidMerkleRoot (message blockHash : String) (blockHeight : UInt32) (merkleRoot : String)
      (txid : Option String)
  | sqlx (error : String)
  | io (error : String)
  | serdeJson (error : String)

/-- `WalletErrorObject`. -/
structure WalletErrorObject (ρ σ ω : Type) where
  isError : Bool
  name : String
  message : String
  code : Option UInt8 := none
  parameter : Option String := none
  totalSatoshisNeeded : Option Int64 := none
  moreSatoshisNeeded : Option Int64 := none
  reviewActionResults : Option (List ρ) := none
  sendWithResults : Option (List σ) := none
  txid : Option String := none
  tx : Option (List UInt8) := none
  noSendChange : Option (List ω) := none
  blockHash : Option String := none
  blockHeight : Option UInt32 := none
  merkleRoot : Option String := none
  key : Option String := none

namespace WalletError

/-- `code`. -/
def code : WalletError ρ σ ω → String
  | internal _ | sqlx _ | io _ | serdeJson _ => "WERR_INTERNAL"
  | invalidParameter _ _ => "WERR_INVALID_PARAMETER"
  | notImplemented _ => "WERR_NOT_IMPLEMENTED"
  | badRequest _ => "WERR_BAD_REQUEST"
  | unauthorized _ => "WERR_UNAUTHORIZED"
  | notActive _ => "WERR_NOT_ACTIVE"
  | invalidOperation _ => "WERR_INVALID_OPERATION"
  | missingParameter _ => "WERR_MISSING_PARAMETER"
  | insufficientFunds _ _ _ => "WERR_INSUFFICIENT_FUNDS"
  | broadcastUnavailable => "WERR_BROADCAST_UNAVAILABLE"
  | networkChain _ => "WERR_NETWORK_CHAIN"
  | invalidPublicKey _ _ => "WERR_INVALID_PUBLIC_KEY"
  | reviewActions _ _ _ _ _ _ => "WERR_REVIEW_ACTIONS"
  | invalidMerkleRoot _ _ _ _ _ => "WERR_INVALID_MERKLE_ROOT"

/-- The text of `Display`. -/
def display : WalletError ρ σ ω → String
  | internal message => "WERR_INTERNAL: " ++ message
  | invalidParameter parameter mustBe =>
    "WERR_INVALID_PARAMETER: The " ++ parameter ++ " parameter must be " ++ mustBe
  | notImplemented message => "WERR_NOT_IMPLEMENTED: " ++ message
  | badRequest message => "WERR_BAD_REQUEST: " ++ message
  | unauthorized message => "WERR_UNAUTHORIZED: " ++ message
  | notActive message => "WERR_NOT_ACTIVE: " ++ message
  | invalidOperation message => "WERR_INVALID_OPERATION: " ++ message
  | missingParameter parameter =>
    "WERR_MISSING_PARAMETER: The required " ++ parameter ++ " parameter is missing."
  | insufficientFunds message _ _ => "WERR_INSUFFICIENT_FUNDS: " ++ message
  | broadcastUnavailable => "WERR_BROADCAST_UNAVAILABLE: Unable to broadcast transaction at this time."
  | networkChain message => "WERR_NETWORK_CHAIN: " ++ message
  | invalidPublicKey message _ => "WERR_INVALID_PUBLIC_KEY: " ++ message
  | reviewActions message _ _ _ _ _ => "WERR_REVIEW_ACTIONS: " ++ message
  | invalidMerkleRoot message _ _ _ _ => "WERR_INVALID_MERKLE_ROOT: " ++ message
  | sqlx error => "WERR_INTERNAL: " ++ error
  | io error => "WERR_INTERNAL: " ++ error
  | serdeJson error => "WERR_INTERNAL: " ++ error

/-- `to_wallet_error_object`: the message of the object is the displayed text. -/
def toWalletErrorObject (e : WalletError ρ σ ω) : WalletErrorObject ρ σ ω :=
  let obj : WalletErrorObject ρ σ ω := { isError := true, name := e.code, message := e.display }
  match e with
  | invalidParameter parameter _ => { obj with parameter := some parameter }
  | missingParameter parameter => { obj with parameter := some parameter }
  | insufficientFunds _ total more =>
    { obj with totalSatoshisNeeded := some total, moreSatoshisNeeded := some more }
  | invalidPublicKey _ key => { obj with key := some key }
  | reviewActions _ reviewActionResults sendWithResults txid tx noSendChange =>
    { obj with
      code := some 5
      reviewActionResults := some reviewActionResults
      sendWithResults := some sendWithResults
      txid
      tx
      noSendChange := some noSendChange }
  | invalidMerkleRoot _ blockHash blockHeight merkleRoot txid =>
    { obj with
      code := some 8
      blockHash := some blockHash
      blockHeight := some blockHeight
      merkleRoot := some merkleRoot
      txid }
  | _ => obj

end WalletError

/-- `wallet_error_from_object`. -/
def walletErrorFromObject (obj : WalletErrorObject ρ σ ω) : WalletError ρ σ ω :=
  match obj.name with
  | "WERR_INVALID_PARAMETER" => .invalidParameter (obj.parameter.getD "") obj.message
  | "WERR_NOT_IMPLEMENTED" => .notImplemented obj.message
  | "WERR_BAD_REQUEST" => .badRequest obj.message
  | "WERR_UNAUTHORIZED" => .unauthorized obj.message
  | "WERR_NOT_ACTIVE" => .notActive obj.message
  | "WERR_INVALID_OPERATION" => .invalidOperation obj.message
  | "WERR_MISSING_PARAMETER" => .missingParameter (obj.parameter.getD obj.message)
  | "WERR_INSUFFICIENT_FUNDS" =>
    .insufficientFunds obj.message (obj.totalSatoshisNeeded.getD 0) (obj.moreSatoshisNeeded.getD 0)
  | "WERR_BROADCAST_UNAVAILABLE" => .broadcastUnavailable
  | "WERR_NETWORK_CHAIN" => .networkChain obj.message
  | "WERR_INVALID_PUBLIC_KEY" => .invalidPublicKey obj.message ((obj.key.or obj.parameter).getD "")
  | "WERR_REVIEW_ACTIONS" =>
    .reviewActions obj.message (obj.reviewActionResults.getD []) (obj.sendWithResults.getD [])
      obj.txid obj.tx (obj.noSendChange.getD [])
  | "WERR_INVALID_MERKLE_ROOT" =>
    .invalidMerkleRoot obj.message (obj.blockHash.getD "") (obj.blockHeight.getD 0)
      (obj.merkleRoot.getD "") obj.txid
  | _ => .internal obj.message

/-- One hop: an error is sent as an object and rebuilt from it. -/
def hop (e : WalletError ρ σ ω) : WalletError ρ σ ω :=
  walletErrorFromObject e.toWalletErrorObject

end WalletToolbox.Wire
