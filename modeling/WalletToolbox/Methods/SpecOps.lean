import WalletToolbox.Methods.ListOutputs
import WalletToolbox.Storage.WalletProvider

/-! # The special operations of listOutputs

A call of listOutputs whose basket, or one of whose tags, is the id of a special operation is no
listing: it asks for the balance of a basket, for outputs to be checked, or sets how change is made. -/

namespace WalletToolbox.Storage

open WalletToolbox.Lib

/-- `SPEC_OP_WALLET_BALANCE`. -/
def specOpWalletBalance : String :=
  "893b7646de0e1c9f741bd6e9169b76a8847ae34adef7bef1e6a285371206d2e8"

/-- `SPEC_OP_INVALID_CHANGE`. -/
def specOpInvalidChange : String :=
  "5a76fd430a311f8bc0553859061710a4475c19fed46e2ff95969aa918e612e57"

/-- `SPEC_OP_SET_WALLET_CHANGE_PARAMS`. -/
def specOpSetWalletChangeParams : String :=
  "a4979d28ced8581e9c1c92f1001cc7cb3aabf8ea32e10888ad898f0a509a3929"

inductive ListOutputsSpecOp where
  | walletBalance | invalidChange | setChangeParams
deriving DecidableEq

/-- `resolve_list_outputs_spec_op`: the operation, the basket and the tags that it is about. -/
def resolveListOutputsSpecOp (basket : String) (tags : List String) :
    Option ListOutputsSpecOp × String × List String :=
  if basket = specOpWalletBalance then (some .walletBalance, "default", tags)
  else if basket = specOpInvalidChange then (some .invalidChange, "default", tags)
  else if basket = specOpSetWalletChangeParams then (some .setChangeParams, "default", tags)
  else if tags.contains specOpWalletBalance then
    (some .walletBalance, basket, tags.filter (· != specOpWalletBalance))
  else (none, basket, tags)

/-- The outputs that an operation reads: the visible ones of the first basket of the name. -/
def findBasketOutputs (s : Store) (userId : Nat) (basketName : String) : List Output :=
  match s.outputBaskets.find fun b => b.userId == userId && b.name == basketName with
  | [] => []
  | basket :: _ => s.outputs.find (isVisible s userId (some basket.basketId))

/-- An output as the operations list it. -/
def toBriefOutput (o : Output) : SdkOutput :=
  { satoshis := asU64 o.satoshis
    lockingScript := none
    spendable := o.spendable
    customInstructions := none
    tags := none
    outpoint := o.txid.getD "" ++ "." ++ toString o.vout
    labels := none }

/-- `handle_wallet_balance`: the sum stands in the count field of the result, cast to `u32`. -/
def handleWalletBalance (s : Store) (userId : Nat) (basketName : String) : ListOutputsResult :=
  let outputs := findBasketOutputs s userId basketName
  let totalSatoshis := sumU64 (outputs.map fun o => asU64 o.satoshis)
  { totalOutputs := totalSatoshis.toNat % 4294967296, beef := none
    outputs := outputs.map toBriefOutput }

/-- `handle_invalid_change`: all the outputs, for review. -/
def handleInvalidChange (s : Store) (userId : Nat) (basketName : String) : ListOutputsResult :=
  let outputs := findBasketOutputs s userId basketName
  { totalOutputs := outputs.length % 4294967296, beef := none, outputs := outputs.map toBriefOutput }

/-- `str::parse::<i64>`, or zero. -/
def parseI64OrZero (s : String) : Int :=
  let value := match s.toList with
    | '-' :: cs => (digits? cs).map fun n => -(n : Int)
    | '+' :: cs => (digits? cs).map fun n => (n : Int)
    | cs => (digits? cs).map fun n => (n : Int)
  (value.filter fun v => -9223372036854775808 ≤ v && v ≤ 9223372036854775807).getD 0

/-- `handle_set_change_params`: the number and the least value of change outputs that the default
basket should hold. -/
def handleSetChangeParams (userId : Nat) (tags : List String) : StorageProg ListOutputsResult := do
  let count := ((tags[0]?).map parseI64OrZero).getD 0
  let satoshis := ((tags[1]?).map parseI64OrZero).getD 0
  let baskets ← find fun s => s.outputBaskets.find fun b => b.userId == userId && b.name == "default"
  match baskets.head? with
  | some basket =>
    exec' (.updateOutputBasket basket.basketId
      { numberOfDesiredUtxos := some count, minimumDesiredUtxoValue := some satoshis })
  | none => pure ()
  pure { totalOutputs := 0, beef := none, outputs := [] }

/-- `list_outputs_rw`. -/
def listOutputsRw (userId : Nat) (args : ListOutputsArgs) : StorageProg ListOutputsResult :=
  match resolveListOutputsSpecOp args.basket args.tags with
  | (some .walletBalance, basket, _) => find fun s => handleWalletBalance s userId basket
  | (some .invalidChange, basket, _) => find fun s => handleInvalidChange s userId basket
  | (some .setChangeParams, _, tags) => handleSetChangeParams userId tags
  | (none, _, _) => do
    let result ← find fun s => listOutputs s userId args
    Prog.ofExcept result

/-- `list_outputs` of the storage provider. -/
def listOutputsAuth (auth : AuthId) (args : ListOutputsArgs) : StorageProg ListOutputsResult := do
  let userId ← resolveUserScope auth
  listOutputsRw userId args

end WalletToolbox.Storage
