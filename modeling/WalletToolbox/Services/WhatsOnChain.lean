import WalletToolbox.Services.Http
import WalletToolbox.Services.PostBeef
import WalletToolbox.Storage.Beef

/-! # WhatsOnChain

The conversion of the merkle proofs that WhatsOnChain and Bitails answer with, and the posts of raw
transactions one by one. -/

namespace WalletToolbox

open WalletToolbox.Storage (BumpSdk Bytes WalletError)

/-- The functions of the SDK that make a merkle path. -/
structure PathSdk extends Sdk, BumpSdk where
  /-- `MerklePath::new`. -/
  newPath : Nat → List (List MerkleLeaf) → Except String MerklePath

/-- The leaf of a node of the proof. -/
def siblingLeaf (txid : String) (level idx : Nat) (node : String) : MerkleLeaf :=
  let offset := if idx % 2 = 1 then idx - 1 else idx + 1
  if node = "*" ∨ (level = 0 ∧ node = txid) then
    { offset, hash := none, txid := false, duplicate := true }
  else { offset, hash := some node, txid := false }

/-- The levels of the path, from the given one up. -/
def pathLevels (txid : String) (index : Nat) : Nat → Nat → List String → List (List MerkleLeaf)
  | _, _, [] => []
  | level, idx, node :: rest =>
    let leaf := siblingLeaf txid level idx node
    let txidLeaf : MerkleLeaf := { offset := index, hash := some txid, txid := true }
    let leaves :=
      if level = 0 then if idx % 2 = 1 then [leaf, txidLeaf] else [txidLeaf, leaf] else [leaf]
    leaves :: pathLevels txid index (level + 1) (idx / 2) rest

/-- `convert_proof_to_merkle_path`. -/
def convertProofToMerklePath (sdk : PathSdk) (txid : String) (index : Nat) (nodes : List String)
    (blockHeight : Nat) : Except WalletError Bytes := do
  let mp ← internalError "Failed to construct MerklePath: "
    (sdk.newPath blockHeight (pathLevels txid index 0 index nodes))
  internalError "Failed to serialize MerklePath: " (sdk.bumpBytes mp)

/-! ## Posts -/

/-- The SDK with the hash that txids are computed with. -/
structure HashSdk extends Sdk where
  /-- `sha256d`. -/
  sha256d : Bytes → Bytes

/-- `double_sha256_be`. -/
def doubleSha256Be (sdk : HashSdk) (data : Bytes) : Bytes :=
  (sdk.sha256d data).reverse

namespace WhatsOnChain

/-- The raw transaction that is posted, or what the report says when there is none. -/
def rawTxBytes (sdk : Sdk) (parsed : Beef) (txid : String) : Except String Bytes :=
  match parsed.findTxid txid with
  | some beefTx =>
    match beefTx.tx with
    | some tx => (sdk.txBytes tx).mapError fun e => s!"Failed to serialize tx: {e}"
    | none => .error "Tx is txid-only in BEEF"
  | none => .error s!"txid {txid} not found in BEEF"

/-- The result of one post. A text that cannot be read is empty. -/
def txResult (txid : String) (answer : HttpAnswer String) : PostTxResultForTxid :=
  match answer with
  | .ok response =>
    let bodyText := response.body.toOption.getD ""
    if response.isSuccess then { txid, status := "success" }
    else if textContains bodyText "already in the mempool" then
      { txid, status := "success", alreadyKnown := some true }
    else if textContains bodyText "mempool-conflict" || textContains bodyText "Missing inputs" then
      { txid, status := "error", doubleSpend := some true }
    else .serviceFailure txid
  | .error _ => .serviceFailure txid

/-- One turn of the loop over the txids. The text of the first failure stays when nothing was
posted for it. -/
def postTx (sdk : Sdk) (parsed : Beef) (answers : Nat → HttpAnswer String) (result : PostBeefResult)
    (requested : String × Nat) : PostBeefResult :=
  match rawTxBytes sdk parsed requested.1 with
  | .error e =>
    { result with
      txidResults := result.txidResults ++ [.serviceFailure requested.1]
      status := if result.status == "success" then "error" else result.status
      error := if result.status == "success" then some e else result.error }
  | .ok _ =>
    let tr := txResult requested.1 (answers requested.2)
    { result with
      txidResults := result.txidResults ++ [tr]
      status := if tr.status != "success" && result.status == "success" then "error"
        else result.status }

/-- `WhatsOnChain::post_beef`, for the answers to the posts by the positions of their txids. -/
def postBeef (sdk : Sdk) (answers : Nat → HttpAnswer String) (beef : Bytes) (txids : List String) :
    PostBeefResult :=
  match sdk.parseBeef beef with
  | .error e => .allFailed "WoC" s!"Failed to parse BEEF: {e}" txids
  | .ok parsed =>
    txids.zipIdx.foldl (postTx sdk parsed answers)
      { name := "WoC", status := "success", txidResults := [] }

end WhatsOnChain

end WalletToolbox
