import WalletToolbox.Signer.Actions
import WalletToolbox.System

/-! # Two transactions on the wire

A funding transaction and a payment that spends it, in the bytes that travel between wallets:
raw transactions, merkle paths and the BEEFs that carry them.
`sdk` answers on these bytes as the SDK does, so runs of the toolbox on them can be evaluated.
Then come the calls of a payer who is funded and pays, and the payer's signer. -/

namespace WalletToolbox.Sample

open WalletToolbox.Lib WalletToolbox.Storage WalletToolbox.Monitor

/-! ## The wallets -/

/-- The identity keys of a payer and a payee. -/
def alice : String := "0279be667ef9dcbbac55a06295ce870b07029bfcdb2dce28d959f2815b16f81798"

def bob : String := "02c6047f9441ed7d6d3045406e95c07cd85c778e4b8cef3ca7abac09b95c709ee5"

/-! ## The transactions -/

def fundingTxid : String := "44c1f41cf4e7e6923d4b296ffa1b72487582cf2b1d144d05c0c43398fbc73df9"

def paymentTxid : String := "43ede0855a0c52c2df50070133c4be27c78477c7037da24669cd2c23c9b00ded"

/-- The transaction that the funding spends; no wallet here knows it. -/
def sourceTxid : String := "84fd9bac333ad79154348296204fa7f8c537a96e08983e5f73b3f5aca8e8edf7"

def aliceScript : Bytes :=
  [118, 169, 20, 73, 9, 150, 87, 225, 246, 188, 74, 168, 103, 87, 177, 31, 2, 229, 202, 242, 17,
   75, 241, 136, 172]

def bobScript : Bytes :=
  [118, 169, 20, 25, 227, 63, 79, 156, 65, 7, 228, 154, 254, 106, 104, 82, 209, 89, 213, 22, 204,
   232, 130, 136, 172]

def changeScript : Bytes :=
  [118, 169, 20, 252, 124, 0, 147, 21, 5, 214, 49, 56, 121, 166, 3, 127, 43, 250, 234, 149, 35,
   107, 216, 136, 172]

/-- 1000 satoshis for the payer. -/
def fundingTx : Tx :=
  { version := 1, inputs := [⟨some sourceTxid, 0⟩], outputs := [⟨some 1000, aliceScript⟩]
    lockTime := 0 }

/-- 500 satoshis for the payee, 477 of change and 23 of fee. -/
def paymentTx : Tx :=
  { version := 1, inputs := [⟨some fundingTxid, 0⟩]
    outputs := [⟨some 500, bobScript⟩, ⟨some 477, changeScript⟩], lockTime := 0 }

/-- The hash of the funding in the byte order of the wire. -/
def fundingHash : Bytes :=
  [249, 61, 199, 251, 152, 51, 196, 192, 5, 77, 20, 29, 43, 207, 130, 117, 72, 114, 27, 250, 111,
   41, 75, 61, 146, 230, 231, 244, 28, 244, 193, 68]

def paymentHash : Bytes :=
  [237, 13, 176, 201, 35, 44, 205, 105, 70, 162, 125, 3, 199, 119, 132, 199, 39, 190, 196, 51, 1,
   7, 80, 223, 194, 82, 12, 90, 133, 224, 237, 67]

def fundingRaw : Bytes :=
  [1, 0, 0, 0, 1, 247, 237, 232, 168, 172, 245, 179, 115, 95, 62, 152, 8, 110, 169, 55, 197, 248,
   167, 79, 32, 150, 130, 52, 84, 145, 215, 58, 51, 172, 155, 253, 132] ++
  [0, 0, 0, 0, 1, 0, 255, 255, 255, 255, 1, 232, 3, 0, 0, 0, 0, 0, 0, 25] ++ aliceScript ++ [0, 0, 0, 0]

def paymentRaw : Bytes :=
  [1, 0, 0, 0, 1] ++ fundingHash ++ [0, 0, 0, 0, 1, 81, 255, 255, 255, 255, 2, 244, 1, 0, 0, 0, 0, 0, 0, 25] ++
    bobScript ++ [221, 1, 0, 0, 0, 0, 0, 0, 25] ++ changeScript ++ [0, 0, 0, 0]

/-! ## Merkle paths -/

/-- The other leaf of the funding's block. -/
def fundingSibling : String := "7c03afb5c584ec5d6bed9e40eee001dae82b53b719d1331fb355e66298d04c62"

def paymentSibling : String := "667935c26fb3927264db5c608ade31cfc36c0d5ee16548c0f51e2302a5d06dfc"

def fundingBump : MerklePath :=
  { blockHeight := 100
    path := [[⟨0, some fundingTxid, true, false⟩, ⟨1, some fundingSibling, false, false⟩]] }

def paymentBump : MerklePath :=
  { blockHeight := 101
    path := [[⟨0, some paymentTxid, true, false⟩, ⟨1, some paymentSibling, false, false⟩]] }

def fundingRoot : String := "fcb225ef31b7b9462827e152ad6564b83ddbe920fec76a13a124bb2b35e218e0"

def paymentRoot : String := "6b2e363f9eb7b915468930fcac3342479abb6f08908b9bb3b80d6f4e4115ecbd"

def fundingBumpRaw : Bytes :=
  [100, 1, 2, 0, 2] ++ fundingHash ++ [1, 0] ++
  [98, 76, 208, 152, 98, 230, 85, 179, 31, 51, 209, 25, 183, 83, 43, 232, 218, 1, 224, 238, 64,
   158, 237, 107, 93, 236, 132, 197, 181, 175, 3, 124]

def paymentBumpRaw : Bytes :=
  [101, 1, 2, 0, 2] ++ paymentHash ++ [1, 0] ++
  [252, 109, 208, 165, 2, 35, 30, 245, 192, 72, 101, 225, 94, 13, 108, 195, 207, 49, 222, 138, 96,
   92, 219, 100, 114, 146, 179, 111, 194, 53, 121, 102]

/-! ## BEEFs -/

def fundingBeefTx : BeefTx :=
  { txid := fundingTxid, tx := some fundingTx, bumpIndex := some 0, inputTxids := [] }

def paymentBeefTx : BeefTx :=
  { txid := paymentTxid, tx := some paymentTx, bumpIndex := none, inputTxids := [fundingTxid] }

/-- The proven funding as an AtomicBEEF. -/
def fundingAtomic : Bytes :=
  [1, 1, 1, 1] ++ fundingHash ++ [1, 0, 190, 239, 1] ++ fundingBumpRaw ++ [1] ++ fundingRaw ++ [1, 0]

/-- The payment before it is mined: it comes with the proven funding. -/
def pendingAtomic : Bytes :=
  [1, 1, 1, 1] ++ paymentHash ++ [1, 0, 190, 239, 1] ++ fundingBumpRaw ++ [2] ++ fundingRaw ++
    [1, 0] ++ paymentRaw ++ [0]

/-- The payment after it is mined. -/
def minedAtomic : Bytes :=
  [1, 1, 1, 1] ++ paymentHash ++ [1, 0, 190, 239, 1] ++ paymentBumpRaw ++ [1] ++ paymentRaw ++ [1, 0]

/-- The proven funding as the store hands it out. -/
def fundingSource : Bytes :=
  [2, 0, 190, 239, 1] ++ fundingBumpRaw ++ [1, 1, 0] ++ fundingRaw

/-- What the monitor posts for the payment. -/
def postedBeef : Bytes :=
  [2, 0, 190, 239, 1] ++ fundingBumpRaw ++ [2, 1, 0] ++ fundingRaw ++ [0] ++ paymentRaw

def fundingBeef : Beef :=
  { atomicTxid := some fundingTxid, txs := [fundingBeefTx], bumps := [fundingBump] }

def pendingBeef : Beef :=
  { atomicTxid := some paymentTxid, txs := [fundingBeefTx, paymentBeefTx], bumps := [fundingBump] }

def minedBeef : Beef :=
  { atomicTxid := some paymentTxid
    txs := [{ paymentBeefTx with bumpIndex := some 0, inputTxids := [] }], bumps := [paymentBump] }

/-! ## The SDK on these bytes -/

def unknown {α : Type} : Except String α :=
  .error "unknown bytes"

def parseTx (raw : Bytes) : Except String Tx :=
  if raw = fundingRaw then .ok fundingTx
  else if raw = paymentRaw then .ok paymentTx
  else unknown

def parseBeef (bytes : Bytes) : Except String Beef :=
  if bytes = fundingAtomic then .ok fundingBeef
  else if bytes = pendingAtomic then .ok pendingBeef
  else if bytes = minedAtomic then .ok minedBeef
  else if bytes = fundingSource then .ok { fundingBeef with atomicTxid := none }
  else unknown

/-- The bytes of a BEEF, told by its transactions and by whether it proves the last of them. -/
def beefBytes (b : Beef) : Except String Bytes :=
  match b.atomicTxid, b.txs.map fun t => (t.txid == paymentTxid, t.hasProof) with
  | some _, [(false, true)] => .ok fundingAtomic
  | some _, [(false, true), (true, false)] => .ok pendingAtomic
  | some _, [(true, true)] => .ok minedAtomic
  | none, [(false, true)] => .ok fundingSource
  | none, [(false, true), (true, false)] => .ok postedBeef
  | _, _ => unknown

def sdk : Sdk where
  parseTx := parseTx
  txBytes tx :=
    if tx = fundingTx then .ok fundingRaw else if tx = paymentTx then .ok paymentRaw else unknown
  txidOf tx :=
    if tx = fundingTx then .ok fundingTxid else if tx = paymentTx then .ok paymentTxid else unknown
  parseBeef := parseBeef
  beefBytes := beefBytes
  -- none of the BEEFs merged here share a bump
  mergeBeef b bytes := do
    let other ← parseBeef bytes
    let shifted := other.txs.map fun t =>
      { t with bumpIndex := t.bumpIndex.map (· + b.bumps.length) }
    pure { b with txs := b.txs ++ shifted, bumps := b.bumps ++ other.bumps }
  mergeRawTx b raw := do
    let tx ← parseTx raw
    let beefTx := if tx = fundingTx then { fundingBeefTx with bumpIndex := none } else paymentBeefTx
    pure { b with txs := b.txs ++ [beefTx] }
  sortTxs b := { b with txs := b.txs.filter (·.hasProof) ++ b.txs.filter (!·.hasProof) }
  computeRoot bump _ := if bump.blockHeight = 100 then .ok fundingRoot else .ok paymentRoot
  bumpBytes bump := if bump.blockHeight = 100 then .ok fundingBumpRaw else .ok paymentBumpRaw

/-- A chain tracker that knows the two blocks. -/
def tracker : ChainTracker := fun root height =>
  .ok ((height = 100 ∧ root = fundingRoot) ∨ (height = 101 ∧ root = paymentRoot))

/-! ## The calls -/

/-- The payer takes the proven funding as change. -/
def fund : Op :=
  .internalizeAction tracker alice
    { tx := fundingAtomic, description := "funding", labels := []
      outputs := [.walletPayment 0 bob [1, 2, 3, 4] [5, 6, 7, 8]] }

def reference : Bytes := [97, 99, 116, 105, 111, 110, 48, 48, 48, 49]

/-- The payer plans the payment. -/
def pay : Op :=
  .createAction
    { reference := "YWN0aW9uMDAwMQ==", derivationPrefix := "cHJlZml4"
      derivationSuffix := fun _ => "c3VmZml4", index := fun n => ⟨0, Nat.succ_pos n⟩ } alice
    { description := "payment", inputs := []
      outputs := [{ lockingScript := bytesToHex bobScript, satoshis := 500
                    outputDescription := "payment" }]
      randomizeOutputs := some false, isDelayed := true }

/-- The payer signs the payment, for the monitor to send or to be sent later. -/
def sign (isNoSend : Bool) : Op :=
  .processAction alice
    { isNewTx := true, isSendWith := false, isNoSend, isDelayed := !isNoSend
      reference := some "YWN0aW9uMDAwMQ==", txid := some paymentTxid, rawTx := some paymentRaw
      sendWith := [] } ""

/-- The payer gives the payment up. -/
def abort : Op :=
  .abortAction alice reference "2024-01-01T00:00:00.000Z"

/-- The store after some calls. -/
def after (ops : List Op) : Store :=
  (wallet sdk).after .empty ops

theorem after_snoc (ops : List Op) (op : Op) :
    after (ops ++ [op]) = (wallet sdk).next op (after ops) := by
  simp only [after, System.after, List.foldl_append, List.foldl_cons, List.foldl_nil]

/-- The store's request for the payment. -/
def request (s : Store) : ProvenTxReq :=
  (s.provenTxReqs.first (·.txid == paymentTxid)).getD
    { provenTxId := none, status := .unknown, attempts := 0, notified := false, txid := paymentTxid
      batch := none, history := none, notify := none, rawTx := [], inputBeef := none }

theorem request_mem {s : Store} (h : (s.provenTxReqs.first (·.txid == paymentTxid)).isSome = true) :
    request s ∈ s.provenTxReqs := by
  obtain ⟨row, hrow⟩ := Option.isSome_iff_exists.mp h
  unfold request
  rw [hrow]
  exact (Table.first_some hrow).1

/-- The store has the proven funding. -/
def sources : SourceBeefs := fun _ txid =>
  .ok (if txid = fundingTxid then some fundingSource else none)

/-- A provider answers with a status, and the chain does not know the transaction. -/
def answering (status : String) : Services where
  postBeef _ txids :=
    [{ name := "arc", status, txidResults := txids.map fun txid => { txid, status } }]
  getStatusForTxids txids :=
    { status := "success", results := txids.map fun txid => { txid, status := "unknown" } }
  isUtxo _ _ _ := .ok false
  getMerklePath _ := {}

/-- The monitor posts the payment and gets an answer. -/
def post (s : Store) (status : String) : Op :=
  .attemptToPostReq sources (answering status) (request s)

/-! ## The payer's signer -/

/-- The payment before its input is signed. -/
def unsignedTxid : String := "edb6d267b2369be009f9fa5de1352c93092a23bde4fe0e8d35ad8408de965935"

def unsignedRaw : Bytes :=
  [1, 0, 0, 0, 1] ++ fundingHash ++ [0, 0, 0, 0, 0, 255, 255, 255, 255, 2, 244, 1, 0, 0, 0, 0, 0, 0, 25] ++
    bobScript ++ [221, 1, 0, 0, 0, 0, 0, 0, 25] ++ changeScript ++ [0, 0, 0, 0]

def unsignedAtomic : Bytes :=
  [1, 1, 1, 1, 53, 89, 150, 222, 8, 132, 173, 53, 141, 14, 254, 228, 189, 35, 42, 9, 147, 44, 53,
   225, 93, 250, 249, 9, 224, 155, 54, 178, 103, 210, 182, 237, 1, 0, 190, 239, 1] ++
    fundingBumpRaw ++ [2] ++ fundingRaw ++ [1, 0] ++ unsignedRaw ++ [0]

/-- The payment as it is read back, with the given unlocking script. -/
def paymentOf (unlockingScript : Bytes) : Signer.SdkTransaction :=
  { version := 1, lockTime := 0
    inputs := [{ sourceTransaction := none, sourceTxid := some fundingTxid, sourceOutputIndex := 0
                 unlockingScript := some unlockingScript, sequence := 4294967295 }]
    outputs := [{ satoshis := some 500, lockingScript := bobScript, change := false },
      { satoshis := some 477, lockingScript := changeScript, change := false }] }

/-- Pick by the unlocking script of the only input. -/
def byScript {α : Type} (tx : Signer.SdkTransaction) (unsigned signed : α) : Except String α :=
  if tx.inputs.map (·.unlockingScript) = [some []] then .ok unsigned
  else if tx.inputs.map (·.unlockingScript) = [some [81]] then .ok signed
  else unknown

/-- The tools of the payer's signer on these transactions. -/
def kit : Signer.Toolkit where
  sdk := sdk
  builder :=
    { addInput := fun tx input => .ok { tx with inputs := tx.inputs ++ [input] }
      addOutput := fun tx o => .ok { tx with outputs := tx.outputs ++ [o] } }
  toBinary tx := byScript tx unsignedRaw paymentRaw
  fromBinary raw :=
    if raw = unsignedRaw then .ok (paymentOf [])
    else if raw = paymentRaw then .ok (paymentOf [81])
    else unknown
  id tx := byScript tx unsignedTxid paymentTxid
  mergeInputBeef _ _ := .ok (some fundingSource)
  buildBeef tx _ := Signer.reported "" (byScript tx
    { pendingBeef with
      atomicTxid := none, txs := [fundingBeefTx, { paymentBeefTx with txid := unsignedTxid }] }
    { pendingBeef with atomicTxid := none })
  verifyUnlockScripts txid _ :=
    if txid = paymentTxid then .ok () else .error (.invalidParameter "inputs[0].unlockScript" "valid")
  serializeBeefAtomic b txid :=
    if txid = unsignedTxid then .ok unsignedAtomic
    else Signer.reported "" (beefBytes { b with atomicTxid := some txid })
  serializeBeefForBroadcast b := Signer.reported "" (beefBytes b)

/-- The payer's keys. -/
def backend : Signer.SigningBackend :=
  .localKeys (fun _ _ => .ok changeScript) fun _ _ _ => .ok [81]

def entropy : Entropy :=
  { reference := "YWN0aW9uMDAwMQ==", derivationPrefix := "cHJlZml4"
    derivationSuffix := fun _ => "c3VmZml4", index := fun n => ⟨0, Nat.succ_pos n⟩ }

/-- The payment as the payer asks for it. -/
def payArgs : Signer.ValidCreateActionArgs :=
  { description := "payment", inputs := []
    outputs := [{ lockingScript := some bobScript, satoshis := 500, outputDescription := "payment" }]
    randomizeOutputs := some false }

/-- The signing of the deferred payment: nothing is left for the caller to unlock. -/
def signArgs : Signer.ValidSignActionArgs :=
  { reference := "YWN0aW9uMDAwMQ==", spends := [] }

/-- The funded payer. -/
def payer : Signer.DefaultWalletSigner :=
  { store := after [fund] }

/-- The payer's call, answered with success by the network. -/
def create (args : Signer.ValidCreateActionArgs) :
    Except WalletError Signer.SignerCreateActionResult × Signer.DefaultWalletSigner :=
  payer.createAction kit (answering "success") backend entropy alice "" args

/-! ## Many requests -/

/-- A request that nobody is notified of; its txid has as many letters as there are before it. -/
def numberedReq (status : ProvenTxReqStatus) (i : Nat) : ProvenTxReq :=
  { provenTxReqId := i + 1, provenTxId := none, status, attempts := 0, notified := false
    txid := String.ofList (List.replicate i 'a'), batch := none, history := none, notify := none
    rawTx := [], inputBeef := none }

/-- A database with the first `n` requests. -/
def requests (status : ProvenTxReqStatus) (n : Nat) : Store :=
  let table : Table ProvenTxReq :=
    { rows := (List.range n).map (numberedReq status)
      lastId := n
      sorted := by
        rw [List.pairwise_map]
        exact List.pairwise_lt_range.imp fun h => Nat.succ_lt_succ h
      bounded := by
        intro r hr
        obtain ⟨i, hi, rfl⟩ := List.mem_map.mp hr
        exact ⟨Nat.succ_pos i, List.mem_range.mp hi⟩ }
  { toTables := { Store.empty.toTables with provenTxReqs := table }
    unique := { Store.empty.unique with
      provenTxReqs := by
        refine List.pairwise_map.mpr (List.pairwise_lt_range.imp fun {i j} hij htxid => ?_)
        have hlength := congrArg (fun txid => txid.toList.length) htxid
        simp only [numberedReq, String.toList_ofList, List.length_replicate] at hlength
        omega }
    foreign := { Store.empty.foreign with
      reqProvenTx := by
        intro r hr i hi
        obtain ⟨j, -, rfl⟩ := List.mem_map.mp hr
        cases hi } }

end WalletToolbox.Sample
