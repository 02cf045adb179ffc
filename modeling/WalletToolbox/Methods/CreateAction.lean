import WalletToolbox.Methods.GenerateChange
import WalletToolbox.Storage.Provider

/-! # createAction

Plans a transaction: claims the caller's inputs, selects and claims change, and stores the new
transaction with its outputs.
All of it is one database transaction; only the change basket is read before.
Entropy is a parameter. -/

namespace WalletToolbox.Storage

open WalletToolbox.Lib

structure StorageOutPoint where
  txid : String
  vout : Nat
deriving DecidableEq

structure StorageCreateActionInput where
  outpoint : StorageOutPoint
  unlockingScriptLength : Nat

structure StorageCreateActionOutput where
  /-- The locking script in hex. -/
  lockingScript : String
  satoshis : UInt64
  outputDescription : String
  basket : Option String := none
  customInstructions : Option String := none
  tags : List String := []

structure StorageCreateActionArgs where
  description : String
  inputs : List StorageCreateActionInput
  outputs : List StorageCreateActionOutput
  lockTime : Nat := 0
  version : Nat := 1
  labels : List String := []
  noSendChange : List StorageOutPoint := []
  randomizeOutputs : Option Bool := none
  inputBeef : Option Bytes := none
  isNoSend : Bool := false
  isDelayed : Bool := false
  /-- Whether the random values that a caller supplied, if any, are all in `[0, 1)`. -/
  randomValsInRange : Bool := true

structure StorageCreateTransactionSdkInput where
  vin : Nat
  sourceTxid : String
  sourceVout : Nat
  sourceSatoshis : UInt64
  sourceLockingScript : String
  sourceTransaction : Option Bytes
  unlockingScriptLength : Nat
  providedBy : StorageProvidedBy
  outputType : String
  spendingDescription : Option String
  derivationPrefix : Option String
  derivationSuffix : Option String
  senderIdentityKey : Option String

structure StorageCreateTransactionSdkOutput where
  vout : Nat
  satoshis : UInt64
  lockingScript : String
  providedBy : StorageProvidedBy
  purpose : Option String
  basket : Option String
  tags : List String
  outputDescription : Option String
  derivationSuffix : Option String
  customInstructions : Option String

structure StorageCreateActionResult where
  reference : String
  version : Nat
  lockTime : Nat
  inputs : List StorageCreateTransactionSdkInput
  outputs : List StorageCreateTransactionSdkOutput
  derivationPrefix : String
  inputBeef : Option Bytes
  noSendChangeOutputVouts : Option (List Nat)

/-- The random choices of one call: the reference, the derivation texts and the shuffle index
for each bound. -/
structure Entropy where
  reference : String
  derivationPrefix : String
  derivationSuffix : Nat → String
  index : (n : Nat) → Fin (n + 1)

/-! ## Hex -/

def hexDigit (n : Nat) : Char :=
  "0123456789abcdef".toList.getD n '0'

/-- `bytes_to_hex`. -/
def bytesToHex (bytes : Bytes) : String :=
  String.ofList (bytes.flatMap fun b => [hexDigit (b.toNat / 16), hexDigit (b.toNat % 16)])

def hexValue (c : Char) : Option Nat :=
  if '0' ≤ c ∧ c ≤ '9' then some (c.toNat - '0'.toNat)
  else if 'a' ≤ c ∧ c ≤ 'f' then some (c.toNat - 'a'.toNat + 10)
  else if 'A' ≤ c ∧ c ≤ 'F' then some (c.toNat - 'A'.toNat + 10)
  else none

/-- `u8::from_str_radix` on two characters; a leading plus sign is accepted. -/
def hexPair (a b : Char) : Option UInt8 :=
  match hexValue a, hexValue b with
  | some x, some y => some (UInt8.ofNat (16 * x + y))
  | none, some y => if a = '+' then some (UInt8.ofNat y) else none
  | _, none => none

def hexBytes : List Char → Bytes
  | a :: b :: rest => (hexPair a b).toList ++ hexBytes rest
  | _ => []

/-- The UTF-8 bytes of a text, one character each. Those of a longer character are no hex digits; where
a pair cuts through one the source panics. -/
def utf8Chars (text : String) : List Char :=
  text.toUTF8.data.toList.map fun b => Char.ofNat b.toNat

/-- `hex_to_bytes`: pairs of bytes that do not parse are skipped. -/
def hexToBytes (hex : String) : Bytes :=
  hexBytes (utf8Chars hex)

/-- The value of a signed amount after a cast to `u64`. -/
def asU64 (n : Int) : UInt64 :=
  UInt64.ofNat (n % 18446744073709551616).toNat

/-! ## Inputs -/

/-- `parse_input_beef`. -/
def parseInputBeef (sdk : Sdk) (inputBeef : Option Bytes) : Except WalletError (Option Beef) :=
  match inputBeef with
  | none => .ok none
  | some bytes =>
    if bytes.isEmpty then .ok none
    else
      match sdk.mergeBeef .empty bytes with
      | .ok beef => .ok (some beef)
      | .error e => .error (.invalidParameter "inputBEEF" s!"valid BEEF binary: {e}")

/-- `resolve_external_input`: the amount and script of an outpoint that storage does not manage. -/
def resolveExternalInput (beef : Option Beef) (outpoint : StorageOutPoint) :
    Except WalletError (UInt64 × String) :=
  match beef with
  | none => .error (.invalidParameter "inputBEEF"
      s!"provided with proof data for unmanaged input {outpoint.txid}:{outpoint.vout}")
  | some beef =>
    match beef.findTxid outpoint.txid with
    | none => .error (.invalidParameter "inputBEEF"
        s!"contain source transaction {outpoint.txid}")
    | some btx =>
      match btx.tx with
      | none => .error (.invalidParameter "inputBEEF"
          s!"contain raw transaction data (not txid-only) for {outpoint.txid}")
      | some tx =>
        match tx.outputs[outpoint.vout]? with
        | none =>
          .error (.invalidParameter s!"{outpoint.txid}.{outpoint.vout}" "a valid outpoint")
        | some out =>
          match out.satoshis with
          | none => .error (.invalidParameter s!"{outpoint.txid}.{outpoint.vout}"
              "an output with a satoshis value")
          | some satoshis => .ok (UInt64.ofNat satoshis, bytesToHex out.lockingScript)

/-- The inputs planned so far: their sizes and their records. -/
structure Planned where
  fixedInputs : List FixedInput := []
  inputRecords : List StorageCreateTransactionSdkInput := []

def notSpendable (vin : Nat) (outpoint : StorageOutPoint) : WalletError :=
  .invalidParameter s!"inputs[{vin}]"
    s!"spendable output. output {outpoint.txid}:{outpoint.vout} is not spendable."

/-- The record of a caller input that storage manages. -/
def managedRecord (vin : Nat) (input : StorageCreateActionInput) (o : Output) :
    StorageCreateTransactionSdkInput :=
  { vin, sourceTxid := input.outpoint.txid, sourceVout := input.outpoint.vout
    sourceSatoshis := asU64 o.satoshis
    sourceLockingScript := (o.lockingScript.map bytesToHex).getD "", sourceTransaction := none
    unlockingScriptLength := input.unlockingScriptLength
    providedBy := if o.providedBy = .storage then .storage else .you
    outputType := o.outputType, spendingDescription := o.spendingDescription
    derivationPrefix := o.derivationPrefix, derivationSuffix := o.derivationSuffix
    senderIdentityKey := o.senderIdentityKey }

/-- The record of a caller input that only the BEEF knows. -/
def externalRecord (vin : Nat) (input : StorageCreateActionInput) (satoshis : UInt64)
    (script : String) : StorageCreateTransactionSdkInput :=
  { vin, sourceTxid := input.outpoint.txid, sourceVout := input.outpoint.vout
    sourceSatoshis := satoshis, sourceLockingScript := script, sourceTransaction := none
    unlockingScriptLength := input.unlockingScriptLength, providedBy := .you
    outputType := "custom", spendingDescription := none, derivationPrefix := none
    derivationSuffix := none, senderIdentityKey := none }

/-- One input named by the caller: claimed when storage has a row for it. -/
def planInput (beef : Option Beef) (userId transactionId : Nat) (planned : Planned)
    (item : StorageCreateActionInput × Nat) : StorageProg Planned := do
  let (input, vin) := item
  let rows ← find fun s => s.outputs.find fun o =>
    o.userId == userId && o.txid == some input.outpoint.txid && o.vout == input.outpoint.vout
  match rows.head? with
  | some o =>
    if !o.spendable then
      .fail (notSpendable vin input.outpoint)
    else
      let updated ← markInputsSpent [o.outputId] transactionId userId
      if updated ≠ 1 then
        .fail (notSpendable vin input.outpoint)
      else
        pure
          { fixedInputs := planned.fixedInputs ++
              [⟨asU64 o.satoshis, input.unlockingScriptLength⟩]
            inputRecords := planned.inputRecords ++ [managedRecord vin input o] }
  | none =>
    let (satoshis, script) ← Prog.ofExcept (resolveExternalInput beef input.outpoint)
    pure
      { fixedInputs := planned.fixedInputs ++ [⟨satoshis, input.unlockingScriptLength⟩]
        inputRecords := planned.inputRecords ++ [externalRecord vin input satoshis script] }

/-! ## Change -/

/-- The parent statuses whose change may be spent. -/
def changeTxStatus (isDelayed : Bool) (status : TransactionStatus) : Bool :=
  status == .completed || status == .unproven || (isDelayed && status == .sending)

/-- The change candidates of a user, smallest first. -/
def availableChangeOutputs (userId basketId : Nat) (isDelayed : Bool) (s : Store) : List Output :=
  (s.outputs.find fun o =>
    o.userId == userId && o.basketId == some basketId && o.spendable &&
      s.transactions.exists? fun t =>
        t.transactionId == o.transactionId && changeTxStatus isDelayed t.status).insertionSort
    fun a b => a.satoshis ≤ b.satoshis

def toAvailable (o : Output) : AvailableChange :=
  { outputId := o.outputId, satoshis := asU64 o.satoshis }

def invalidNoSendChange : WalletError :=
  .invalidParameter "noSendChange outpoint" "valid"

/-- The checks on a noSendChange row. -/
def noSendChangeOk (basketId : Nat) (o : Output) : Bool :=
  o.providedBy == .storage && o.purpose == "change" && o.spendable && o.spentBy.isNone &&
    o.satoshis > 0 && o.basketId == some basketId

/-- One outpoint of `noSendChange`: the change of an earlier noSend action. -/
def admitNoSendChange (userId basketId : Nat) (rows : List Output) (op : StorageOutPoint) :
    StorageProg (List Output) := do
  let found ← find fun s => s.outputs.find fun o =>
    o.userId == userId && o.txid == some op.txid && o.vout == op.vout
  match ← Prog.ofExcept (verifyOneOrNone found) with
  | none => .fail invalidNoSendChange
  | some o =>
    if !noSendChangeOk basketId o then
      .fail invalidNoSendChange
    else if rows.any (·.outputId == o.outputId) then
      .fail (.invalidParameter "noSendChange outpoint" "unique. Duplicates are not allowed.")
    else
      pure (rows ++ [o])

/-- The rows of the `noSendChange` outpoints; only a noSend action may name any. -/
def noSendChangeRows (args : StorageCreateActionArgs) (userId basketId : Nat) :
    StorageProg (List Output) :=
  if args.isNoSend then args.noSendChange.foldlM (admitNoSendChange userId basketId) []
  else pure []

/-- The arguments of change generation. -/
def changeArgs (args : StorageCreateActionArgs) (basket : OutputBasket)
    (fixedInputs : List FixedInput) (available : Nat) : GenerateChangeSdkArgs :=
  { fixedInputs
    fixedOutputs := args.outputs.map fun o => ⟨o.satoshis, (hexToBytes o.lockingScript).length⟩
    feeModel := {}
    changeInitialSatoshis := max 1 (asU64 basket.minimumDesiredUtxoValue)
    changeFirstSatoshis := max 1 (asU64 basket.minimumDesiredUtxoValue / 4)
    changeLockingScriptLength := 25
    changeUnlockingScriptLength := 107
    targetNetCount := some (basket.numberOfDesiredUtxos - available) }

/-- The ids of the funding inputs, without duplicates and in order. -/
def claimedIds (inputs : List AllocatedChangeInputRef) : List Nat :=
  (inputs.map (·.outputId)).dedup.insertionSort (· ≤ ·)

/-- Claim the planned funding inputs; a short count means that another writer took one. -/
def claimFunding (ids : List Nat) (transactionId userId : Nat) : StorageProg Unit := do
  let updated ← markInputsSpent ids transactionId userId
  if updated ≠ ids.length then
    .fail (.invalidOperation
      (s!"utxo contention: {(ids.length : Int) - updated} of {ids.length} planned funding inputs " ++
        "were claimed by another transaction; retry createAction"))
  else
    pure ()

/-! ## Outputs -/

/-- An output that is built but not stored. -/
structure PendingOutput where
  row : Output
  record : StorageCreateTransactionSdkOutput
  isChange : Bool

/-- The basket of an output that the caller asked for. -/
def callerBasketId (userId : Nat) (spec : StorageCreateActionOutput) : StorageProg (Option Nat) :=
  match spec.basket with
  | some name => do
    let basket ← findOrInsertOutputBasket userId name
    pure (some basket.basketId)
  | none => pure none

/-- An output that the caller asked for, with the next vout. -/
def pendingCaller (now userId transactionId : Nat) (pending : List PendingOutput)
    (spec : StorageCreateActionOutput) : StorageProg (List PendingOutput) := do
  let basketId ← callerBasketId userId spec
  let script := hexToBytes spec.lockingScript
  pure (pending ++
    [{ row :=
        { createdAt := now, updatedAt := now, userId, transactionId, basketId, spendable := false
          change := false, outputDescription := some spec.outputDescription
          vout := pending.length, satoshis := asI64 spec.satoshis.toNat, providedBy := .you
          purpose := "", outputType := "custom", txid := none, senderIdentityKey := none
          derivationPrefix := none, derivationSuffix := none
          customInstructions := spec.customInstructions, spentBy := none
          sequenceNumber := none, spendingDescription := none
          scriptLength := some script.length, scriptOffset := none, lockingScript := some script }
       record :=
        { vout := pending.length, satoshis := spec.satoshis, lockingScript := spec.lockingScript
          providedBy := .you, purpose := none, basket := spec.basket, tags := spec.tags
          outputDescription := some spec.outputDescription, derivationSuffix := none
          customInstructions := spec.customInstructions }
       isChange := false }])

/-- A change output, with the vout it gets before shuffling. -/
def pendingChange (now userId transactionId basketId : Nat) (entropy : Entropy) (vout : Nat)
    (satoshis : UInt64) : PendingOutput where
  row :=
    { createdAt := now, updatedAt := now, userId, transactionId, basketId := some basketId
      spendable := false, change := true, outputDescription := some "", vout
      satoshis := asI64 satoshis.toNat, providedBy := .storage, purpose := "change"
      outputType := "P2PKH", txid := none, senderIdentityKey := none
      derivationPrefix := some entropy.derivationPrefix
      derivationSuffix := some (entropy.derivationSuffix vout), customInstructions := none
      spentBy := none, sequenceNumber := none, spendingDescription := none
      scriptLength := some 25, scriptOffset := none, lockingScript := none }
  record :=
    { vout, satoshis, lockingScript := "", providedBy := .storage, purpose := some "change"
      basket := some "default", tags := [], outputDescription := some ""
      derivationSuffix := some (entropy.derivationSuffix vout), customInstructions := none }
  isChange := true

/-- Exchange two entries. -/
def swap (xs : List Nat) (i j : Nat) : List Nat :=
  (xs.set i (xs.getD j 0)).set j (xs.getD i 0)

/-- The Fisher-Yates walk from the top down. -/
def shuffle (index : (n : Nat) → Fin (n + 1)) : Nat → List Nat → List Nat
  | 0, xs => xs
  | n + 1, xs => shuffle index n (swap xs n (index n))

/-- `randomized_vouts`. -/
def randomizedVouts (entropy : Entropy) (inRange : Bool) (len : Nat) :
    Except WalletError (List Nat) :=
  if !inRange then
    .error (.invalidParameter "randomVals" "values in the range [0, 1)")
  else
    .ok (shuffle entropy.index len (List.range len))

def PendingOutput.withVout (p : PendingOutput) (vout : Nat) : PendingOutput :=
  { p with row := { p.row with vout }, record := { p.record with vout } }

/-- Assign the final vouts. -/
def assignVouts (args : StorageCreateActionArgs) (entropy : Entropy)
    (pending : List PendingOutput) : Except WalletError (List PendingOutput) :=
  if args.randomizeOutputs.getD true && pending.length > 1 then do
    let vouts ← randomizedVouts entropy args.randomValsInRange pending.length
    pure (List.zipWith PendingOutput.withVout pending vouts)
  else
    .ok pending

/-! ## Change input records -/

/-- The raw transaction and the locking script of the source of a change input. -/
def changeSource (sdk : Sdk) (s : Store) (o : Output) : Option Bytes × Option String :=
  match o.txid.bind fun txid => s.transactions.first (·.txid == some txid) with
  | none => (none, none)
  | some tx =>
    (tx.rawTx, tx.rawTx.bind fun raw =>
      match sdk.parseTx raw with
      | .ok parsed => (parsed.outputs[o.vout]?).map fun out => bytesToHex out.lockingScript
      | .error _ => none)

/-- Append the record of an allocated change input. -/
def addChangeInput (sdk : Sdk) (records : List StorageCreateTransactionSdkInput) (o : Output) :
    StorageProg (List StorageCreateTransactionSdkInput) := do
  let (source, script) ← find fun s => changeSource sdk s o
  pure (records ++
    [{ vin := records.length, sourceTxid := o.txid.getD "", sourceVout := o.vout
       sourceSatoshis := asU64 o.satoshis
       sourceLockingScript := ((o.lockingScript.map bytesToHex).or script).getD ""
       sourceTransaction := source, unlockingScriptLength := 107, providedBy := .storage
       outputType := o.outputType, spendingDescription := none
       derivationPrefix := o.derivationPrefix, derivationSuffix := o.derivationSuffix
       senderIdentityKey := o.senderIdentityKey }])

/-! ## The action -/

def addActionLabel (now userId transactionId : Nat) (label : String) : StorageProg Unit := do
  let txLabel ← findOrInsertTxLabel userId label
  exec' (.insertTxLabelMap
    { createdAt := now, updatedAt := now, txLabelId := txLabel.txLabelId, transactionId
      isDeleted := false })

/-- The new transaction row. -/
def newTransaction (now userId : Nat) (args : StorageCreateActionArgs) (reference : String) :
    Transaction :=
  { createdAt := now, updatedAt := now, userId, provenTxId := none, status := .unsigned, reference
    isOutgoing := true, satoshis := 0, description := args.description
    version := some args.version, lockTime := some args.lockTime, txid := none
    inputBeef := args.inputBeef, rawTx := none }

/-- The change of an action: what was allocated and the rows it was allocated from. -/
structure Funding where
  changeOutputs : List UInt64
  allocated : List Output

/-- Select change and claim it. -/
def fundAction (args : StorageCreateActionArgs) (basket : OutputBasket) (userId transactionId : Nat)
    (fixedInputs : List FixedInput) : StorageProg Funding := do
  let available ← find (availableChangeOutputs userId basket.basketId args.isDelayed)
  let noSend ← noSendChangeRows args userId basket.basketId
  let change ← Prog.ofExcept (generateChangeSdkWithNoSend
    (changeArgs args basket fixedInputs available.length) (noSend.map toAvailable)
    (available.map toAvailable))
  claimFunding (claimedIds change.allocatedChangeInputs) transactionId userId
  pure
    { changeOutputs := change.changeOutputs
      allocated := change.allocatedChangeInputs.filterMap fun a =>
        (available ++ noSend).find? (·.outputId == a.outputId) }

/-- Build the outputs of an action, assign their vouts and store them. -/
def storeOutputs (args : StorageCreateActionArgs) (entropy : Entropy) (now userId transactionId
    basketId : Nat) (changeOutputs : List UInt64) : StorageProg (List PendingOutput) := do
  let caller ← args.outputs.foldlM (pendingCaller now userId transactionId) []
  let change := changeOutputs.zipIdx.map fun (satoshis, i) =>
    pendingChange now userId transactionId basketId entropy (caller.length + i) satoshis
  let pending ← Prog.ofExcept (assignVouts args entropy (caller ++ change))
  forM pending fun p => exec' (.insertOutput p.row)
  pure pending

/-- The part of `do_create_action` after the transaction row is inserted. -/
def planAction (sdk : Sdk) (entropy : Entropy) (userId : Nat) (args : StorageCreateActionArgs)
    (basket : OutputBasket) (now transactionId : Nat) : StorageProg StorageCreateActionResult := do
  forM args.labels (addActionLabel now userId transactionId)
  let beef ← Prog.ofExcept (parseInputBeef sdk args.inputBeef)
  let planned ← args.inputs.zipIdx.foldlM (planInput beef userId transactionId) {}
  let funding ← fundAction args basket userId transactionId planned.fixedInputs
  let pending ← storeOutputs args entropy now userId transactionId basket.basketId
    funding.changeOutputs
  let inputs ← funding.allocated.foldlM (addChangeInput sdk) planned.inputRecords
  exec' (.updateTransaction transactionId { isOutgoing := some true })
  pure
    { reference := entropy.reference, version := args.version, lockTime := args.lockTime, inputs
      outputs := pending.map (·.record), derivationPrefix := entropy.derivationPrefix
      inputBeef := args.inputBeef
      noSendChangeOutputVouts :=
        if args.isNoSend then some ((pending.filter (·.isChange)).map (·.record.vout)) else none }

/-- `do_create_action`. -/
def doCreateAction (sdk : Sdk) (entropy : Entropy) (userId : Nat)
    (args : StorageCreateActionArgs) (basket : OutputBasket) (now : Nat) :
    StorageProg StorageCreateActionResult := do
  let transactionId ← exec (.insertTransaction (newTransaction now userId args entropy.reference))
  planAction sdk entropy userId args basket now transactionId

/-- `storage_create_action`. -/
def storageCreateAction (sdk : Sdk) (entropy : Entropy) (userId : Nat)
    (args : StorageCreateActionArgs) : StorageProg StorageCreateActionResult := do
  let now ← utcNow
  let rows ← find fun s => s.outputBaskets.find fun b => b.userId == userId && b.name == "default"
  let basket ← Prog.ofExcept (verifyOne rows)
  Prog.atomically (doCreateAction sdk entropy userId args basket now)

/-- `create_action`: the caller's user row is created on first use. -/
def createAction (sdk : Sdk) (entropy : Entropy) (auth : String)
    (args : StorageCreateActionArgs) : StorageProg StorageCreateActionResult := do
  let (user, _) ← findOrInsertUser auth
  storageCreateAction sdk entropy user.userId args

end WalletToolbox.Storage
