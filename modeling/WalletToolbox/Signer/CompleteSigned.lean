import WalletToolbox.Signer.Actions

/-! # complete_signed_transaction, with local keys and with a provider

Both functions insert the caller's unlocking scripts and then sign the inputs that the wallet controls.
The one derives the key of an input and has the SDK sign; the other computes the sighash and asks the
provider for the unlocking script.
Key derivation and the SDK's hashing, signing and codec are parameters. -/

namespace WalletToolbox.Signer

open WalletToolbox.Lib WalletToolbox.Storage

variable {PubKey Key : Type}

/-- `SIGHASH_ALL | SIGHASH_FORKID`. -/
def sighashAllForkId : Nat := 0x41

/-- What signing takes: the SDK's functions, and the BRC-29 templates for one root key. -/
structure SigningKeys (PubKey Key : Type) where
  /-- `PublicKey::from_string`. -/
  publicKey : String → Except String PubKey
  /-- `ScriptTemplateBRC29::lock`. -/
  lock : String → String → PubKey → Except WalletError Bytes
  /-- `ScriptTemplateBRC29::unlock`. -/
  unlock : String → String → PubKey → Except WalletError Key
  /-- `Transaction::sighash_preimage`. -/
  sighashPreimage : SdkTransaction → Nat → Nat → UInt64 → Bytes → Except String Bytes
  sha256d : Bytes → Bytes
  /-- The unlocking script of a key for a sighash. -/
  unlockingScript : Key → Bytes → Nat → Bytes
  /-- `Transaction::to_binary`. -/
  toBinary : SdkTransaction → Except String Bytes

/-- `SigningProvider`, on behalf of one caller. -/
structure SigningProvider (PubKey : Type) where
  identityPublicKey : PubKey
  deriveChangeLockingScript : String → String → Except WalletError Bytes
  signInput : Bytes → Nat → String → String → PubKey → Except WalletError Bytes

/-- The key that an input is locked with: that of the sender, or the wallet's own. -/
def SigningKeys.unlockerPubKey (keys : SigningKeys PubKey Key) (identityPubKey : PubKey)
    (pdi : PendingStorageInput) : Except WalletError PubKey :=
  match pdi.unlockerPubKey with
  | some pubKeyHex => reported "Invalid unlocker pub key: " (keys.publicKey pubKeyHex)
  | none => .ok identityPubKey

/-- The transaction with an input replaced. -/
def SdkTransaction.setInput (tx : SdkTransaction) (vin : Nat) (input : TransactionInput) :
    SdkTransaction :=
  { tx with inputs := tx.inputs.set vin input }

/-- The input with the stand-in for its source transaction. -/
def TransactionInput.withStub (input : TransactionInput) (pdi : PendingStorageInput) (script : Bytes) :
    TransactionInput :=
  { input with
    sourceTransaction := some (sourceStub input.sourceOutputIndex pdi.sourceSatoshis script) }

/-! ## Local keys -/

/-- `Transaction::sign` with a P2PKH template: the unlocking script for an input. -/
def SigningKeys.sign (keys : SigningKeys PubKey Key) (tx : SdkTransaction) (vin : Nat) (p2pkh : Key)
    (satoshis : UInt64) (script : Bytes) : Except String Bytes := do
  let preimage ← keys.sighashPreimage tx vin sighashAllForkId satoshis script
  pure (keys.unlockingScript p2pkh (keys.sha256d preimage) sighashAllForkId)

/-- Sign one input with the derived key. -/
def SigningKeys.signPending (keys : SigningKeys PubKey Key) (identityPubKey : PubKey)
    (tx : SdkTransaction) (pdi : PendingStorageInput) : Except WalletError SdkTransaction :=
  match tx.inputs[pdi.vin]? with
  | none => .error (outOfRange "pendingInputs" pdi.vin)
  | some input => do
    let unlockerPubKey ← keys.unlockerPubKey identityPubKey pdi
    let p2pkh ← keys.unlock pdi.derivationPrefix pdi.derivationSuffix unlockerPubKey
    let script := hexToBytes pdi.lockingScript
    let input := input.withStub pdi script
    let tx := tx.setInput pdi.vin input
    let unlockingScript ← reported ("Failed to sign input " ++ toString pdi.vin ++ ": ")
      (keys.sign tx pdi.vin p2pkh pdi.sourceSatoshis script)
    pure (tx.setInput pdi.vin { input with unlockingScript := some unlockingScript })

/-- `build_signable_transaction` with these keys. -/
def SigningKeys.buildSignableTransaction (keys : SigningKeys PubKey Key) (builder : TxBuilder)
    (sdk : Sdk) (identityPubKey : PubKey) (dcr : StorageCreateActionResult)
    (args : ValidCreateActionArgs) :
    Except WalletError (SdkTransaction × UInt64 × List PendingStorageInput) :=
  Signer.buildSignableTransaction builder sdk
    (fun derivationPrefix derivationSuffix => keys.lock derivationPrefix derivationSuffix identityPubKey)
    dcr args

/-- `complete_signed_transaction`. The spends come in the order in which the map yields them. -/
def SigningKeys.completeSignedTransaction (keys : SigningKeys PubKey Key) (identityPubKey : PubKey)
    (tx : SdkTransaction) (pendingInputs : List PendingStorageInput)
    (spends : List (Nat × SignActionSpend)) : Except WalletError Bytes := do
  let tx ← spends.foldlM insertSpend tx
  let tx ← pendingInputs.foldlM (keys.signPending identityPubKey) tx
  reported "Failed to serialize signed tx: " (keys.toBinary tx)

/-! ## A provider -/

/-- Sign one input through the provider. -/
def SigningProvider.signPending (provider : SigningProvider PubKey) (keys : SigningKeys PubKey Key)
    (tx : SdkTransaction) (pdi : PendingStorageInput) : Except WalletError SdkTransaction :=
  match tx.inputs[pdi.vin]? with
  | none => .error (outOfRange "pendingInputs" pdi.vin)
  | some input => do
    let script ← strictHexBytes 0 (utf8Chars pdi.lockingScript)
    let input := input.withStub pdi script
    let tx := tx.setInput pdi.vin input
    let preimage ← reported "sighash preimage: "
      (keys.sighashPreimage tx pdi.vin sighashAllForkId pdi.sourceSatoshis script)
    let unlockerPubKey ← keys.unlockerPubKey provider.identityPublicKey pdi
    let unlockingScript ← provider.signInput (keys.sha256d preimage) sighashAllForkId
      pdi.derivationPrefix pdi.derivationSuffix unlockerPubKey
    pure (tx.setInput pdi.vin { input with unlockingScript := some unlockingScript })

/-- `build_signable_transaction_with_provider`. -/
def SigningProvider.buildSignableTransaction (provider : SigningProvider PubKey) (builder : TxBuilder)
    (sdk : Sdk) (dcr : StorageCreateActionResult) (args : ValidCreateActionArgs) :
    Except WalletError (SdkTransaction × UInt64 × List PendingStorageInput) :=
  buildSignableTransactionWithProvider builder sdk provider.deriveChangeLockingScript dcr args

/-- `complete_signed_transaction_with_provider`; of the keys it uses the SDK's functions only. -/
def SigningProvider.completeSignedTransaction (provider : SigningProvider PubKey)
    (keys : SigningKeys PubKey Key) (tx : SdkTransaction) (pendingInputs : List PendingStorageInput)
    (spends : List (Nat × SignActionSpend)) : Except WalletError Bytes := do
  let tx ← spends.foldlM insertSpend tx
  let tx ← pendingInputs.foldlM (provider.signPending keys) tx
  reported "Serialize signed tx: " (keys.toBinary tx)

end WalletToolbox.Signer
