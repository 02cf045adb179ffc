import WalletToolbox.Laws.BuildSignable
import WalletToolbox.Lib.Slots

/-! # Which numberings keep the caller's inputs

The inputs of a transaction are merged by the vin numbers of storage's answer, and nothing checks that
the numbers are a permutation.
So the caller's inputs are kept exactly when storage answers with numbers that place them, and with
the version and the lock time that were asked for. -/

namespace WalletToolbox.Signer

open WalletToolbox.Lib WalletToolbox.Storage

/-! ## What is kept -/

/-- The outpoint that an input spends, and its sequence number. -/
def TransactionInput.spend (i : TransactionInput) : (Option String × Nat) × Nat :=
  ((i.sourceTxid, i.sourceOutputIndex), i.sequence)

def ValidCreateActionInput.spend (ai : ValidCreateActionInput) : (Option String × Nat) × Nat :=
  ((some ai.outpoint.txid, ai.outpoint.vout), ai.sequenceNumber)

/-- What the input for a storage input spends. -/
def storageSpend (si : StorageCreateTransactionSdkInput) : (Option String × Nat) × Nat :=
  ((some si.sourceTxid, si.sourceVout), 4294967295)

/-- The transaction is the caller's as far as it was asked for: its first inputs are the caller's,
each is there once, and no outpoint is spent twice. -/
structure CallerInputsKept (args : ValidCreateActionArgs) (tx : SdkTransaction) : Prop where
  version : tx.version = args.version
  lockTime : tx.lockTime = args.lockTime
  first : (tx.inputs.map (·.spend)).take args.inputs.length = args.inputs.map (·.spend)
  once : ∀ ai ∈ args.inputs, (tx.inputs.map (·.spend.1)).count ai.spend.1 = 1
  distinct : (tx.inputs.map (·.spend.1)).Nodup

/-- Storage's answer keeps the version and the lock time, and its vin numbers place the caller's
inputs. -/
structure VinsFit (dcr : StorageCreateActionResult) (args : ValidCreateActionArgs) : Prop where
  version : dcr.version = args.version
  lockTime : dcr.lockTime = args.lockTime
  placed : ∃ k, Placed (·.vin) (·.spend) storageSpend Prod.fst args.inputs dcr.inputs k

/-! ## What is assembled -/

/-- The SDK's builder functions append to one list and leave everything else. -/
structure TxBuilder.Pushes (builder : TxBuilder) : Prop where
  output : ∀ {tx o tx'}, builder.addOutput tx o = .ok tx' →
    tx' = { tx with outputs := tx.outputs ++ [o] }
  input : ∀ {tx i tx'}, builder.addInput tx i = .ok tx' →
    tx' = { tx with inputs := tx.inputs ++ [i] }

/-- Version, lock time and what the inputs spend, of a transaction in the making. -/
structure Assembled (tx tx' : SdkTransaction) (spends : List ((Option String × Nat) × Nat)) : Prop where
  version : tx'.version = tx.version
  lockTime : tx'.lockTime = tx.lockTime
  inputs : tx'.inputs.map (·.spend) = tx.inputs.map (·.spend) ++ spends

theorem Assembled.refl (tx : SdkTransaction) : Assembled tx tx [] :=
  ⟨rfl, rfl, (List.append_nil _).symm⟩

theorem Assembled.trans {tx tx₁ tx₂ : SdkTransaction} {xs ys : List ((Option String × Nat) × Nat)}
    (h : Assembled tx tx₁ xs) (h' : Assembled tx₁ tx₂ ys) : Assembled tx tx₂ (xs ++ ys) :=
  ⟨h'.version.trans h.version, h'.lockTime.trans h.lockTime, by
    rw [h'.inputs, h.inputs, List.append_assoc]⟩

section Build

variable {builder : TxBuilder} {sdk : Sdk} {source : ScriptSource} {dcr : StorageCreateActionResult}
  {args : ValidCreateActionArgs} {tx tx' : SdkTransaction}

theorem addOutput_assembled (hpush : builder.Pushes) {label : String} {o : TransactionOutput}
    (h : addOutput builder label tx o = .ok tx') : Assembled tx tx' [] := by
  unfold addOutput at h
  split at h
  · rename_i hadd
    cases h
    rw [hpush.output hadd]
    exact ⟨rfl, rfl, (List.append_nil _).symm⟩
  · cases h

theorem addInput_assembled (hpush : builder.Pushes) {label : String} {i : TransactionInput}
    (h : addInput builder label tx i = .ok tx') : Assembled tx tx' [i.spend] := by
  unfold addInput at h
  split at h
  · rename_i hadd
    cases h
    rw [hpush.input hadd]
    exact ⟨rfl, rfl, List.map_append⟩
  · cases h

theorem foldlM_assembled {α : Type} {f : SdkTransaction → α → Except WalletError SdkTransaction}
    (hstep : ∀ {tx x tx'}, f tx x = .ok tx' → Assembled tx tx' []) {xs : List α}
    (h : xs.foldlM f tx = .ok tx') : Assembled tx tx' [] := by
  induction xs generalizing tx with
  | nil =>
    cases h
    exact .refl _
  | cons x xs ih =>
    rw [List.foldlM_cons] at h
    obtain ⟨tx₁, hone, hrest⟩ := except_bind_ok h
    exact (hstep hone).trans (ih hrest)

theorem addOutputs_assembled (hpush : builder.Pushes) (h : addOutputs builder source dcr tx = .ok tx') :
    Assembled tx tx' [] := by
  obtain ⟨idxs, -, h⟩ := except_bind_ok h
  obtain ⟨tx₁, hfold, h⟩ := except_bind_ok h
  have hloop : Assembled tx tx₁ [] := by
    refine foldlM_assembled (fun hone => ?_) hfold
    split at hone
    · obtain ⟨o, -, hadd⟩ := except_bind_ok hone
      exact addOutput_assembled hpush hadd
    · cases hone
      exact .refl _
  split at h
  · exact hloop.trans (addOutput_assembled hpush h)
  · cases h
    exact hloop

/-- What the input for a pair of the merged list spends. -/
def mergedSpend : Option ValidCreateActionInput × StorageCreateTransactionSdkInput →
    (Option String × Nat) × Nat
  | (some ai, _) => ai.spend
  | (none, si) => storageSpend si

theorem addStorageInput_assembled (hpush : builder.Pushes)
    {input : Option ValidCreateActionInput × StorageCreateTransactionSdkInput} {b b' : InputsBuilt}
    (h : addStorageInput builder sdk b input = .ok b') :
    Assembled b.tx b'.tx [mergedSpend input] := by
  obtain ⟨ai | _, si⟩ := input
  · unfold addStorageInput at h
    dsimp only at h
    split at h
    · cases h
    · obtain ⟨tx₁, hadd, h⟩ := except_bind_ok h
      cases h
      exact addInput_assembled hpush hadd
  · obtain ⟨tx₁, hadd, h⟩ := except_bind_ok h
    cases h
    exact addInput_assembled hpush hadd

theorem addStorageInputs_assembled (hpush : builder.Pushes)
    {inputs : List (Option ValidCreateActionInput × StorageCreateTransactionSdkInput)}
    {b b' : InputsBuilt} (h : inputs.foldlM (addStorageInput builder sdk) b = .ok b') :
    Assembled b.tx b'.tx (inputs.map mergedSpend) := by
  induction inputs generalizing b with
  | nil =>
    cases h
    exact .refl _
  | cons input inputs ih =>
    rw [List.foldlM_cons] at h
    obtain ⟨b₁, hone, hrest⟩ := except_bind_ok h
    exact (addStorageInput_assembled hpush hone).trans (ih hrest)

/-- The merged list is the storage inputs in vin order, each with the caller's input it stands for. -/
theorem mergedInputs_eq (inputs : List StorageCreateTransactionSdkInput)
    (callers : List ValidCreateActionInput) :
    mergedInputs inputs callers = (inOrder (·.vin) inputs).map fun si => (callers[si.vin]?, si) := by
  unfold mergedInputs inOrder
  exact (List.map_mergeSort (f := fun (si : StorageCreateTransactionSdkInput) => (callers[si.vin]?, si))
     fun _ _ _ _ => rfl).symm

theorem mergedInputs_spends (inputs : List StorageCreateTransactionSdkInput)
    (callers : List ValidCreateActionInput) :
    (mergedInputs inputs callers).map mergedSpend =
      slots (·.vin) (·.spend) storageSpend callers inputs := by
  rw [mergedInputs_eq, List.map_map]
  refine List.map_congr_left fun si _ => ?_
  show mergedSpend (callers[si.vin]?, si) = slotOf _ _ _ callers si
  unfold slotOf
  split <;> rename_i hcaller <;> rw [hcaller] <;> rfl

/-- A built transaction has storage's version and lock time, and the merged inputs. -/
theorem buildSignable_assembled (hpush : builder.Pushes) {amount : UInt64}
    {pending : List PendingStorageInput}
    (h : buildSignable builder sdk source dcr args = .ok (tx, amount, pending)) :
    tx.version = dcr.version ∧ tx.lockTime = dcr.lockTime ∧
      tx.inputs.map (·.spend) = slots (·.vin) (·.spend) storageSpend args.inputs dcr.inputs := by
  obtain ⟨-, -, tx₁, built, hadd, hinputs, rfl, -⟩ := buildSignable_ok h
  have hall := (addOutputs_assembled hpush hadd).trans (addStorageInputs_assembled hpush hinputs)
  refine ⟨hall.version, hall.lockTime, hall.inputs.trans ?_⟩
  rw [List.map_nil, List.nil_append, List.nil_append, mergedInputs_spends]

theorem buildSignable_kept_iff (hpush : builder.Pushes) {amount : UInt64}
    {pending : List PendingStorageInput}
    (h : buildSignable builder sdk source dcr args = .ok (tx, amount, pending)) :
    CallerInputsKept args tx ↔ VinsFit dcr args := by
  obtain ⟨hversion, hlockTime, hinputs⟩ := buildSignable_assembled hpush h
  have houtpoints : tx.inputs.map (·.spend.1) = (tx.inputs.map (·.spend)).map Prod.fst := by
    rw [List.map_map]
    rfl
  constructor
  · intro hkept
    refine ⟨hversion ▸ hkept.version, hlockTime ▸ hkept.lockTime, placed_iff.mp ⟨?_, ?_⟩⟩
    · rw [← hinputs, List.prefix_iff_eq_take, List.length_map]
      exact hkept.first.symm
    · rw [← hinputs, ← houtpoints]
      exact hkept.distinct
  · intro hfit
    obtain ⟨hfront, hdistinct⟩ := placed_iff.mpr hfit.placed
    rw [← hinputs] at hfront hdistinct
    rw [← houtpoints] at hdistinct
    refine ⟨hversion.trans hfit.version, hlockTime.trans hfit.lockTime, ?_, fun ai hai => ?_, hdistinct⟩
    · rw [List.prefix_iff_eq_take, List.length_map] at hfront
      exact hfront.symm
    · refine List.count_eq_one_of_mem hdistinct ?_
      rw [houtpoints]
      exact List.mem_map_of_mem (hfront.subset (List.mem_map_of_mem hai))

end Build

/-- Either build function keeps the caller's inputs exactly when the answer's vin numbers fit. -/
theorem callerInputs_kept_iff (builder : TxBuilder) (hpush : builder.Pushes) (sdk : Sdk)
    (changeLock : String → String → Except WalletError Bytes) (dcr : StorageCreateActionResult)
    (args : ValidCreateActionArgs) (tx : SdkTransaction) (amount : UInt64)
    (pending : List PendingStorageInput)
    (h : buildSignableTransaction builder sdk changeLock dcr args = .ok (tx, amount, pending) ∨
      buildSignableTransactionWithProvider builder sdk changeLock dcr args =
        .ok (tx, amount, pending)) :
    CallerInputsKept args tx ↔ VinsFit dcr args := by
  rcases h with h | h
  · exact buildSignable_kept_iff hpush h
  · exact buildSignable_kept_iff hpush h

theorem appendingBuilder_pushes : appendingBuilder.Pushes :=
  ⟨fun h => by cases h; rfl, fun h => by cases h; rfl⟩

/-- The payment to Bob, from a coin of the caller's own. -/
def payFromCoin : ValidCreateActionArgs :=
  { payBob with
    inputs := [
      { outpoint := ⟨Sample.fundingTxid, 0⟩, unlockingScript := some [81], unlockingScriptLength := 1
        sequenceNumber := 7 }] }

/-- A storage input with a number, for an output of the funding. -/
def storageInput (vin sourceVout : Nat) : StorageCreateTransactionSdkInput :=
  { vin, sourceTxid := Sample.fundingTxid, sourceVout, sourceSatoshis := 5000, sourceLockingScript := ""
    sourceTransaction := none, unlockingScriptLength := 107, providedBy := .storage
    outputType := "P2PKH", spendingDescription := none, derivationPrefix := some "cA=="
    derivationSuffix := some "cw==", senderIdentityKey := none }

/-- Storage's answer with the given inputs. -/
def answerWith (inputs : List StorageCreateTransactionSdkInput) : StorageCreateActionResult :=
  { payBobAnswer with inputs }

/-- The payment to Bob and its change, with the given inputs. -/
def paymentFrom (inputs : List TransactionInput) : SdkTransaction :=
  { inputs
    outputs := [
      { satoshis := some 3990, lockingScript := Sample.changeScript, change := true },
      { satoshis := some 1000, lockingScript := Sample.bobScript, change := false }] }

def coinInput : TransactionInput :=
  { sourceTransaction := none, sourceTxid := some Sample.fundingTxid, sourceOutputIndex := 0
    unlockingScript := some [81], sequence := 7 }

def walletInput : TransactionInput :=
  { sourceTransaction := none, sourceTxid := some Sample.fundingTxid, sourceOutputIndex := 1
    unlockingScript := some [], sequence := 4294967295 }

def walletPending : PendingStorageInput :=
  { vin := 1, derivationPrefix := "cA==", derivationSuffix := "cw==", unlockerPubKey := none
    sourceSatoshis := 5000, lockingScript := "" }

/-- Inputs that come in vin order stay so. -/
theorem inOrder_of_pairwise {inputs : List StorageCreateTransactionSdkInput}
    (h : inputs.Pairwise fun a b => a.vin ≤ b.vin) : inOrder (·.vin) inputs = inputs :=
  List.mergeSort_of_pairwise (h.imp decide_eq_true)

theorem fits_coin : VinsFit (answerWith [storageInput 0 0, storageInput 1 1]) payFromCoin where
  version := rfl
  lockTime := rfl
  placed := by
    refine ⟨1, by decide, by decide, rfl, ?_⟩
    unfold unowned
    rw [inOrder_of_pairwise (by decide)]
    decide +kernel

/-- Storage numbers the caller's coin 0 and the wallet's own 1. -/
theorem callerInputs_kept_coin : CallerInputsKept payFromCoin (paymentFrom [coinInput, walletInput]) :=
  (callerInputs_kept_iff appendingBuilder appendingBuilder_pushes Sample.sdk changeLockOf
    (answerWith [storageInput 0 0, storageInput 1 1]) payFromCoin _ 1010 [walletPending]
    (.inl (by
      unfold buildSignableTransaction buildSignable
      rw [mergedInputs_eq, inOrder_of_pairwise (by decide)]
      decide +kernel))).mpr fits_coin

/-- When storage numbers two inputs 0, the caller's coin is spent twice. -/
theorem callerInputs_repeated :
    ∃ tx amount pending,
      buildSignableTransaction appendingBuilder Sample.sdk changeLockOf
        (answerWith [storageInput 0 0, storageInput 0 1]) payFromCoin = .ok (tx, amount, pending) ∧
      ¬CallerInputsKept payFromCoin tx := by
  refine ⟨paymentFrom [coinInput, coinInput], 0, [], ?_, fun h => ?_⟩
  · unfold buildSignableTransaction buildSignable
    rw [mergedInputs_eq, inOrder_of_pairwise (by decide)]
    decide +kernel
  · have htwice : ¬((paymentFrom [coinInput, coinInput]).inputs.map (·.spend.1)).Nodup := by
      decide +kernel
    exact htwice h.distinct

end WalletToolbox.Signer
