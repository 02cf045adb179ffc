import WalletToolbox.Laws.BeefHelpers
import WalletToolbox.Laws.BuildSignable
import WalletToolbox.Laws.Conservation
import WalletToolbox.Laws.InternalizeRows
import WalletToolbox.Laws.Users
import WalletToolbox.Wallet.Convenience

/-! # Sweeping

An output of the largest possible amount asks for all that the wallet can fund.
Change generation lowers it to what is left after the other outputs and the fee, but the plan that
createAction stores and returns is made from the amounts of the request, and so are the transaction and
what the receiver internalizes of it. -/

namespace WalletToolbox.Signer

open WalletToolbox.Lib WalletToolbox.Storage
open WalletToolbox.Lib.Prog hiding pure exec

/-! ## The order of the outputs -/

section Order

variable {builder : TxBuilder} {sdk : Sdk} {source : ScriptSource} {dcr : StorageCreateActionResult}

/-- The vouts of outputs that are numbered in order are their positions. -/
theorem voutToIndex_range {storageOutputs : List StorageCreateTransactionSdkOutput} {idxs : List Nat}
    (hordered : storageOutputs.map (·.vout) = List.range storageOutputs.length)
    (h : voutToIndex storageOutputs = .ok idxs) : idxs = List.range storageOutputs.length := by
  have hsame : List.Forall₂ Eq (List.range storageOutputs.length) idxs := by
    refine (voutToIndex_found h).imp fun vout i hi => ?_
    have hnumber : (storageOutputs.map (·.vout))[i]? = some i := by
      rw [hordered, List.getElem?_range hi.1]
    rw [List.getElem?_map, hi.2] at hnumber
    exact Option.some.inj hnumber
  exact (List.forall₂_eq_eq_eq ▸ hsame : List.range storageOutputs.length = idxs).symm

/-- Outputs that are numbered in order are built in order. -/
theorem buildSignable_ordered (happends : builder.Appends) {args : ValidCreateActionArgs}
    {tx : SdkTransaction} {amount : UInt64} {pending : List PendingStorageInput}
    (h : buildSignable builder sdk source dcr args = .ok (tx, amount, pending))
    (hordered : dcr.outputs.map (·.vout) = List.range dcr.outputs.length) (hne : dcr.outputs ≠ []) :
    tx.outputs = madeOutputs source dcr.derivationPrefix dcr.outputs := by
  obtain ⟨-, -, tx₁, built, hadd, hinputs, rfl, -⟩ := buildSignable_ok h
  rw [addStorageInputs_ok happends hinputs]
  obtain ⟨idxs, hidxs, hadd⟩ := except_bind_ok hadd
  obtain ⟨tx₂, hfold, hadd⟩ := except_bind_ok hadd
  rw [if_neg (by simpa using hne)] at hadd
  cases hadd
  rw [addOutputs_fold happends hfold, voutToIndex_range hordered hidxs, filterMap_range_getElem?]
  rfl

/-- The first output of such a transaction is the first that was requested. -/
theorem buildSignable_head (happends : builder.Appends) (hreads : source.Reads)
    {args : ValidCreateActionArgs} {tx : SdkTransaction} {amount : UInt64}
    {pending : List PendingStorageInput}
    (h : buildSignable builder sdk source dcr args = .ok (tx, amount, pending))
    (hordered : dcr.outputs.map (·.vout) = List.range dcr.outputs.length)
    {requested : CreateActionOutput} {rest : List CreateActionOutput}
    (hargs : args.outputs = requested :: rest) :
    ∃ others, tx.outputs = requestedOutput requested :: others := by
  obtain ⟨hrequested, -⟩ := buildSignable_ok h
  have hechoed := echoed_of_position (verifyRequested_ok hrequested)
  have hmade := @madeOutputs_echoed source hreads dcr.derivationPrefix _ _ hechoed
  have hne : dcr.outputs ≠ [] := by
    intro hnil
    rw [hnil, hargs, List.take_nil] at hechoed
    cases hechoed
  rw [buildSignable_ordered happends h hordered hne]
  refine ⟨rest.map requestedOutput ++ madeOutputs source dcr.derivationPrefix
    (dcr.outputs.drop args.outputs.length), ?_⟩
  rw [← List.cons_append, ← List.map_cons, ← hargs, ← hmade]
  simp only [madeOutputs]
  rw [← List.filterMap_append, List.take_append_drop]

end Order

/-! ## The outputs of a signed transaction -/

section Sign

variable {kit : Toolkit} {backend : SigningBackend} {tx tx' : SdkTransaction}

theorem foldlM_outputs {α : Type} {f : SdkTransaction → α → Except WalletError SdkTransaction}
    (hkeep : ∀ tx x tx', f tx x = .ok tx' → tx'.outputs = tx.outputs) {xs : List α}
    (h : xs.foldlM f tx = .ok tx') : tx'.outputs = tx.outputs := by
  induction xs generalizing tx with
  | nil =>
    cases h
    rfl
  | cons x xs ih =>
    rw [List.foldlM_cons] at h
    obtain ⟨tx₁, hone, hrest⟩ := except_bind_ok h
    rw [ih hrest, hkeep _ _ _ hone]

theorem insertSpend_outputs {entry : Nat × SignActionSpend} (h : insertSpend tx entry = .ok tx') :
    tx'.outputs = tx.outputs := by
  unfold insertSpend at h
  split at h
  · cases h
  · cases h
    rfl

theorem signPending_outputs {pdi : PendingStorageInput} (h : signPending backend tx pdi = .ok tx') :
    tx'.outputs = tx.outputs := by
  unfold signPending at h
  split at h
  · cases h
  · obtain ⟨_, -, h⟩ := except_bind_ok h
    obtain ⟨_, -, h⟩ := except_bind_ok h
    cases h
    rfl

/-- Signing leaves the outputs as they are. -/
theorem completeSignedTransaction_outputs {pdi : List PendingStorageInput}
    {spends : List (Nat × SignActionSpend)} {bytes : Bytes}
    (h : completeSignedTransaction kit backend tx pdi spends = .ok (tx', bytes)) :
    tx'.outputs = tx.outputs := by
  obtain ⟨_, -, h⟩ := except_bind_ok h
  obtain ⟨tx₁, hspends, h⟩ := except_bind_ok h
  obtain ⟨tx₂, hpending, h⟩ := except_bind_ok h
  obtain ⟨_, -, h⟩ := except_bind_ok h
  cases h
  rw [foldlM_outputs (fun _ _ _ => signPending_outputs) hpending,
    foldlM_outputs (fun _ _ _ => insertSpend_outputs) hspends]

end Sign

/-! ## What a sweep should do -/

/-- The sum of the amounts of some outputs. -/
def amountOf (outputs : List TransactionOutput) : Nat :=
  sumNat (outputs.map fun o => o.satoshis.getD 0)

/-- The build accepts the result. The outputs of the transaction and the fee come to its inputs, and
the requested output carries what the other outputs and the fee leave of them. -/
def Sweeps (builder : TxBuilder) (sdk : Sdk) (changeLock : String → String → Except WalletError Bytes)
    (args : ValidCreateActionArgs) (requested : CreateActionOutput) (r : StorageCreateActionResult) :
    Prop :=
  ∃ tx amount pending,
    buildSignableTransaction builder sdk changeLock r args = .ok (tx, amount, pending) ∧
    amountOf tx.outputs + actionFeeNat r = sumNat (r.inputs.map (·.sourceSatoshis)) ∧
    ∃ o ∈ tx.outputs, o.lockingScript = requested.lockingScript.getD [] ∧
      (o.satoshis.getD 0).toNat + amountOf (tx.outputs.erase o) + actionFeeNat r =
        sumNat (r.inputs.map (·.sourceSatoshis))

/-- The internalized satoshis are what the other outputs and the fee leave of the inputs. -/
def SweptFully (r : StorageCreateActionResult) (satoshis : Int) : Prop :=
  satoshis + sumNat ((r.outputs.drop 1).map (·.satoshis)) + actionFeeNat r =
    sumNat (r.inputs.map (·.sourceSatoshis))

/-- The subject of an AtomicBEEF has the given outputs. -/
def Carries (kit : ActionKit) (outputs : List TransactionOutput) (bytes : Bytes) : Prop :=
  ∀ beef subject, kit.sdk.parseBeef bytes = .ok beef → findSubject beef = .ok subject →
    subject.tx.outputs = outputs.map fun o => ⟨o.satoshis.map UInt64.toNat, o.lockingScript⟩

/-- An AtomicBEEF carries the transaction that it is serialized for, and still does when its txid-only
entries are completed. -/
structure HandsOver (kit : ActionKit) : Prop where
  serialized : ∀ {tx inputBeef txid beef bytes}, kit.id tx = .ok txid →
    kit.buildBeef tx inputBeef = .ok beef → kit.serializeBeefAtomic beef txid = .ok bytes →
      Carries kit tx.outputs bytes
  returned : ∀ {outputs bytes party returnTxidOnly bytes'}, Carries kit outputs bytes →
    verifyReturnedTxidOnlyAtomicBeef kit.sdk kit.bumps kit.toBinaryAtomic bytes party returnTxidOnly
      none = .ok bytes' → Carries kit outputs bytes'

section Sweep

variable {kit : ActionKit} {s s' : Store}

/-- The inputs of a plan come to no more than its funding. -/
theorem inputs_lt {sdk : Sdk} {entropy : Entropy} {auth : String} {args : StorageCreateActionArgs}
    {s₀ s₁ : Store} {call : FundingCall} {r : StorageCreateActionResult} {most : Nat}
    (hcall : (fundingCall sdk entropy auth args).run Stmt.exec s = (.ok call, s₀))
    (hfunding : fundingNat call.args call.pool < most)
    (hcreate : (createAction sdk entropy auth args).run Stmt.exec s = (.ok r, s₁)) :
    sumNat (r.inputs.map (·.sourceSatoshis)) < most := by
  obtain ⟨call', s₂, g, hcall', hg, hplan⟩ := createAction_plan hcreate
  obtain rfl : call' = call := Except.ok.inj (Prod.mk.inj (hcall'.symm.trans hcall)).1
  exact Nat.lt_of_le_of_lt (hplan.inputs_le hg) hfunding

/-- An action that is signed at once hands over the transaction that was built for its plan. -/
theorem signerCreateAction_built (hhands : HandsOver kit) {services : Services}
    {changeLock : String → String → Except WalletError Bytes}
    {sign : SdkTransaction → Nat → PendingStorageInput → Except WalletError Bytes} {entropy : Entropy}
    {auth random : String} {args : ValidCreateActionArgs} {result : SignerCreateActionResult}
    {p : Option PendingSignAction} {bytes : Bytes} (hnow : args.isSignAction = false)
    (h : (signerCreateAction kit.toToolkit services (.localKeys changeLock sign) entropy auth random
      args).run Stmt.exec s = (.ok (result, p), s')) (htx : result.tx = some bytes) :
    ∃ r s₁ inputBeef tx amount pending,
      (Storage.createAction kit.sdk entropy auth (toStorageArgs args)).run Stmt.exec s = (.ok r, s₁) ∧
      buildSignableTransaction kit.builder kit.sdk changeLock { r with inputBeef } args =
        .ok (tx, amount, pending) ∧ Carries kit tx.outputs bytes := by
  obtain ⟨r, s₁, hcreate, h⟩ := run_bind_ok h
  obtain ⟨merged, s₂, -, h⟩ := run_bind_ok h
  obtain ⟨inputBeef, s₃, -, h⟩ := run_bind_ok h
  obtain ⟨⟨tx, amount, pending⟩, s₄, hbuild, h⟩ := run_bind_ok h
  rw [run_ofExcept] at hbuild
  obtain ⟨hbuild, -⟩ := Prod.mk.inj hbuild
  dsimp only at h
  rw [if_neg (by simp [hnow])] at h
  obtain ⟨signed, s₅, hsigned, h⟩ := run_bind_ok h
  obtain ⟨processed, s₆, -, h⟩ := run_bind_ok h
  obtain ⟨hresult, -⟩ := Prod.mk.inj h
  cases hresult
  rw [run_ofExcept] at hsigned
  obtain ⟨hsigned, -⟩ := Prod.mk.inj hsigned
  obtain ⟨⟨tx', rawTx⟩, hcomplete, hsigned⟩ := except_bind_ok hsigned
  obtain ⟨txid, hid, hsigned⟩ := except_bind_ok hsigned
  obtain ⟨beef, hbeef, hsigned⟩ := except_bind_ok hsigned
  obtain ⟨_, -, hsigned⟩ := except_bind_ok hsigned
  obtain ⟨beefBytes, hserialize, hsigned⟩ := except_bind_ok hsigned
  cases hsigned
  have hid' : kit.id tx' = .ok txid := by
    unfold reported at hid
    split at hid
    · rename_i hsome
      cases hid
      exact hsome
    · cases hid
  have hcarries := hhands.serialized hid' hbeef hserialize
  rw [completeSignedTransaction_outputs hcomplete] at hcarries
  dsimp only at htx
  split at htx
  · cases htx
  · cases htx
    exact ⟨r, s₁, inputBeef, tx, amount, pending, hcreate, hbuild, hcarries⟩

theorem request_ok {w : SweepingWallet} {toKey : String} {args : ValidCreateActionArgs}
    (h : w.request toKey = .ok args) : ∃ script, args = SweepingWallet.sweepArgs script
      (base64Encode w.derivationPrefix) (base64Encode w.derivationSuffix) := by
  obtain ⟨script, -, h⟩ := except_bind_ok h
  exact ⟨script, (Except.ok.inj h).symm⟩

/-- What a wallet sends in a sweep is the transaction that was built for its plan. -/
theorem send_built (hhands : HandsOver kit) {w : SweepingWallet} {toKey : String} {bytes : Bytes}
    (h : (w.send kit toKey).run Stmt.exec s = (.ok bytes, s')) :
    ∃ changeLock args r s₁ inputBeef tx amount pending, w.request toKey = .ok args ∧
      (Storage.createAction kit.sdk w.entropy w.identityKey (toStorageArgs args)).run Stmt.exec s =
        (.ok r, s₁) ∧
      buildSignableTransaction kit.builder kit.sdk changeLock { r with inputBeef } args =
        .ok (tx, amount, pending) ∧ Carries kit tx.outputs bytes := by
  unfold SweepingWallet.send at h
  cases hbackend : w.backend with
  | delegated _ _ _ =>
    rw [hbackend] at h
    cases h
  | localKeys changeLock sign =>
    rw [hbackend] at h
    obtain ⟨args, s₁, hrequest, h⟩ := run_bind_ok h
    rw [run_ofExcept] at hrequest
    obtain ⟨hargs, rfl⟩ := Prod.mk.inj hrequest
    obtain ⟨car, s₂, hcar, h⟩ := run_bind_ok h
    obtain ⟨_, s₃, hvalid, hcar⟩ := run_bind_ok hcar
    rw [run_ofExcept] at hvalid
    obtain ⟨-, rfl⟩ := Prod.mk.inj hvalid
    obtain ⟨attempted, s₄, hattempt, hcar⟩ := run_bind_ok hcar
    rw [run_attempt, hbackend] at hattempt
    rcases hsigner : (signerCreateAction kit.toToolkit w.services (.localKeys changeLock sign) w.entropy
      w.identityKey w.random args).run Stmt.exec s with ⟨e | ⟨result, p⟩, s₅⟩
    · rw [hsigner] at hattempt
      cases hattempt
      cases hcar
    · rw [hsigner] at hattempt
      cases hattempt
      obtain ⟨returned, s₆, hreturned, hcar⟩ := run_bind_ok hcar
      obtain ⟨_, s₇, -, hcar⟩ := run_bind_ok hcar
      cases hcar
      rw [run_ofExcept] at hreturned
      obtain ⟨hreturned, -⟩ := Prod.mk.inj hreturned
      dsimp only at h
      cases returned with
      | none => cases h
      | some bytes' =>
        cases h
        cases htx : result.tx with
        | none =>
          rw [htx] at hreturned
          cases hreturned
        | some tx =>
          rw [htx] at hreturned
          have hverified := mapError_ok hreturned
          unfold ActingWallet.returned at hverified
          obtain ⟨verified, hverify, hverified⟩ := bind_ok_iff.mp hverified
          cases hverified
          obtain ⟨script, rfl⟩ := request_ok hargs
          obtain ⟨r, s₁, inputBeef, built, amount, pending, hcreate, hbuild, hcarries⟩ :=
            signerCreateAction_built hhands rfl hsigner htx
          exact ⟨changeLock, _, r, s₁, inputBeef, built, amount, pending, hargs, hcreate, hbuild,
            hhands.returned hcarries hverify⟩

/-- The wallet's internalizeAction has its storage internalize. -/
theorem internalize_run {w : ReceivingWallet} {args : StorageInternalizeActionArgs}
    (h : (w.internalizeAction kit args).run Stmt.exec s = (.ok (), s')) :
    ∃ result, (internalizeAction kit.sdk w.tracker w.identityKey args).run Stmt.exec s =
      (.ok result, s') := by
  obtain ⟨_, s₁, hvalid, h⟩ := run_bind_ok h
  rw [run_ofExcept] at hvalid
  obtain ⟨-, rfl⟩ := Prod.mk.inj hvalid
  split at h
  · cases h
  obtain ⟨attempted, s₂, hattempt, h⟩ := run_bind_ok h
  rw [run_attempt] at hattempt
  rcases hsigner : (w.signerInternalizeAction kit args).run Stmt.exec s with ⟨e | result, s₃⟩
  · rw [hsigner] at hattempt
    cases hattempt
    cases h
  · rw [hsigner] at hattempt
    cases hattempt
    dsimp only at h
    split at h
    · cases h
      obtain ⟨_, s₄, hunique, hsigner⟩ := run_bind_ok hsigner
      obtain ⟨beef, s₅, hbeef, hsigner⟩ := run_bind_ok hsigner
      obtain ⟨tx, s₆, htx, hsigner⟩ := run_bind_ok hsigner
      obtain ⟨_, s₇, hchecked, hsigner⟩ := run_bind_ok hsigner
      rw [run_ofExcept] at hunique hbeef htx hchecked
      obtain ⟨-, rfl⟩ := Prod.mk.inj hunique
      obtain ⟨-, rfl⟩ := Prod.mk.inj hbeef
      obtain ⟨-, rfl⟩ := Prod.mk.inj htx
      obtain ⟨-, rfl⟩ := Prod.mk.inj hchecked
      exact ⟨result, hsigner⟩
    · cases h

/-- A payment that is internalized counts in full unless it was change of the receiver before. -/
theorem internalizeAction_payment {sdk : Sdk} {tracker : ChainTracker} {auth : String}
    {args : StorageInternalizeActionArgs} {result : StorageInternalizeActionResult} {i : Nat}
    {sender : String} {derivationPrefix derivationSuffix : Bytes}
    (h : (internalizeAction sdk tracker auth args).run Stmt.exec s = (.ok result, s'))
    (hspec : args.outputs = [.walletPayment i sender derivationPrefix derivationSuffix])
    (hfresh : ∀ o ∈ s.outputs, o.txid = some result.txid → o.vout = i → o.basketId = none) :
    ∃ beef subject, sdk.parseBeef args.tx = .ok beef ∧ findSubject beef = .ok subject ∧
      result.satoshis = asI64 (TxOutput.amount (outputAt subject.tx i)) := by
  obtain ⟨⟨user, isNew⟩, s₁, huser, h⟩ := run_bind_ok h
  have hsame : s₁.outputs = s.outputs := by
    have hwp : wp Stmt.exec (findOrInsertUser auth) (fun _ s₁ => s₁.outputs = s.outputs)
        (fun _ => True) s :=
      wp_findOrInsertUser (fun _ _ => rfl) fun _ s₂ hs₂ => by rw [hs₂]; rfl
    have hkept := wp_ok hwp huser
    exact hkept
  obtain ⟨c, d, htook, hsatoshis, htxid⟩ := storageInternalizeAction_rows h
  refine ⟨c.beef, c.subject, htook.prepared.parsed, htook.prepared.subject, ?_⟩
  have hheld : heldAsChange s₁ user.userId c.subject.txid i = false := by
    rw [heldAsChange, Option.any_eq_false]
    intro o ho
    obtain ⟨hmem, hsel⟩ := Table.first_some ho
    rw [hsame] at hmem
    simp only [Bool.and_eq_true, beq_iff_eq] at hsel
    rw [hfresh o hmem (htxid ▸ hsel.1.2) hsel.2]
    simp
  have hcounted : counted c.isMerge s₁ user.userId c.subject
      (.walletPayment i sender derivationPrefix derivationSuffix) =
        TxOutput.amount (outputAt c.subject.tx i) := by
    simp only [counted, InternalizeOutput.index, hheld, Bool.and_false, Bool.false_eq_true, if_false,
      InternalizeOutput.amount]
  rw [hsatoshis, hspec, List.map_singleton, List.sum_singleton, hcounted]

/-- What the receiver internalizes of a sweep is the amount that was asked for. -/
theorem sweepTo_internalized (happends : kit.builder.Appends) (hhands : HandsOver kit)
    {w : SweepingWallet} {toWallet : ReceivingWallet} {theirs : Store → Store} {mine mine' theirs' : Store}
    (h : w.sweepTo kit toWallet theirs mine = (.ok (), mine', theirs')) :
    ∃ args r s₁ tx result, w.request toWallet.identityKey = .ok args ∧
      (Storage.createAction kit.sdk w.entropy w.identityKey (toStorageArgs args)).run Stmt.exec mine =
        (.ok r, s₁) ∧
      (internalizeAction kit.sdk toWallet.tracker toWallet.identityKey (w.payment tx)).run Stmt.exec
        (theirs mine') = (.ok result, theirs') ∧
      ((∀ o ∈ (theirs mine').outputs, o.txid = some result.txid → o.vout = 0 → o.basketId = none) →
        result.satoshis = 2099999999999999) := by
  unfold SweepingWallet.sweepTo at h
  rcases hsend : (w.send kit toWallet.identityKey).run Stmt.exec mine with ⟨e | bytes, s₂⟩
  · rw [hsend] at h
    cases h
  rw [hsend] at h
  obtain ⟨hresult, rfl, rfl⟩ : _ ∧ s₂ = mine' ∧ _ = theirs' := by simpa only [Prod.mk.injEq] using h
  obtain ⟨changeLock, args, r, s₁, inputBeef, tx, amount, pending, hargs, hcreate, hbuild, hcarries⟩ :=
    send_built hhands hsend
  obtain ⟨result, hinternalize⟩ := internalize_run (Prod.ext hresult rfl)
  refine ⟨args, r, s₁, bytes, result, hargs, hcreate, hinternalize, fun hfresh => ?_⟩
  obtain ⟨beef, subject, hbeef, hsubject, hsatoshis⟩ :=
    internalizeAction_payment hinternalize rfl hfresh
  obtain ⟨script, rfl⟩ := request_ok hargs
  obtain ⟨call, s₀, g, -, -, hplan⟩ := createAction_plan hcreate
  obtain ⟨others, hhead⟩ := buildSignable_head happends (lenient_reads changeLock) hbuild
    (hplan.ordered rfl) rfl
  have houtputs := hcarries beef subject hbeef hsubject
  rw [hhead, List.map_cons] at houtputs
  have hamount : (2099999999999999 : Int) = asI64 (asI64 maxPossibleSatoshis.toNat) := by decide +kernel
  rw [hsatoshis, outputAt, houtputs, hamount]
  rfl

end Sweep

/-- While the funding is below the supply of coins, no request for the largest possible amount and no
sweep moves what is left after the other outputs and the fee: the transaction that is built pays the
asked amount, and the receiver internalizes it. -/
theorem never_sweeps (kit : ActionKit) (happends : kit.builder.Appends) (hhands : HandsOver kit) :
    (∀ (changeLock : String → String → Except WalletError Bytes) (entropy : Entropy) (auth : String)
      (args : ValidCreateActionArgs) (s s₀ s₁ : Store) (call : FundingCall)
      (r : StorageCreateActionResult),
      (fundingCall kit.sdk entropy auth (toStorageArgs args)).run Stmt.exec s = (.ok call, s₀) →
      fundingNat call.args call.pool < maxPossibleSatoshis.toNat →
      (createAction kit.sdk entropy auth (toStorageArgs args)).run Stmt.exec s = (.ok r, s₁) →
      ∀ requested ∈ args.outputs, requested.satoshis = maxPossibleSatoshis →
        ¬Sweeps kit.builder kit.sdk changeLock args requested r) ∧
    ∀ (w : SweepingWallet) (toWallet : ReceivingWallet) (theirs : Store → Store)
      (mine s₀ mine' theirs' : Store) (args : ValidCreateActionArgs) (call : FundingCall),
      w.request toWallet.identityKey = .ok args →
      (fundingCall kit.sdk w.entropy w.identityKey (toStorageArgs args)).run Stmt.exec mine =
        (.ok call, s₀) →
      fundingNat call.args call.pool < maxPossibleSatoshis.toNat →
      w.sweepTo kit toWallet theirs mine = (.ok (), mine', theirs') →
      ∃ r s₁ tx result,
        (createAction kit.sdk w.entropy w.identityKey (toStorageArgs args)).run Stmt.exec mine =
          (.ok r, s₁) ∧
        (internalizeAction kit.sdk toWallet.tracker toWallet.identityKey (w.payment tx)).run Stmt.exec
          (theirs mine') = (.ok result, theirs') ∧
        ((∀ o ∈ (theirs mine').outputs, o.txid = some result.txid → o.vout = 0 → o.basketId = none) →
          ¬SweptFully r result.satoshis) := by
  constructor
  · intro changeLock entropy auth args s s₀ s₁ call r hcall hfunding hcreate requested hrequested hmax
    have hinputs := inputs_lt hcall hfunding hcreate
    obtain ⟨call', s₂, g, -, -, hplan⟩ := createAction_plan hcreate
    have hne := hplan.outputs.ne_nil (List.ne_nil_of_mem (List.mem_map_of_mem hrequested))
    rintro ⟨tx, amount, pending, hbuild, hbalance, -⟩
    obtain ⟨change, extra, hperm, -⟩ :=
      ((buildSignable_outputs happends (lenient_reads changeLock) hbuild).1 hne).parts
    have hin : requestedOutput requested ∈ tx.outputs :=
      hperm.mem_iff.mpr (List.mem_append_left _ (List.mem_map_of_mem hrequested))
    have hpaid := le_sumNat (List.mem_map_of_mem (f := fun o => o.satoshis.getD 0) hin)
    rw [requestedOutput, Option.getD_some, hmax] at hpaid
    unfold amountOf at hbalance
    omega
  · intro w toWallet theirs mine s₀ mine' theirs' args call hargs hcall hfunding hsweep
    obtain ⟨args', r, s₁, tx, result, hargs', hcreate, hinternalize, hsatoshis⟩ :=
      sweepTo_internalized happends hhands hsweep
    obtain rfl : args' = args := Except.ok.inj (hargs'.symm.trans hargs)
    refine ⟨r, s₁, tx, result, hcreate, hinternalize, fun hfresh hswept => ?_⟩
    have hinputs := inputs_lt hcall hfunding hcreate
    rw [SweptFully, hsatoshis hfresh] at hswept
    have hsupply : maxPossibleSatoshis.toNat = 2099999999999999 := rfl
    omega

/-! ### A payer with 1000 satoshis -/

def sweepTxid : String := "aa1cb3a2fb22181943e98540246f6bcc9a34ce78b6f182e12a942b5de2dbb8df"

/-- All the coins there are, out of 1000 satoshis. -/
def sweepTx : Tx :=
  { version := 1, inputs := [⟨some Sample.fundingTxid, 0⟩]
    outputs := [⟨some 2099999999999999, Sample.bobScript⟩], lockTime := 0 }

def sweepRaw : Bytes :=
  [1, 0, 0, 0, 1] ++ Sample.fundingHash ++ [0, 0, 0, 0, 1, 81, 255, 255, 255, 255, 1, 255, 63, 7, 90,
    240, 117, 7, 0, 25] ++ Sample.bobScript ++ [0, 0, 0, 0]

def sweepAtomic : Bytes :=
  [1, 1, 1, 1, 223, 184, 219, 226, 93, 43, 148, 42, 225, 130, 241, 182, 120, 206, 52, 154, 204, 107, 111,
   36, 64, 133, 233, 67, 25, 24, 34, 251, 162, 179, 28, 170, 1, 0, 190, 239, 1] ++
    Sample.fundingBumpRaw ++ [2] ++ Sample.fundingRaw ++ [1, 0] ++ sweepRaw ++ [0]

def sweepBeefTx : BeefTx :=
  { txid := sweepTxid, tx := some sweepTx, bumpIndex := none, inputTxids := [Sample.fundingTxid] }

def sweepBeef : Beef :=
  { Sample.fundingBeef with atomicTxid := some sweepTxid, txs := [Sample.fundingBeefTx, sweepBeefTx] }

/-- The SDK on the bytes of the sweep. -/
def sweepKit : ActionKit where
  sdk :=
    { Sample.sdk with
      parseBeef := fun bytes => if bytes = sweepAtomic then .ok sweepBeef else Sample.parseBeef bytes
      txBytes := fun tx => if tx = sweepTx then .ok sweepRaw else Sample.sdk.txBytes tx }
  builder := appendingBuilder
  toBinary _ := .ok sweepRaw
  fromBinary _ := Sample.unknown
  id tx :=
    if tx.outputs = [⟨some maxPossibleSatoshis, Sample.bobScript, false⟩] then .ok sweepTxid
    else Sample.unknown
  mergeInputBeef _ _ := .ok (some Sample.fundingSource)
  buildBeef _ _ := .ok { sweepBeef with atomicTxid := none }
  verifyUnlockScripts _ _ := .ok ()
  serializeBeefAtomic _ txid := reported "" (if txid = sweepTxid then .ok sweepAtomic else Sample.unknown)
  serializeBeefForBroadcast _ :=
    .ok ([2, 0, 190, 239, 1] ++ Sample.fundingBumpRaw ++ [2, 1, 0] ++ Sample.fundingRaw ++ [0] ++ sweepRaw)
  bumps :=
    { parseBump := fun _ => Sample.unknown
      mergeBump := fun beef bump => .ok ({ beef with bumps := beef.bumps ++ [bump] }, beef.bumps.length)
      mergeProvenTx := fun _ _ _ => Sample.unknown }
  mergedParty party beef := { party with txs := party.txs ++ beef.txs, bumps := party.bumps ++ beef.bumps }
  toBinaryAtomic _ txid := if txid = sweepTxid then .ok sweepAtomic else Sample.unknown
  intoTransaction beef := if beef.atomicTxid = some sweepTxid then .ok sweepTx else Sample.unknown
  validateCreateActionArgs _ := .ok ()
  validateInternalizeActionArgs _ := .ok ()
  sdkErrorText _ := ""

theorem sweepKit_parses (bytes : Bytes) : sweepKit.sdk.parseBeef bytes =
    if bytes = sweepAtomic then .ok sweepBeef else Sample.parseBeef bytes :=
  rfl

/-- No other bytes are read as a BEEF of the sweep. -/
theorem sweepKit_parseBeef {bytes : Bytes} {beef : Beef} (h : sweepKit.sdk.parseBeef bytes = .ok beef)
    (htxid : beef.atomicTxid = some sweepTxid) : bytes = sweepAtomic := by
  by_contra hne
  rw [sweepKit_parses, if_neg hne] at h
  unfold Sample.parseBeef at h
  split at h
  · cases h
    exact absurd htxid (by decide +kernel)
  split at h
  · cases h
    exact absurd htxid (by decide +kernel)
  split at h
  · cases h
    exact absurd htxid (by decide +kernel)
  split at h
  · cases h
    cases htxid
  · cases h

theorem carries_sweepAtomic :
    Carries sweepKit [⟨some maxPossibleSatoshis, Sample.bobScript, false⟩] sweepAtomic := by
  intro beef subject hbeef hsubject
  rw [sweepKit_parses, if_pos rfl] at hbeef
  cases hbeef
  have hfound : findSubject sweepBeef = .ok ⟨sweepTxid, sweepBeefTx, sweepTx⟩ := by
    with_unfolding_all rfl
  rw [hfound] at hsubject
  cases hsubject
  rfl

theorem sweepKit_handsOver : HandsOver sweepKit where
  serialized := by
    intro tx inputBeef txid beef bytes hid _ hbytes
    change (if tx.outputs = _ then Except.ok sweepTxid else Sample.unknown) = _ at hid
    split at hid
    · rename_i houtputs
      cases hid
      change reported "" (if sweepTxid = sweepTxid then .ok sweepAtomic else Sample.unknown) = _ at hbytes
      rw [if_pos rfl] at hbytes
      cases hbytes
      exact houtputs ▸ carries_sweepAtomic
    · cases hid
  returned := by
    intro outputs bytes party returnTxidOnly bytes' hcarries hverify
    unfold verifyReturnedTxidOnlyAtomicBeef at hverify
    split at hverify
    · cases hverify
      exact hcarries
    obtain ⟨beef, hbeef, hverify⟩ := bind_ok_iff.mp hverify
    split at hverify
    · cases hverify
    rename_i atomicTxid htxid
    obtain ⟨verified, -, hverify⟩ := bind_ok_iff.mp hverify
    have hbytes : (if atomicTxid = sweepTxid then .ok sweepAtomic else Sample.unknown) = .ok bytes' :=
      mapError_ok hverify
    split at hbytes
    · rename_i hsweep
      cases hbytes
      rw [sweepKit_parseBeef (mapError_ok hbeef) (htxid.trans (congrArg some hsweep))] at hcarries
      exact hcarries
    · cases hbytes

def sweepPayer : SweepingWallet where
  identityKey := Sample.alice
  beef := Beef.empty
  returnTxidOnly := false
  services := Sample.answering "success"
  backend := Sample.backend
  entropy := Sample.entropy
  random := ""
  derivationPrefix := [1, 2, 3, 4, 5, 6, 7, 8]
  derivationSuffix := [8, 7, 6, 5, 4, 3, 2, 1]
  lock _ _ _ := .ok Sample.bobScript

def sweepPayee : ReceivingWallet where
  identityKey := Sample.bob
  beef := Beef.empty
  returnTxidOnly := false
  tracker := Sample.tracker
  expectedScript _ _ _ := .ok Sample.bobScript

/-- The request of the payer's sweep. -/
def sweepRequest : ValidCreateActionArgs :=
  SweepingWallet.sweepArgs Sample.bobScript (base64Encode [1, 2, 3, 4, 5, 6, 7, 8])
    (base64Encode [8, 7, 6, 5, 4, 3, 2, 1])

def sweepPlan : Except WalletError StorageCreateActionResult × Store :=
  (createAction sweepKit.sdk Sample.entropy Sample.alice (toStorageArgs sweepRequest)).run Stmt.exec
    Sample.payer.store

def sweepFunding : Except WalletError FundingCall × Store :=
  (fundingCall sweepKit.sdk Sample.entropy Sample.alice (toStorageArgs sweepRequest)).run Stmt.exec
    Sample.payer.store

/-- The payer sweeps into a new wallet. -/
def swept : Except WalletError Unit × Store × Store :=
  sweepPayer.sweepTo sweepKit sweepPayee (fun _ => .empty) Sample.payer.store

theorem sweepFunding_facts :
    sweepFunding.1.toOption.map (fun call => fundingNat call.args call.pool) = some 1000 := by
  decide +kernel

theorem swept_facts :
    swept.1.isOk = true ∧ swept.2.2.outputs.rows.map (·.satoshis) = [2099999999999999] := by
  decide +kernel

/-- The built sweep: its amounts, the fee and the amounts of its inputs. -/
def sweepAmounts : Option (List (Option UInt64) × Nat × List UInt64) := do
  let r ← sweepPlan.1.toOption
  let built ← (buildSignableTransaction sweepKit.builder sweepKit.sdk (fun _ _ => .ok Sample.changeScript) r
    sweepRequest).toOption
  pure (built.1.outputs.map (·.satoshis), actionFeeNat r, r.inputs.map (·.sourceSatoshis))

theorem sweepAmounts_payer : sweepAmounts = some ([some 2099999999999999], 20, [1000]) := by
  decide +kernel

theorem swept_ok : sweepPayer.sweepTo sweepKit sweepPayee (fun _ => .empty) Sample.payer.store =
    (.ok (), swept.2.1, swept.2.2) := by
  obtain ⟨hok, -⟩ := swept_facts
  change swept = _
  rcases hswept : swept with ⟨e | _, mine', theirs'⟩
  · rw [hswept] at hok
    cases hok
  · rfl

/-- A payer with 1000 satoshis does not sweep them: neither the plan nor the sweep that follows it
moves what the fee leaves. -/
theorem never_sweeps_payer :
    (∃ r, sweepPlan.1 = .ok r ∧ ∀ requested ∈ sweepRequest.outputs,
      ¬Sweeps sweepKit.builder sweepKit.sdk (fun _ _ => .ok Sample.changeScript) sweepRequest requested r) ∧
    ∃ r tx result, sweepPlan.1 = .ok r ∧
      (internalizeAction sweepKit.sdk sweepPayee.tracker sweepPayee.identityKey (sweepPayer.payment tx)).run
        Stmt.exec .empty = (.ok result, swept.2.2) ∧ ¬SweptFully r result.satoshis := by
  obtain ⟨call, hcall, hfunding⟩ := ran_ok sweepFunding_facts
  have hfew : fundingNat call.args call.pool < maxPossibleSatoshis.toNat := by
    rw [hfunding]
    decide
  obtain ⟨hplans, hsweeps⟩ := never_sweeps sweepKit appendingBuilder_appends sweepKit_handsOver
  obtain ⟨r, s₁, tx, result, hcreate, hinternalize, hnot⟩ := hsweeps sweepPayer sweepPayee
    (fun _ => .empty) Sample.payer.store _ swept.2.1 swept.2.2 sweepRequest call rfl hcall hfew swept_ok
  refine ⟨⟨r, congrArg Prod.fst hcreate, fun requested hrequested => ?_⟩, r, tx, result,
    congrArg Prod.fst hcreate, hinternalize, hnot fun o ho => by cases ho⟩
  refine hplans _ _ _ _ _ _ _ _ _ hcall hfew hcreate requested hrequested ?_
  rw [List.mem_singleton.mp hrequested]

/-- The transaction is built, and spends all the coins there are; the payee internalizes them. -/
theorem sweep_unbalanced :
    (∃ r, sweepPlan.1 = .ok r ∧ r.inputs.map (·.sourceSatoshis) = [1000] ∧
      (∃ built, buildSignableTransaction sweepKit.builder sweepKit.sdk (fun _ _ => .ok Sample.changeScript) r
        sweepRequest = .ok built ∧ built.1.outputs.map (·.satoshis) = [some 2099999999999999]) ∧
      ∀ requested, ¬Sweeps sweepKit.builder sweepKit.sdk (fun _ _ => .ok Sample.changeScript) sweepRequest
        requested r) ∧
    swept.1.isOk = true ∧ swept.2.2.outputs.rows.map (·.satoshis) = [2099999999999999] := by
  refine ⟨?_, swept_facts⟩
  have hamounts := sweepAmounts_payer
  unfold sweepAmounts at hamounts
  obtain ⟨r, hr, hamounts⟩ := Option.bind_eq_some_iff.mp hamounts
  obtain ⟨built, hbuilt, hamounts⟩ := Option.bind_eq_some_iff.mp hamounts
  simp only [Option.pure_def, Option.some.injEq, Prod.mk.injEq] at hamounts
  obtain ⟨houtputs, hfee, hinputs⟩ := hamounts
  have hbuild := toOption_eq_some.mp hbuilt
  refine ⟨r, toOption_eq_some.mp hr, hinputs, ⟨built, hbuild, houtputs⟩, ?_⟩
  rintro requested ⟨tx, amount, pending, hsame, hbalanced, -⟩
  rw [hbuild] at hsame
  cases hsame
  have hamount : amountOf tx.outputs = sumNat ((tx.outputs.map (·.satoshis)).map (·.getD 0)) := by
    rw [amountOf, List.map_map]
    rfl
  rw [hamount, houtputs, hfee, hinputs] at hbalanced
  exact absurd hbalanced (by decide)

end WalletToolbox.Signer
