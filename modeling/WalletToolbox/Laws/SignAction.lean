import WalletToolbox.Laws.CreateAction
import WalletToolbox.Laws.Outcomes
import WalletToolbox.Laws.ProcessAction
import WalletToolbox.Laws.Users
import WalletToolbox.Lib.Guarded
import WalletToolbox.Sample

/-! # Deferred signing

A deferred action can be signed once, with the record that createAction left in memory.
Nothing stores the unsigned transaction on the row, so when the record is gone it cannot be rebuilt:
after one failed attempt or one restart every further signAction of the action fails. -/

namespace WalletToolbox.Signer

open WalletToolbox.Lib WalletToolbox.Storage
open WalletToolbox.Lib.Prog hiding pure exec

variable {kit : Toolkit} {services : Services} {backend : SigningBackend} {auth random : String}
  {s s' : Store}

/-! ## What cannot be rebuilt -/

/-- The rows of a reference hold no transaction that could be signed again. -/
def Unrecoverable (reference : String) (d : Tables) : Prop :=
  ∀ t ∈ d.transactions, t.reference = reference → t.rawTx = none ∨ signable t.status = false

theorem Unrecoverable.of_sameCore {reference : String} (h : Unrecoverable reference s.toTables)
    (hcore : SameCore s s') : Unrecoverable reference s'.toTables := by
  intro t ht
  rw [hcore.transactions] at ht
  exact h t ht

theorem Unrecoverable.scheduled {reference : String} {d d' : Tables} {userId : Nat}
    {txids : List String} (h : Unrecoverable reference d) (hbatch : Scheduled d userId txids d') :
    Unrecoverable reference d' := by
  intro t' ht' href
  obtain ⟨t, ht, rfl | ⟨-, -, stamp, rfl⟩⟩ := hbatch.transactions t' ht'
  · exact h t' ht href
  · exact .inr rfl

/-- Rebuilding the record of such a reference fails. -/
theorem wp_recover_fails {reference : String} (h : Unrecoverable reference s.toTables) :
    wp Stmt.exec (recoverPendingSignAction kit auth reference) (fun _ _ => False) (fun s' => s' = s)
      s := by
  unfold recoverPendingSignAction
  rw [wp_bind, wp_findUserByIdentityKey]
  cases s.userOf auth with
  | none => rfl
  | some user =>
    rw [wp_bind, wp_ask]
    cases hrow : s.transactions.first fun t => t.userId == user.userId && t.reference == reference with
    | none => rfl
    | some row =>
      obtain ⟨hmem, hsel⟩ := Table.first_some hrow
      simp only [Bool.and_eq_true, beq_iff_eq] at hsel
      dsimp only
      rcases h row hmem hsel.2 with hraw | hstatus
      · rw [hraw]
        exact wp_ite (fun _ => rfl) fun _ => rfl
      · rw [hstatus]
        rfl

/-! ## An attempt that fails -/

/-- A transaction that is to be broadcast is committed as unprocessed. -/
theorem reqTxStatus_broadcast {args : StorageProcessActionArgs} {status : ReqTxStatus}
    (h : reqTxStatus args = .ok status) (hsend : args.isNoSend = false) :
    status.tx = .unprocessed := by
  rcases reqTxStatus_cases h with ⟨-, -⟩ | ⟨-, htx⟩
  · unfold reqTxStatus at h
    cases hdelayed : args.isDelayed <;> simp [hsend, hdelayed] at h <;> cases h <;> rfl
  · exact htx

/-- Applying the outcome of a broadcast cannot fail. -/
theorem wp_applyBroadcast_total {txid : String} {results : List PostBeefResult} {E : Store → Prop} :
    wp Stmt.exec (applyBroadcast services txid results) (fun _ _ => True) E s := by
  unfold applyBroadcast
  cases classifyBroadcastResults results <;> exact wp_ignore wp_trivial

/-- A commit that fails, or whose broadcast cannot be prepared, leaves nothing to sign again. -/
theorem wp_processAndBroadcast {args : StorageProcessActionArgs} {signed : Signed} {reference : String}
    (h : Unrecoverable reference s.toTables) :
    wp Stmt.exec (processAndBroadcast kit services auth random args signed) (fun _ _ => True)
      (fun s' => Unrecoverable reference s'.toTables) s := by
  have hrest : ∀ (r : StorageProcessActionResult) (s' : Store), (args.isNoSend = false → Unrecoverable reference s'.toTables) →
      wp Stmt.exec (do broadcastSigned kit services args signed; pure r) (fun _ _ => True)
        (fun s' => Unrecoverable reference s'.toTables) s' := by
    intro r s' hs'
    unfold broadcastSigned
    rw [wp_bind]
    refine wp_ite (fun hsend => ?_) fun _ => trivial
    simp only [Bool.and_eq_true, Bool.not_eq_eq_eq_not, Bool.not_true] at hsend
    rw [wp_bind]
    exact wp_ofExcept (fun bytes _ => wp_applyBroadcast_total) fun _ _ => hs' hsend.1
  unfold processAndBroadcast
  rw [wp_bind]
  refine wp_processAction_result (fun s' hcore => h.of_sameCore hcore)
    (fun _ userId s₁ s' r hcore hs' => hrest r s' fun _ => ?_)
    fun _ userId s₁ hcore t txid rawTx status hp _ s' r hs' => hrest r s' fun hsend => ?_
  · rw [hs']
    exact (h.of_sameCore hcore).scheduled (scheduleAll_scheduled _ _ _ _)
  · rw [hs']
    refine Unrecoverable.scheduled (fun t' ht' href => ?_) (scheduleAll_scheduled _ _ _ _)
    obtain ⟨t₀, ht₀, rfl⟩ := mem_commitSigned_transactions.mp ht'
    by_cases hid : t₀.transactionId = t.transactionId
    · rw [if_pos hid, reqTxStatus_broadcast hp.next hsend]
      exact .inr rfl
    · rw [if_neg hid] at href ⊢
      exact h.of_sameCore hcore t₀ ht₀ href

theorem wp_recall {w : DefaultWalletSigner} {reference : String}
    (h : Unrecoverable reference w.store.toTables) :
    wp Stmt.exec (w.recall kit auth reference) (fun _ s' => s' = w.store) (fun s' => s' = w.store)
      w.store := by
  unfold DefaultWalletSigner.recall
  cases w.pending reference with
  | some pending => rfl
  | none => exact wp_mono (wp_recover_fails h) (fun _ _ hfalse => hfalse.elim) fun _ h => h

/-- An attempt that fails leaves nothing to sign again. -/
theorem signAction_error_unrecoverable {w w' : DefaultWalletSigner} {args : ValidSignActionArgs}
    {e : WalletError} (h : Unrecoverable args.reference w.store.toTables)
    (hrun : w.signAction kit services backend auth random args = (.error e, w')) :
    Unrecoverable args.reference w'.store.toTables := by
  have hwp : wp Stmt.exec (do
      let pending ← w.recall kit auth args.reference
      signerSignAction kit services backend auth random args pending) (fun _ _ => True)
      (fun s' => Unrecoverable args.reference s'.toTables) w.store := by
    rw [wp_bind]
    refine wp_mono (wp_recall h) ?_ ?_
    · rintro pending _ rfl
      unfold signerSignAction
      rw [wp_bind]
      refine wp_ofExcept (fun signed _ => ?_) fun _ _ => h
      rw [wp_bind]
      exact wp_mono (wp_processAndBroadcast h) (fun _ _ _ => trivial) fun _ h => h
    · rintro _ rfl
      exact h
  unfold wp at hwp
  unfold DefaultWalletSigner.signAction at hrun
  dsimp only at hrun
  split at hwp
  · rename_i hok
    rw [hok] at hrun
    cases hrun
  · rename_i herror
    rw [herror] at hrun
    cases hrun
    exact hwp

theorem pending_forget (w : DefaultWalletSigner) (reference : String) :
    (w.forget reference).pending reference = none := by
  simp only [DefaultWalletSigner.forget, DefaultWalletSigner.pending, Option.map_eq_none_iff,
    List.find?_eq_none, List.mem_filter]
  rintro e ⟨-, hne⟩
  simpa using hne

/-- Without the record in memory a signAction of the action fails. -/
theorem signAction_fails {w : DefaultWalletSigner} {args : ValidSignActionArgs}
    (h : Unrecoverable args.reference w.store.toTables) (hnone : w.pending args.reference = none) :
    ∃ e, (w.signAction kit services backend auth random args).1 = .error e := by
  have hwp : wp Stmt.exec (recoverPendingSignAction kit auth args.reference) (fun _ _ => False)
      (fun s' => s' = w.store) w.store := wp_recover_fails h
  unfold DefaultWalletSigner.signAction DefaultWalletSigner.recall
  rw [hnone]
  dsimp only
  unfold wp at hwp
  split at hwp
  · exact hwp.elim
  · rename_i e _ herror
    exact ⟨e, by rw [run_bind_of_error herror]⟩

/-! ## Mishaps -/

/-- What can come between createAction and the signAction that counts: the process loses its memory,
or an attempt fails. -/
inductive Mishap where
  | restart
  | attempt (services : Services) (backend : SigningBackend) (random : String)
      (args : ValidSignActionArgs)

def Mishap.apply (kit : Toolkit) (auth : String) (w : DefaultWalletSigner) :
    Mishap → DefaultWalletSigner
  | .restart => { w with pendingSignActions := [] }
  | .attempt services backend random args =>
    (w.signAction kit services backend auth random args).2

/-- An attempt is made with the reference of the action, and it fails. -/
def Mishap.Happens (kit : Toolkit) (auth reference : String) (w : DefaultWalletSigner) :
    Mishap → Prop
  | .restart => True
  | .attempt services backend random args => args.reference = reference ∧
    (w.signAction kit services backend auth random args).1.isOk = false

/-- The signer from a given state on. -/
def mishaps (kit : Toolkit) (auth reference : String) (w : DefaultWalletSigner) :
    System DefaultWalletSigner Mishap where
  init := w
  Enabled := fun w m => m.Happens kit auth reference w
  next := fun m w => m.apply kit auth w

/-- The action cannot be signed any more. -/
structure Stuck (reference : String) (w : DefaultWalletSigner) : Prop where
  unrecoverable : Unrecoverable reference w.store.toTables
  forgotten : w.pending reference = none

theorem Mishap.stuck {m : Mishap} {reference : String} {w : DefaultWalletSigner}
    (hm : m.Happens kit auth reference w) (h : Unrecoverable reference w.store.toTables) :
    Stuck reference (m.apply kit auth w) := by
  cases m with
  | restart => exact ⟨h, rfl⟩
  | attempt services backend random args =>
    obtain ⟨rfl, hfail⟩ := hm
    refine ⟨?_, pending_forget w args.reference⟩
    cases hr : w.signAction kit services backend auth random args with
    | mk result w' =>
      rw [hr] at hfail
      cases result with
      | ok r => cases hfail
      | error e =>
        simp only [Mishap.apply, hr]
        exact signAction_error_unrecoverable h hr

/-- One mishap is enough. -/
theorem stuck_after {reference : String} {w₀ w : DefaultWalletSigner} {m : Mishap} {ms : List Mishap}
    (hallows : (mishaps kit auth reference w₀).Allows (fun _ _ => True) w (m :: ms))
    (h : Unrecoverable reference w.store.toTables) :
    Stuck reference ((mishaps kit auth reference w₀).after w (m :: ms)) := by
  induction ms generalizing w m with
  | nil => exact Mishap.stuck hallows.1.1 h
  | cons m' ms ih =>
    exact ih hallows.2 (Mishap.stuck hallows.1.1 h).unrecoverable

/-! ## After createAction -/

/-- The row of a new action holds no transaction. -/
theorem createAction_unrecoverable {sdk : Sdk} {entropy : Entropy} {args : StorageCreateActionArgs}
    {dcr : StorageCreateActionResult}
    (hrun : (createAction sdk entropy auth args).run Stmt.exec s = (.ok dcr, s')) :
    dcr.reference = entropy.reference ∧
      ∀ t ∈ s'.transactions, t.reference = entropy.reference → t.rawTx = none := by
  have hwp : wp Stmt.exec (createAction sdk entropy auth args) (fun r s' =>
      r.reference = entropy.reference ∧
        ∀ t ∈ s'.transactions, t.reference = entropy.reference → t.rawTx = none) (fun _ => True) s := by
    refine wp_createAction (fun userId id r s' href hreports => ⟨href, fun t ht htref => ?_⟩)
      fun _ _ => trivial
    obtain ⟨added, hadded, hnew⟩ := hreports.created.added
    have heq : t = added := s'.unique.transactions.eq ht hadded (htref.trans hnew.reference.symm)
    rw [heq]
    exact hnew.rawTx
  have h := wp_ok hwp hrun
  exact h

theorem wp_deferAction {args : ValidCreateActionArgs} {dcr : StorageCreateActionResult}
    {tx : SdkTransaction} {amount : UInt64} {pdi : List PendingStorageInput}
    (h : ∀ t ∈ s.transactions, t.reference = dcr.reference → t.rawTx = none) :
    wp Stmt.exec (deferAction kit args dcr tx amount pdi)
      (fun r s' => (∃ signable, r.1.signableTransaction = some signable ∧
        signable.reference = dcr.reference) ∧ Unrecoverable dcr.reference s'.toTables)
      (fun s' => s' = s) s := by
  unfold deferAction
  rw [wp_bind]
  refine wp_ofExcept (fun bytes _ => ?_) fun _ _ => rfl
  dsimp only
  rw [wp_bind]
  refine wp_ofExcept (fun txid _ => ?_) fun _ _ => rfl
  rw [wp_bind]
  refine wp_ofExcept (fun beef _ => ?_) fun _ _ => rfl
  rw [wp_bind]
  refine wp_ofExcept (fun signable _ => ?_) fun _ _ => rfl
  rw [wp_bind, wp_ask]
  cases s.transactions.first (·.reference == dcr.reference) with
  | none => exact ⟨⟨_, rfl, rfl⟩, fun t ht href => .inl (h t ht href)⟩
  | some row =>
    rw [wp_bind]
    refine wp_exec'_plain (by exact rfl) fun s' hs' => ⟨⟨_, rfl, rfl⟩, fun t ht href => ?_⟩
    rw [hs', mem_updateTransaction] at ht
    obtain ⟨t₀, ht₀, rfl⟩ := ht
    by_cases hid : t₀.transactionId = row.transactionId
    · rw [if_pos hid] at href ⊢
      exact .inl (h t₀ ht₀ href)
    · rw [if_neg hid] at href ⊢
      exact .inl (h t₀ ht₀ href)

/-- A createAction that returned a signable transaction has stored none. -/
theorem signable_unrecoverable {entropy : Entropy} {args : ValidCreateActionArgs}
    {w w₁ : DefaultWalletSigner} {result : SignerCreateActionResult}
    {signable : SignableTransactionRef}
    (hcreate : w.createAction kit services backend entropy auth random args = (.ok result, w₁))
    (hsignable : result.signableTransaction = some signable) :
    Unrecoverable signable.reference w₁.store.toTables := by
  have hwp : wp Stmt.exec (signerCreateAction kit services backend entropy auth random args)
      (fun r s' => ∀ signable, r.1.signableTransaction = some signable →
        Unrecoverable signable.reference s'.toTables) (fun _ => True) w.store := by
    unfold signerCreateAction
    rw [wp_bind]
    unfold wp
    split
    · rename_i dcr s' hrun
      obtain ⟨href, hraw⟩ := createAction_unrecoverable hrun
      rw [← href] at hraw
      show wp Stmt.exec _ _ _ _
      unfold finishCreateAction
      rw [wp_bind, wp_ask, wp_bind]
      refine wp_ofExcept (fun inputBeef _ => ?_) fun _ _ => trivial
      dsimp only
      rw [wp_bind]
      refine wp_ofExcept (fun built _ => ?_) fun _ _ => trivial
      obtain ⟨tx, amount, pdi⟩ := built
      refine wp_ite (fun _ => ?_) fun _ => ?_
      · refine wp_mono (wp_deferAction (by exact hraw)) ?_ fun _ _ => trivial
        rintro r s' ⟨⟨signable, hsome, hreference⟩, hnone⟩ other hother
        rw [hsome] at hother
        cases hother
        rw [hreference]
        exact hnone
      · unfold completeAction
        rw [wp_bind]
        refine wp_ofExcept (fun signed _ => ?_) fun _ _ => trivial
        rw [wp_bind]
        refine wp_mono wp_trivial (fun r s' _ => ?_) fun _ h => h
        intro signable hsome
        cases hsome
    · trivial
  unfold DefaultWalletSigner.createAction at hcreate
  split at hcreate
  · rename_i hrun
    cases hcreate
    exact wp_ok hwp hrun signable hsignable
  · rename_i hrun
    cases hcreate
    exact wp_ok hwp hrun signable hsignable
  · cases hcreate

/-! ## The signAction that counts -/

/-- What a signAction signs and how it has it processed: the signed transaction, the arguments of
processAction and with them whether it broadcasts. -/
def DefaultWalletSigner.plan (w : DefaultWalletSigner) (kit : Toolkit) (backend : SigningBackend)
    (auth : String) (args : ValidSignActionArgs) : Except WalletError (Signed × StorageProcessActionArgs) :=
  match (w.recall kit auth args.reference).run Stmt.exec w.store with
  | (.ok pending, _) =>
    (signPendingAction kit backend args pending).map fun signed =>
      (signed, signProcessArgs args pending signed)
  | (.error e, _) => .error e

theorem signAction_ok_plan {w : DefaultWalletSigner} {args : ValidSignActionArgs}
    {result : SignerSignActionResult}
    (h : (w.signAction kit services backend auth random args).1 = .ok result) :
    ∃ plan, w.plan kit backend auth args = .ok plan := by
  unfold DefaultWalletSigner.signAction at h
  dsimp only at h
  generalize hrun : (do
    let pending ← w.recall kit auth args.reference
    signerSignAction kit services backend auth random args pending : StorageProg _).run Stmt.exec
      w.store = outcome at h
  obtain ⟨r, s'⟩ := outcome
  cases h
  obtain ⟨pending, s₁, hrecall, hsign⟩ := run_bind_ok hrun
  unfold signerSignAction at hsign
  obtain ⟨signed, s₂, hsigned, -⟩ := run_bind_ok hsign
  rw [run_ofExcept] at hsigned
  have hplan : signPendingAction kit backend args pending = .ok signed := (Prod.mk.inj hsigned).1
  refine ⟨(signed, signProcessArgs args pending signed), ?_⟩
  unfold DefaultWalletSigner.plan
  rw [hrecall]
  simp only [hplan, Except.map]

/-- The signAction succeeds in the second state, and signs and processes as it would in the first. -/
def SignsAlike (kit : Toolkit) (services : Services) (backend : SigningBackend) (auth random : String)
    (args : ValidSignActionArgs) (w₁ w₂ : DefaultWalletSigner) : Prop :=
  (∃ result, (w₂.signAction kit services backend auth random args).1 = .ok result) ∧
    ∃ plan, w₁.plan kit backend auth args = .ok plan ∧ w₂.plan kit backend auth args = .ok plan

/-- After createAction returned a signable transaction, a signAction that would have succeeded as the
first attempt still does, and does the same, exactly when nothing went wrong in between. -/
theorem deferred_signing_survives (entropy : Entropy) (args : ValidCreateActionArgs)
    (w w₁ : DefaultWalletSigner) (result : SignerCreateActionResult)
    (signable : SignableTransactionRef)
    (hcreate : w.createAction kit services backend entropy auth random args = (.ok result, w₁))
    (hsignable : result.signableTransaction = some signable) (ms : List Mishap)
    (hms : (mishaps kit auth signable.reference w₁).Allows (fun _ _ => True) w₁ ms)
    (services' : Services) (backend' : SigningBackend) (random' : String)
    (signArgs : ValidSignActionArgs) (hreference : signArgs.reference = signable.reference)
    (hvalid : ∃ r, (w₁.signAction kit services' backend' auth random' signArgs).1 = .ok r) :
    SignsAlike kit services' backend' auth random' signArgs w₁
      ((mishaps kit auth signable.reference w₁).after w₁ ms) ↔ ms = [] := by
  have hraw := signable_unrecoverable hcreate hsignable
  constructor
  · rintro ⟨⟨r, hok⟩, -⟩
    cases ms with
    | nil => rfl
    | cons m ms =>
      have hstuck := stuck_after hms hraw
      rw [← hreference] at hstuck
      rw [← hreference] at hok
      obtain ⟨e, he⟩ : ∃ e, (((mishaps kit auth signArgs.reference w₁).after w₁ (m :: ms)).signAction
          kit services' backend' auth random' signArgs).1 = .error e :=
        signAction_fails hstuck.unrecoverable hstuck.forgotten
      rw [he] at hok
      cases hok
  · rintro rfl
    obtain ⟨r, hr⟩ := hvalid
    obtain ⟨plan, hplan⟩ := signAction_ok_plan hr
    exact ⟨⟨r, hr⟩, plan, hplan, hplan⟩

/-- The payer after the deferred payment was planned. -/
def deferredPayer : DefaultWalletSigner :=
  (Sample.create { Sample.payArgs with isSignAction := true }).2

theorem deferredPayer_signs :
    (deferredPayer.signAction Sample.kit (Sample.answering "success") Sample.backend Sample.alice ""
      Sample.signArgs).1.isOk = true ∧
    ((Sample.create { Sample.payArgs with isSignAction := true }).1.toOption.bind
      fun r => r.signableTransaction.map (·.reference)) = some Sample.signArgs.reference := by
  decide +kernel

/-- Signed at once, the payment goes through as the theorem says. -/
theorem deferred_signing_survives_payment :
    SignsAlike Sample.kit (Sample.answering "success") Sample.backend Sample.alice "" Sample.signArgs
      deferredPayer deferredPayer := by
  have hresult : ∃ result, (Sample.create { Sample.payArgs with isSignAction := true }).1 = .ok result ∧
      ∃ signable, result.signableTransaction = some signable ∧
        Sample.signArgs.reference = signable.reference := by
    obtain ⟨result, hresult, hsignable⟩ := Option.bind_eq_some_iff.mp deferredPayer_signs.2
    obtain ⟨signable, hsignable, hreference⟩ := Option.map_eq_some_iff.mp hsignable
    exact ⟨result, toOption_eq_some.mp hresult, signable, hsignable, hreference.symm⟩
  have hvalid : ∃ r, (deferredPayer.signAction Sample.kit (Sample.answering "success") Sample.backend
      Sample.alice "" Sample.signArgs).1 = .ok r := by
    have hok := deferredPayer_signs.1
    cases hr : (deferredPayer.signAction Sample.kit (Sample.answering "success") Sample.backend
      Sample.alice "" Sample.signArgs).1 with
    | ok r => exact ⟨r, rfl⟩
    | error e =>
      rw [hr] at hok
      cases hok
  obtain ⟨result, hok, signable, hsignable, hreference⟩ := hresult
  have hcreate : Sample.create { Sample.payArgs with isSignAction := true } =
      (.ok result, deferredPayer) := Prod.ext hok (by simp only [deferredPayer])
  unfold Sample.create at hcreate
  exact (deferred_signing_survives Sample.entropy { Sample.payArgs with isSignAction := true }
    Sample.payer deferredPayer result signable hcreate hsignable [] trivial
    (Sample.answering "success") Sample.backend "" Sample.signArgs hreference hvalid).mpr rfl

/-- An attempt with a spend for an input that does not exist. -/
def badSpend : Mishap :=
  .attempt (Sample.answering "success") Sample.backend ""
    { Sample.signArgs with spends := [(7, { unlockingScript := [81] })] }

theorem deferredPayer_mishaps :
    (deferredPayer.signAction Sample.kit (Sample.answering "success") Sample.backend Sample.alice ""
      { Sample.signArgs with spends := [(7, { unlockingScript := [81] })] }).1.isOk = false ∧
    ∀ m ∈ [badSpend, .restart], ((m.apply Sample.kit Sample.alice deferredPayer).signAction
      Sample.kit (Sample.answering "success") Sample.backend Sample.alice "" Sample.signArgs).1.isOk =
        false := by
  decide +kernel

/-- One unusable spend, or one restart, and the payment can never be signed: the same call that
would have succeeded fails. -/
theorem deferred_signing_lost :
    (deferredPayer.signAction Sample.kit (Sample.answering "success") Sample.backend Sample.alice ""
      Sample.signArgs).1.isOk = true ∧
    badSpend.Happens Sample.kit Sample.alice Sample.signArgs.reference deferredPayer ∧
    ∀ m ∈ [badSpend, .restart],
      ¬ SignsAlike Sample.kit (Sample.answering "success") Sample.backend Sample.alice ""
        Sample.signArgs deferredPayer (m.apply Sample.kit Sample.alice deferredPayer) := by
  obtain ⟨hbad, hfails⟩ := deferredPayer_mishaps
  refine ⟨deferredPayer_signs.1, ⟨rfl, hbad⟩, fun m hm halike => ?_⟩
  obtain ⟨⟨r, hr⟩, -⟩ := halike
  have hfail := hfails m hm
  rw [hr] at hfail
  cases hfail

end WalletToolbox.Signer
