import WalletToolbox.Laws.FailAbandoned
import WalletToolbox.Laws.SignAction

/-! # A createAction that fails after storage has planned it

The claims of the plan are committed before the signer hydrates, builds, signs and verifies, and
nothing takes them back when one of these steps fails.
TaskFailAbandoned cannot either: it skips rows without a txid, and only processAction gives an
immediate action its txid. -/

namespace WalletToolbox.Signer

open WalletToolbox.Lib WalletToolbox.Storage WalletToolbox.Monitor
open WalletToolbox.Lib.Prog hiding pure exec

variable {kit : Toolkit} {services : Services} {backend : SigningBackend} {auth random : String}
  {s s₁ s₂ : Store} {args : ValidCreateActionArgs} {dcr : StorageCreateActionResult} {id : Nat}

/-! ## The action that was planned -/

/-- The row of the plan and the outputs that it claims. -/
structure Planned (s₁ : Store) (reference : String) (id : Nat) : Prop where
  row : ∀ t ∈ s₁.transactions, t.transactionId = id ↔ t.reference = reference
  noTxid : ∀ t ∈ s₁.transactions, t.transactionId = id → t.txid = none
  noRawTx : ∀ t ∈ s₁.transactions, t.reference = reference → t.rawTx = none
  foreign : ∀ o ∈ s₁.outputs, o.spentBy = some id → o.transactionId ≠ id
  claimed : ∀ o ∈ s₁.outputs, o.spentBy = some id → o.spendable = false

theorem createAction_planned {sdk : Sdk} {entropy : Entropy} {args : StorageCreateActionArgs}
    (hrun : (createAction sdk entropy auth args).run Stmt.exec s = (.ok dcr, s₁)) {action : Transaction}
    (hmem : action ∈ s₁.transactions) (href : action.reference = dcr.reference) :
    Planned s₁ dcr.reference action.transactionId := by
  have hwp : wp Stmt.exec (createAction sdk entropy auth args) (fun r s' =>
      r.reference = entropy.reference ∧
        ∃ userId id, Created s s' userId id entropy.reference) (fun _ => True) s :=
    wp_createAction (fun userId id r s' href hreports => ⟨href, userId, id, hreports.created⟩)
      fun _ _ => trivial
  obtain ⟨hreference, userId, id, hcreated⟩ := wp_ok hwp hrun
  obtain ⟨added, hadded, hnew⟩ := hcreated.added
  have haction : action = added :=
    s₁.unique.transactions.eq hmem hadded (href.trans (hreference.trans hnew.reference.symm))
  have hid : action.transactionId = id := by rw [haction, hnew.transactionId]
  have hrow : ∀ t ∈ s₁.transactions, t.transactionId = id → t = added := fun t ht htid =>
    Table.eq_of_key_eq ht hadded (htid.trans hnew.transactionId.symm)
  -- a claim of the new row is one that the call made, on a row of another transaction
  have hclaim : ∀ o ∈ s₁.outputs, o.spentBy = some id →
      ∃ o₀ ∈ s.outputs, ∃ now, o = claim now id o₀ := by
    intro o ho hspent
    rcases hcreated.outputs o ho with hold | ⟨o₀, ho₀, -, now, rfl⟩ | hplanned
    · obtain ⟨t, ht, htid⟩ := s.foreign.outputSpentBy o hold id hspent
      exact absurd htid (hcreated.fresh t ht)
    · exact ⟨o₀, ho₀, now, rfl⟩
    · rw [hplanned.spentBy] at hspent
      cases hspent
  rw [hid]
  have hnamed : ∀ t ∈ s₁.transactions, t.reference = dcr.reference → t = added := fun t ht htref =>
    s₁.unique.transactions.eq ht hadded (htref.trans (hreference.trans hnew.reference.symm))
  refine ⟨fun t ht => ⟨fun htid => ?_, fun htref => ?_⟩, fun t ht htid => ?_, fun t ht htref => ?_,
    fun o ho hspent => ?_, fun o ho hspent => ?_⟩
  · rw [hrow t ht htid, hnew.reference, hreference]
  · rw [hnamed t ht htref, hnew.transactionId]
  · rw [hrow t ht htid, hnew.txid]
  · rw [hnamed t ht htref, hnew.rawTx]
  · obtain ⟨o₀, ho₀, now, rfl⟩ := hclaim o ho hspent
    obtain ⟨t, ht, htid⟩ := s.foreign.outputTransaction o₀ ho₀
    exact fun heq => hcreated.fresh t ht (htid.trans heq)
  · obtain ⟨o₀, ho₀, now, rfl⟩ := hclaim o ho hspent
    rfl

/-! ## What the failed call leaves -/

/-- The outputs that the plan claims are still there, claimed. -/
def ClaimsKept (s₁ : Store) (id : Nat) (d : Tables) : Prop :=
  ∀ o ∈ s₁.outputs, o.spentBy = some id → o ∈ d.outputs

/-- The row has its txid, or has none. -/
def HasTxid (id : Nat) (has : Bool) (d : Tables) : Prop :=
  ∀ t ∈ d.transactions, t.transactionId = id → t.txid.isSome = has

theorem HasTxid.scheduled {d d' : Tables} {has : Bool} {userId : Nat} {txids : List String}
    (h : HasTxid id has d) (hbatch : Scheduled d userId txids d') : HasTxid id has d' := by
  intro t' ht' hid
  obtain ⟨t, ht, rfl | ⟨-, -, stamp, rfl⟩⟩ := hbatch.transactions t' ht'
  · exact h t' ht hid
  · exact h t ht hid

/-- processAction gives the row its txid and leaves the claims alone. -/
theorem wp_processAction_planned {pargs : StorageProcessActionArgs} (h : Planned s₁ dcr.reference id)
    (href : pargs.reference = some dcr.reference) :
    wp Stmt.exec (processAction auth pargs random)
      (fun _ s' => ClaimsKept s₁ id s'.toTables ∧ HasTxid id pargs.isNewTx s'.toTables)
      (fun s' => ClaimsKept s₁ id s'.toTables ∧ HasTxid id false s'.toTables) s₁ := by
  have hnone : HasTxid id false s₁.toTables := fun t ht hid => by rw [h.noTxid t ht hid]; rfl
  refine wp_processAction_result (fun s' hcore => ⟨fun o ho _ => ?_, fun t ht hid => ?_⟩)
    (fun hnot userId s' s'' r hcore hs'' => ?_)
    fun hnew userId s' hcore t txid rawTx status hp _ s'' r hs'' => ?_
  · rw [hcore.outputs]
    exact ho
  · rw [hcore.transactions] at ht
    exact hnone t ht hid
  · have hbatch := scheduleAll_scheduled s'.toTables userId random pargs.sendWith
    rw [← hs''] at hbatch
    refine ⟨fun o ho _ => ?_, ?_⟩
    · rw [hbatch.outputs, hcore.outputs]
      exact ho
    · rw [hnot]
      refine HasTxid.scheduled (fun t ht hid => ?_) hbatch
      rw [hcore.transactions] at ht
      exact hnone t ht hid
  · have hbatch := scheduleAll_scheduled (s'.toTables.commitSigned userId t txid rawTx status) userId
      random (scheduled pargs txid)
    rw [← hs''] at hbatch
    -- the row that is committed is the row of the plan
    obtain ⟨htmem, -, htref⟩ := hp.mem
    rw [hcore.transactions] at htmem
    have htid : t.transactionId = id :=
      (h.row t htmem).mpr (Option.some.inj (htref.symm.trans href))
    refine ⟨fun o ho hspent => ?_, ?_⟩
    · rw [hbatch.outputs, mem_commitSigned_outputs, hcore.outputs]
      have hforeign : (o.transactionId == t.transactionId) = false := by
        rw [htid]
        exact beq_eq_false_iff_ne.mpr (h.foreign o ho hspent)
      exact ⟨o, ho, by rw [hforeign, Bool.and_false]; rfl⟩
    · rw [hnew]
      refine HasTxid.scheduled (fun t' ht' hid => ?_) hbatch
      obtain ⟨t₀, -, rfl⟩ := mem_commitSigned_transactions.mp ht'
      split at hid
      · rename_i hsame
        rw [if_pos hsame]
        rfl
      · rename_i hdiffers
        exact absurd (hid.trans htid.symm) hdiffers

/-- processAction has committed the new transaction when the call fails: every step before it
succeeded, and so did it. -/
def CommittedBefore (kit : Toolkit) (backend : SigningBackend) (auth random : String)
    (args : ValidCreateActionArgs) (dcr : StorageCreateActionResult) (s₁ : Store) : Prop :=
  args.isSignAction = false ∧ args.isNewTx = true ∧
    ∃ inputBeef tx amount pdi signed result s',
      kit.mergeInputBeef s₁ dcr = .ok inputBeef ∧
      backend.build kit { dcr with inputBeef } args = .ok (tx, amount, pdi) ∧
      signAndVerify kit backend tx pdi [] inputBeef = .ok signed ∧
      (processAction auth (createProcessArgs args dcr.reference signed) random).run Stmt.exec s₁ =
        (.ok result, s')

/-- What a call leaves that fails after the plan. -/
def FailedAfterPlan (kit : Toolkit) (backend : SigningBackend) (auth random : String)
    (args : ValidCreateActionArgs) (dcr : StorageCreateActionResult) (s₁ : Store) (id : Nat)
    (d : Tables) : Prop :=
  ClaimsKept s₁ id d ∧
    ((HasTxid id true d ∧ CommittedBefore kit backend auth random args dcr s₁) ∨
      (HasTxid id false d ∧ ¬ CommittedBefore kit backend auth random args dcr s₁))

/-- The immediate branch. -/
theorem wp_completeAction (h : Planned s₁ dcr.reference id) {inputBeef : Option Bytes}
    {tx : SdkTransaction} {amount : UInt64} {pdi : List PendingStorageInput}
    (hmerge : kit.mergeInputBeef s₁ dcr = .ok inputBeef)
    (hbuild : backend.build kit { dcr with inputBeef } args = .ok (tx, amount, pdi))
    (hnow : args.isSignAction = false) :
    wp Stmt.exec (completeAction kit services backend auth random args { dcr with inputBeef } tx pdi)
      (fun _ _ => True)
      (fun s₂ => FailedAfterPlan kit backend auth random args dcr s₁ id s₂.toTables) s₁ := by
  have hnone : HasTxid id false s₁.toTables := fun t ht hid => by rw [h.noTxid t ht hid]; rfl
  -- what the condition says about the steps that are known
  have hcommitted : CommittedBefore kit backend auth random args dcr s₁ ↔ args.isNewTx = true ∧
      ∃ signed result s', signAndVerify kit backend tx pdi [] inputBeef = .ok signed ∧
        (processAction auth (createProcessArgs args dcr.reference signed) random).run Stmt.exec s₁ =
          (.ok result, s') := by
    simp only [CommittedBefore, hnow, hmerge, true_and, Except.ok.injEq]
    constructor
    · rintro ⟨hnew, _, _, _, _, signed, result, s', rfl, hbuilt, hrest⟩
      rw [hbuild] at hbuilt
      cases hbuilt
      exact ⟨hnew, signed, result, s', hrest⟩
    · rintro ⟨hnew, signed, result, s', hrest⟩
      exact ⟨hnew, inputBeef, tx, amount, pdi, signed, result, s', rfl, hbuild, hrest⟩
  unfold completeAction
  rw [wp_bind]
  refine wp_ofExcept (fun signed hsigned => ?_) fun e he => ⟨fun o ho _ => ho, .inr ⟨hnone, ?_⟩⟩
  · have hprocess : wp Stmt.exec (processAction auth (createProcessArgs args dcr.reference signed) random)
        (fun _ s' => ClaimsKept s₁ id s'.toTables ∧ HasTxid id args.isNewTx s'.toTables)
        (fun s' => ClaimsKept s₁ id s'.toTables ∧ HasTxid id false s'.toTables) s₁ :=
      wp_processAction_planned h rfl
    rw [wp_bind]
    unfold processAndBroadcast
    rw [wp_bind]
    refine wp_of_run (fun result s' hrun => ?_) fun e s' hrun => ?_
    · obtain ⟨hkept, htxid⟩ := wp_ok hprocess hrun
      have hfailed : FailedAfterPlan kit backend auth random args dcr s₁ id s'.toTables := by
        refine ⟨hkept, ?_⟩
        cases hnew : args.isNewTx with
        | true => exact .inl ⟨hnew ▸ htxid, hcommitted.mpr ⟨hnew, signed, result, s', hsigned, hrun⟩⟩
        | false =>
          refine .inr ⟨hnew ▸ htxid, fun hc => ?_⟩
          rw [(hcommitted.mp hc).1] at hnew
          cases hnew
      rw [wp_bind]
      unfold broadcastSigned
      refine wp_ite (fun _ => ?_) fun _ => trivial
      rw [wp_bind]
      exact wp_ofExcept (fun _ _ => wp_applyBroadcast_total) fun _ _ => hfailed
    · obtain ⟨hkept, htxid⟩ := wp_error hprocess hrun
      refine ⟨hkept, .inr ⟨htxid, fun hc => ?_⟩⟩
      obtain ⟨-, signed', result, s'', hsigned', hrun'⟩ := hcommitted.mp hc
      rw [hsigned] at hsigned'
      cases hsigned'
      rw [hrun] at hrun'
      cases hrun'
  · intro hc
    obtain ⟨-, signed, -, -, hsigned, -⟩ := hcommitted.mp hc
    rw [he] at hsigned
    cases hsigned

/-- A call that fails after the plan. -/
theorem wp_finishCreateAction (h : Planned s₁ dcr.reference id) :
    wp Stmt.exec (finishCreateAction kit services backend auth random args dcr) (fun _ _ => True)
      (fun s₂ => FailedAfterPlan kit backend auth random args dcr s₁ id s₂.toTables) s₁ := by
  have hfailed : ¬ CommittedBefore kit backend auth random args dcr s₁ →
      FailedAfterPlan kit backend auth random args dcr s₁ id s₁.toTables := fun hnot =>
    ⟨fun o ho _ => ho, .inr ⟨fun t ht hid => by rw [h.noTxid t ht hid]; rfl, hnot⟩⟩
  unfold finishCreateAction
  rw [wp_bind, wp_ask, wp_bind]
  refine wp_ofExcept (fun inputBeef hmerge => ?_) fun e he => hfailed ?_
  · dsimp only
    rw [wp_bind]
    refine wp_ofExcept (fun built hbuild => ?_) fun e he => hfailed ?_
    · obtain ⟨tx, amount, pdi⟩ := built
      refine wp_ite (fun hdeferred => ?_) fun hnow => ?_
      · refine wp_mono (wp_deferAction (by exact h.noRawTx)) (fun _ _ _ => trivial) ?_
        rintro _ rfl
        exact hfailed fun hc => absurd (hc.1.symm.trans hdeferred) nofun
      · exact wp_completeAction h hmerge hbuild (by simpa using hnow)
    · rintro ⟨-, -, inputBeef', tx, amount, pdi, -, -, -, hmerge', hbuild, -⟩
      rw [hmerge] at hmerge'
      cases hmerge'
      rw [he] at hbuild
      cases hbuild
  · rintro ⟨-, -, inputBeef, -, -, -, -, -, -, hmerge, -⟩
    rw [he] at hmerge
    cases hmerge

/-! ## The later run of TaskFailAbandoned -/

/-- The store after a run of the task at a later time. -/
def afterAbandonedRun (s : Store) (now : Nat) (abandonedMsecs : UInt64) : Store :=
  leaves (s.tick now) (failAbandoned abandonedMsecs)

/-- The pages that the run reads. -/
def runReads (s : Store) (now : Nat) (abandonedMsecs : UInt64) : List Transaction :=
  pagesRead ((now : Int) - asI64 abandonedMsecs.toNat) (s.transactions.rows.length + 1) 0
    (s.tick now).toTables

theorem afterAbandonedRun_eq (s : Store) (now : Nat) (abandonedMsecs : UInt64) :
    (afterAbandonedRun s now abandonedMsecs).toTables =
      failedPages ((now : Int) - asI64 abandonedMsecs.toNat) (s.transactions.rows.length + 1) 0
        (s.tick now).toTables := by
  have hwp : wp Stmt.exec (failAbandoned abandonedMsecs) (fun _ s' => s'.toTables =
      failedPages ((now : Int) - asI64 abandonedMsecs.toNat) (s.transactions.rows.length + 1) 0
        (s.tick now).toTables) (fun s' => s'.toTables =
      failedPages ((now : Int) - asI64 abandonedMsecs.toNat) (s.transactions.rows.length + 1) 0
        (s.tick now).toTables) (s.tick now) := wp_failAbandoned fun s' hs' => hs'
  exact wp_store.mp hwp

theorem not_regained {d : Tables} {o : Output} (ho : o ∈ d.outputs) (hclaimed : o.spendable = false) :
    ¬ Regained d o.outputId := by
  rintro ⟨o', ho', hid, hspendable⟩
  rw [Table.eq_of_key_eq ho' ho hid, hclaimed] at hspendable
  cases hspendable

/-- A createAction that fails after storage has planned it: the outputs that it claimed are spendable
again, at once or after a later run of TaskFailAbandoned, exactly when there are none, or when
processAction had committed the transaction and the run comes to its row. -/
theorem failed_create_recovers (kit : Toolkit) (services : Services) (backend : SigningBackend)
    (entropy : Entropy) (auth random : String) (args : ValidCreateActionArgs) (s s₁ s₂ : Store)
    (dcr : StorageCreateActionResult) (e : WalletError)
    (hcreate : (createAction kit.sdk entropy auth (toStorageArgs args)).run Stmt.exec s = (.ok dcr, s₁))
    (hfail : (signerCreateAction kit services backend entropy auth random args).run Stmt.exec s =
      (.error e, s₂))
    (action : Transaction) (haction : action ∈ s₁.transactions)
    (hreference : action.reference = dcr.reference) (abandonedMsecs : UInt64) (now : Nat)
    (hlater : ∀ t ∈ s₂.transactions, t.transactionId = action.transactionId →
      (t.updatedAt : Int) < (now : Int) - asI64 abandonedMsecs.toNat) :
    (∀ o ∈ s₁.outputs, o.spentBy = some action.transactionId →
      Regained s₂.toTables o.outputId ∨
        Regained (afterAbandonedRun s₂ now abandonedMsecs).toTables o.outputId) ↔
    (∀ o ∈ s₁.outputs, o.spentBy ≠ some action.transactionId) ∨
      (CommittedBefore kit backend auth random args dcr s₁ ∧
        ∃ t ∈ runReads s₂ now abandonedMsecs, t.transactionId = action.transactionId) := by
  have hplanned := createAction_planned hcreate haction hreference
  have hfinish : (finishCreateAction kit services backend auth random args dcr).run Stmt.exec s₁ =
      (.error e, s₂) := by
    rw [← hfail]
    exact (run_bind_of_ok hcreate).symm
  obtain ⟨hkept, houtcome⟩ := wp_error (wp_finishCreateAction hplanned) hfinish
  rw [afterAbandonedRun_eq]
  constructor
  · intro hall
    by_contra hcond
    rw [not_or, not_and] at hcond
    obtain ⟨hsome, hnot⟩ := hcond
    simp only [ne_eq, not_forall, not_not] at hsome
    obtain ⟨o, ho, hspent⟩ := hsome
    have hclaimed := hplanned.claimed o ho hspent
    have hmem : o ∈ (s₂.tick now).outputs := hkept o ho hspent
    rcases hall o ho hspent with hregained | hregained
    · exact not_regained (hkept o ho hspent) hclaimed hregained
    · refine not_regained (claimed_failedPages hmem fun t ht => ?_) hclaimed hregained
      by_cases hid : t.transactionId = action.transactionId
      · refine .inl ?_
        rcases houtcome with ⟨-, hcommitted⟩ | ⟨hnone, -⟩
        · exact absurd ⟨t, ht, hid⟩ (hnot hcommitted)
        · have htxid := hnone t (mem_pagesRead ht).1 hid
          simpa using htxid
      · exact .inr fun heq => hid (Option.some.inj (heq.symm.trans hspent))
  · rintro (hnone | ⟨hcommitted, t, ht, hid⟩) o ho hspent
    · exact absurd hspent (hnone o ho)
    · refine .inr ?_
      have hrow : t ∈ s₂.transactions := (mem_pagesRead ht).1
      have htxid : t.txid.isSome = true := by
        rcases houtcome with ⟨hhas, -⟩ | ⟨-, hnot⟩
        · exact hhas t hrow hid
        · exact absurd hcommitted hnot
      refine regained_failedPages ht (decide_eq_true (hlater t hrow hid)) ?_ (hid ▸ hspent)
        (hkept o ho hspent)
      rw [← Option.isSome_iff_ne_none]
      exact htxid

/-- The store when the payment is planned. -/
def plannedPayment : Except WalletError StorageCreateActionResult × Store :=
  (createAction Sample.sdk Sample.entropy Sample.alice (toStorageArgs Sample.payArgs)).run Stmt.exec
    Sample.payer.store

/-- The payer's immediate call. -/
def payNow (kit : Toolkit) (backend : SigningBackend) :
    Except WalletError (SignerCreateActionResult × Option PendingSignAction) × Store :=
  (signerCreateAction kit (Sample.answering "success") backend Sample.entropy Sample.alice ""
    Sample.payArgs).run Stmt.exec Sample.payer.store

/-- A signer that cannot serialize for the broadcast. -/
def muteKit : Toolkit :=
  { Sample.kit with
    serializeBeefForBroadcast := fun _ =>
      .error (.internal "Failed to serialize broadcast BEEF: unknown bytes") }

theorem plannedPayment_run :
    plannedPayment.1.isOk = true ∧ ∃ t ∈ plannedPayment.2.transactions,
      t.transactionId = 2 ∧ t.reference = Sample.entropy.reference := by
  decide +kernel

theorem mutedPayment_run :
    (payNow muteKit Sample.backend).1.isOk = false ∧
      (∀ t ∈ (payNow muteKit Sample.backend).2.transactions, t.transactionId = 2 →
        (t.updatedAt : Int) < (300001 : Int) - asI64 (300000 : UInt64).toNat) ∧
      (∃ o ∈ plannedPayment.2.outputs, o.spentBy = some 2 ∧
        Regained (afterAbandonedRun (payNow muteKit Sample.backend).2 300001 300000).toTables
          o.outputId) ∧
      ∀ o ∈ plannedPayment.2.outputs, o.spentBy = some 2 →
        Regained (payNow muteKit Sample.backend).2.toTables o.outputId ∨
          Regained (afterAbandonedRun (payNow muteKit Sample.backend).2 300001 300000).toTables
            o.outputId := by
  decide +kernel

/-- The call fails after the commit, and a run five minutes later frees the funding: the committed
case of the equivalence. -/
theorem failed_create_recovers_committed :
    ∃ dcr, plannedPayment = (.ok dcr, plannedPayment.2) ∧
      (∃ o ∈ plannedPayment.2.outputs, o.spentBy = some 2 ∧
        Regained (afterAbandonedRun (payNow muteKit Sample.backend).2 300001 300000).toTables
          o.outputId) ∧
      CommittedBefore muteKit Sample.backend Sample.alice "" Sample.payArgs dcr plannedPayment.2 := by
  obtain ⟨hok, action, hmem, hid, href⟩ := plannedPayment_run
  obtain ⟨hnot, hlater, hclaims, hregained⟩ := mutedPayment_run
  obtain ⟨dcr, hcreate⟩ := run_of_isOk hok
  have hfail : ∃ e, payNow muteKit Sample.backend = (.error e, (payNow muteKit Sample.backend).2) := by
    rcases hr : payNow muteKit Sample.backend with ⟨e | r, s₂⟩
    · exact ⟨e, rfl⟩
    · rw [hr] at hnot
      cases hnot
  obtain ⟨e, hfail⟩ := hfail
  refine ⟨dcr, hcreate, hclaims, ?_⟩
  have hreference : action.reference = dcr.reference := by
    rw [href]
    exact (createAction_unrecoverable hcreate).1.symm
  rw [← hid] at hlater hregained
  rcases (failed_create_recovers muteKit (Sample.answering "success") Sample.backend Sample.entropy
    Sample.alice "" Sample.payArgs Sample.payer.store plannedPayment.2 (payNow muteKit Sample.backend).2
    dcr e hcreate hfail action hmem hreference 300000 300001 hlater).mp hregained with hnone | hyes
  · obtain ⟨o, ho, hspent, -⟩ := hclaims
    exact absurd (hid ▸ hspent) (hnone o ho)
  · exact hyes.1

/-- A backend that has no key for the input. -/
def lockedBackend : SigningBackend :=
  .localKeys (fun _ _ => .ok Sample.changeScript) fun _ _ _ => .error (.internal "no key")

/-- Signing fails and the call returns an error: the funding is claimed for ever, also after a run of
the task five minutes later. -/
theorem failed_create_strands :
    plannedPayment.1.isOk = true ∧ (payNow Sample.kit lockedBackend).1.isOk = false ∧
      (∀ t ∈ (payNow Sample.kit lockedBackend).2.transactions, t.transactionId = 2 →
        (t.updatedAt : Int) < (300001 : Int) - asI64 (300000 : UInt64).toNat) ∧
      ∃ o ∈ plannedPayment.2.outputs, o.spentBy = some 2 ∧
        ¬ Regained (payNow Sample.kit lockedBackend).2.toTables o.outputId ∧
        ¬ Regained (afterAbandonedRun (payNow Sample.kit lockedBackend).2 300001 300000).toTables
          o.outputId := by
  decide +kernel

end WalletToolbox.Signer
