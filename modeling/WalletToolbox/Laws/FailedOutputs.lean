import WalletToolbox.Laws.Claims
import WalletToolbox.Laws.Verdicts

/-! # The outputs of failed transactions

A transaction fails by an abort, by an outcome that the signer applies or by a verdict of the
monitor.
The first two take its outputs out of use and the third does not; all three release the rows that
the transaction claims, whatever became of the transactions that those rows belong to.
In runs where neither matters, no output of a failed transaction is spendable. -/

namespace WalletToolbox

open WalletToolbox.Lib WalletToolbox.Storage WalletToolbox.Signer WalletToolbox.Monitor

variable {sdk : Sdk} {s s' : Store} {d d' : Tables}

/-- No output of a failed transaction is spendable. -/
def FailedOutputsRetired (d : Tables) : Prop :=
  ∀ o ∈ d.outputs, ∀ t ∈ d.transactions, o.transactionId = t.transactionId → t.status = .failed →
    o.spendable = false

/-! ## The condition -/

/-- The operation fails the transaction with the id. -/
def Op.Fails (sdk : Sdk) (s : Store) : Op → Nat → Prop
  | .abortAction auth reference stamp, id => ∃ user tx ids req,
      Abortable sdk s auth reference stamp user tx ids req ∧ tx.transactionId = id
  | .applyBroadcast services txid results, id => ∃ doubleSpend f,
      signerMove services txid results = .fail doubleSpend ∧ s.firstTx txid = some f ∧
        f.transactionId = id
  | .attemptToPostReq sources services req, id => ∃ v f,
      posting sdk sources services s req = .posted v ∧ cascadeStatus v.1 = some .failed ∧
        s.firstTx req.txid = some f ∧ f.transactionId = id
  | _, _ => False

/-- The operation releases the output: it was claimed by the transaction that fails, or an abort
found it among the inputs of the raw transaction without a claim. -/
def Op.Releases (sdk : Sdk) (s : Store) : Op → Output → Prop
  | .abortAction auth reference stamp, o => ∃ user tx ids req,
      Abortable sdk s auth reference stamp user tx ids req ∧ releasable ids tx.transactionId o = true
  | .applyBroadcast services txid results, o => ∃ doubleSpend f,
      signerMove services txid results = .fail doubleSpend ∧ s.firstTx txid = some f ∧
        o.spentBy = some f.transactionId ∧ (doubleSpend = true → utxoVerified services s o = true)
  | .attemptToPostReq sources services req, o => ∃ v f,
      posting sdk sources services s req = .posted v ∧ cascadeStatus v.1 = some .failed ∧
        s.firstTx req.txid = some f ∧ verdictReleases services v.1 f.transactionId o = true
  | _, _ => False

/-- The operation releases no output of a transaction that failed before, and a verdict of the
monitor finds no output of the transaction it fails in use. -/
structure Op.FailsCleanly (sdk : Sdk) (s : Store) (op : Op) : Prop where
  releasesLive : ∀ o ∈ s.outputs, op.Releases sdk s o → ∀ t ∈ s.transactions,
    o.transactionId = t.transactionId → t.status ≠ .failed
  retired : op.kind = .post → ∀ id, op.Fails sdk s id → ∀ o ∈ s.outputs, o.transactionId = id →
    o.spendable = false

/-! ## One step -/

/-- Rows that keep their use, under transactions that do not newly fail. -/
theorem FailedOutputsRetired.kept (h : FailedOutputsRetired d)
    (ho : ∀ o' ∈ d'.outputs, o'.spendable = true → ∃ o ∈ d.outputs,
      o.transactionId = o'.transactionId ∧ o.spendable = true)
    (ht : ∀ t' ∈ d'.transactions, t'.status = .failed → ∃ t ∈ d.transactions,
      t.transactionId = t'.transactionId ∧ t.status = .failed) : FailedOutputsRetired d' := by
  intro o' ho' t' ht' hid hfailed
  by_contra hspendable
  obtain ⟨o, hmem, hoid, huse⟩ := ho o' ho' (by simpa using hspendable)
  obtain ⟨t, htmem, htid, hstatus⟩ := ht t' ht' hfailed
  rw [h o hmem t htmem (hoid.trans (hid.trans htid.symm)) hstatus] at huse
  cases huse

/-- An operation that fails one transaction: what is spendable after it does not belong to that
transaction, and was spendable before or is released. -/
theorem FailedOutputsRetired.failing {op : Op} (h : FailedOutputsRetired s.toTables)
    (id : Nat) (hclean : op.FailsCleanly sdk s)
    (ho : ∀ o' ∈ s'.outputs, o'.spendable = true → o'.transactionId ≠ id ∧ ∃ o ∈ s.outputs,
      o.transactionId = o'.transactionId ∧ (o.spendable = true ∨ op.Releases sdk s o))
    (ht : ∀ t' ∈ s'.transactions, t'.status = .failed → t'.transactionId = id ∨
      ∃ t ∈ s.transactions, t.transactionId = t'.transactionId ∧ t.status = .failed) :
    FailedOutputsRetired s'.toTables := by
  intro o' ho' t' ht' hid hfailed
  by_contra hspendable
  obtain ⟨hne, o, hmem, hoid, huse⟩ := ho o' ho' (by simpa using hspendable)
  obtain ⟨t, htmem, htid, hstatus⟩ := (ht t' ht' hfailed).resolve_left (hid ▸ hne)
  have hsame : o.transactionId = t.transactionId := hoid.trans (hid.trans htid.symm)
  rcases huse with huse | hrel
  · rw [h o hmem t htmem hsame hstatus] at huse
    cases huse
  · exact hclean.releasesLive o hmem hrel t htmem hsame hstatus

theorem failed_setFirstStatus {txid : String} {status : TransactionStatus} {t' : Transaction}
    (ht' : t' ∈ (d.setFirstStatus txid status).transactions) (hfailed : t'.status = .failed) :
    (status = .failed ∧ ∃ f, d.firstTx txid = some f ∧ t'.transactionId = f.transactionId) ∨
      ∃ t ∈ d.transactions, t.transactionId = t'.transactionId ∧ t.status = .failed := by
  obtain ⟨t, ht, rfl⟩ := mem_setFirstStatus.mp ht'
  split at hfailed
  · rename_i hfirst
    rw [if_pos hfirst]
    cases hf : d.firstTx txid with
    | none =>
      rw [hf] at hfirst
      cases hfirst
    | some f =>
      rw [hf] at hfirst
      exact .inl ⟨hfailed, f, rfl, (beq_iff_eq.mp hfirst).symm⟩
  · rename_i hfirst
    rw [if_neg hfirst]
    exact .inr ⟨t, ht, rfl, hfailed⟩

theorem retired_abort {auth : String} {reference : Bytes} {stamp : String} {user : User}
    {tx : Transaction} {ids : List Nat} {req : Option (ProvenTxReq × Json)}
    (h : FailedOutputsRetired s.toTables) (howned : OwnedOutputs s.toTables)
    (hclean : (Op.abortAction auth reference stamp).FailsCleanly sdk s)
    (found : Abortable sdk s auth reference stamp user tx ids req)
    (hs' : s'.toTables = abortEffect s.toTables user.userId tx.transactionId ids req) :
    FailedOutputsRetired s'.toTables := by
  obtain ⟨htx, huser⟩ := found.mem
  refine h.failing tx.transactionId hclean (fun o' ho' hspendable => ?_) fun t' ht' hfailed => ?_
  · rw [hs', abortEffect_outputs] at ho'
    obtain ⟨o₁, h₁, rfl⟩ := mem_retireOwn.mp ho'
    -- an output that is still spendable was not retired, so it is not one of the action
    cases hretirable : retirable user.userId tx.transactionId o₁ with
    | true =>
      rw [hretirable, if_pos rfl] at hspendable
      cases hspendable
    | false =>
      simp only [hretirable, Bool.false_eq_true, if_false] at hspendable ⊢
      obtain ⟨o, ho, rfl⟩ := mem_releaseWhere.mp h₁
      have hsame : ∀ c : Bool, (if c = true then release s.now o else o).transactionId =
          o.transactionId ∧ (if c = true then release s.now o else o).userId = o.userId := by
        intro c
        cases c <;> exact ⟨rfl, rfl⟩
      refine ⟨fun hid => ?_, o, ho, (hsame _).1.symm, ?_⟩
      · have hown : o.userId = user.userId :=
          (howned o ho tx htx ((hsame _).1.symm.trans hid)).trans huser
        rw [retirable, (hsame _).2, hown, hid, hspendable] at hretirable
        simp at hretirable
      · cases hrel : releasable ids tx.transactionId o with
        | true => exact .inr ⟨user, tx, ids, req, found, hrel⟩
        | false =>
          rw [hrel] at hspendable
          exact .inl hspendable
  · rw [hs'] at ht'
    obtain ⟨t, ht, rfl⟩ := abortEffect_transactions.mp ht'
    split at hfailed
    · rename_i hid
      rw [if_pos hid]
      exact .inl hid
    · rename_i hid
      rw [if_neg hid]
      exact .inr ⟨t, ht, rfl, hfailed⟩

theorem retired_signer {services : Services} {txid : String} {results : List PostBeefResult}
    (h : FailedOutputsRetired s.toTables) (hself : NoOwnClaims s.toTables)
    (hclean : (Op.applyBroadcast services txid results).FailsCleanly sdk s)
    (hs' : s'.toTables = signerEffect services s txid (signerMove services txid results)) :
    FailedOutputsRetired s'.toTables := by
  have hlive : ∀ status (d : Tables), status ≠ .failed → s'.outputs = s.outputs →
      d.transactions = s.transactions →
      s'.transactions = (d.setFirstStatus txid status).transactions →
      FailedOutputsRetired s'.toTables := by
    intro status d hstatus hout hsame htx
    refine h.kept (fun o' ho' hs => ⟨o', hout ▸ ho', rfl, hs⟩) fun t' ht' hfailed => ?_
    rw [htx] at ht'
    rw [← hsame]
    exact (failed_setFirstStatus ht' hfailed).resolve_left fun hf => hstatus hf.1
  cases hmove : signerMove services txid results with
  | nothing =>
    rw [hmove] at hs'
    rw [hs']
    exact h
  | accept orphan =>
    rw [hmove] at hs'
    refine hlive (if orphan then .sending else .unproven) s.toTables ?_ ?_ rfl ?_
    · cases orphan <;> nofun
    · rw [hs']
      exact setFirstStatus_outputs
    · rw [hs']
      rfl
  | retry =>
    rw [hmove] at hs'
    refine hlive .sending (s.toTables.setReqs txid serviceErrorReq) nofun ?_ rfl ?_
    · rw [hs']
      exact setFirstStatus_outputs
    · rw [hs']
      rfl
  | fail doubleSpend =>
    rw [hmove] at hs'
    simp only [signerEffect] at hs'
    cases hf : s.firstTx txid with
    | none =>
      simp only [hf] at hs'
      rw [hs']
      exact h
    | some f =>
      simp only [hf] at hs'
      refine h.failing f.transactionId hclean (fun o' ho' hspendable => ?_)
        fun t' ht' hfailed => ?_
      · rw [hs'] at ho'
        obtain ⟨o, ho, ⟨hclaim, hverified, now, rfl⟩ | ⟨-, ⟨-, -, stamp, rfl⟩ | ⟨hother, rfl⟩⟩⟩ :=
          mem_permanentFailure ho'
        · -- the failed transaction does not claim its own output
          refine ⟨fun hown => hself o ho (hclaim.trans (congrArg some hown.symm)), o, ho, rfl, ?_⟩
          exact .inr ⟨doubleSpend, f, hmove, hf, hclaim, hverified⟩
        · cases hspendable
        · exact ⟨hother, o', ho, rfl, .inl hspendable⟩
      · rw [hs'] at ht'
        rcases failed_setFirstStatus ht' hfailed with ⟨-, f', hf', hid⟩ | hold
        · rw [hf] at hf'
          obtain rfl := Option.some.inj hf'
          exact .inl hid
        · exact .inr hold

theorem retired_post {sources : SourceBeefs} {services : Services} {req : ProvenTxReq}
    (h : FailedOutputsRetired s.toTables) (hself : NoOwnClaims s.toTables)
    (hclean : (Op.attemptToPostReq sources services req).FailsCleanly sdk s)
    (hs' : s'.toTables = postingEffect services s.toTables req
      (posting sdk sources services s req)) :
    FailedOutputsRetired s'.toTables := by
  cases hp : posting sdk sources services s req with
  | skipped =>
    rw [hp] at hs'
    rw [hs']
    exact h
  | missingSource =>
    rw [hp] at hs'
    rw [hs']
    exact h
  | unusable =>
    rw [hp] at hs'
    rw [hs']
    exact h
  | posted v =>
    rw [hp] at hs'
    simp only [postingEffect] at hs'
    cases hc : cascadeStatus v.1 with
    | none =>
      simp only [verdictEffect, hc] at hs'
      rw [hs']
      exact h
    | some status =>
      have htx : ∀ t' ∈ s'.transactions, t'.status = .failed →
          (status = .failed ∧ ∃ f, s.firstTx req.txid = some f ∧ t'.transactionId = f.transactionId) ∨
            ∃ t ∈ s.transactions, t.transactionId = t'.transactionId ∧ t.status = .failed := by
        intro t' ht' hfailed
        rw [hs', verdictEffect_transactions hc] at ht'
        exact failed_setFirstStatus
          (d := ((Stmt.updateProvenTxReq req.provenTxReqId (verdictReq req v)).apply s.toTables).2)
          ht' hfailed
      by_cases hfailed : status = .failed
      · subst hfailed
        cases hf : s.firstTx req.txid with
        | none =>
          have hout : s'.outputs = s.outputs := by
            rw [hs']
            simp only [verdictEffect, hc, hf]
            exact setFirstStatus_outputs
          refine h.kept (fun o' ho' hs => ⟨o', hout ▸ ho', rfl, hs⟩) fun t' ht' hst => ?_
          refine (htx t' ht' hst).resolve_left ?_
          rintro ⟨-, f, hf', -⟩
          exact absurd (hf.symm.trans hf') (by rintro ⟨⟩)
        | some f =>
          simp only [verdictEffect, hc, hf] at hs'
          refine h.failing f.transactionId hclean (fun o' ho' hspendable => ?_)
            fun t' ht' hst => ?_
          · rw [hs'] at ho'
            obtain ⟨o, ho, rfl⟩ := mem_releaseWhere.mp ho'
            rw [setFirstStatus_outputs] at ho
            have hretired := hclean.retired rfl f.transactionId ⟨v, f, hp, hc, hf, rfl⟩ o ho
            split at hspendable
            · rename_i hrel
              rw [if_pos hrel]
              refine ⟨fun hown => ?_, o, ho, rfl, .inr ⟨v, f, hp, hc, hf, hrel⟩⟩
              simp only [verdictReleases, Bool.and_eq_true, beq_iff_eq] at hrel
              exact hself o ho (hrel.1.trans (congrArg some hown.symm))
            · rename_i hrel
              rw [if_neg hrel]
              refine ⟨fun hown => ?_, o, ho, rfl, .inl hspendable⟩
              rw [hretired hown] at hspendable
              cases hspendable
          · rcases htx t' ht' hst with ⟨-, f', hf', hid⟩ | hold
            · rw [hf] at hf'
              obtain rfl := Option.some.inj hf'
              exact .inl hid
            · exact .inr hold
      · have hout : s'.outputs = s.outputs := by
          rw [hs']
          exact verdictEffect_outputs_same hc hfailed
        refine h.kept (fun o' ho' hs => ⟨o', hout ▸ ho', rfl, hs⟩) fun t' ht' hst => ?_
        exact (htx t' ht' hst).resolve_left fun hf => hfailed hf.1

theorem retired_commit {args : StorageProcessActionArgs} {s₁ : Store} {userId : Nat}
    {transaction : Transaction} {txid : String} {rawTx : Bytes} {status : ReqTxStatus}
    (h : FailedOutputsRetired s.toTables) (core : SameCore s s₁)
    (found : Processable s₁ userId args transaction txid rawTx status)
    (batch : Scheduled (s₁.toTables.commitSigned userId transaction txid rawTx status) userId
      (scheduled args txid) s'.toTables) : FailedOutputsRetired s'.toTables := by
  intro o' ho' t' ht' hid hfailed
  rw [batch.outputs] at ho'
  obtain ⟨o, ho, rfl⟩ := mem_commitSigned_outputs.mp ho'
  obtain ⟨t₁, h₁, hsent⟩ := batch.transactions t' ht'
  rcases hsent with rfl | ⟨-, -, stamp, rfl⟩
  · obtain ⟨t, ht, rfl⟩ := mem_commitSigned_transactions.mp h₁
    split at hfailed
    · -- the signed transaction is not a failed one
      rcases reqTxStatus_cases found.next with ⟨-, hst⟩ | ⟨-, hst⟩
      · exact absurd (hst.symm.trans hfailed) nofun
      · exact absurd (hst.symm.trans hfailed) nofun
    · rename_i hother
      rw [if_neg hother] at hid
      have hold : o.transactionId ≠ transaction.transactionId := by
        intro heq
        refine hother (Eq.trans hid.symm ?_)
        split <;> exact heq
      rw [if_neg (by simp [hold])] at hid ⊢
      exact h o (core.outputs ▸ ho) t (core.transactions ▸ ht) hid hfailed
  · cases hfailed

theorem retired_internalized {tracker : ChainTracker} {args : StorageInternalizeActionArgs}
    {userId id : Nat} {c : Internalizing} {s₁ : Store} (hret : FailedOutputsRetired s.toTables)
    (core : SameCore s s₁) (prepared : Prepared sdk tracker s₁ userId args c)
    (h : Internalized sdk c s s' id) : FailedOutputsRetired s'.toTables := by
  have hstatus : c.txStatus ≠ .failed := by
    unfold Internalizing.txStatus
    split <;> nofun
  -- the row of the subject has not failed, whether the call wrote it or not
  have hlive : ∀ t' ∈ s'.transactions, t'.transactionId = id → t'.status ≠ .failed := by
    intro t' ht' hid
    rcases h.transactions t' ht' with hold | ⟨e, he, stamp, rfl⟩ | ⟨-, -, provenTxId, now, rfl, -⟩
    · cases hex : c.existing with
      | none => exact absurd hid (h.fresh hex t' hold)
      | some e =>
        have hfound := verifyOneOrNone_first prepared.existing
        rw [hex, core.transactions] at hfound
        obtain ⟨he, -⟩ := Table.first_some hfound.symm
        obtain rfl : t' = e := Table.eq_of_key_eq hold he (hid.trans (h.target e hex).symm)
        intro hfailed
        have hmerge := prepared.mergeable
        rw [hex] at hmerge
        simp [checkMergeable, hfailed] at hmerge
    · exact hstatus
    · exact hstatus
  intro o' ho' t' ht' hid hfailed
  rcases h.outputs o' ho' with ⟨o, ho, hsame⟩ | htaken
  · rcases h.transactions t' ht' with hold | hafter
    · rw [hsame.spendable]
      exact hret o ho t' hold (hsame.transactionId.symm.trans hid) hfailed
    · rcases hafter with ⟨e, he, stamp, rfl⟩ | ⟨-, -, provenTxId, now, rfl, -⟩
      · exact absurd hfailed hstatus
      · exact absurd hfailed hstatus
  · exact absurd hfailed (hlive t' ht' (hid.symm.trans htaken.transactionId))

/-! ## Runs -/

/-- What the runs keep: the property, with what it needs about claims. -/
structure FailuresSettled (d : Tables) : Prop where
  retired : FailedOutputsRetired d
  owned : OwnedOutputs d
  noOwnClaims : NoOwnClaims d

/-- The operations of the property: everything but proof collection and reviews. -/
def Op.Settles (op : Op) : Prop :=
  op.kind ≠ .prove ∧ op.kind ≠ .unfail

theorem Effect.retired {op : Op} (h : Effect sdk s op s') (hop : op.Settles)
    (hclean : op.FailsCleanly sdk s) (hs : FailuresSettled s.toTables) :
    FailedOutputsRetired s'.toTables := by
  cases h with
  | same h =>
    refine hs.retired.kept (fun o' ho' hu => ⟨o', h.outputs ▸ ho', rfl, hu⟩) fun t' ht' hf => ?_
    exact ⟨t', h.transactions ▸ ht', rfl, hf⟩
  | create _ reports =>
    have h := reports.created
    refine hs.retired.kept (fun o' ho' hu => ?_) fun t' ht' hf => ?_
    · rcases h.outputs o' ho' with hold | ⟨o, ho, -, now, rfl⟩ | hn
      · exact ⟨o', hold, rfl, hu⟩
      · cases hu
      · rw [hn.spendable] at hu
        cases hu
    · rcases h.transactions t' ht' with hold | hn
      · exact ⟨t', hold, rfl, hf⟩
      · rw [hn.status] at hf
        cases hf
  | send _ core batch =>
    refine hs.retired.kept (fun o' ho' hu => ?_) fun t' ht' hf => ?_
    · rw [batch.outputs, core.outputs] at ho'
      exact ⟨o', ho', rfl, hu⟩
    · obtain ⟨t, ht, hsent⟩ := batch.transactions t' ht'
      rcases hsent with rfl | ⟨-, -, stamp, rfl⟩
      · exact ⟨t', core.transactions ▸ ht, rfl, hf⟩
      · cases hf
  | commit _ core found _ batch => exact retired_commit hs.retired core found batch
  | abort found h => exact retired_abort hs.retired hs.owned hclean found h
  | internalize core prepared h => exact retired_internalized hs.retired core prepared h
  | signer h => exact retired_signer hs.retired hs.noOwnClaims hclean h
  | post h => exact retired_post hs.retired hs.noOwnClaims hclean h
  | prove h => exact absurd rfl hop.1
  | unfail h => exact absurd rfl hop.2

/-- In every run whose failures are clean, no output of a failed transaction is spendable. -/
theorem failed_outputs_unspendable
    (h : (wallet sdk).Reaches (fun s op => op.Settles ∧ op.FailsCleanly sdk s) s) :
    ∀ o ∈ s.outputs, ∀ t ∈ s.transactions, o.transactionId = t.transactionId → t.status = .failed →
      o.spendable = false := by
  refine (h.inv (I := fun s => FailuresSettled s.toTables) ?_ fun s op hs _ hmeets => ?_).retired
  · exact ⟨fun o ho => absurd ho (Table.not_mem_empty o), fun o ho => absurd ho (Table.not_mem_empty o),
      fun o ho => absurd ho (Table.not_mem_empty o)⟩
  · have heffect : Effect sdk s op (op.run sdk s) := op.run_effect
    exact ⟨heffect.retired hmeets.1 hmeets.2 hs, hs.owned.step heffect.keepsRows,
      hs.noOwnClaims.step (heffect.outputUse hmeets.1.2)⟩

/-! ## A payment that fails -/

/-- The payer is funded and plans the payment. -/
def planned : List Op :=
  [Sample.fund, Sample.pay]

theorem planned_reaches : (wallet Sample.sdk).Reaches
    (fun s op => op.Settles ∧ op.FailsCleanly Sample.sdk s) (Sample.after planned) := by
  refine System.Reaches.init.after ⟨⟨trivial, ⟨nofun, nofun⟩, ?_⟩, ⟨trivial, ⟨nofun, nofun⟩, ?_⟩, trivial⟩
  all_goals exact ⟨fun _ _ h => h.elim, fun h => by cases h⟩

/-- The payer signed the payment, and the network rejected it when the monitor posted it. -/
def rejectedStore : Store :=
  (wallet Sample.sdk).next
    (Sample.post (Sample.after (planned ++ [Sample.sign false])) "error")
    (Sample.after (planned ++ [Sample.sign false]))

/-- The monitor's verdict that the payment is invalid leaves its outputs spendable. -/
theorem invalid_verdict_keeps_outputs :
    ¬∀ s, (wallet Sample.sdk).Reaches (fun _ op => op.Settles) s →
      ∀ o ∈ s.outputs, ∀ t ∈ s.transactions, o.transactionId = t.transactionId →
        t.status = .failed → o.spendable = false := by
  intro h
  have hsigned : (wallet Sample.sdk).Reaches (fun _ op => op.Settles)
      (Sample.after (planned ++ [Sample.sign false])) := by
    rw [Sample.after_snoc]
    exact .step (planned_reaches.mono fun _ _ h => h.1) trivial ⟨nofun, nofun⟩
  have hbad : ∃ o ∈ rejectedStore.outputs, ∃ t ∈ rejectedStore.transactions,
      o.transactionId = t.transactionId ∧ t.status = .failed ∧ o.spendable = true := by
    decide +kernel
  obtain ⟨o, ho, t, ht, hid, hfailed, hspendable⟩ := hbad
  have hreached := hsigned.step (a := Sample.post (Sample.after (planned ++ [Sample.sign false])) "error")
    ⟨_, Sample.request_mem (by decide +kernel), ReadFrom.refl _⟩ ⟨nofun, nofun⟩
  rw [h rejectedStore hreached o ho t ht hid hfailed] at hspendable
  cases hspendable

/-- An abort of the planned payment is clean. -/
theorem failed_outputs_unspendable_aborted :
    (∃ t ∈ (Sample.after (planned ++ [Sample.abort])).transactions, t.status = .failed) ∧
      ∀ o ∈ (Sample.after (planned ++ [Sample.abort])).outputs,
        ∀ t ∈ (Sample.after (planned ++ [Sample.abort])).transactions,
          o.transactionId = t.transactionId → t.status = .failed → o.spendable = false := by
  have hlive : ∀ t ∈ (Sample.after planned).transactions, t.status ≠ .failed := by decide +kernel
  have hreached : (wallet Sample.sdk).Reaches
      (fun s op => op.Settles ∧ op.FailsCleanly Sample.sdk s)
      (Sample.after (planned ++ [Sample.abort])) := by
    rw [Sample.after_snoc]
    exact .step planned_reaches trivial
      ⟨⟨nofun, nofun⟩, fun _ _ _ t ht _ => hlive t ht, fun h => by cases h⟩
  exact ⟨by decide +kernel, failed_outputs_unspendable hreached⟩

end WalletToolbox
